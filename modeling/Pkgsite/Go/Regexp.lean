import Mathlib.Logic.Function.Basic
import Mathlib.Data.List.Basic

/-!
# `regexp`: leftmost-first matching and `replaceAll`

Go's `regexp` reports the match a backtracking matcher finds first: the leftmost start, and at
that start the choices in priority order, so a greedy `x+` tries its longest run first. The
fragment here holds the operators `regexp/syntax` builds for the package's pattern:
begin-of-text, literal strings, greedy `+` of a class, numbered capture groups and
concatenation. Texts are sequences of runes and positions count runes.

* `Regexp.matchAt`: backtracking in continuation-passing style; `Regexp.search` (`doExecute`);
* `findStringSubmatch`, `replaceAllLoop`, `replaceAll` (the loop of `regexp.go`);
* `Derives`: what a pattern means, the texts it matches from a position and the groups it
  records; **`matchAt_sound`** and **`matchAt_complete`** relate the matcher to it;
* **`search_isLeftmostMatch`**, **`search_eq_none`**: `search` reports a match at the leftmost
  position that has one, and nothing only when no position has one;
* `replaceAllLoop_fuel`: `len(src) + 1` rounds finish the loop;
* **`replaceAll_beginText`**: a pattern that starts with `^` is replaced at most once, at
  offset `0`.
-/

namespace Pkgsite

/-- The character classes of the fragment. -/
inductive CharClass where
  /-- `\d`, the Perl class `[0-9]`. -/
  | digit
  deriving DecidableEq, Repr

/-- Membership in a class. -/
def CharClass.matches : CharClass → Char → Bool
  | .digit, c => c.isDigit

/-- The parsed patterns of the fragment, as the operators of `regexp/syntax`. -/
inductive Regexp where
  /-- `OpBeginText`: `^` outside multi-line mode. -/
  | beginText
  /-- `OpLiteral`. -/
  | literal (s : List Char)
  /-- `OpPlus` of a character class, greedy. -/
  | plus (cls : CharClass)
  /-- `OpCapture` of group `cap`. -/
  | capture (cap : Nat) (r : Regexp)
  /-- `OpConcat`. -/
  | concat (r₁ r₂ : Regexp)
  deriving DecidableEq, Repr

namespace Regexp

/-- The span of each capture group so far. -/
abbrev Caps := Nat → Option (Nat × Nat)

/-- No group has matched yet. -/
def noCaps : Caps := fun _ => none

/-- A match: its span and the spans of its groups. -/
structure Match where
  start : Nat
  stop : Nat
  caps : Caps

variable {α : Type}

/-- A greedy `cls*` at position `i`, where the rest of the text is `s`: one more character
first, then stopping here. -/
def starClass (cls : CharClass) (k : Nat → List Char → Option α) : Nat → List Char → Option α
  | i, [] => k i []
  | i, c :: s => (if cls.matches c then starClass cls k (i + 1) s else none) <|> k i (c :: s)

/-- Backtracking in continuation-passing style: `r.matchAt i s caps k` matches `r` at position
`i`, where the rest of the text is `s`, and hands the position after the match, the rest of the
text and the captures to `k`; the first success in priority order wins. -/
def matchAt : Regexp → Nat → List Char → Caps → (Nat → List Char → Caps → Option α) →
    Option α
  | .beginText, i, s, caps, k => if i = 0 then k i s caps else none
  | .literal l, i, s, caps, k =>
    if l.isPrefixOf s then k (i + l.length) (s.drop l.length) caps else none
  | .plus _, _, [], _, _ => none
  | .plus cls, i, c :: s, caps, k =>
    if cls.matches c then starClass cls (fun j t => k j t caps) (i + 1) s else none
  | .capture n r, i, s, caps, k =>
    r.matchAt i s caps fun j t caps' => k j t (Function.update caps' n (some (i, j)))
  | .concat r₁ r₂, i, s, caps, k => r₁.matchAt i s caps fun j t caps' => r₂.matchAt j t caps' k

/-- The match of `r` that starts at position `i`, where the rest of the text is `s`. -/
def matchHere (r : Regexp) (i : Nat) (s : List Char) : Option Match :=
  r.matchAt i s noCaps fun j _ caps => some ⟨i, j, caps⟩

/-- The leftmost match from position `i` on, where the rest of the text is `s`. -/
def searchFrom (r : Regexp) : Nat → List Char → Option Match
  | i, [] => r.matchHere i []
  | i, c :: s => r.matchHere i (c :: s) <|> r.searchFrom (i + 1) s

/-- `doExecute` on the text `src` from position `pos`. -/
def search (r : Regexp) (src : List Char) (pos : Nat) : Option Match :=
  r.searchFrom pos (src.drop pos)

/-- The number of capture groups, `NumSubexp`. -/
def numSubexp : Regexp → Nat
  | .capture _ r => r.numSubexp + 1
  | .concat r₁ r₂ => r₁.numSubexp + r₂.numSubexp
  | _ => 0

/-- The text between two positions, the slice `s[a:b]`. -/
def sliceText (s : List Char) (a b : Nat) : List Char := (s.take b).drop a

/-- `FindStringSubmatch`: `nil` without a match; else the text of the match and of each group,
`""` for a group that took no part. -/
def findStringSubmatch (r : Regexp) (s : String) : List String :=
  match r.search s.data 0 with
  | none => []
  | some m => (List.range (r.numSubexp + 1)).map fun g =>
      match if g = 0 then some (m.start, m.stop) else m.caps g with
      | some (a, b) => ⟨sliceText s.data a b⟩
      | none => ""

/-- The loop of `replaceAll` from `searchPos`, with the output `buf` so far and the end
`lastMatchEnd` of the last match; `repl` gives the text that replaces a match. The loop runs
while `searchPos ≤ len(src)` and `searchPos` grows in every round, so `len(src) + 1` rounds of
`fuel` finish it (`replaceAllLoop_fuel`). -/
def replaceAllLoop (r : Regexp) (src : List Char) (repl : Match → List Char) :
    Nat → Nat → Nat → List Char → List Char
  | 0, _, lastMatchEnd, buf => buf ++ src.drop lastMatchEnd
  | fuel + 1, searchPos, lastMatchEnd, buf =>
    if searchPos ≤ src.length then
      match r.search src searchPos with
      | none => buf ++ src.drop lastMatchEnd
      | some a =>
        let buf := buf ++ sliceText src lastMatchEnd a.start
        let buf := if lastMatchEnd < a.stop ∨ a.start = 0 then buf ++ repl a else buf
        let width := if searchPos < src.length then 1 else 0
        let searchPos :=
          if a.stop < searchPos + width then searchPos + width
          else if a.stop < searchPos + 1 then searchPos + 1
          else a.stop
        replaceAllLoop r src repl fuel searchPos a.stop buf
    else buf ++ src.drop lastMatchEnd

/-- `replaceAll(nil, src, 2, repl)`. -/
def replaceAll (r : Regexp) (src : List Char) (repl : Match → List Char) : List Char :=
  replaceAllLoop r src repl (src.length + 1) 0 0 []

/-! ## What a pattern matches -/

/-- **The meaning of a pattern**: `Derives r i w caps caps'` says that `r` matches the text `w`
from position `i` on, turning the spans `caps` of the groups into `caps'`. -/
inductive Derives : Regexp → Nat → List Char → Caps → Caps → Prop
  | beginText (caps : Caps) : Derives .beginText 0 [] caps caps
  | literal (l : List Char) (i : Nat) (caps : Caps) : Derives (.literal l) i l caps caps
  | plus {cls : CharClass} {w : List Char} (i : Nat) (caps : Caps) (hne : w ≠ [])
      (hw : ∀ c ∈ w, cls.matches c) : Derives (.plus cls) i w caps caps
  | capture {n : Nat} {r : Regexp} {i : Nat} {w : List Char} {caps caps' : Caps} :
      Derives r i w caps caps' →
        Derives (.capture n r) i w caps (Function.update caps' n (some (i, i + w.length)))
  | concat {r₁ r₂ : Regexp} {i : Nat} {w₁ w₂ : List Char} {caps caps₁ caps₂ : Caps} :
      Derives r₁ i w₁ caps caps₁ → Derives r₂ (i + w₁.length) w₂ caps₁ caps₂ →
        Derives (.concat r₁ r₂) i (w₁ ++ w₂) caps caps₂

theorem orElse_eq_some {a b : Option α} {x : α} (h : (a <|> b) = some x) :
    a = some x ∨ (a = none ∧ b = some x) := by
  cases a <;> simp_all

theorem isSome_orElse (a b : Option α) : (a <|> b).isSome = (a.isSome || b.isSome) := by
  cases a <;> rfl

theorem starClass_sound {cls : CharClass} {k : Nat → List Char → Option α} {x : α} :
    ∀ (i : Nat) (s : List Char), starClass cls k i s = some x →
      ∃ w t, s = w ++ t ∧ (∀ c ∈ w, cls.matches c) ∧ k (i + w.length) t = some x
  | i, [], h => ⟨[], [], rfl, by simp, by simpa [starClass] using h⟩
  | i, c :: s, h => by
    rcases orElse_eq_some h with h | ⟨-, h⟩
    · split at h
      · rename_i hc
        obtain ⟨w, t, rfl, hw, hk⟩ := starClass_sound (i + 1) s h
        refine ⟨c :: w, t, rfl, List.forall_mem_cons.mpr ⟨hc, hw⟩, ?_⟩
        rwa [List.length_cons, Nat.add_comm w.length, ← Nat.add_assoc]
      · cases h
    · exact ⟨[], c :: s, rfl, by simp, h⟩

theorem starClass_complete {cls : CharClass} {k : Nat → List Char → Option α} (t : List Char) :
    ∀ (i : Nat) (w : List Char), (∀ c ∈ w, cls.matches c) → (k (i + w.length) t).isSome →
      (starClass cls k i (w ++ t)).isSome
  | i, [], _, hk => by
    cases t with
    | nil => exact hk
    | cons c t => rw [List.nil_append, starClass, isSome_orElse, show (k i (c :: t)).isSome from hk,
      Bool.or_true]
  | i, c :: w, hw, hk => by
    have ih := starClass_complete t (i + 1) w (fun x hx => hw x (.tail c hx))
      (by rwa [Nat.add_assoc, Nat.add_comm 1])
    rw [List.cons_append, starClass, isSome_orElse, if_pos (hw c (.head w)), ih, Bool.true_or]

/-- **The matcher is sound**: a continuation is only handed the end of a text the pattern
derives, with the groups that derivation records. -/
theorem matchAt_sound {x : α} :
    ∀ (r : Regexp) (i : Nat) (s : List Char) (caps : Caps) (k : Nat → List Char → Caps → Option α),
      r.matchAt i s caps k = some x →
        ∃ w t caps', s = w ++ t ∧ Derives r i w caps caps' ∧ k (i + w.length) t caps' = some x
  | .beginText, i, s, caps, k, h => by
    simp only [Regexp.matchAt] at h
    split at h
    · subst i
      exact ⟨[], s, caps, rfl, .beginText caps, h⟩
    · cases h
  | .literal l, i, s, caps, k, h => by
    simp only [Regexp.matchAt] at h
    split at h
    · rename_i hp
      obtain ⟨t, rfl⟩ := List.isPrefixOf_iff_prefix.mp hp
      exact ⟨l, t, caps, rfl, .literal l i caps, by simpa using h⟩
    · cases h
  | .plus _, _, [], _, _, h => by cases h
  | .plus cls, i, c :: s, caps, k, h => by
    simp only [Regexp.matchAt] at h
    split at h
    · rename_i hc
      obtain ⟨w, t, rfl, hw, hk⟩ := starClass_sound (i + 1) s h
      refine ⟨c :: w, t, caps, rfl, .plus i caps (List.cons_ne_nil c w)
        (List.forall_mem_cons.mpr ⟨hc, hw⟩), ?_⟩
      rwa [List.length_cons, Nat.add_comm w.length, ← Nat.add_assoc]
    · cases h
  | .capture n r, i, s, caps, k, h => by
    obtain ⟨w, t, caps', rfl, hd, hk⟩ := matchAt_sound r i s caps _ h
    exact ⟨w, t, _, rfl, .capture hd, hk⟩
  | .concat r₁ r₂, i, s, caps, k, h => by
    obtain ⟨w₁, t₁, caps₁, rfl, hd₁, h₁⟩ := matchAt_sound r₁ i s caps _ h
    obtain ⟨w₂, t, caps₂, rfl, hd₂, hk⟩ := matchAt_sound r₂ _ t₁ caps₁ k h₁
    refine ⟨w₁ ++ w₂, t, caps₂, (List.append_assoc w₁ w₂ t).symm, .concat hd₁ hd₂, ?_⟩
    rwa [List.length_append, ← Nat.add_assoc]

/-- **The matcher is complete**: it succeeds whenever the pattern derives a prefix of the text
on which the continuation succeeds. -/
theorem matchAt_complete {r : Regexp} {i : Nat} {w : List Char} {caps caps' : Caps}
    (hd : Derives r i w caps caps') :
    ∀ (t : List Char) (k : Nat → List Char → Caps → Option α), (k (i + w.length) t caps').isSome →
      (r.matchAt i (w ++ t) caps k).isSome := by
  induction hd with
  | beginText caps => exact fun t k hk => hk
  | literal l i caps =>
    intro t k hk
    simpa [Regexp.matchAt, List.isPrefixOf_iff_prefix.mpr (List.prefix_append l t)] using hk
  | plus i caps hne hw =>
    rename_i cls w
    obtain ⟨c, w, rfl⟩ := List.exists_cons_of_ne_nil hne
    intro t k hk
    simp only [List.cons_append, Regexp.matchAt, hw c (.head w), if_true]
    exact starClass_complete t (i + 1) w (fun x hx => hw x (.tail c hx))
      (by rwa [Nat.add_assoc, Nat.add_comm 1, ← List.length_cons c w])
  | capture _ ih => exact fun t k hk => ih t _ hk
  | concat _ _ ih₁ ih₂ =>
    intro t k hk
    rw [List.append_assoc]
    exact ih₁ _ _ (ih₂ t k (by rwa [Nat.add_assoc, ← List.length_append]))

/-! ## Matches at one position and leftmost matches -/

section Search

variable {r : Regexp} {m : Match}

/-- **A match reports a derivation**: it starts where it was asked to, and the pattern derives
its text, a prefix of the rest, with the groups it reports. -/
theorem matchHere_sound {i : Nat} {s : List Char} (h : r.matchHere i s = some m) :
    m.start = i ∧ ∃ w, w <+: s ∧ m.stop = i + w.length ∧ Derives r i w noCaps m.caps := by
  obtain ⟨w, t, caps, rfl, hd, hk⟩ := matchAt_sound r i s noCaps _ h
  cases hk
  exact ⟨rfl, w, List.prefix_append w t, rfl, hd⟩

/-- **A derivation of a prefix gives a match.** -/
theorem matchHere_complete {i : Nat} {w s : List Char} {caps : Caps}
    (hd : Derives r i w noCaps caps) (hw : w <+: s) : (r.matchHere i s).isSome := by
  obtain ⟨t, rfl⟩ := hw
  exact matchAt_complete hd t _ rfl

theorem matchHere_spec {i : Nat} {s : List Char} (h : r.matchHere i s = some m) :
    m.start = i ∧ i ≤ m.stop ∧ m.stop ≤ i + s.length := by
  obtain ⟨hstart, w, hw, hstop, -⟩ := matchHere_sound h
  have := hw.length_le
  exact ⟨hstart, by omega, by omega⟩

theorem searchFrom_eq_some :
    ∀ (i : Nat) (s : List Char), r.searchFrom i s = some m →
      ∃ p, i ≤ p ∧ p ≤ i + s.length ∧ r.matchHere p (s.drop (p - i)) = some m ∧
        ∀ q, i ≤ q → q < p → r.matchHere q (s.drop (q - i)) = none
  | i, [], h => ⟨i, le_rfl, by simp, by simpa using h, fun q h₁ h₂ => absurd h₂ (by omega)⟩
  | i, c :: s, h => by
    rcases orElse_eq_some h with h | ⟨hnone, h⟩
    · exact ⟨i, le_rfl, by simp, by simpa using h, fun q h₁ h₂ => absurd h₂ (by omega)⟩
    · obtain ⟨p, hip, hps, hp, hbefore⟩ := searchFrom_eq_some (i + 1) s h
      refine ⟨p, by omega, by simp; omega, ?_, fun q hiq hqp => ?_⟩
      · rwa [show p - i = (p - (i + 1)) + 1 by omega, List.drop_succ_cons]
      · rcases Nat.eq_or_lt_of_le hiq with rfl | hlt
        · simpa using hnone
        · rw [show q - i = (q - (i + 1)) + 1 by omega, List.drop_succ_cons]
          exact hbefore q hlt hqp

theorem searchFrom_eq_none :
    ∀ (i : Nat) (s : List Char), r.searchFrom i s = none →
      ∀ q, i ≤ q → q ≤ i + s.length → r.matchHere q (s.drop (q - i)) = none
  | i, [], h, q, h₁, h₂ => by
    obtain rfl : q = i := by simp at h₂; omega
    simpa using h
  | i, c :: s, h, q, h₁, h₂ => by
    simp only [Regexp.searchFrom, Option.orElse_eq_none] at h
    rcases Nat.eq_or_lt_of_le h₁ with rfl | hlt
    · simpa using h.1
    · rw [show q - i = (q - (i + 1)) + 1 by omega, List.drop_succ_cons]
      exact searchFrom_eq_none (i + 1) s h.2 q hlt (by simp at h₂; omega)

theorem searchFrom_spec (i : Nat) (s : List Char) (h : r.searchFrom i s = some m) :
    i ≤ m.start ∧ m.start ≤ m.stop ∧ m.stop ≤ i + s.length := by
  obtain ⟨p, hip, hps, hp, -⟩ := searchFrom_eq_some i s h
  obtain ⟨rfl, h₁, h₂⟩ := matchHere_spec hp
  simp only [List.length_drop] at h₂
  omega

theorem search_spec {src : List Char} {pos : Nat} (hpos : pos ≤ src.length)
    (h : r.search src pos = some m) : pos ≤ m.start ∧ m.start ≤ m.stop ∧ m.stop ≤ src.length := by
  obtain ⟨h₁, h₂, h₃⟩ := searchFrom_spec pos _ h
  simp only [List.length_drop] at h₃
  omega

/-- What a leftmost-first search of `r` in `src` from `pos` may report: a derivation at the
leftmost position from `pos` on that has one. -/
structure IsLeftmostMatch (r : Regexp) (src : List Char) (pos : Nat) (m : Match) : Prop where
  le_start : pos ≤ m.start
  derives : ∃ w, w <+: src.drop m.start ∧ m.stop = m.start + w.length ∧
    Derives r m.start w noCaps m.caps
  none_before : ∀ q w caps, pos ≤ q → q < m.start → w <+: src.drop q →
    ¬ Derives r q w noCaps caps

/-- **`search` refines leftmost matching**: what it reports is a leftmost match. -/
theorem search_isLeftmostMatch {src : List Char} {pos : Nat} (h : r.search src pos = some m) :
    IsLeftmostMatch r src pos m := by
  obtain ⟨p, hp₁, -, hp, hbefore⟩ := searchFrom_eq_some pos _ h
  obtain ⟨rfl, w, hw, hstop, hd⟩ := matchHere_sound hp
  rw [List.drop_drop, Nat.add_sub_cancel' hp₁] at hw
  refine ⟨hp₁, ⟨w, hw, hstop, hd⟩, fun q w' caps hq₁ hq₂ hw' hd' => ?_⟩
  have hnone := hbefore q hq₁ hq₂
  rw [List.drop_drop, Nat.add_sub_cancel' hq₁] at hnone
  simpa [hnone] using matchHere_complete hd' hw'

/-- **`search` reports nothing only when nothing matches**: no position from `pos` to the end of
`src` starts a derivation. -/
theorem search_eq_none {src : List Char} {pos : Nat} (h : r.search src pos = none) :
    ∀ q w caps, pos ≤ q → q ≤ src.length → w <+: src.drop q → ¬ Derives r q w noCaps caps := by
  intro q w caps hq₁ hq₂ hw hd
  have hnone := searchFrom_eq_none pos _ h q hq₁ (by simp; omega)
  rw [List.drop_drop, Nat.add_sub_cancel' hq₁] at hnone
  simpa [hnone] using matchHere_complete hd hw

end Search

/-! ## The `replaceAll` loop -/

section Loop

variable {r : Regexp} {src : List Char} {repl : Match → List Char}

theorem replaceAllLoop_succ (fuel : Nat) :
    ∀ (searchPos lastMatchEnd : Nat) (buf : List Char), src.length < searchPos + fuel →
      replaceAllLoop r src repl (fuel + 1) searchPos lastMatchEnd buf =
        replaceAllLoop r src repl fuel searchPos lastMatchEnd buf := by
  induction fuel with
  | zero =>
    intro searchPos lastMatchEnd buf h
    simp [replaceAllLoop, show ¬ searchPos ≤ src.length by omega]
  | succ fuel ih =>
    intro searchPos lastMatchEnd buf h
    rw [replaceAllLoop, replaceAllLoop]
    split
    · rename_i hle
      split
      · rfl
      · rename_i a ha
        have := search_spec hle ha
        apply ih
        split_ifs <;> omega
    · rfl

/-- **The loop ends within `len(src) + 1` rounds**: more fuel gives the same text. -/
theorem replaceAllLoop_fuel (extra : Nat) :
    replaceAllLoop r src repl (src.length + 1 + extra) 0 0 [] = replaceAll r src repl := by
  induction extra with
  | zero => rfl
  | succ extra ih => rw [← Nat.add_assoc, replaceAllLoop_succ _ _ _ _ (by omega), ih]

end Loop

/-! ## Patterns anchored at the start of the text -/

section BeginText

variable {r : Regexp}

theorem searchFrom_beginText_of_pos :
    ∀ (i : Nat) (s : List Char), 0 < i → (concat .beginText r).searchFrom i s = none
  | i, [], h => by simp [Regexp.searchFrom, Regexp.matchHere, Regexp.matchAt, h.ne']
  | i, c :: s, h => by
    simp [Regexp.searchFrom, Regexp.matchHere, Regexp.matchAt, h.ne',
      searchFrom_beginText_of_pos (i + 1) s (by omega)]

theorem search_beginText_zero (src : List Char) :
    (concat .beginText r).search src 0 = (concat .beginText r).matchHere 0 src := by
  cases src with
  | nil => rfl
  | cons c s =>
    simp [Regexp.search, Regexp.searchFrom, searchFrom_beginText_of_pos 1 s Nat.one_pos]

theorem replaceAllLoop_beginText_of_pos {repl : Match → List Char} {src : List Char}
    (fuel searchPos lastMatchEnd : Nat) (buf : List Char) (h : 0 < searchPos) :
    replaceAllLoop (.concat .beginText r) src repl fuel searchPos lastMatchEnd buf =
      buf ++ src.drop lastMatchEnd := by
  cases fuel with
  | zero => rfl
  | succ fuel =>
    simp [replaceAllLoop, Regexp.search, searchFrom_beginText_of_pos searchPos _ h]

/-- **A pattern that starts with `^` is replaced at most once, at offset `0`.** -/
theorem replaceAll_beginText (src : List Char) (repl : Match → List Char) :
    replaceAll (.concat .beginText r) src repl =
      match (concat .beginText r).matchHere 0 src with
      | none => src
      | some m => repl m ++ src.drop m.stop := by
  rw [replaceAll, replaceAllLoop, if_pos (Nat.zero_le _), search_beginText_zero]
  split
  · rename_i hm
    simp [hm]
  · rename_i m hm
    obtain ⟨hstart, -, -⟩ := matchHere_spec hm
    simp only [hm, hstart, sliceText, List.take_zero, List.drop_nil, List.nil_append, or_true,
      if_true]
    exact replaceAllLoop_beginText_of_pos _ _ _ _ (by split_ifs <;> omega)

end BeginText

end Regexp

end Pkgsite
