import Pkgsite.Go.Regexp
import Pkgsite.Go.Strconv

/-!
# The sentinel pattern of `dochtml`

`overloadFuncIndexPattern` is `^overload_func_index:(\d+)\n`. It matches a doc exactly when the
doc starts with the line `overload_func_index:<ds>\n` for a nonempty run `ds` of ASCII digits,
and it captures that run: `\n` is no digit, so the greedy `\d+` can stop nowhere else.

* `sentinelPrefix`, `overloadFuncIndexPattern`, `IsSentinel`, `sentinelMatch`;
* `IsSentinel.unique`: the digit run and the rest of a sentinel doc are determined by the doc;
* **`derives_overloadFuncIndexPattern`**: the texts the pattern derives are the sentinel lines;
* **`matchHere_of_isSentinel`**, **`isSentinel_of_matchHere`**: the matcher, being sound and
  complete, matches exactly the sentinel docs;
* `findStringSubmatch_of_isSentinel`, `replaceAll_of_isSentinel` and their `_of_not_sentinel`
  counterparts: what `FindStringSubmatch` and `ReplaceAllString(doc, "")` return.
-/

namespace Pkgsite.Dochtml

open Regexp Strconv

/-- The text of the sentinel line before its digits. -/
def sentinelPrefix : List Char := "overload_func_index:".data

/-- `overloadFuncIndexPattern`: `^overload_func_index:(\d+)\n`. -/
def overloadFuncIndexPattern : Regexp :=
  .concat .beginText
    (.concat (.literal sentinelPrefix) (.concat (.capture 1 (.plus .digit)) (.literal ['\n'])))

/-- `doc` starts with the sentinel line of the digit run `ds`, and `rest` follows that line. -/
structure IsSentinel (doc ds rest : List Char) : Prop where
  ne_nil : ds ≠ []
  digits : ∀ c ∈ ds, c.isDigit
  eq : doc = sentinelPrefix ++ ds ++ '\n' :: rest

/-- The match of the pattern on a doc whose sentinel line has the digit run `ds`. -/
def sentinelMatch (ds : List Char) : Match :=
  ⟨0, sentinelPrefix.length + ds.length + 1,
    Function.update noCaps 1 (some (sentinelPrefix.length, sentinelPrefix.length + ds.length))⟩

theorem newline_not_isDigit : '\n'.isDigit = false := rfl

theorem takeWhile_isDigit_sentinel {ds : List Char} (h : ∀ c ∈ ds, c.isDigit) (rest : List Char) :
    (ds ++ '\n' :: rest).takeWhile Char.isDigit = ds := by
  simp [List.takeWhile_append_of_pos h, newline_not_isDigit]

theorem IsSentinel.unique {doc ds rest ds' rest' : List Char} (h : IsSentinel doc ds rest)
    (h' : IsSentinel doc ds' rest') : ds = ds' ∧ rest = rest' := by
  have heq : ds ++ '\n' :: rest = ds' ++ '\n' :: rest' := by
    simpa only [List.append_assoc, List.append_cancel_left_eq] using h.eq.symm.trans h'.eq
  have hds : ds = ds' := by
    rw [← takeWhile_isDigit_sentinel h.digits rest, heq, takeWhile_isDigit_sentinel h'.digits]
  subst hds
  simpa using heq

/-! ## What the pattern matches -/

/-- **The texts the pattern derives**: from position `0` only, the sentinel prefix, a nonempty
run of digits and a newline, with group `1` on the digits. -/
theorem derives_overloadFuncIndexPattern {i : Nat} {w : List Char} {caps : Caps} :
    Derives overloadFuncIndexPattern i w noCaps caps ↔ i = 0 ∧ ∃ ds, ds ≠ [] ∧
      (∀ c ∈ ds, c.isDigit) ∧ w = sentinelPrefix ++ ds ++ ['\n'] ∧ caps = (sentinelMatch ds).caps := by
  constructor
  · intro h
    cases h with
    | concat hb h =>
      cases hb
      cases h with
      | concat hl h =>
        cases hl
        cases h with
        | concat hc hn =>
          cases hn
          cases hc with
          | capture hp =>
            cases hp with
            | plus _ _ hne hds => exact ⟨rfl, _, hne, hds, by simp, by simp [sentinelMatch]⟩
  · rintro ⟨rfl, ds, hne, hds, rfl, rfl⟩
    have h : Derives overloadFuncIndexPattern 0 ([] ++ (sentinelPrefix ++ (ds ++ ['\n']))) noCaps
        (Function.update noCaps 1 (some (0 + [].length + sentinelPrefix.length,
          0 + [].length + sentinelPrefix.length + ds.length))) :=
      .concat (.beginText noCaps) (.concat (.literal sentinelPrefix _ noCaps)
        (.concat (.capture (.plus _ noCaps hne hds)) (.literal ['\n'] _ _)))
    simpa [sentinelMatch] using h

/-- **Only a sentinel doc matches the pattern**, and the match is the sentinel line. -/
theorem isSentinel_of_matchHere {doc : List Char} {m : Match}
    (h : overloadFuncIndexPattern.matchHere 0 doc = some m) :
    ∃ ds rest, IsSentinel doc ds rest ∧ m = sentinelMatch ds := by
  obtain ⟨hstart, w, ⟨rest, rfl⟩, hstop, hd⟩ := matchHere_sound h
  obtain ⟨-, ds, hne, hds, rfl, hcaps⟩ := derives_overloadFuncIndexPattern.mp hd
  refine ⟨ds, rest, ⟨hne, hds, by simp⟩, ?_⟩
  cases m
  simp only at hstart hstop hcaps
  simp [sentinelMatch, hstart, hstop, hcaps, Nat.add_assoc]

/-- **The pattern matches a sentinel doc**, with the span of the line, and the digit run as
group `1`. -/
theorem matchHere_of_isSentinel {doc ds rest : List Char} (h : IsSentinel doc ds rest) :
    overloadFuncIndexPattern.matchHere 0 doc = some (sentinelMatch ds) := by
  have hd := derives_overloadFuncIndexPattern.mpr ⟨rfl, ds, h.ne_nil, h.digits, rfl, rfl⟩
  obtain ⟨m, hm⟩ := Option.isSome_iff_exists.mp (matchHere_complete hd
    (⟨rest, by simp [h.eq]⟩ : _ <+: doc))
  obtain ⟨ds', rest', h', rfl⟩ := isSentinel_of_matchHere hm
  rw [hm, (h.unique h').1]

theorem search_overloadFuncIndexPattern (doc : List Char) :
    overloadFuncIndexPattern.search doc 0 = overloadFuncIndexPattern.matchHere 0 doc :=
  search_beginText_zero doc

theorem matchHere_eq_none {doc : List Char} (h : ∀ ds rest, ¬ IsSentinel doc ds rest) :
    overloadFuncIndexPattern.matchHere 0 doc = none := by
  cases hm : overloadFuncIndexPattern.matchHere 0 doc with
  | none => rfl
  | some m =>
    obtain ⟨ds, rest, hs, -⟩ := isSentinel_of_matchHere hm
    exact absurd hs (h ds rest)

theorem sliceText_sentinel (ds rest : List Char) :
    sliceText (sentinelPrefix ++ ds ++ '\n' :: rest) sentinelPrefix.length
      (sentinelPrefix.length + ds.length) = ds := by
  rw [sliceText, List.take_left' (by simp), List.drop_left]

theorem findStringSubmatch_of_isSentinel {doc : String} {ds rest : List Char}
    (h : IsSentinel doc.data ds rest) :
    findStringSubmatch overloadFuncIndexPattern doc =
      [⟨sliceText doc.data 0 (sentinelPrefix.length + ds.length + 1)⟩, ⟨ds⟩] := by
  rw [findStringSubmatch, search_overloadFuncIndexPattern, matchHere_of_isSentinel h]
  simp only [sentinelMatch, overloadFuncIndexPattern, numSubexp]
  rw [show List.range (0 + (0 + (0 + 1) + 0) + 1) = [0, 1] from rfl]
  simp only [List.map_cons, List.map_nil, if_true, Nat.one_ne_zero, if_false,
    Function.update_same]
  rw [h.eq, sliceText_sentinel]

theorem findStringSubmatch_of_not_sentinel {doc : String}
    (h : ∀ ds rest, ¬ IsSentinel doc.data ds rest) :
    findStringSubmatch overloadFuncIndexPattern doc = [] := by
  rw [findStringSubmatch, search_overloadFuncIndexPattern, matchHere_eq_none h]

theorem replaceAll_of_isSentinel {doc ds rest : List Char} (h : IsSentinel doc ds rest) :
    replaceAll overloadFuncIndexPattern doc (fun _ => []) = rest := by
  rw [overloadFuncIndexPattern, replaceAll_beginText, ← overloadFuncIndexPattern,
    matchHere_of_isSentinel h]
  dsimp only
  rw [List.nil_append, h.eq,
    show sentinelPrefix ++ ds ++ '\n' :: rest = (sentinelPrefix ++ ds ++ ['\n']) ++ rest by simp,
    List.drop_left' (by simp [sentinelMatch, Nat.add_assoc])]

theorem replaceAll_of_not_sentinel {doc : List Char} (h : ∀ ds rest, ¬ IsSentinel doc ds rest) :
    replaceAll overloadFuncIndexPattern doc (fun _ => []) = doc := by
  rw [overloadFuncIndexPattern, replaceAll_beginText, ← overloadFuncIndexPattern,
    matchHere_eq_none h]

end Pkgsite.Dochtml
