import Pkgsite.Go.Strconv

/-!
# `semver.IsValid`

`golang.org/x/mod/semver` accepts `v` and a major number, optionally followed by `.minor`, and
after `.patch` an optional `-prerelease` and an optional `+build`, each a dot-separated list of
identifiers. Numbers have no leading zero, nor has a numeric prerelease identifier; `vMAJOR`
and `vMAJOR.MINOR` are shorthands. The package reads byte by byte and compares only with ASCII
characters, so on the runes of a Lean string it decides the same.

* `parseInt`, `isIdentChar`, `isBadNum`, `identsLoop`, `parsePrerelease`, `parseBuild`,
  `parseTail`, `parse`, `isValid`: the parser;
* `IsNum`, `DotSeparated`, `IsPreIdent`, `IsBuildIdent`, `OptPart`, `Valid`: the grammar;
* `parseInt_append`, `parseInt_sound`, `identsLoop_complete`, `identsLoop_sound`: each piece of
  the parser against its part of the grammar;
* **`isValid_iff`**: `IsValid` accepts exactly the versions of the grammar.
-/

namespace Pkgsite.Semver

open Strconv

/-! ## The parser -/

/-- `parseInt`: a number without a leading zero, and the text after it. -/
def parseInt : List Char → Option (List Char × List Char)
  | [] => none
  | c :: v =>
    if c < '0' ∨ '9' < c then none
    else
      let i := (v.takeWhile Char.isDigit).length + 1
      if c = '0' ∧ i ≠ 1 then none
      else some (c :: v.takeWhile Char.isDigit, v.dropWhile Char.isDigit)

/-- `isIdentChar`. -/
def isIdentChar (c : Char) : Bool :=
  'A' ≤ c && c ≤ 'Z' || 'a' ≤ c && c ≤ 'z' || '0' ≤ c && c ≤ '9' || c == '-'

/-- `isBadNum`: two digits or more, with a leading zero. -/
def isBadNum (v : List Char) : Bool :=
  let i := (v.takeWhile Char.isDigit).length
  i == v.length && i > 1 && v.head? == some '0'

/-- The loop of `parsePrerelease` and of `parseBuild` over the text after `-` or `+`:
identifiers separated by dots up to the first `stop` character, where `ident` is the identifier
so far (`v[start:i]`). It gives the text from the stop on, or `none` where the function fails.
`parseBuild` has no stop character and no `isBadNum` check. -/
def identsLoop (stop : Char → Bool) (bad : List Char → Bool) :
    List Char → List Char → Option (List Char)
  | ident, [] => if ident = [] ∨ bad ident then none else some []
  | ident, c :: s =>
    if stop c then (if ident = [] ∨ bad ident then none else some (c :: s))
    else if isIdentChar c = false ∧ c ≠ '.' then none
    else if c = '.' then (if ident = [] ∨ bad ident then none else identsLoop stop bad [] s)
    else identsLoop stop bad (ident ++ [c]) s

/-- `parsePrerelease`: the text after `-prerelease`. -/
def parsePrerelease : List Char → Option (List Char)
  | '-' :: s => identsLoop (· == '+') isBadNum [] s
  | _ => none

/-- `parseBuild`: the text after `+build`, which is empty. -/
def parseBuild : List Char → Option (List Char)
  | '+' :: s => identsLoop (fun _ => false) (fun _ => false) [] s
  | _ => none

/-- The end of `parse` after an optional prerelease: an optional build, and nothing after it. -/
def parseBuildTail (v : List Char) : Bool :=
  match if v.head? = some '+' then parseBuild v else some v with
  | none => false
  | some v => v = []

/-- The end of `parse` after the patch number: an optional prerelease, then `parseBuildTail`. -/
def parseTail (v : List Char) : Bool :=
  match if v.head? = some '-' then parsePrerelease v else some v with
  | none => false
  | some v => parseBuildTail v

/-- The `ok` of `parse`, which is what `IsValid` reports; no caller reads the parsed parts. -/
def parse : List Char → Bool
  | 'v' :: v =>
    match parseInt v with
    | some (_, []) => true
    | some (_, '.' :: v) =>
      match parseInt v with
      | some (_, []) => true
      | some (_, '.' :: v) =>
        match parseInt v with
        | some (_, v) => parseTail v
        | none => false
      | _ => false
    | _ => false
  | _ => false

/-- `semver.IsValid`. -/
def isValid (v : String) : Bool := parse v.data

/-! ## The grammar -/

/-- A number: ASCII digits, with no leading zero unless it is `0`. -/
structure IsNum (s : List Char) : Prop where
  ne_nil : s ≠ []
  digits : ∀ c ∈ s, c.isDigit
  no_lead : ∀ t, s = '0' :: t → t = []

/-- One or more identifiers of `P`, separated by dots. -/
inductive DotSeparated (P : List Char → Prop) : List Char → Prop
  | one {s : List Char} : P s → DotSeparated P s
  | cons {s x : List Char} : P s → DotSeparated P x → DotSeparated P (s ++ '.' :: x)

/-- A prerelease identifier: `[0-9A-Za-z-]+`, and a number when it is all digits. -/
def IsPreIdent (s : List Char) : Prop :=
  s ≠ [] ∧ (∀ c ∈ s, isIdentChar c) ∧ ((∀ c ∈ s, c.isDigit) → IsNum s)

/-- A build identifier: `[0-9A-Za-z-]+`. -/
def IsBuildIdent (s : List Char) : Prop := s ≠ [] ∧ ∀ c ∈ s, isIdentChar c

/-- An optional part: empty, or `sep` followed by identifiers of `P`. -/
def OptPart (sep : Char) (P : List Char → Prop) (x : List Char) : Prop :=
  x = [] ∨ ∃ y, x = sep :: y ∧ DotSeparated P y

/-- **The versions `IsValid` accepts**: `vMAJOR`, `vMAJOR.MINOR`, and
`vMAJOR.MINOR.PATCH[-PRERELEASE][+BUILD]`. -/
inductive Valid : List Char → Prop
  | major {a : List Char} : IsNum a → Valid ('v' :: a)
  | minor {a b : List Char} : IsNum a → IsNum b → Valid ('v' :: a ++ '.' :: b)
  | full {a b c pre build : List Char} : IsNum a → IsNum b → IsNum c →
      OptPart '-' IsPreIdent pre → OptPart '+' IsBuildIdent build →
      Valid ('v' :: a ++ '.' :: b ++ '.' :: c ++ pre ++ build)

/-! ## Numbers -/

theorem lt_or_gt_iff_isDigit_eq_false (c : Char) : (c < '0' ∨ '9' < c) ↔ c.isDigit = false := by
  rw [← Bool.not_eq_true, isDigit_iff]
  show c.toNat < 48 ∨ 57 < c.toNat ↔ _
  omega

theorem takeWhile_append_of_head {p : Char → Bool} {t r : List Char} (ht : ∀ c ∈ t, p c)
    (hr : ∀ c ∈ r.head?, p c = false) :
    (t ++ r).takeWhile p = t ∧ (t ++ r).dropWhile p = r := by
  cases r with
  | nil =>
    rw [List.append_nil]
    exact ⟨List.takeWhile_eq_self_iff.mpr ht, List.dropWhile_eq_nil_iff.mpr ht⟩
  | cons c r =>
    have hc : p c = false := hr c rfl
    simp [List.takeWhile_append_of_pos ht, List.dropWhile_append_of_pos ht, hc]

theorem parseInt_append {a r : List Char} (ha : IsNum a) (hr : ∀ c ∈ r.head?, c.isDigit = false) :
    parseInt (a ++ r) = some (a, r) := by
  obtain ⟨c, t, rfl⟩ := List.exists_cons_of_ne_nil ha.ne_nil
  have hc := ha.digits c (List.mem_cons_self c t)
  obtain ⟨htake, hdrop⟩ :=
    takeWhile_append_of_head (fun x hx => ha.digits x (List.mem_cons_of_mem c hx)) hr
  have hlead : ¬ (c = '0' ∧ t.length + 1 ≠ 1) := by
    rintro ⟨rfl, h1⟩
    exact h1 (by rw [ha.no_lead t rfl]; rfl)
  rw [List.cons_append, parseInt, if_neg (by rw [lt_or_gt_iff_isDigit_eq_false, hc]; simp)]
  simp only [htake, hdrop, if_neg hlead]

theorem parseInt_sound {s a r : List Char} (h : parseInt s = some (a, r)) :
    IsNum a ∧ s = a ++ r ∧ ∀ c ∈ r.head?, c.isDigit = false := by
  cases s with
  | nil => cases h
  | cons c v =>
    simp only [parseInt] at h
    split_ifs at h with h₁ h₂
    obtain ⟨rfl, rfl⟩ := Prod.mk.inj (Option.some.inj h).symm
    have hc : c.isDigit := by
      simpa [lt_or_gt_iff_isDigit_eq_false] using h₁
    refine ⟨⟨List.cons_ne_nil _ _, fun x hx => ?_, fun t ht => ?_⟩, by simp, fun x hx => ?_⟩
    · rcases List.mem_cons.mp hx with rfl | hx
      · exact hc
      · exact List.mem_takeWhile_imp hx
    · obtain ⟨rfl, rfl⟩ := List.cons.inj ht
      exact List.length_eq_zero.mp (by simpa using h₂)
    · have := List.head?_dropWhile_not Char.isDigit v
      rw [Option.mem_def.mp hx] at this
      exact this

theorem length_takeWhile_eq_iff {p : Char → Bool} {l : List Char} :
    (l.takeWhile p).length = l.length ↔ ∀ c ∈ l, p c := by
  rw [← List.takeWhile_eq_self_iff]
  exact ⟨(List.takeWhile_prefix p).eq_of_length, fun h => by rw [h]⟩

theorem isBadNum_eq_false_iff {c : Char} {t : List Char} :
    isBadNum (c :: t) = false ↔ ((∀ x ∈ c :: t, x.isDigit) → c = '0' → t = []) := by
  by_cases h : ∀ x ∈ c :: t, x.isDigit
  · rw [imp_iff_right h]
    have hlen := length_takeWhile_eq_iff.mpr h
    simp only [List.length_cons] at hlen
    cases t <;> simp [isBadNum, hlen]
  · have hlen : ((c :: t).takeWhile Char.isDigit).length ≠ t.length + 1 :=
      mt length_takeWhile_eq_iff.mp h
    refine iff_of_true ?_ fun hd => absurd hd h
    simp [isBadNum, hlen]

theorem isPreIdent_iff {s : List Char} :
    IsPreIdent s ↔ s ≠ [] ∧ (∀ c ∈ s, isIdentChar c) ∧ isBadNum s = false := by
  refine and_congr_right fun hne => and_congr_right fun _ => ?_
  obtain ⟨c, t, rfl⟩ := List.exists_cons_of_ne_nil hne
  rw [isBadNum_eq_false_iff]
  exact forall_congr' fun hd =>
    ⟨fun h hc => h.no_lead t (by rw [hc]), fun h => ⟨hne, hd, fun t' ht' => by
      obtain ⟨rfl, rfl⟩ := List.cons.inj ht'
      exact h rfl⟩⟩

/-! ## Dot-separated identifiers -/

/-- An identifier the loop accepts: nonempty, of identifier characters, and not `bad`. -/
def IdentOK (bad : List Char → Bool) (s : List Char) : Prop :=
  s ≠ [] ∧ (∀ c ∈ s, isIdentChar c) ∧ bad s = false

theorem dot_not_mem {s : List Char} (h : ∀ c ∈ s, isIdentChar c) : '.' ∉ s :=
  fun hd => absurd (h '.' hd) (by decide)

theorem identOK_iff {bad : List Char → Bool} {s : List Char} (h : ∀ c ∈ s, isIdentChar c) :
    IdentOK bad s ↔ ¬ (s = [] ∨ bad s = true) :=
  ⟨fun ⟨h₁, _, h₃⟩ => by simp [h₁, h₃],
    fun hn => ⟨(not_or.mp hn).1, h, by simpa using (not_or.mp hn).2⟩⟩

theorem DotSeparated.of_dot_not_mem {P : List Char → Prop} {s : List Char}
    (h : DotSeparated P s) (hs : '.' ∉ s) : P s := by
  cases h with
  | one h => exact h
  | cons _ _ => simp at hs

section Dots

variable {P : List Char → Prop} (hP : ∀ s, P s → '.' ∉ s)
include hP

theorem DotSeparated.of_append_dot {s x : List Char} (h : DotSeparated P (s ++ '.' :: x))
    (hs : '.' ∉ s) : P s ∧ DotSeparated P x := by
  generalize hL : s ++ '.' :: x = L at h
  cases h with
  | one h => exact absurd (hL ▸ List.mem_append_right s (List.mem_cons_self '.' x)) (hP _ h)
  | @cons s' x' h₁ h₂ =>
    have split : ∀ {a b : List Char}, '.' ∉ a →
        (a ++ '.' :: b).takeWhile (· != '.') = a ∧ (a ++ '.' :: b).dropWhile (· != '.') = '.' :: b :=
      fun ha => takeWhile_append_of_head (fun c hc => by simpa using ne_of_mem_of_not_mem hc ha)
        (by simp)
    obtain ⟨ht, hd⟩ := split (b := x) hs
    obtain ⟨ht', hd'⟩ := split (b := x') (hP _ h₁)
    rw [← hL, ht] at ht'
    rw [← hL, hd] at hd'
    exact ⟨ht' ▸ h₁, (List.cons.inj hd').2 ▸ h₂⟩

end Dots

theorem DotSeparated.mem {bad : List Char → Bool} {x : List Char}
    (h : DotSeparated (IdentOK bad) x) : ∀ c ∈ x, isIdentChar c ∨ c = '.' := by
  induction h with
  | one h => exact fun c hc => .inl (h.2.1 c hc)
  | cons h _ ih =>
    intro c hc
    rcases List.mem_append.mp hc with hc | hc
    · exact .inl (h.2.1 c hc)
    · rcases List.mem_cons.mp hc with rfl | hc
      · exact .inr rfl
      · exact ih c hc

/-! ## The identifier loop -/

section Loop

variable {stop : Char → Bool} {bad : List Char → Bool} {r : List Char}

theorem identOK_dot_not_mem : ∀ s, IdentOK bad s → '.' ∉ s := fun _ h => dot_not_mem h.2.1

/-- **The loop reads dot-separated identifiers**, and hands back the text from a stop
character on. -/
theorem identsLoop_sound : ∀ (ident s : List Char), (∀ c ∈ ident, isIdentChar c) →
    identsLoop stop bad ident s = some r →
      ∃ p, s = p ++ r ∧ (∀ c ∈ r.head?, stop c) ∧ DotSeparated (IdentOK bad) (ident ++ p)
  | ident, [], hid, h => by
    simp only [identsLoop] at h
    split_ifs at h with h₁
    cases h
    exact ⟨[], rfl, by simp, by simpa using DotSeparated.one ((identOK_iff hid).mpr h₁)⟩
  | ident, c :: s, hid, h => by
    simp only [identsLoop] at h
    split_ifs at h with h₁ h₂ h₃ h₄ h₅
    · cases h
      exact ⟨[], rfl, by simpa using h₁, by simpa using DotSeparated.one ((identOK_iff hid).mpr h₂)⟩
    · subst h₄
      obtain ⟨p, rfl, hr, hd⟩ := identsLoop_sound [] s (by simp) h
      exact ⟨'.' :: p, rfl, hr, .cons ((identOK_iff hid).mpr h₅) (by simpa using hd)⟩
    · have hc : isIdentChar c := by simpa [h₄] using h₃
      have hid' : ∀ x ∈ ident ++ [c], isIdentChar x :=
        List.forall_mem_append.mpr ⟨hid, List.forall_mem_singleton.mpr hc⟩
      obtain ⟨p, rfl, hr, hd⟩ := identsLoop_sound (ident ++ [c]) s hid' h
      exact ⟨c :: p, rfl, hr, by simpa using hd⟩

/-- **The loop accepts dot-separated identifiers** up to a stop character, which can be neither
an identifier character nor a dot. -/
theorem identsLoop_complete (hstop : ∀ c, stop c → isIdentChar c = false ∧ c ≠ '.')
    (hr : ∀ c ∈ r.head?, stop c) : ∀ (ident p : List Char), (∀ c ∈ ident, isIdentChar c) →
      DotSeparated (IdentOK bad) (ident ++ p) → identsLoop stop bad ident (p ++ r) = some r
  | ident, [], hid, hd => by
    rw [List.append_nil] at hd
    have hok := (identOK_iff hid).mp (hd.of_dot_not_mem (dot_not_mem hid))
    cases r with
    | nil => rw [List.nil_append, identsLoop, if_neg hok]
    | cons c r => rw [List.nil_append, identsLoop, if_pos (hr c rfl), if_neg hok]
  | ident, c :: p, hid, hd => by
    have hc := hd.mem c (by simp)
    have hnstop : stop c = false := by
      cases h : stop c
      · rfl
      · have := hstop c h
        rcases hc with hc | hc <;> simp_all
    have hchar : ¬ (isIdentChar c = false ∧ c ≠ '.') := by
      rcases hc with hc | hc <;> simp [hc]
    rw [List.cons_append, identsLoop, if_neg (by simp [hnstop]), if_neg hchar]
    by_cases hdot : c = '.'
    · subst hdot
      obtain ⟨hok, hp⟩ := hd.of_append_dot identOK_dot_not_mem (dot_not_mem hid)
      rw [if_pos rfl, if_neg ((identOK_iff hid).mp hok)]
      exact identsLoop_complete hstop hr [] p (by simp) (by simpa using hp)
    · have hc : isIdentChar c := hc.resolve_right hdot
      rw [if_neg hdot]
      have hid' : ∀ x ∈ ident ++ [c], isIdentChar x :=
        List.forall_mem_append.mpr ⟨hid, List.forall_mem_singleton.mpr hc⟩
      exact identsLoop_complete hstop hr (ident ++ [c]) p hid' (by simpa using hd)

end Loop

/-! ## Versions -/

theorem isPreIdent_eq : IsPreIdent = IdentOK isBadNum := funext fun _ => propext isPreIdent_iff

theorem isBuildIdent_eq : IsBuildIdent = IdentOK fun _ => false :=
  funext fun _ => propext ⟨fun ⟨h₁, h₂⟩ => ⟨h₁, h₂, rfl⟩, fun ⟨h₁, h₂, _⟩ => ⟨h₁, h₂⟩⟩

theorem parseBuildTail_iff (w : List Char) :
    parseBuildTail w = true ↔ OptPart '+' IsBuildIdent w := by
  rw [isBuildIdent_eq]
  cases w with
  | nil => simp [parseBuildTail, OptPart]
  | cons c z =>
    by_cases hc : c = '+'
    · subst hc
      simp only [parseBuildTail, List.head?_cons, if_true, parseBuild]
      constructor
      · intro h
        split at h
        · cases h
        · rename_i u hu
          obtain rfl : u = [] := by simpa using h
          obtain ⟨p, rfl, -, hd⟩ := identsLoop_sound [] z (by simp) hu
          exact .inr ⟨p, by simp, by simpa using hd⟩
      · rintro (h | ⟨y, hy, hd⟩)
        · cases h
        · rw [← (List.cons.inj hy).2] at hd
          rw [← List.append_nil z, identsLoop_complete (fun _ h => by cases h) (by simp) [] z
            (by simp) (by simpa using hd)]
          rfl
    · simp [parseBuildTail, hc, OptPart]

theorem parseTail_iff (v : List Char) : parseTail v = true ↔
    ∃ pre build, v = pre ++ build ∧ OptPart '-' IsPreIdent pre ∧ OptPart '+' IsBuildIdent build := by
  have hstop : ∀ c, (c == '+') = true → isIdentChar c = false ∧ c ≠ '.' := by
    intro c h
    rw [beq_iff_eq.mp h]
    decide
  cases v with
  | nil => exact ⟨fun _ => ⟨[], [], rfl, .inl rfl, .inl rfl⟩, fun _ => rfl⟩
  | cons c y =>
    by_cases hc : c = '-'
    · subst hc
      simp only [parseTail, List.head?_cons, if_true, parsePrerelease]
      constructor
      · intro h
        split at h
        · cases h
        · rename_i w hw
          obtain ⟨p, rfl, -, hd⟩ := identsLoop_sound [] y (by simp) hw
          exact ⟨'-' :: p, w, rfl, .inr ⟨p, rfl, isPreIdent_eq ▸ by simpa using hd⟩,
            (parseBuildTail_iff w).mp h⟩
      · rintro ⟨pre, build, hv, hpre, hbuild⟩
        rcases hpre with rfl | ⟨p, rfl, hp⟩
        · rcases hbuild with rfl | ⟨z, rfl, -⟩ <;> simp at hv
        · obtain rfl : y = p ++ build := (List.cons.inj hv).2
          have hr : ∀ c ∈ build.head?, (c == '+') = true := by
            rcases hbuild with rfl | ⟨z, rfl, -⟩ <;> simp
          rw [isPreIdent_eq] at hp
          rw [identsLoop_complete hstop hr [] p (by simp) (by simpa using hp)]
          exact (parseBuildTail_iff build).mpr hbuild
    · simp only [parseTail, List.head?_cons, Option.some.injEq, hc, if_false, parseBuildTail_iff]
      constructor
      · exact fun h => ⟨[], c :: y, rfl, .inl rfl, h⟩
      · rintro ⟨pre, build, hv, hpre, hbuild⟩
        rcases hpre with rfl | ⟨p, rfl, -⟩
        · simpa [hv] using hbuild
        · exact absurd (List.cons.inj hv).1 hc

theorem parseInt_of_isNum {a : List Char} (ha : IsNum a) : parseInt a = some (a, []) := by
  simpa using parseInt_append (r := []) ha (by simp)

theorem parseInt_append_dot {a r : List Char} (ha : IsNum a) :
    parseInt (a ++ '.' :: r) = some (a, '.' :: r) :=
  parseInt_append ha (by simp)

theorem head_not_isDigit_of_optPart {pre build : List Char} (hpre : OptPart '-' IsPreIdent pre)
    (hbuild : OptPart '+' IsBuildIdent build) : ∀ c ∈ (pre ++ build).head?, c.isDigit = false := by
  rcases hpre with rfl | ⟨p, rfl, -⟩
  · rcases hbuild with rfl | ⟨z, rfl, -⟩ <;> simp
  · simp

theorem parse_iff (v : List Char) : parse v = true ↔ Valid v := by
  constructor
  · intro h
    unfold parse at h
    split at h
    · rename_i v
      split at h
      · obtain ⟨ha, rfl, -⟩ := parseInt_sound ‹_›
        simpa using Valid.major ha
      · rename_i a v₂ h₁
        obtain ⟨ha, rfl, -⟩ := parseInt_sound h₁
        split at h
        · obtain ⟨hb, rfl, -⟩ := parseInt_sound ‹_›
          simpa using Valid.minor ha hb
        · rename_i b v₃ h₂
          obtain ⟨hb, rfl, -⟩ := parseInt_sound h₂
          split at h
          · rename_i c v₄ h₃
            obtain ⟨hc, rfl, -⟩ := parseInt_sound h₃
            obtain ⟨pre, build, rfl, hpre, hbuild⟩ := (parseTail_iff v₄).mp h
            simpa using Valid.full ha hb hc hpre hbuild
          · cases h
        · cases h
      · cases h
    · cases h
  · intro h
    cases h with
    | major ha => simp only [parse, parseInt_of_isNum ha]
    | minor ha hb =>
      simp only [List.cons_append, parse, parseInt_append_dot ha, parseInt_of_isNum hb]
    | full ha hb hc hpre hbuild =>
      simp only [List.cons_append, List.append_assoc, parse, parseInt_append_dot ha,
        parseInt_append_dot hb, parseInt_append hc (head_not_isDigit_of_optPart hpre hbuild)]
      exact (parseTail_iff _).mpr ⟨_, _, rfl, hpre, hbuild⟩

/-- **`IsValid` accepts exactly the versions of the grammar.** -/
theorem isValid_iff (v : String) : isValid v = true ↔ Valid v.data := parse_iff v.data

end Pkgsite.Semver
