import Mathlib.Data.List.DropRight

/-!
# `strings.TrimSpace`

`strings.TrimSpace` drops the leading and trailing characters for which `unicode.IsSpace`
holds. Its ASCII fast path stops where `TrimFunc(s, unicode.IsSpace)` stops, so both paths are
the one function `trimSpace` below, over the runes of the text.

`strings.Split` with a one-rune separator cuts the text at each occurrence of it, and
`strings.Join` puts a separator between the pieces.

* `isSpace`, `trimFunc`, `trimSpace`;
* `rdropWhile_append`: trailing characters are dropped from the second part first;
* **`length_trimFunc_lt_append`**: a prefix holding a kept character makes the trimmed text
  strictly longer;
* `index`, `genSplitLoop`, `split`, `join`;
* **`join_split`**: joining the pieces of `Split(s, sep)` with `r` replaces every `sep` by `r`.
-/

namespace Pkgsite.Strings

/-- `unicode.IsSpace`: in Latin-1 `'\t'`, `'\n'`, `'\v'`, `'\f'`, `'\r'`, `' '`, U+0085 and
U+00A0; above Latin-1 the `White_Space` table. -/
def isSpace (c : Char) : Bool :=
  if c.toNat ≤ 0xFF then
    [0x09, 0x0A, 0x0B, 0x0C, 0x0D, 0x20, 0x85, 0xA0].contains c.toNat
  else
    c.toNat = 0x1680 || (0x2000 ≤ c.toNat && c.toNat ≤ 0x200A) || c.toNat = 0x2028 ||
      c.toNat = 0x2029 || c.toNat = 0x202F || c.toNat = 0x205F || c.toNat = 0x3000

/-- `strings.TrimFunc` on the runes of a text: `TrimRightFunc(TrimLeftFunc(s, f), f)`. -/
def trimFunc (f : Char → Bool) (s : List Char) : List Char :=
  (s.dropWhile f).rdropWhile f

/-- `strings.TrimSpace`. -/
def trimSpace (s : String) : String :=
  ⟨trimFunc isSpace s.data⟩

@[simp] theorem trimSpace_data (s : String) : (trimSpace s).data = trimFunc isSpace s.data := rfl

section Trim

variable {f : Char → Bool}

theorem rdropWhile_append (xs ys : List Char) :
    (xs ++ ys).rdropWhile f =
      if ys.rdropWhile f = [] then xs.rdropWhile f else xs ++ ys.rdropWhile f := by
  simp only [List.rdropWhile, List.reverse_append, List.dropWhile_append, List.reverse_eq_nil_iff,
    List.isEmpty_iff]
  split <;> simp

theorem dropWhile_append_of_exists {xs : List Char} (h : ∃ c ∈ xs, f c = false) (ys : List Char) :
    (xs ++ ys).dropWhile f = xs.dropWhile f ++ ys := by
  rw [List.dropWhile_append, if_neg]
  obtain ⟨c, hc, hfc⟩ := h
  simp only [List.isEmpty_iff, List.dropWhile_eq_nil_iff]
  exact fun hall => by simp [hall c hc] at hfc

theorem trimFunc_eq_nil_of_rdropWhile {s : List Char} (h : s.rdropWhile f = []) :
    trimFunc f s = [] := by
  rw [List.rdropWhile_eq_nil_iff] at h
  simp [trimFunc, List.dropWhile_eq_nil_iff.mpr h]

theorem length_trimFunc_le (s : List Char) : (trimFunc f s).length ≤ (s.rdropWhile f).length := by
  conv_rhs => rw [← List.takeWhile_append_dropWhile f s]
  rw [trimFunc, rdropWhile_append]
  split
  · rename_i h; simp [h]
  · simp

/-- **A prefix holding a kept character makes the trimmed text strictly longer.** -/
theorem length_trimFunc_lt_append {pre : List Char} (h : ∃ c ∈ pre, f c = false)
    (s : List Char) : (trimFunc f s).length < (trimFunc f (pre ++ s)).length := by
  have hx : pre.dropWhile f ≠ [] := by
    obtain ⟨c, hc, hfc⟩ := h
    rw [Ne, List.dropWhile_eq_nil_iff]
    exact fun hall => by simp [hall c hc] at hfc
  conv_rhs => rw [trimFunc, dropWhile_append_of_exists h, rdropWhile_append]
  split
  · rename_i hs
    rw [trimFunc_eq_nil_of_rdropWhile hs, List.length_nil, List.length_pos,
      Ne, List.rdropWhile_eq_nil_iff]
    intro hall
    have := hall _ (List.head_mem hx)
    rw [List.head_dropWhile_not f pre hx] at this
    exact Bool.false_ne_true this
  · have := length_trimFunc_le (f := f) s
    have : 0 < (pre.dropWhile f).length := List.length_pos.mpr hx
    simp only [List.length_append]
    omega

end Trim

/-! ## `Split` and `Join` -/

/-- `strings.Index(s, sep)` for a one-rune `sep`: the position of its first occurrence. -/
def index (sep : Char) : List Char → Option Nat
  | [] => none
  | c :: s => if c = sep then some 0 else (index sep s).map (· + 1)

/-- The loop of `genSplit(s, sep, 0, n)` with `n - 1` cuts left: while a cut is left and `sep`
occurs, the text before it is a piece and the search goes on after it; the rest is the last
piece. -/
def genSplitLoop (sep : Char) : Nat → List Char → List (List Char)
  | 0, s => [s]
  | n + 1, s =>
    match index sep s with
    | none => [s]
    | some m => s.take m :: genSplitLoop sep n (s.drop (m + 1))

/-- `strings.Split(s, sep)` for a one-rune `sep`: `Count(s, sep) + 1` pieces, which never
exceeds `len(s) + 1`. -/
def split (s : String) (sep : Char) : List String :=
  (genSplitLoop sep (s.data.count sep) s.data).map String.mk

/-- `strings.Join(elems, sep)`: the first element, then `sep` and the element for each next
one. -/
def join (elems : List String) (sep : String) : String :=
  match elems with
  | [] => ""
  | e :: es => ⟨e.data ++ es.flatMap fun s => sep.data ++ s.data⟩

section Split

variable {sep : Char}

theorem index_eq_none : ∀ {s : List Char}, index sep s = none ↔ sep ∉ s
  | [] => by simp [index]
  | c :: s => by
    by_cases h : c = sep
    · simp [index, h]
    · simp [index, h, index_eq_none (s := s), Ne.symm h]

theorem index_eq_some : ∀ {s : List Char} {m : Nat}, index sep s = some m →
    s = s.take m ++ sep :: s.drop (m + 1) ∧ sep ∉ s.take m
  | [], _, h => by simp [index] at h
  | c :: s, m, h => by
    by_cases hc : c = sep
    · simp only [index, hc, if_true, Option.some.injEq] at h
      subst h hc
      simp
    · simp only [index, hc, if_false, Option.map_eq_some'] at h
      obtain ⟨m', hm', rfl⟩ := h
      obtain ⟨h1, h2⟩ := index_eq_some hm'
      refine ⟨?_, ?_⟩
      · simp only [List.take_succ_cons, List.drop_succ_cons, List.cons_append]
        exact congrArg _ h1
      · simp [Ne.symm hc, h2]

theorem flatMap_replace_of_not_mem {s : List Char} (h : sep ∉ s) (r : List Char) :
    (s.flatMap fun c => if c = sep then r else [c]) = s := by
  induction s with
  | nil => rfl
  | cons c s ih =>
    simp only [List.mem_cons, not_or] at h
    simp [Ne.symm h.1, ih h.2]

theorem genSplitLoop_join (r : List Char) : ∀ (n : Nat) (s : List Char), s.count sep = n →
    ∃ e es, genSplitLoop sep n s = e :: es ∧
      e ++ es.flatMap (fun p => r ++ p) = s.flatMap fun c => if c = sep then r else [c]
  | 0, s, h => ⟨s, [], rfl, by simp [flatMap_replace_of_not_mem (List.count_eq_zero.mp h)]⟩
  | n + 1, s, h => by
    have hmem : sep ∈ s := List.count_pos_iff.mp (by omega)
    obtain ⟨m, hm⟩ := Option.ne_none_iff_exists'.mp (mt index_eq_none.mp (not_not.mpr hmem))
    obtain ⟨hs, ha⟩ := index_eq_some hm
    have hcount : (s.drop (m + 1)).count sep = n := by
      rw [hs, List.count_append, List.count_cons_self, List.count_eq_zero.mpr ha] at h
      omega
    obtain ⟨e, es, he, hj⟩ := genSplitLoop_join r n _ hcount
    refine ⟨s.take m, e :: es, by simp only [genSplitLoop, hm, he], ?_⟩
    conv_rhs => rw [hs]
    simp only [List.flatMap_cons, List.flatMap_append, flatMap_replace_of_not_mem ha, if_true,
      List.append_assoc, ← hj]

/-- **`Join(Split(s, sep), r)` replaces every `sep` of `s` by `r`.** -/
theorem join_split (s : String) (sep : Char) (r : String) :
    join (split s sep) r = ⟨s.data.flatMap fun c => if c = sep then r.data else [c]⟩ := by
  obtain ⟨e, es, he, hj⟩ := @genSplitLoop_join sep r.data _ s.data rfl
  rw [split, he, List.map_cons, join, ← hj]
  simp [List.flatMap_map]

end Split

end Pkgsite.Strings
