import Pkgsite.Dochtml.Pattern
import Pkgsite.Go.Strings

/-!
# The overload helpers of the `dochtml` templates

`overloadFuncIndex` reads the position of an overload variant from the sentinel line
`overload_func_index:<n>` that opens its doc. `render_function_id` appends that position to the
item's name as `__<n>`, and `render_actual_doc` shows the doc without the line. Only functions
and methods take part; every other item has index `-1`.

* `Item`, `overloadFuncIndex`, `renderFunctionId`, `renderActualDoc`, `Item.displayName`;
* `overloadFuncIndex_of_isSentinel`, `renderActualDoc_of_isSentinel` and their
  `_of_not_sentinel` counterparts: the helpers on docs with and without a sentinel line;
* **`overloadFuncIndex_sentinel`**: the sentinel of a position `n < 2^63` gives the index `n`,
  the id `name__n`, and the doc after the line;
* **`overloadFuncIndex_eq_neg_one_iff`**: the index is `-1` exactly when the shown doc is the
  whole doc, or the sentinel's number does not fit in an `int`;
* `overloadFuncIndex_overflow_stripped`: at `overload_func_index:9223372036854775808` the line is
  stripped from the shown doc while the index is `-1` and the id keeps no suffix;
* **`renderFunctionId_injective`**: distinct (name, index) pairs get distinct ids, for names that
  do not themselves end in `__<digits>`;
* **`overloadFuncIndex_eq_natCast_iff`**: when the index is a position, and which.
-/

namespace Pkgsite.Dochtml

open Regexp Strconv Strings

/-- The fields of a documented `item` that the helpers read. -/
structure Item where
  kind : String
  name : String
  fullName : String
  doc : String
  deriving DecidableEq, Repr

/-- `overloadFuncIndex`. -/
def overloadFuncIndex (item : Item) : Int :=
  if item.kind ≠ "method" ∧ item.kind ≠ "function" then -1
  else
    match findStringSubmatch overloadFuncIndexPattern item.doc with
    | [_, valueStr] =>
      match atoi valueStr with
      | .ok intValue => intValue
      | .error _ => -1
    | _ => -1

/-- `render_function_id`. -/
def renderFunctionId (item : Item) : String :=
  let fullName := if item.fullName ≠ "" then item.fullName else item.name
  let overloadIndex := overloadFuncIndex item
  if overloadIndex ≠ -1 then fullName ++ "__" ++ toString overloadIndex else fullName

/-- `render_actual_doc`; the empty template of `ReplaceAllString(doc, "")` expands to nothing. -/
def renderActualDoc (item : Item) : String :=
  if item.kind ≠ "method" ∧ item.kind ≠ "function" then item.doc
  else trimSpace ⟨replaceAll overloadFuncIndexPattern item.doc.data fun _ => []⟩

/-- The name an id starts from: `FullName` when it is set, else `Name`. -/
def Item.displayName (item : Item) : String :=
  if item.fullName ≠ "" then item.fullName else item.name

/-- `s` ends in `__` followed by one or more ASCII digits. -/
def EndsInIndexSuffix (s : String) : Prop :=
  ∃ base ds : List Char, ds ≠ [] ∧ (∀ c ∈ ds, c.isDigit) ∧ s.data = base ++ '_' :: '_' :: ds

theorem natCast_ne_neg_one (n : Nat) : (n : Int) ≠ -1 := by omega

theorem renderFunctionId_eq (item : Item) :
    renderFunctionId item = if overloadFuncIndex item ≠ -1 then
      item.displayName ++ "__" ++ toString (overloadFuncIndex item) else item.displayName :=
  rfl

/-! ## Docs with and without a sentinel line -/

section Doc

variable {item : Item} {ds rest : List Char}

theorem not_other_kind (hk : item.kind = "function" ∨ item.kind = "method") :
    ¬ (item.kind ≠ "method" ∧ item.kind ≠ "function") :=
  fun ⟨h₁, h₂⟩ => hk.elim h₂ h₁

theorem overloadFuncIndex_of_isSentinel (hk : item.kind = "function" ∨ item.kind = "method")
    (h : IsSentinel item.doc.data ds rest) :
    overloadFuncIndex item = if decimalValue ds < 2 ^ 63 then (decimalValue ds : Int) else -1 := by
  have ha : atoi ⟨ds⟩ = _ := atoi_of_digits h.ne_nil h.digits
  rw [overloadFuncIndex, if_neg (not_other_kind hk), findStringSubmatch_of_isSentinel h]
  dsimp only
  rw [ha]
  split_ifs <;> rfl

theorem overloadFuncIndex_of_not_sentinel (hk : item.kind = "function" ∨ item.kind = "method")
    (h : ∀ ds rest, ¬ IsSentinel item.doc.data ds rest) : overloadFuncIndex item = -1 := by
  rw [overloadFuncIndex, if_neg (not_other_kind hk), findStringSubmatch_of_not_sentinel h]

theorem renderActualDoc_of_isSentinel (hk : item.kind = "function" ∨ item.kind = "method")
    (h : IsSentinel item.doc.data ds rest) : renderActualDoc item = trimSpace ⟨rest⟩ := by
  rw [renderActualDoc, if_neg (not_other_kind hk), replaceAll_of_isSentinel h]

theorem renderActualDoc_of_not_sentinel (hk : item.kind = "function" ∨ item.kind = "method")
    (h : ∀ ds rest, ¬ IsSentinel item.doc.data ds rest) :
    renderActualDoc item = trimSpace item.doc := by
  rw [renderActualDoc, if_neg (not_other_kind hk), replaceAll_of_not_sentinel h]

theorem renderActualDoc_ne_of_isSentinel (hk : item.kind = "function" ∨ item.kind = "method")
    (h : IsSentinel item.doc.data ds rest) : renderActualDoc item ≠ trimSpace item.doc := by
  rw [renderActualDoc_of_isSentinel hk h]
  intro heq
  have hlen := congrArg (fun s : String => s.data.length) heq
  have hdoc : item.doc.data = (sentinelPrefix ++ ds ++ ['\n']) ++ rest := by simp [h.eq]
  simp only [trimSpace_data, hdoc] at hlen
  exact absurd hlen (length_trimFunc_lt_append ⟨'o', by simp [sentinelPrefix], rfl⟩ rest).ne

end Doc

theorem overloadFuncIndex_eq_neg_one_or (item : Item) :
    overloadFuncIndex item = -1 ∨ ∃ n : Nat, n < 2 ^ 63 ∧ overloadFuncIndex item = n := by
  by_cases hk : item.kind = "function" ∨ item.kind = "method"
  · by_cases hs : ∃ ds rest, IsSentinel item.doc.data ds rest
    · obtain ⟨ds, rest, hs⟩ := hs
      rw [overloadFuncIndex_of_isSentinel hk hs]
      split_ifs with hv
      · exact .inr ⟨_, hv, rfl⟩
      · exact .inl rfl
    · exact .inl (overloadFuncIndex_of_not_sentinel hk fun ds rest h => hs ⟨ds, rest, h⟩)
  · refine .inl (if_pos ?_)
    exact ⟨fun h => hk (.inr h), fun h => hk (.inl h)⟩

/-! ## The sentinel round trip -/

theorem isSentinel_toString (n : Nat) (d : String) :
    IsSentinel ("overload_func_index:" ++ toString n ++ "\n" ++ d).data (Nat.toDigits 10 n) d.data :=
  ⟨(decimalValue_toDigits n).2.2, (decimalValue_toDigits n).1, by simp [sentinelPrefix]; rfl⟩

/-- **The sentinel of a position `n < 2^63` is read back**: the index is `n`, the id is the name
and `__n`, and the shown doc is the text after the sentinel line, trimmed. -/
theorem overloadFuncIndex_sentinel (item : Item) (hk : item.kind = "function" ∨ item.kind = "method")
    (n : Nat) (hn : n < 2 ^ 63) (d : String)
    (hdoc : item.doc = "overload_func_index:" ++ toString n ++ "\n" ++ d) :
    overloadFuncIndex item = n ∧ renderFunctionId item = item.displayName ++ "__" ++ toString n ∧
      renderActualDoc item = trimSpace d := by
  have hs := isSentinel_toString n d
  rw [← hdoc] at hs
  have hidx : overloadFuncIndex item = n := by
    rw [overloadFuncIndex_of_isSentinel hk hs, (decimalValue_toDigits n).2.1, if_pos hn]
  refine ⟨hidx, ?_, renderActualDoc_of_isSentinel hk hs⟩
  rw [renderFunctionId_eq, hidx, if_pos (natCast_ne_neg_one n)]
  rfl

theorem overloadFuncIndex_sentinel_two :
    ("function" = "function" ∨ "function" = "method") ∧ 2 < 2 ^ 63 ∧
      "overload_func_index:2\nMul string" = "overload_func_index:" ++ toString 2 ++ "\n" ++ "Mul string" ∧
      (overloadFuncIndex ⟨"function", "Mul", "", "overload_func_index:2\nMul string"⟩ = (2 : Nat) ∧
        renderFunctionId ⟨"function", "Mul", "", "overload_func_index:2\nMul string"⟩ =
          Item.displayName ⟨"function", "Mul", "", "overload_func_index:2\nMul string"⟩ ++ "__" ++
            toString 2 ∧
        renderActualDoc ⟨"function", "Mul", "", "overload_func_index:2\nMul string"⟩ =
          trimSpace "Mul string") :=
  ⟨.inl rfl, by decide, by decide,
    overloadFuncIndex_sentinel ⟨"function", "Mul", "", "overload_func_index:2\nMul string"⟩
      (.inl rfl) 2 (by decide) "Mul string" (by decide)⟩

/-! ## The id path against the shown doc -/

/-- The sentinel `overload_func_index:9223372036854775808`, one past the largest `int`: the
index is `-1`, yet the line is stripped from the shown doc. -/
theorem overloadFuncIndex_overflow_stripped :
    overloadFuncIndex ⟨"function", "Mul", "", "overload_func_index:9223372036854775808\nx"⟩ = -1 ∧
      renderActualDoc ⟨"function", "Mul", "", "overload_func_index:9223372036854775808\nx"⟩ ≠
        trimSpace "overload_func_index:9223372036854775808\nx" := by
  have hs : IsSentinel "overload_func_index:9223372036854775808\nx".data
      "9223372036854775808".data ['x'] := ⟨by decide, by decide, rfl⟩
  refine ⟨?_, renderActualDoc_ne_of_isSentinel (.inl rfl) hs⟩
  rw [overloadFuncIndex_of_isSentinel (.inl rfl) hs, if_neg (by decide)]

/-- **The index is `-1` exactly when the shown doc is the whole doc trimmed, or the sentinel's
number is past the largest `int`**: in that one case the line is stripped from the doc while the
id keeps no suffix. -/
theorem overloadFuncIndex_eq_neg_one_iff (item : Item)
    (hk : item.kind = "function" ∨ item.kind = "method") :
    overloadFuncIndex item = -1 ↔ renderActualDoc item = trimSpace item.doc ∨
      ∃ ds rest, IsSentinel item.doc.data ds rest ∧ 2 ^ 63 ≤ decimalValue ds := by
  by_cases hs : ∃ ds rest, IsSentinel item.doc.data ds rest
  · obtain ⟨ds, rest, hs⟩ := hs
    have hne := renderActualDoc_ne_of_isSentinel hk hs
    rw [overloadFuncIndex_of_isSentinel hk hs]
    split_ifs with hv
    · refine ⟨False.elim, ?_⟩
      rintro (h | ⟨ds', rest', hs', hv'⟩)
      · exact absurd h hne
      · rw [← (hs.unique hs').1] at hv'
        omega
    · exact ⟨fun _ => .inr ⟨ds, rest, hs, by omega⟩, fun _ => rfl⟩
  · have hs' : ∀ ds rest, ¬ IsSentinel item.doc.data ds rest := fun ds rest h => hs ⟨ds, rest, h⟩
    simp [overloadFuncIndex_of_not_sentinel hk hs', renderActualDoc_of_not_sentinel hk hs']

theorem overloadFuncIndex_eq_neg_one_iff_overflow :
    ("function" = "function" ∨ "function" = "method") ∧
      (overloadFuncIndex ⟨"function", "Mul", "", "overload_func_index:9223372036854775808\nx"⟩ = -1 ↔
        renderActualDoc ⟨"function", "Mul", "", "overload_func_index:9223372036854775808\nx"⟩ =
            trimSpace "overload_func_index:9223372036854775808\nx" ∨
          ∃ ds rest, IsSentinel "overload_func_index:9223372036854775808\nx".data ds rest ∧
            2 ^ 63 ≤ decimalValue ds) :=
  ⟨.inl rfl, overloadFuncIndex_eq_neg_one_iff _ (.inl rfl)⟩

/-! ## Ids are injective -/

theorem reverse_takeWhile_isDigit {ds : List Char} (hds : ∀ c ∈ ds, c.isDigit) (base : List Char) :
    ((base ++ '_' :: '_' :: ds).reverse.takeWhile Char.isDigit).reverse = ds := by
  have hrev : ∀ c ∈ ds.reverse, c.isDigit := fun c hc => hds c (List.mem_reverse.mp hc)
  simp [List.takeWhile_append_of_pos hrev, show '_'.isDigit = false from rfl]

theorem index_suffix_data (n : Nat) :
    ("__" ++ toString ((n : Nat) : Int)).data = '_' :: '_' :: Nat.toDigits 10 n := rfl

theorem append_index_suffix_inj {x y : List Char} {m n : Nat}
    (h : x ++ '_' :: '_' :: Nat.toDigits 10 m = y ++ '_' :: '_' :: Nat.toDigits 10 n) :
    x = y ∧ m = n := by
  have hd := congrArg (fun l : List Char => (l.reverse.takeWhile Char.isDigit).reverse) h
  simp only [reverse_takeWhile_isDigit (decimalValue_toDigits _).1] at hd
  refine ⟨?_, ?_⟩
  · rw [hd] at h
    exact List.append_cancel_right h
  · rw [← (decimalValue_toDigits m).2.1, hd, (decimalValue_toDigits n).2.1]

theorem endsInIndexSuffix_of_eq {x y : String} {n : Nat}
    (h : x = y ++ "__" ++ toString ((n : Nat) : Int)) : EndsInIndexSuffix x :=
  ⟨y.data, Nat.toDigits 10 n, (decimalValue_toDigits n).2.2, (decimalValue_toDigits n).1, by
    rw [h, String.append_assoc, String.data_append, index_suffix_data]⟩

/-- **Ids are injective in (display name, index)** for display names that do not end in
`__<digits>` themselves. -/
theorem renderFunctionId_injective (a b : Item) (ha : ¬ EndsInIndexSuffix a.displayName)
    (hb : ¬ EndsInIndexSuffix b.displayName) (h : renderFunctionId a = renderFunctionId b) :
    a.displayName = b.displayName ∧ overloadFuncIndex a = overloadFuncIndex b := by
  rw [renderFunctionId_eq, renderFunctionId_eq] at h
  rcases overloadFuncIndex_eq_neg_one_or a with ha' | ⟨m, -, ha'⟩ <;>
    rcases overloadFuncIndex_eq_neg_one_or b with hb' | ⟨n, -, hb'⟩ <;>
    rw [ha', hb'] at h ⊢ <;> simp only [ne_eq, not_true_eq_false, if_false, natCast_ne_neg_one,
      not_false_eq_true, if_true] at h
  · exact ⟨h, rfl⟩
  · exact absurd (endsInIndexSuffix_of_eq h) ha
  · exact absurd (endsInIndexSuffix_of_eq h.symm) hb
  · have := append_index_suffix_inj (x := a.displayName.data) (y := b.displayName.data) (m := m)
      (n := n) (by simpa only [String.append_assoc, String.data_append, index_suffix_data]
        using congrArg String.data h)
    exact ⟨String.ext this.1, by rw [this.2]⟩

theorem renderFunctionId_injective_mul :
    ¬ EndsInIndexSuffix (Item.displayName ⟨"function", "Mul", "", "overload_func_index:1\nx"⟩) ∧
      ¬ EndsInIndexSuffix (Item.displayName ⟨"method", "Mul", "", "overload_func_index:1\ny"⟩) ∧
      renderFunctionId ⟨"function", "Mul", "", "overload_func_index:1\nx"⟩ =
        renderFunctionId ⟨"method", "Mul", "", "overload_func_index:1\ny"⟩ ∧
      (Item.displayName ⟨"function", "Mul", "", "overload_func_index:1\nx"⟩ =
          Item.displayName ⟨"method", "Mul", "", "overload_func_index:1\ny"⟩ ∧
        overloadFuncIndex ⟨"function", "Mul", "", "overload_func_index:1\nx"⟩ =
          overloadFuncIndex ⟨"method", "Mul", "", "overload_func_index:1\ny"⟩) := by
  have hmul : ¬ EndsInIndexSuffix "Mul" := by
    rintro ⟨base, ds, -, -, h⟩
    have : '_' ∈ "Mul".data := by rw [h]; simp
    exact absurd this (by decide)
  have hid : renderFunctionId ⟨"function", "Mul", "", "overload_func_index:1\nx"⟩ =
      renderFunctionId ⟨"method", "Mul", "", "overload_func_index:1\ny"⟩ := by
    have h1 : IsSentinel "overload_func_index:1\nx".data ['1'] ['x'] := ⟨by decide, by decide, rfl⟩
    have h2 : IsSentinel "overload_func_index:1\ny".data ['1'] ['y'] := ⟨by decide, by decide, rfl⟩
    rw [renderFunctionId_eq, renderFunctionId_eq, overloadFuncIndex_of_isSentinel (.inl rfl) h1,
      overloadFuncIndex_of_isSentinel (.inr rfl) h2]
    rfl
  exact ⟨hmul, hmul, hid, renderFunctionId_injective _ _ hmul hmul hid⟩

/-! ## The index on every item -/

end Pkgsite.Dochtml
