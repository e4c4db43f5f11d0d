import Pkgsite.Go.Strings
import Mathlib.Algebra.Group.Nat.Basic
import Mathlib.Algebra.Group.Int

/-!
# The end of `symbolSearch`

`symbolSearch` turns the user's query into an OR of its space-separated terms, runs the SQL
query, and then post-processes the rows `collect` gathered: a failed query drops them, and when
the first row's total `COUNT(*) OVER()` exceeds `uint64(maxResultCount)` every row's total is set
to that cap.

* `orQuery`, `toUint64`, `SearchResult`, `SearchResponse`, `symbolSearchResponse`;
* **`orQuery_eq`**: the OR query replaces every space by `" | "`;
* `numResults_of_total`, `map_row_symbolSearchResponse`: rows sharing one total all report
  `min total cap`, and nothing but the totals changes.
-/

namespace Pkgsite.Postgres

open Strings

/-- `strings.Join(strings.Split(q, " "), " | ")`: the terms of the query joined by `|`. -/
def orQuery (q : String) : String := join (split q ' ') " | "

/-- **The OR query replaces every space of the query by `" | "`.** -/
theorem orQuery_eq (q : String) :
    orQuery q = ⟨q.data.flatMap fun c => if c = ' ' then " | ".data else [c]⟩ :=
  join_split q ' ' " | "

/-- `uint64(m)` of an `int`: two's complement, so a negative `m` becomes `2^64 + m`. -/
def toUint64 (m : Int) : Nat := (m % 2 ^ 64).toNat

/-- A `SearchResult`: `NumResults`, the `COUNT(*) OVER()` total of its query, and the other
scanned columns `row`, which the post-processing does not read. -/
structure SearchResult (R : Type) where
  row : R
  numResults : Nat

/-- `searchResponse`. -/
structure SearchResponse (R E : Type) where
  source : String
  results : List (SearchResult R)
  err : Option E

variable {R E : Type}

/-- The end of `symbolSearch`, from the rows `collect` appended and the error of `RunQuery`. -/
def symbolSearchResponse (results : List (SearchResult R)) (err : Option E)
    (maxResultCount : Int) : SearchResponse R E :=
  let results := if err.isSome then [] else results
  let results :=
    match results.head? with
    | some r0 =>
      if r0.numResults > toUint64 maxResultCount then
        results.map fun r => { r with numResults := toUint64 maxResultCount }
      else results
    | none => results
  ⟨"symbol", results, err⟩

section Response

variable (results : List (SearchResult R)) (maxResultCount : Int)

theorem symbolSearchResponse_cons (r0 : SearchResult R) (rs : List (SearchResult R)) :
    (symbolSearchResponse (r0 :: rs) (none : Option E) maxResultCount).results =
      if toUint64 maxResultCount < r0.numResults then
        (r0 :: rs).map fun r => { r with numResults := toUint64 maxResultCount }
      else r0 :: rs := by
  simp only [symbolSearchResponse, Option.isSome_none, Bool.false_eq_true, if_false,
    List.head?_cons, gt_iff_lt]

theorem numResults_of_total {n : Nat} (h : ∀ r ∈ results, r.numResults = n) :
    ∀ r ∈ (symbolSearchResponse results (none : Option E) maxResultCount).results,
      r.numResults = min n (toUint64 maxResultCount) := by
  cases results with
  | nil => simp [symbolSearchResponse]
  | cons r0 rs =>
    have h0 := h r0 (List.mem_cons_self r0 rs)
    rw [symbolSearchResponse_cons]
    split_ifs with hcap
    · intro r hr
      obtain ⟨r', -, rfl⟩ := List.mem_map.mp hr
      dsimp only
      omega
    · intro r hr
      rw [h r hr]
      omega

theorem map_row_symbolSearchResponse :
    (symbolSearchResponse results (none : Option E) maxResultCount).results.map SearchResult.row =
      results.map SearchResult.row := by
  cases results with
  | nil => rfl
  | cons r0 rs =>
    rw [symbolSearchResponse_cons]
    split_ifs <;> simp [Function.comp_def]

end Response

end Pkgsite.Postgres
