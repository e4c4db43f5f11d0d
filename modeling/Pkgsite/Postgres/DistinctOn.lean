import Mathlib.Data.List.MinMax
import Mathlib.Data.List.Dedup
import Mathlib.Order.WithBot

/-!
# `DISTINCT ON` by build context

Both queries of `symbolsearch.go` keep one row per key with
`SELECT DISTINCT ON (<key>) ... ORDER BY <key>, CASE WHEN d.goos = 'all' THEN 0 ... END`, the
`CASE` following the order of `internal.BuildContexts`. Postgres keeps the first row of each key
in the order its sort emits them, and the `ORDER BY` fixes that order only up to rows that tie on
key and rank: which of such rows is kept is the parameter `ScanOrder`.

* `goosRank`, `ScanOrder`, `distinctOn`;
* `map_key_distinctOn`, `nodup_key_distinctOn`: exactly one row of every key is kept.
-/

namespace Pkgsite.Postgres

/-- `CASE WHEN d.goos = 'all' THEN 0 ... WHEN d.goos = 'js' THEN 4 END`; `⊤` is the `NULL` of
any other `goos`, which ascending order puts last. -/
def goosRank (goos : String) : WithTop ℕ :=
  if goos = "all" then .some 0
  else if goos = "linux" then .some 1
  else if goos = "windows" then .some 2
  else if goos = "darwin" then .some 3
  else if goos = "js" then .some 4
  else ⊤

/-- The order in which the sort of a `DISTINCT ON` emits the rows of a table: a permutation of
it, of which only the order among rows tying on key and rank matters. -/
structure ScanOrder (α : Type) where
  arrange : List α → List α
  perm : ∀ rows, (arrange rows).Perm rows

/-- The table's own order. -/
def ScanOrder.table {α : Type} : ScanOrder α := ⟨id, List.Perm.refl⟩

variable {α K : Type} [DecidableEq K]

/-- `SELECT DISTINCT ON (<key>) ... ORDER BY <key>, <rank>`: for each key, the first row of least
`rank` in the order `scan` emits the rows. -/
def distinctOn (scan : ScanOrder α) (key : α → K) (rank : α → WithTop ℕ) (rows : List α) :
    List α :=
  (rows.map key).dedup.filterMap fun k =>
    ((scan.arrange rows).filter fun r => key r = k).argmin rank

variable {scan : ScanOrder α} {key : α → K} {rank : α → WithTop ℕ}

theorem map_key_distinctOn (rows : List α) :
    (distinctOn scan key rank rows).map key = (rows.map key).dedup := by
  rw [distinctOn, List.map_filterMap]
  conv_rhs => rw [← List.filterMap_some (rows.map key).dedup]
  refine List.filterMap_congr fun k hk => ?_
  obtain ⟨r, hr, rfl⟩ := List.mem_map.mp (List.mem_dedup.mp hk)
  have hne : (scan.arrange rows).filter (fun r' => key r' = key r) ≠ [] :=
    List.ne_nil_of_mem (List.mem_filter.mpr ⟨(scan.perm rows).mem_iff.mpr hr, by simp⟩)
  obtain ⟨m, hm⟩ := Option.ne_none_iff_exists'.mp (mt (List.argmin_eq_none (f := rank)).mp hne)
  rw [hm, Option.map_some']
  simpa using (List.mem_filter.mp (List.argmin_mem hm)).2

theorem nodup_key_distinctOn (rows : List α) :
    ((distinctOn scan key rank rows).map key).Nodup := by
  rw [map_key_distinctOn]
  exact List.nodup_dedup _

end Pkgsite.Postgres
