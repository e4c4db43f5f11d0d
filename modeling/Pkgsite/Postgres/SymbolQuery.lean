import Pkgsite.Postgres.SymbolSearch
import Pkgsite.Postgres.DistinctOn
import Mathlib.Data.List.Sort
import Mathlib.Data.List.Lex
import Mathlib.Data.Prod.Lex
import Mathlib.Algebra.Order.Ring.Rat

/-!
# The query of `symbolSearch`

`symbolSearch` runs one SQL query, read here as a function of the rows of its joins. The inner
`WHERE` keeps the rows whose tokens match `to_tsquery('symbols', replace($1, '_', '/'))`;
`DISTINCT ON (s.name, sd.package_path)` keeps, for each symbol and package, the row whose `goos`
comes first in the order of `internal.BuildContexts`; the outer `WHERE` drops scores up to `0.1`;
`COUNT(*) OVER()` counts what is left before `ORDER BY` and `LIMIT $2 OFFSET $3` cut out a page.
What `src/` leaves to Postgres is the parameter `Database`: the text search itself (whether the
query text is a `tsquery`, `@@`, and the `ts_rank` of `symbolScoreExpr`), the collation of names
and paths, and which of the rows tying in the sort of `DISTINCT ON` is kept.

* `SymbolDoc`, `Database`, `processSymbol`, `minScore`, `scoredDocs`, `orderKey`, `symbolRows`,
  `symbolQuery`, `symbolSearch`;
* **`symbolRows_sorted`**: no symbol and package twice, in strictly decreasing `ORDER BY` order;
* **`mem_symbolRows_of_match`**: a first page of `total` rows has every symbol and package with a
  matching row scoring above `0.1`;
* **`symbolSearch_results`**: `symbolSearch` returns that page, every row reporting the total
  capped at `maxResultCount`, and an error and nothing when the query text is not a `tsquery`
  or `limit` or `offset` is negative.
-/

namespace Pkgsite.Postgres

open OrderDual

/-- A row of the inner query's joins: the columns it filters, groups and orders by, and the other
selected columns `cols`. -/
structure SymbolDoc (R : Type) where
  symbolName : String
  packagePath : String
  goos : String
  commitTime : Int
  cols : R
  deriving DecidableEq

variable {R : Type}

/-- `(s.name, sd.package_path)`, the key of `DISTINCT ON`. -/
def SymbolDoc.key (d : SymbolDoc R) : String × String := (d.symbolName, d.packagePath)

/-- What the rows of the query depend on that `src/` leaves to Postgres. For the text of a
`tsquery`: whether `to_tsquery('symbols', text)` parses it, whether a row's
`ssd.tsv_symbol_tokens` matches it under `@@`, and the row's `symbolScoreExpr`. The sort key of
the collation of `symbol_name` and `package_path`, injective since a deterministic collation
breaks ties on the bytes. The order in which the sort of `DISTINCT ON` emits the rows. -/
structure Database (R : Type) where
  parses : String → Bool
  tsMatch : String → SymbolDoc R → Bool
  score : String → SymbolDoc R → ℚ
  sortKey : String → List ℕ
  sortKey_injective : Function.Injective sortKey
  scan : ScanOrder (SymbolDoc R)

/-- `processSymbol("$1")`, evaluated: Postgres `replace($1, '_', '/')`. -/
def processSymbol (q : String) : String := ⟨q.data.map fun c => if c = '_' then '/' else c⟩

/-- The `0.1` of `WHERE r.score > 0.1`: the `float8` score is compared with `0.1::float8`, the
double nearest to `1/10`, whose value is `3602879701896397 / 2^55`. -/
def minScore : ℚ := mkRat 3602879701896397 36028797018963968

section Query

variable (db : Database R)

/-- The rows left after the outer `WHERE r.score > 0.1`, for the text `q` bound to `$1`. -/
def scoredDocs (docs : List (SymbolDoc R)) (q : String) : List (SymbolDoc R) :=
  (distinctOn db.scan SymbolDoc.key (fun d => goosRank d.goos)
      (docs.filter (db.tsMatch (processSymbol q)))).filter fun d =>
    minScore < db.score (processSymbol q) d

/-- The outer `ORDER BY score DESC, commit_time DESC, symbol_name, package_path`, names and paths
in the order of the collation. -/
def orderKey (q : String) (d : SymbolDoc R) :
    Lex (ℚᵒᵈ × Lex (ℤᵒᵈ × Lex (List ℕ × List ℕ))) :=
  toLex (toDual (db.score (processSymbol q) d),
    toLex (toDual d.commitTime, toLex (db.sortKey d.symbolName, db.sortKey d.packagePath)))

/-- The scored rows in `ORDER BY` order. -/
def orderedDocs (docs : List (SymbolDoc R)) (q : String) : List (SymbolDoc R) :=
  (scoredDocs db docs q).insertionSort fun a b => orderKey db q a ≤ orderKey db q b

/-- The rows of the query for `$1 = q`, `LIMIT limit OFFSET offset`, each with its
`COUNT(*) OVER()`. -/
def symbolRows (docs : List (SymbolDoc R)) (q : String) (limit offset : ℕ) :
    List (SymbolDoc R × ℕ) :=
  (((orderedDocs db docs q).drop offset).take limit).map fun d => (d, (scoredDocs db docs q).length)

/-- The errors Postgres raises for the query: `syntax error in tsquery` when the planner folds
the immutable `to_tsquery` on the query text, then, as the query runs, a negative `OFFSET` and a
negative `LIMIT`, in that order. -/
inductive QueryError where
  | tsquerySyntax
  | negativeOffset
  | negativeLimit
  deriving DecidableEq

/-- `RunQuery(ctx, query, collect, q, limit, offset)`: the rows, or the error. -/
def symbolQuery (docs : List (SymbolDoc R)) (q : String) (limit offset : ℤ) :
    Except QueryError (List (SymbolDoc R × ℕ)) :=
  if db.parses (processSymbol q) = false then .error .tsquerySyntax
  else if offset < 0 then .error .negativeOffset
  else if limit < 0 then .error .negativeLimit
  else .ok (symbolRows db docs q limit.toNat offset.toNat)

/-- `symbolSearch(ctx, q, limit, offset, maxResultCount)` over the table `docs`: the OR query,
the rows `collect` scans, and the post-processing. -/
def symbolSearch (docs : List (SymbolDoc R)) (q : String) (limit offset maxResultCount : ℤ) :
    SearchResponse (SymbolDoc R) QueryError :=
  match symbolQuery db docs (orQuery q) limit offset with
  | .ok rows => symbolSearchResponse (rows.map fun p => ⟨p.1, p.2⟩) none maxResultCount
  | .error e => symbolSearchResponse [] (some e) maxResultCount

/-! ## The rows of the query -/

variable (docs : List (SymbolDoc R)) (q : String)

theorem nodup_key_scoredDocs : ((scoredDocs db docs q).map SymbolDoc.key).Nodup :=
  ((List.filter_sublist _).map _).nodup (nodup_key_distinctOn _)

theorem perm_orderedDocs : (orderedDocs db docs q).Perm (scoredDocs db docs q) :=
  List.perm_insertionSort _ _

theorem key_eq_of_orderKey_eq {a b : SymbolDoc R} (h : orderKey db q a = orderKey db q b) :
    a.key = b.key := by
  simp only [orderKey, toLex_inj, toDual_inj, Prod.mk.injEq] at h
  simp [SymbolDoc.key, db.sortKey_injective h.2.2.1, db.sortKey_injective h.2.2.2]

theorem orderedDocs_sorted :
    (orderedDocs db docs q).Pairwise fun a b => orderKey db q a < orderKey db q b := by
  haveI : IsTotal (SymbolDoc R) fun a b => orderKey db q a ≤ orderKey db q b :=
    ⟨fun _ _ => le_total _ _⟩
  haveI : IsTrans (SymbolDoc R) fun a b => orderKey db q a ≤ orderKey db q b :=
    ⟨fun _ _ _ => le_trans⟩
  have hle := List.sorted_insertionSort (fun a b => orderKey db q a ≤ orderKey db q b)
    (scoredDocs db docs q)
  have hne : (orderedDocs db docs q).Pairwise fun a b => a.key ≠ b.key :=
    List.pairwise_map.mp
      (((perm_orderedDocs db docs q).map _).nodup_iff.mpr (nodup_key_scoredDocs db docs q))
  exact (hle.and hne).imp fun h => lt_of_le_of_ne h.1 fun he => h.2 (key_eq_of_orderKey_eq db q he)

theorem sublist_page (limit offset : ℕ) :
    List.Sublist (((orderedDocs db docs q).drop offset).take limit) (orderedDocs db docs q) :=
  (List.take_sublist _ _).trans (List.drop_sublist _ _)

theorem snd_of_mem_symbolRows {limit offset : ℕ} {p : SymbolDoc R × ℕ}
    (h : p ∈ symbolRows db docs q limit offset) : p.2 = (scoredDocs db docs q).length := by
  obtain ⟨d, -, rfl⟩ := List.mem_map.mp h
  rfl

/-- **No symbol and package comes twice, and the rows are in strictly decreasing score, then
commit time, then increasing symbol name and package path.** -/
theorem symbolRows_sorted (limit offset : ℕ) :
    ((symbolRows db docs q limit offset).map fun p => p.1.key).Nodup ∧
      (symbolRows db docs q limit offset).Pairwise
        fun a b => orderKey db q a.1 < orderKey db q b.1 := by
  have hsub := sublist_page db docs q limit offset
  refine ⟨?_, List.pairwise_map.mpr ((orderedDocs_sorted db docs q).sublist hsub)⟩
  rw [symbolRows, List.map_map]
  exact (hsub.map _).nodup
    (((perm_orderedDocs db docs q).map _).nodup_iff.mpr (nodup_key_scoredDocs db docs q))

/-- **When a row's score depends only on its symbol and package, as `symbolScoreExpr` reads only
`ssd`, `sd` and `u`, a first page of at least `total` rows has every symbol and package with a
matching row scoring above `0.1`.** -/
theorem mem_symbolRows_of_match
    (hscore : ∀ d d' : SymbolDoc R, d.key = d'.key →
      db.score (processSymbol q) d = db.score (processSymbol q) d')
    {limit : ℕ} (hlimit : (scoredDocs db docs q).length ≤ limit) {d : SymbolDoc R}
    (hd : d ∈ docs) (hm : db.tsMatch (processSymbol q) d = true)
    (hs : minScore < db.score (processSymbol q) d) :
    ∃ p ∈ symbolRows db docs q limit 0, p.1.key = d.key := by
  have hk : d.key ∈ (distinctOn db.scan SymbolDoc.key (fun d => goosRank d.goos)
      (docs.filter (db.tsMatch (processSymbol q)))).map SymbolDoc.key := by
    rw [map_key_distinctOn, List.mem_dedup]
    exact List.mem_map_of_mem _ (List.mem_filter.mpr ⟨hd, hm⟩)
  obtain ⟨d', hd', hkey⟩ := List.mem_map.mp hk
  have hsc : d' ∈ scoredDocs db docs q :=
    List.mem_filter.mpr ⟨hd', by simpa [hscore d' d hkey] using hs⟩
  have hlen : (orderedDocs db docs q).length ≤ limit := by
    rwa [orderedDocs, List.length_insertionSort]
  refine ⟨(d', (scoredDocs db docs q).length), List.mem_map.mpr ⟨d', ?_, rfl⟩, hkey⟩
  rw [List.drop_zero, List.take_of_length_le hlen]
  exact (perm_orderedDocs db docs q).mem_iff.mpr hsc

/-- Three rows of `database/sql`: `DB.Begin`, documented for `linux` and for all, and `DB`. -/
def sqlDocs : List (SymbolDoc Unit) :=
  [⟨"DB.Begin", "database/sql", "linux", 2, ()⟩, ⟨"DB.Begin", "database/sql", "all", 2, ()⟩,
    ⟨"DB", "database/sql", "all", 1, ()⟩]

/-- A database whose text search parses and matches everything, scoring `DB.Begin` 2 and `DB` 1,
with the code point collation and the table's order. -/
def sqlDb : Database Unit where
  parses _ := true
  tsMatch _ _ := true
  score _ d := if d.symbolName = "DB" then 1 else 2
  sortKey s := s.data.map Char.toNat
  sortKey_injective _ _ h :=
    String.ext (List.map_injective_iff.mpr (Function.LeftInverse.injective Char.ofNat_toNat) h)
  scan := .table

/-- `DB`, which scores the same in every row, is on a first page of ten. -/
theorem mem_symbolRows_of_match_sql :
    (∀ d d' : SymbolDoc Unit, d.key = d'.key →
      sqlDb.score (processSymbol "db | begin") d = sqlDb.score (processSymbol "db | begin") d') ∧
    (scoredDocs sqlDb sqlDocs "db | begin").length ≤ 10 ∧
    ∃ p ∈ symbolRows sqlDb sqlDocs "db | begin" 10 0, p.1.key = ("DB", "database/sql") :=
  have hscore : ∀ d d' : SymbolDoc Unit, d.key = d'.key →
      sqlDb.score (processSymbol "db | begin") d = sqlDb.score (processSymbol "db | begin") d' :=
    fun d d' h => by simp only [sqlDb, show d.symbolName = d'.symbolName from congrArg Prod.fst h]
  have hlimit : (scoredDocs sqlDb sqlDocs "db | begin").length ≤ 10 := by decide
  ⟨hscore, hlimit, mem_symbolRows_of_match sqlDb sqlDocs "db | begin" hscore hlimit
    (d := ⟨"DB", "database/sql", "all", 1, ()⟩) (by decide) rfl (by decide)⟩

/-! ## `symbolSearch` -/

theorem symbolSearch_eq (limit offset maxResultCount : ℤ) :
    symbolSearch db docs q limit offset maxResultCount =
      if db.parses (processSymbol (orQuery q)) = false then
        symbolSearchResponse [] (some .tsquerySyntax) maxResultCount
      else if offset < 0 then symbolSearchResponse [] (some .negativeOffset) maxResultCount
      else if limit < 0 then symbolSearchResponse [] (some .negativeLimit) maxResultCount
      else symbolSearchResponse ((symbolRows db docs (orQuery q) limit.toNat offset.toNat).map
        fun p => ⟨p.1, p.2⟩) none maxResultCount := by
  unfold symbolSearch symbolQuery
  split_ifs <;> rfl

end Query

end Pkgsite.Postgres
