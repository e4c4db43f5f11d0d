import Pkgsite.Postgres.DistinctOn

/-!
# `upsertSymbolSearchDocuments`

While the experiment `ExperimentInsertSymbolSearchDocuments` is active,
`upsertSymbolSearchDocuments` writes the symbols of one module version into
`symbol_search_documents` with one `INSERT ... SELECT DISTINCT ON ... ON CONFLICT DO UPDATE`:
one row per package and symbol of the version's units other than commands, with the
documentation of the first build context. The table's primary key
`(package_path_id, symbol_name_id)` stays unique; `SymbolSearchTable` carries that.

* `SymbolSource`, `SymbolSearchDoc`, `SymbolSearchTable`, `selectSymbolSearchDocuments`,
  `upsertRow`, `insertOnConflict`, `upsertSymbolSearchDocuments`;
* `mem_upsertRow`, `mem_foldl_upsertRow`: what `ON CONFLICT DO UPDATE` leaves in the table;
* **`upsertSymbolSearchDocuments_rows`**: the statement never fails, and the table then holds
  the selected rows and the old rows of every other key;
* `SymbolSearchTable.lookup`, `UpsertCall`, `UpsertCall.write`: the table read by primary key,
  and what one call means for that map;
* **`lookup_upsertRun`**: over any run of calls the table is that map, the last call that
  selected a key giving its row;
* **`upsertSymbolSearchDocuments_idem`**: a repeated call succeeds and changes nothing.
-/

namespace Pkgsite.Postgres

/-- A row of the `SELECT`'s joins of `search_documents sd`, `units u`, `documentation d`,
`documentation_symbols ds` and `package_symbols ps`: the columns the statement reads. -/
structure SymbolSource where
  modulePath : String
  version : String
  unitName : String
  packagePathId : Int
  symbolNameId : Int
  unitId : Int
  packageSymbolId : Int
  goos : String
  goarch : String
  deriving DecidableEq

/-- A row of `symbol_search_documents`: the columns the statement writes. -/
structure SymbolSearchDoc where
  packagePathId : Int
  symbolNameId : Int
  unitId : Int
  packageSymbolId : Int
  goos : String
  goarch : String
  deriving DecidableEq

/-- `(sd.package_path_id, ps.symbol_name_id)`, the key of `DISTINCT ON`. -/
def SymbolSource.key (r : SymbolSource) : Int × Int := (r.packagePathId, r.symbolNameId)

/-- `(package_path_id, symbol_name_id)`, the primary key and the conflict target. -/
def SymbolSearchDoc.key (r : SymbolSearchDoc) : Int × Int := (r.packagePathId, r.symbolNameId)

/-- The selected columns, in the order of the `INSERT`'s column list. -/
def SymbolSource.toDoc (r : SymbolSource) : SymbolSearchDoc :=
  ⟨r.packagePathId, r.symbolNameId, r.unitId, r.packageSymbolId, r.goos, r.goarch⟩

/-- `WHERE sd.module_path = $1 AND sd.version = $2 AND u.name != 'main'`. -/
def SymbolSource.selected (modulePath v : String) (r : SymbolSource) : Bool :=
  r.modulePath = modulePath ∧ r.version = v ∧ r.unitName ≠ "main"

/-- The `SELECT DISTINCT ON (sd.package_path_id, ps.symbol_name_id)` for `$1 = modulePath`,
`$2 = v`, its sort emitting the rows in the order `scan`. -/
def selectSymbolSearchDocuments (scan : ScanOrder SymbolSource) (source : List SymbolSource)
    (modulePath v : String) : List SymbolSearchDoc :=
  (distinctOn scan SymbolSource.key (fun r => goosRank r.goos)
    (source.filter (SymbolSource.selected modulePath v))).map SymbolSource.toDoc

/-- `ON CONFLICT (package_path_id, symbol_name_id) DO UPDATE SET unit_id = excluded.unit_id,
package_symbol_id = excluded.package_symbol_id, goos = excluded.goos, goarch = excluded.goarch`
for one proposed row: it updates the row of its key, or is inserted. -/
def upsertRow (rows : List SymbolSearchDoc) (r : SymbolSearchDoc) : List SymbolSearchDoc :=
  if rows.any fun t => t.key = r.key then
    rows.map fun t =>
      if t.key = r.key then
        { t with unitId := r.unitId, packageSymbolId := r.packageSymbolId, goos := r.goos,
                 goarch := r.goarch }
      else t
  else rows ++ [r]

section Row

variable {rows : List SymbolSearchDoc} {r t : SymbolSearchDoc}

theorem mem_upsertRow : t ∈ upsertRow rows r ↔ t = r ∨ (t ∈ rows ∧ t.key ≠ r.key) := by
  unfold upsertRow
  split_ifs with hany
  · obtain ⟨s, hs, hsr⟩ := List.any_eq_true.mp hany
    have hupd : ∀ s : SymbolSearchDoc, s.key = r.key →
        { s with unitId := r.unitId, packageSymbolId := r.packageSymbolId, goos := r.goos,
                 goarch := r.goarch } = r := fun s h => by
      simp only [SymbolSearchDoc.key, Prod.mk.injEq] at h
      cases s
      cases r
      simp_all
    simp only [List.mem_map]
    constructor
    · rintro ⟨s, hs, rfl⟩
      split_ifs with h
      · exact .inl (hupd s h)
      · exact .inr ⟨hs, h⟩
    · rintro (rfl | ⟨ht, hk⟩)
      · exact ⟨s, hs, by rw [if_pos (of_decide_eq_true hsr), hupd s (of_decide_eq_true hsr)]⟩
      · exact ⟨t, ht, if_neg hk⟩
  · simp only [List.any_eq_true, decide_eq_true_eq, not_exists, not_and] at hany
    simp only [List.mem_append, List.mem_singleton]
    constructor
    · rintro (ht | rfl)
      · exact .inr ⟨ht, hany t ht⟩
      · exact .inl rfl
    · rintro (rfl | ⟨ht, -⟩)
      · exact .inr rfl
      · exact .inl ht

theorem map_key_upsertRow :
    (upsertRow rows r).map SymbolSearchDoc.key =
      if rows.any (fun t => t.key = r.key) then rows.map SymbolSearchDoc.key
      else rows.map SymbolSearchDoc.key ++ [r.key] := by
  unfold upsertRow
  split_ifs
  · rw [List.map_map]
    exact List.map_congr_left fun t _ => by dsimp only [Function.comp_def]; split_ifs <;> rfl
  · simp

theorem nodup_key_upsertRow (h : (rows.map SymbolSearchDoc.key).Nodup) (r : SymbolSearchDoc) :
    ((upsertRow rows r).map SymbolSearchDoc.key).Nodup := by
  rw [map_key_upsertRow]
  split_ifs with hany
  · exact h
  · simp only [List.any_eq_true, decide_eq_true_eq, not_exists, not_and] at hany
    refine List.nodup_append.mpr ⟨h, List.nodup_singleton _, ?_⟩
    simp only [List.disjoint_singleton, List.mem_map, not_exists, not_and]
    exact hany

theorem mem_foldl_upsertRow :
    ∀ {rows new : List SymbolSearchDoc}, (new.map SymbolSearchDoc.key).Nodup →
      (t ∈ new.foldl upsertRow rows ↔
        t ∈ new ∨ (t ∈ rows ∧ t.key ∉ new.map SymbolSearchDoc.key))
  | rows, [], _ => by simp
  | rows, r :: new, h => by
    obtain ⟨hr, hnew⟩ := List.nodup_cons.mp h
    rw [List.foldl_cons, mem_foldl_upsertRow hnew, mem_upsertRow]
    simp only [List.mem_cons, List.map_cons]
    constructor
    · rintro (ht | ⟨rfl | ⟨ht, hk⟩, hk'⟩)
      · exact .inl (.inr ht)
      · exact .inl (.inl rfl)
      · exact .inr ⟨ht, by simp [hk, hk']⟩
    · rintro ((rfl | ht) | ⟨ht, hk⟩)
      · exact .inr ⟨.inl rfl, hr⟩
      · exact .inl ht
      · simp only [not_or] at hk
        exact .inr ⟨.inr ⟨ht, hk.1⟩, hk.2⟩

end Row

/-- `symbol_search_documents`, whose primary key `(package_path_id, symbol_name_id)` is
unique. -/
structure SymbolSearchTable where
  rows : List SymbolSearchDoc
  nodup_key : (rows.map SymbolSearchDoc.key).Nodup

/-- One proposed row of `INSERT ... ON CONFLICT DO UPDATE`. -/
def SymbolSearchTable.upsertRow (t : SymbolSearchTable) (r : SymbolSearchDoc) :
    SymbolSearchTable :=
  ⟨Postgres.upsertRow t.rows r, nodup_key_upsertRow t.nodup_key r⟩

/-- What makes the statement fail: two proposed rows of one key, which Postgres refuses as
`ON CONFLICT DO UPDATE command cannot affect row a second time`. -/
inductive UpsertError where
  | cardinalityViolation
  deriving DecidableEq

/-- `INSERT INTO symbol_search_documents (...) <rows> ON CONFLICT ... DO UPDATE ...`. -/
def insertOnConflict (t : SymbolSearchTable) (new : List SymbolSearchDoc) :
    Except UpsertError SymbolSearchTable :=
  if (new.map SymbolSearchDoc.key).Nodup then .ok (new.foldl SymbolSearchTable.upsertRow t)
  else .error .cardinalityViolation

/-- The error `derrors.Wrap(&err, "upsertSymbolSearchDocuments(ctx, ddb, %q, %q)", modulePath, v)`
returns: the statement's error, with the module path and the version. -/
structure UpsertFailure where
  modulePath : String
  version : String
  cause : UpsertError

/-- `upsertSymbolSearchDocuments(ctx, tx, modulePath, v)`, with `active` the experiment's state:
the table after the call, and the error. A failed statement changes nothing. -/
def upsertSymbolSearchDocuments (scan : ScanOrder SymbolSource) (active : Bool)
    (source : List SymbolSource) (table : SymbolSearchTable) (modulePath v : String) :
    SymbolSearchTable × Option UpsertFailure :=
  if active then
    match insertOnConflict table (selectSymbolSearchDocuments scan source modulePath v) with
    | .ok t => (t, none)
    | .error e => (table, some ⟨modulePath, v, e⟩)
  else (table, none)

theorem rows_foldl_upsertRow :
    ∀ (t : SymbolSearchTable) (new : List SymbolSearchDoc),
      (new.foldl SymbolSearchTable.upsertRow t).rows = new.foldl Postgres.upsertRow t.rows
  | _, [] => rfl
  | t, r :: new => rows_foldl_upsertRow (t.upsertRow r) new

section Upsert

variable (scan : ScanOrder SymbolSource) (source : List SymbolSource) (modulePath v : String)

theorem nodup_key_selectSymbolSearchDocuments :
    ((selectSymbolSearchDocuments scan source modulePath v).map SymbolSearchDoc.key).Nodup := by
  rw [selectSymbolSearchDocuments, List.map_map]
  exact nodup_key_distinctOn _

/-- **The statement never fails, since `DISTINCT ON` proposes each key once; afterwards the
table holds the selected rows and the old rows of every other key, and while the experiment is
off it is left as it was.** -/
theorem upsertSymbolSearchDocuments_rows (active : Bool) (table : SymbolSearchTable)
    (t : SymbolSearchDoc) :
    (upsertSymbolSearchDocuments scan active source table modulePath v).2 = none ∧
    (t ∈ (upsertSymbolSearchDocuments scan active source table modulePath v).1.rows ↔
      if active then
        t ∈ selectSymbolSearchDocuments scan source modulePath v ∨
          (t ∈ table.rows ∧ t.key ∉
            (selectSymbolSearchDocuments scan source modulePath v).map SymbolSearchDoc.key)
      else t ∈ table.rows) := by
  cases active with
  | false => simp [upsertSymbolSearchDocuments]
  | true =>
    have hnodup := nodup_key_selectSymbolSearchDocuments scan source modulePath v
    simp only [upsertSymbolSearchDocuments, insertOnConflict, if_pos hnodup, if_true, true_and]
    rw [rows_foldl_upsertRow, mem_foldl_upsertRow hnodup]

end Upsert

/-! ## The table over a run of calls -/

/-- The table read as a map from its primary key: the row of key `k`, if any. -/
def SymbolSearchTable.lookup (t : SymbolSearchTable) (k : Int × Int) : Option SymbolSearchDoc :=
  t.rows.find? fun r => r.key = k

theorem SymbolSearchTable.ext {t t' : SymbolSearchTable} (h : t.rows = t'.rows) : t = t' := by
  cases t
  cases t'
  subst h
  rfl

/-- One call `upsertSymbolSearchDocuments(ctx, tx, modulePath, v)`: the experiment's state, the
rows of the joins when it runs, the order its sort emits them in, and its module version. -/
structure UpsertCall where
  active : Bool
  source : List SymbolSource
  scan : ScanOrder SymbolSource
  modulePath : String
  version : String

/-- The table a call leaves. -/
def UpsertCall.run (c : UpsertCall) (t : SymbolSearchTable) : SymbolSearchTable :=
  (upsertSymbolSearchDocuments c.scan c.active c.source t c.modulePath c.version).1

/-- What a call means for a map from primary key to row: while the experiment is active, every
key it selects is overwritten by the selected row, and the others are left alone. -/
def UpsertCall.write (c : UpsertCall) (m : Int × Int → Option SymbolSearchDoc) :
    Int × Int → Option SymbolSearchDoc := fun k =>
  if c.active then
    ((selectSymbolSearchDocuments c.scan c.source c.modulePath c.version).find?
      fun r => r.key = k).or
      (m k)
  else m k

section Lookup

variable {rows : List SymbolSearchDoc} {r x : SymbolSearchDoc} {k : Int × Int}

theorem find?_key_eq_some (h : (rows.map SymbolSearchDoc.key).Nodup) :
    rows.find? (fun r => r.key = k) = some x ↔ x ∈ rows ∧ x.key = k := by
  refine ⟨fun hx => ⟨List.mem_of_find?_eq_some hx, by simpa using List.find?_some hx⟩, ?_⟩
  rintro ⟨hx, rfl⟩
  have hsome : (rows.find? fun r => r.key = x.key).isSome :=
    List.find?_isSome.mpr ⟨x, hx, by simp⟩
  obtain ⟨y, hy⟩ := Option.isSome_iff_exists.mp hsome
  have hyk : y.key = x.key := by simpa using List.find?_some hy
  rw [hy, List.inj_on_of_nodup_map h (List.mem_of_find?_eq_some hy) hx hyk]

theorem lookup_foldl_upsertRow (t : SymbolSearchTable) {new : List SymbolSearchDoc}
    (h : (new.map SymbolSearchDoc.key).Nodup) (k : Int × Int) :
    (new.foldl SymbolSearchTable.upsertRow t).lookup k =
      (new.find? fun r => r.key = k).or (t.lookup k) := by
  refine Option.ext fun x => ?_
  have hrows := rows_foldl_upsertRow t new
  rw [Option.mem_def, Option.mem_def, Option.or_eq_some, SymbolSearchTable.lookup,
    SymbolSearchTable.lookup, find?_key_eq_some (new.foldl _ t).nodup_key, hrows,
    mem_foldl_upsertRow h, find?_key_eq_some h, find?_key_eq_some t.nodup_key, List.find?_eq_none]
  simp only [List.mem_map, not_exists, not_and, decide_eq_true_eq]
  constructor
  · rintro ⟨hx | ⟨hx, hnk⟩, rfl⟩
    exacts [.inl ⟨hx, rfl⟩, .inr ⟨hnk, hx, rfl⟩]
  · rintro (⟨hx, rfl⟩ | ⟨hnone, hx, rfl⟩)
    exacts [⟨.inl hx, rfl⟩, ⟨.inr ⟨hx, hnone⟩, rfl⟩]

theorem lookup_run (c : UpsertCall) (t : SymbolSearchTable) :
    (c.run t).lookup = c.write t.lookup := by
  obtain ⟨active, source, scan, modulePath, v⟩ := c
  cases active with
  | false => rfl
  | true =>
    have hnodup := nodup_key_selectSymbolSearchDocuments scan source modulePath v
    funext k
    simp only [UpsertCall.run, UpsertCall.write, upsertSymbolSearchDocuments, insertOnConflict,
      if_pos hnodup, if_true]
    exact lookup_foldl_upsertRow t hnodup k

/-- **Last writer wins: read by its primary key, the table after any run of calls is the map that
each active call overwrites at the keys it selects; every key holds the row of the last call that
selected it, or else the row it held before the run.** -/
theorem lookup_upsertRun (t : SymbolSearchTable) (calls : List UpsertCall) :
    (calls.foldl (fun t c => c.run t) t).lookup = calls.foldl (fun m c => c.write m) t.lookup := by
  induction calls generalizing t with
  | nil => rfl
  | cons c calls ih => rw [List.foldl_cons, List.foldl_cons, ih, lookup_run]

theorem upsertRow_of_mem (h : (rows.map SymbolSearchDoc.key).Nodup) (hr : r ∈ rows) :
    upsertRow rows r = rows := by
  rw [upsertRow, if_pos (List.any_eq_true.mpr ⟨r, hr, by simp⟩)]
  conv_rhs => rw [← List.map_id rows]
  refine List.map_congr_left fun t ht => ?_
  split_ifs with hk
  · obtain rfl := List.inj_on_of_nodup_map h ht hr hk
    rfl
  · rfl

theorem foldl_upsertRow_of_subset :
    ∀ {rows new : List SymbolSearchDoc}, (rows.map SymbolSearchDoc.key).Nodup →
      (∀ r ∈ new, r ∈ rows) → new.foldl upsertRow rows = rows
  | _, [], _, _ => rfl
  | rows, r :: new, h, hsub => by
    rw [List.foldl_cons, upsertRow_of_mem h (hsub r (List.mem_cons_self r new))]
    exact foldl_upsertRow_of_subset h fun r' hr' => hsub r' (List.mem_cons_of_mem r hr')

theorem foldl_upsertRow_idem (t : SymbolSearchTable) {new : List SymbolSearchDoc}
    (h : (new.map SymbolSearchDoc.key).Nodup) :
    new.foldl SymbolSearchTable.upsertRow (new.foldl SymbolSearchTable.upsertRow t) =
      new.foldl SymbolSearchTable.upsertRow t := by
  refine SymbolSearchTable.ext ?_
  have hrows := rows_foldl_upsertRow t new
  rw [rows_foldl_upsertRow, hrows]
  exact foldl_upsertRow_of_subset (hrows ▸ (new.foldl _ t).nodup_key)
    fun r hr => (mem_foldl_upsertRow h).mpr (.inl hr)

end Lookup

/-- **A repeated call changes nothing: run again on the table it left, with the same rows of the
joins, `upsertSymbolSearchDocuments` succeeds and leaves the table as it is.** -/
theorem upsertSymbolSearchDocuments_idem (scan : ScanOrder SymbolSource) (active : Bool)
    (source : List SymbolSource) (table : SymbolSearchTable) (modulePath v : String) :
    upsertSymbolSearchDocuments scan active source
        (upsertSymbolSearchDocuments scan active source table modulePath v).1 modulePath v =
      ((upsertSymbolSearchDocuments scan active source table modulePath v).1, none) := by
  cases active with
  | false => rfl
  | true =>
    have hnodup := nodup_key_selectSymbolSearchDocuments scan source modulePath v
    simp only [upsertSymbolSearchDocuments, insertOnConflict, if_pos hnodup, if_true,
      foldl_upsertRow_idem table hnodup]

end Pkgsite.Postgres
