import FuServer.Cache.Loading
import FuServer.Lib.KeyedTable
import FuServer.Lib.Runs
import FuServer.Utils.Increment

/-!
# The cache is a keyed table

`cache_refines`: on a loaded table with an integer or string key, every run of
`InsertDB`, `ModifyDB` and key-equality `QueryDB` calls is a run of the
abstract keyed table with the same replies.  A record is read as the row that
maps each column to the text of its field.
-/

namespace FuServer

open Bytes Decimal Outcome KeyedTable Runs

namespace DBTable

variable {fp : FloatUnit}

/-! ## Records as rows -/

/-- A column of the table, by name. -/
abbrev Column (names : List Str) := { c : Str // c ∈ names }

/-- The text of each column of a record. -/
def rowOf (names : List Str) (r : DBRecord) (c : Column names) : Str :=
  (r.fieldList.getD (names.idxOf c.1) {}).sData

/-- What a name map says about the columns of the table. -/
def columnsOf (names : List Str) (d : UMap Str Str) (c : Column names) : Option Str := d.lookup c.1

/-- The layout of a table with these columns and this key. -/
def layout (names : List Str) (key : Column names) : Layout Str (Column names) Str where
  columns := names.attach
  key := key
  write := id
  blank := []

/-- The rows of a table. -/
def rowsOf (names : List Str) (t : DBTable fp) : Rows Str (Column names) Str :=
  rows (rowOf names) t.recordSet

/-- A table the refinement is about: well formed, with these distinct columns, a
key column that has a name and is of integer or string type, and no row under
the empty key. -/
structure Loaded (names : List Str) (key : Column names) (t : DBTable fp) : Prop extends
    WellFormed t where
  columns : t.fieldNameList = names
  distinct : names.Nodup
  keyed : t.keyName = key.1
  named : key.1 ≠ []
  keyType : isIntegerType t.keyType = true ∨ t.keyType = dbStringT
  rows : [] ∉ t.recordSet

/-! ## What the calls do to a row -/

section Row

variable {names : List Str} {key : Column names} {t : DBTable fp}

theorem rowOf_newRecord (h : Loaded names key t) (d : UMap Str Str) :
    rowOf names (t.newRecord d) = (layout names key).newRow (t.newKey d) (columnsOf names d) := by
  obtain ⟨hwf, rfl, hdistinct, hkey, -, -, -⟩ := h
  funext ⟨c, hc⟩
  have hlt := List.idxOf_lt_length_of_mem hc
  have hget : t.fieldNameList.getD (t.fieldNameList.idxOf c) [] = c := by
    rw [List.getD_eq_getElem _ _ hlt, List.getElem_idxOf hlt]
  have hidx := keyIndex_iff hwf.schema hdistinct hc
  have hck : (⟨c, hc⟩ : Column t.fieldNameList) = key ↔ c = t.keyName := by
    rw [hkey, ← Subtype.val_inj]
  have hfield : ∀ g : Nat → UInt16 → DBField,
      rowOf t.fieldNameList { fieldList := t.buildFields g } ⟨c, hc⟩ =
        (g (t.fieldNameList.idxOf c) (t.fieldTypeList.getD (t.fieldNameList.idxOf c) 0)).sData := by
    intro g
    rw [rowOf, List.getD_eq_getElem?_getD, getElem?_buildFields t g hlt]
    rfl
  generalize t.fieldTypeList.getD (t.fieldNameList.idxOf c) 0 = iType at hfield
  rw [newRecord, hfield]
  show _ = if (⟨c, hc⟩ : Column t.fieldNameList) = key then t.newKey d else (d.lookup c).getD []
  by_cases he : d.entries = []
  · have hnone : d.lookup c = none := by
      rw [show d = ∅ from AList.ext he]
      exact AList.lookup_empty c
    rw [if_pos he, keyOnlyField, hnone]
    by_cases hcn : c = t.keyName
    · rw [if_pos (hck.mpr hcn), if_pos (by simpa using hidx.mpr hcn), DBField.setData_sData]
    · rw [if_neg (fun h' => hcn (hck.mp h')), if_neg (by simpa using fun h' => hcn (hidx.mp h'))]
      rfl
  · rw [if_neg he, namedField, hget]
    by_cases hcn : c = t.keyName
    · rw [if_pos (hck.mpr hcn), if_pos (by simpa using hcn), DBField.setData_sData]
    · rw [if_neg (fun h' => hcn (hck.mp h')), if_neg (by simpa using hcn)]
      cases d.lookup c <;> rfl

/-- The assignments of a whole name map amend the row. -/
theorem rowOf_foldl_assignNamed (h : Loaded names key t) (dataList : List (Σ _ : Str, Str))
    (hnd : dataList.NodupKeys) (hall : ∀ e ∈ dataList, e.1 ∈ names) (r : DBRecord)
    (hw : r.fieldList.length = names.length) :
    rowOf names (dataList.foldl t.assignNamed r) =
      (layout names key).amend (fun c => dataList.dlookup c.1) (rowOf names r) := by
  obtain ⟨hwf, rfl, hdistinct, hkey, -, -, -⟩ := h
  funext ⟨c, hc⟩
  have hck : (⟨c, hc⟩ : Column t.fieldNameList) = key ↔ c = t.keyName := by
    rw [hkey, ← Subtype.val_inj]
  show ((dataList.foldl t.assignNamed r).fieldList.getD (t.fieldNameList.idxOf c) {}).sData =
    if (⟨c, hc⟩ : Column t.fieldNameList) = key then _ else _
  rw [sData_foldl_assignNamed hwf.schema hdistinct dataList hnd hall r hw hc]
  by_cases hcn : c = t.keyName
  · rw [if_pos hcn, if_pos (hck.mpr hcn)]
    rfl
  · rw [if_neg hcn, if_neg fun h' => hcn (hck.mp h')]
    rfl

/-- A row of the query's answer lists the record's columns in order. -/
theorem checkDataList_eq (h : Loaded names key t) {r : DBRecord}
    (hw : r.fieldList.length = names.length) :
    r.checkDataList = (layout names key).columns.map (rowOf names r) := by
  show r.fieldList.map (·.sData) = names.attach.map (rowOf names r)
  apply List.ext_getElem
  · simp [hw]
  · intro i h1 h2
    have hi : i < r.fieldList.length := by simpa using h1
    have hi' : i < names.length := by omega
    rw [List.getElem_map, List.getElem_map, List.getElem_attach, rowOf,
      h.distinct.idxOf_getElem i hi', List.getD_eq_getElem _ _ hi]

theorem nextKey_ne_nil (h : Loaded names key t) : t.nextKey ≠ [] := by
  have htype : (isIntegerType t.keyType || t.keyType == dbStringT) = true := by
    rcases h.keyType with hi | hs
    · rw [hi, Bool.true_or]
    · rw [hs]
      rfl
  rw [nextKey, if_pos htype]
  exact fuStrIncrement_ne_nil t.sMaxKey

end Row

/-! ## Tables after a change -/

section Change

variable {names : List Str} {key : Column names} {t : DBTable fp}

theorem rowsOf_addRecord {k : Str} (hk : k ∉ t.recordSet) (r : DBRecord) :
    rowsOf names (t.addRecord k r) = Function.update (rowsOf names t) k (some (rowOf names r)) :=
  rows_insertNew (rowOf names) hk r

theorem rowsOf_putRecord {k : Str} {r0 : DBRecord} (hk : t.recordSet.lookup k = some r0)
    (r : DBRecord) :
    rowsOf names (t.putRecord k r) = Function.update (rowsOf names t) k (some (rowOf names r)) :=
  rows_adjust (rowOf names) hk fun _ => r

theorem Loaded.addRecord (h : Loaded names key t) {k : Str} {r : DBRecord} (hk : k ∉ t.recordSet)
    (h0 : k ≠ []) (hr : t.KeyedBy k r) : Loaded names key (t.addRecord k r) := by
  refine ⟨h.toWellFormed.addRecord hk hr, h.columns, h.distinct, h.keyed, h.named, h.keyType, ?_⟩
  rw [addRecord_recordSet, UMap.mem_insertNew]
  rintro (h' | h')
  · exact h0 h'.symm
  · exact h.rows h'

theorem Loaded.putRecord (h : Loaded names key t) {k : Str} {r : DBRecord} (hr : t.KeyedBy k r) :
    Loaded names key (t.putRecord k r) := by
  refine ⟨h.toWellFormed.putRecord hr, h.columns, h.distinct, h.keyed, h.named, h.keyType, ?_⟩
  show [] ∉ UMap.adjust k _ t.recordSet
  rw [UMap.mem_adjust]
  exact h.rows

end Change

end DBTable

namespace DBManager

open DBTable

variable {fp : FloatUnit}

/-- A table that `LoadTable` has added is one the refinement is about, when its
columns have distinct names and its key column a name and one of the two kinds
of type. -/
theorem loaded_of_loadTable {m m' : DBManager fp} {dbname tname : Str} {reply : LoadReply} {b : Bool}
    (hc : reply.Consistent) (hs : m.loadTable dbname tname reply = .ok (m', b))
    (hnew : tname ∉ m.tableSet) {t : DBTable fp} (hm : m'.tableSet.lookup tname = some t)
    (hdistinct : t.fieldNameList.Nodup) (hnamed : t.keyName ≠ [])
    (htype : isIntegerType t.keyType = true ∨ t.keyType = dbStringT) :
    ∃ key : Column t.fieldNameList, t.Loaded t.fieldNameList key := by
  have hset := enterDB_tableSet m dbname reply.useOk
  rcases loadTable_cases hc hs with (rfl | rfl) | ⟨t', hnot, -, rfl, ht, hrows, -⟩
  · exact absurd (UMap.mem_of_lookup hm) hnew
  · rw [hset] at hm
    exact absurd (UMap.mem_of_lookup hm) hnew
  · rw [UMap.lookup_insertNew, hset, if_pos ⟨rfl, hnot⟩] at hm
    cases hm
    exact ⟨⟨t.keyName, keyName_mem ht.schema⟩, ht, rfl, hdistinct, rfl, hnamed, htype, hrows⟩

/-! ## Calls -/

/-- A client call on one table. -/
inductive ClientCall
  | insert (dataList : UMap Str Str)
  | modify (dataKey : Str) (dataList : UMap Str Str)
  | query (dataKey : Str)

/-- The calls the refinement is about: given keys are not empty, and a
modification names only columns of the table. -/
def Admissible (names : List Str) (key : Column names) : ClientCall → Prop
  | .insert d => d.lookup key.1 ≠ some []
  | .modify _ d => ∀ c ∈ d.keys, c ∈ names
  | .query _ => True

instance (names : List Str) (key : Column names) (c : ClientCall) : Decidable (Admissible names key c) :=
  match c with
  | .insert d => inferInstanceAs (Decidable (d.lookup key.1 ≠ some []))
  | .modify _ d => inferInstanceAs (Decidable (∀ c ∈ d.keys, c ∈ names))
  | .query _ => isTrue trivial

/-- The call on the abstract table. -/
def abstractCall (names : List Str) (key : Column names) :
    ClientCall → Call Str (Column names) Str
  | .insert d => .insert (columnsOf names d key) (columnsOf names d)
  | .modify k d => .modify k (columnsOf names d)
  | .query k => .query k

/-- Run a call on table `tname`; an empty returned key is no key. -/
def clientStep (ord : HashOrder) (tname keyName : Str) (m : DBManager fp) :
    ClientCall → Option (DBManager fp × Reply Str Str)
  | .insert d =>
    match m.insertDB tname d with
    | .ok (m', k) => some (m', .inserted (if k = [] then none else some k))
    | .error _ => none
  | .modify k d =>
    match m.modifyDB tname k d with
    | .ok (m', ok) => some (m', .modified ok)
    | .error _ => none
  | .query k =>
    match m.queryDB ord [] [] tname keyName ⟨k, [], []⟩ with
    | .ok (ok, records, _) => some (m, .found ok records)
    | .error _ => none

/-- The manager's table `tname` is loaded and holds the rows `T`; the other tables are those of `m0`. -/
def Holds (m0 : DBManager fp) (tname : Str) (names : List Str) (key : Column names)
    (m : DBManager fp) (T : Rows Str (Column names) Str) : Prop :=
  (∃ t, m.tableSet.lookup tname = some t ∧ t.Loaded names key ∧ T = t.rowsOf names) ∧
    ∀ tname', tname' ≠ tname → m.tableSet.lookup tname' = m0.tableSet.lookup tname'

section Calls

variable {names : List Str} {key : Column names} {m0 m : DBManager fp} {tname : Str} {t : DBTable fp}

theorem Holds.put {T : Rows Str (Column names) Str} (h : Holds m0 tname names key m T)
    {t' : DBTable fp} (ht' : t'.Loaded names key) :
    Holds m0 tname names key (m.putTable tname t') (t'.rowsOf names) := by
  obtain ⟨⟨t, hm, -, -⟩, hframe⟩ := h
  refine ⟨⟨t', lookup_putTable_self hm t', ht', rfl⟩, fun tname' hne => ?_⟩
  rw [lookup_putTable, if_neg hne]
  exact hframe tname' hne

/-- An insertion: refused with nothing changed, or one new row under a new key. -/
theorem refines_insert (hn : tname ≠ []) {T : Rows Str (Column names) Str}
    (hR : Holds m0 tname names key m T) (ord : HashOrder) (d : UMap Str Str)
    (hok : Admissible names key (.insert d)) :
    ∃ m' reply T', clientStep ord tname key.1 m (.insert d) = some (m', reply) ∧
      Step (layout names key) T (abstractCall names key (.insert d)) reply T' ∧
      Holds m0 tname names key m' T' := by
  obtain ⟨⟨t, hm, ht, rfl⟩, hframe⟩ := id hR
  have hgiven : ∀ k ∈ columnsOf names d key, k = t.newKey d := by
    intro k hk
    unfold newKey
    rw [ht.keyed, show d.lookup key.1 = some k from hk]
    rfl
  have hnil : t.newKey d ≠ [] := by
    unfold newKey
    rw [ht.keyed]
    cases hk : d.lookup key.1 with
    | none => exact nextKey_ne_nil ht
    | some k =>
      rintro rfl
      exact hok hk
  unfold clientStep
  dsimp only
  rw [insertDB_eq hn hm ht.schema d]
  by_cases hr : t.Refuses d
  · rw [if_pos hr]
    refine ⟨m, _, _, rfl, Step.refuse fun k hk => ?_, hR⟩
    rcases hr with hmem | ⟨-, h0⟩
    · rw [hgiven k hk]
      exact fun hnone => rows_eq_none.mp hnone hmem
    · exact absurd h0 hnil
  · rw [if_neg hr]
    have hk : t.newKey d ∉ t.recordSet := fun hk => hr (Or.inl hk)
    have hkeyed := (keyedBy_setIsInsert true).mpr (newRecord_keyed ht.schema d)
    have hrow : rowOf names ((t.newRecord d).setIsInsert true) =
        (layout names key).newRow (t.newKey d) (columnsOf names d) := rowOf_newRecord ht d
    refine ⟨_, _, _, rfl, ?_, hR.put (ht.addRecord hk hnil hkeyed)⟩
    rw [rowsOf_addRecord hk, hrow]
    rw [if_neg hnil]
    exact Step.insert (rows_eq_none.mpr hk) hgiven

/-- A modification changes the named columns of the row, or fails on an absent key. -/
theorem refines_modify (hn : tname ≠ []) {T : Rows Str (Column names) Str}
    (hR : Holds m0 tname names key m T) (ord : HashOrder) (k : Str) (d : UMap Str Str)
    (hok : Admissible names key (.modify k d)) :
    ∃ m' reply T', clientStep ord tname key.1 m (.modify k d) = some (m', reply) ∧
      Step (layout names key) T (abstractCall names key (.modify k d)) reply T' ∧
      Holds m0 tname names key m' T' := by
  obtain ⟨⟨t, hm, ht, rfl⟩, hframe⟩ := id hR
  unfold clientStep
  dsimp only
  cases hr : t.recordSet.lookup k with
  | none =>
    have hk : k ∉ t.recordSet := AList.lookup_eq_none.mp hr
    rw [modifyDB_of_notMem hm hk]
    exact ⟨m, _, _, rfl, Step.modifyAbsent (rows_eq_none.mpr hk), hR⟩
  | some r =>
    have h0 : k ≠ [] := by
      rintro rfl
      exact ht.rows (UMap.mem_of_lookup hr)
    have hw := ht.toWellFormed.width hr
    have hall : ∀ c ∈ d.keys, c ∈ t.fieldNameList := by
      rw [ht.columns]
      exact hok
    have halle : ∀ e ∈ d.entries, e.1 ∈ t.fieldNameList :=
      fun e he => hall e.1 (List.mem_map_of_mem he)
    have hkeyed := keyedBy_foldl_assignNamed ht.schema d.entries r (ht.agree k r hr) halle
    have hrow := rowOf_foldl_assignNamed ht d.entries d.nodupKeys
      (by rw [ht.columns] at halle; exact halle) r (by rw [hw, ht.columns])
    rw [modifyDB_eq hn h0 hm ht.schema hr hw d, if_pos hall]
    refine ⟨_, _, _, rfl, ?_, hR.put (ht.putRecord hkeyed)⟩
    rw [rowsOf_putRecord hr, hrow]
    exact Step.modify (by show (t.recordSet.lookup k).map _ = _; rw [hr]; rfl)

/-- A key query answers with the row under the key, or fails on an absent key. -/
theorem refines_query (hn : tname ≠ []) {T : Rows Str (Column names) Str}
    (hR : Holds m0 tname names key m T) (ord : HashOrder) (k : Str) :
    ∃ m' reply T', clientStep ord tname key.1 m (.query k) = some (m', reply) ∧
      Step (layout names key) T (abstractCall names key (.query k)) reply T' ∧
      Holds m0 tname names key m' T' := by
  obtain ⟨⟨t, hm, ht, rfl⟩, hframe⟩ := id hR
  unfold clientStep queryDB
  dsimp only
  rw [if_neg (by rintro (h' | h'); exacts [ht.named h', hn h'])]
  by_cases h0 : k = []
  · rw [if_pos ⟨h0, rfl, rfl⟩]
    refine ⟨m, _, _, rfl, Step.queryAbsent (rows_eq_none.mpr ?_), hR⟩
    rw [h0]
    exact ht.rows
  · rw [if_neg fun h' => h0 h'.1, hm]
    have hkey : t.getFieldIndex key.1 = t.iPriKeyIndex := by
      have hmem : key.1 ∈ t.fieldNameList := by rw [ht.columns]; exact key.2
      rw [getFieldIndex_eq ht.schema, if_pos hmem]
      exact (keyIndex_iff ht.schema (by rw [ht.columns]; exact ht.distinct) hmem).mpr ht.keyed.symm
    dsimp only
    unfold queryRecord
    dsimp only
    rw [if_pos ⟨hkey, h0⟩]
    cases hr : t.recordSet.lookup k with
    | none =>
      have hk : k ∉ t.recordSet := AList.lookup_eq_none.mp hr
      exact ⟨m, _, _, rfl, Step.queryAbsent (rows_eq_none.mpr hk), hR⟩
    | some r =>
      have hw : r.fieldList.length = names.length := by rw [ht.toWellFormed.width hr, ht.columns]
      refine ⟨m, _, _, rfl, ?_, hR⟩
      rw [List.nil_append, checkDataList_eq ht hw]
      exact Step.query (by show (t.recordSet.lookup k).map _ = _; rw [hr]; rfl)

end Calls

/-- **The cache refines a keyed table.**  On a loaded table (a database has none
with an empty name), every run of insertions, modifications and key queries
goes through, its replies are those of a run of the abstract keyed table from
the rows loaded to the rows it ends with, and no other table changes. -/
theorem cache_refines {m : DBManager fp} {tname : Str} {t : DBTable fp} {names : List Str}
    {key : Column names} (hn : tname ≠ []) (hm : m.tableSet.lookup tname = some t)
    (ht : t.Loaded names key) (ord : HashOrder) (calls : List ClientCall)
    (hok : ∀ c ∈ calls, Admissible names key c) :
    ∃ m' replies T', runOut (clientStep ord tname key.1) m calls = some (m', replies) ∧
      SpecRun (fun T c => Step (layout names key) T (abstractCall names key c))
        (t.rowsOf names) calls replies T' ∧
      Holds m tname names key m' T' := by
  apply simulation (R := Holds m tname names key) (D := Admissible names key)
  · intro m1 T c hR hc
    cases c with
    | insert d => exact refines_insert hn hR ord d hc
    | modify k d => exact refines_modify hn hR ord k d hc
    | query k => exact refines_query hn hR ord k
  · exact hok
  · exact ⟨⟨t, hm, ht, rfl⟩, fun _ _ => rfl⟩

/-- The key column of `oneTable`. -/
def idColumn : Column [lit "id", lit "name"] := ⟨lit "id", by decide⟩

theorem oneTable_loaded :
    (DBTable.new [lit "id", lit "name"] [dbIntT, dbStringT] 0 : DBTable .exactRational).Loaded
      [lit "id", lit "name"] idColumn :=
  ⟨new_wellFormed rfl (by decide) (by decide), rfl, by decide, rfl, by decide, Or.inl rfl,
    AList.notMem_empty []⟩

theorem cache_refines_oneTable :
    ∃ m' replies T', runOut (clientStep .plain (lit "t") idColumn.1) oneTable
        [.insert (UMap.insertNew (lit "name") (lit "a") ∅), .query (lit "1"),
          .modify (lit "1") (UMap.insertNew (lit "name") (lit "b") ∅)] = some (m', replies) ∧
      SpecRun (fun T c => Step (layout _ idColumn) T (abstractCall _ idColumn c))
        (rowsOf _ (DBTable.new [lit "id", lit "name"] [dbIntT, dbStringT] 0 : DBTable .exactRational))
        [.insert (UMap.insertNew (lit "name") (lit "a") ∅), .query (lit "1"),
          .modify (lit "1") (UMap.insertNew (lit "name") (lit "b") ∅)] replies T' ∧
      Holds oneTable (lit "t") _ idColumn m' T' :=
  cache_refines (by decide) rfl oneTable_loaded .plain _ (by decide)

end DBManager

end FuServer
