import FuServer.Backup.Actions
import FuServer.Cache.LoadRows
import FuServer.Cache.Matches
import FuServer.Cache.Refinement
import FuServer.Lib.KeyedStore

/-!
# The manager is a store of keyed tables

`manager_refines`: from a new connection, every run of loads, insertions,
modifications, queries of all kinds, passes of `Update` and the closing goes
through, and its replies are those of a run of the abstract store.  Loads add
what the database holds, passes are not seen, calls on a table that is not
loaded are refused.
-/

namespace FuServer

open Bytes Decimal Outcome KeyedTable KeyedStore Runs

/-! ## Kinds of fields -/

namespace DBTable

variable {fp : FloatUnit}

/-- The fields of every record have the types of their columns. -/
def Typed (t : DBTable fp) : Prop :=
  ∀ k r, t.recordSet.lookup k = some r → r.fieldList.map (·.usType) = t.fieldTypeList

theorem types_buildFields {t : DBTable fp} (h : SchemaOk t) {g : Nat → UInt16 → DBField}
    (hg : ∀ i iType, (g i iType).usType = iType) :
    (t.buildFields g).map (·.usType) = t.fieldTypeList := by
  unfold buildFields
  rw [List.map_map]
  apply List.ext_getElem
  · simp [h.types]
  · intro i h1 h2
    rw [List.getElem_map, List.getElem_range]
    show (g i _).usType = _
    rw [hg, List.getD_eq_getElem _ _ h2]

theorem types_newRecord {t : DBTable fp} (h : SchemaOk t) (d : UMap Str Str) :
    (t.newRecord d).fieldList.map (·.usType) = t.fieldTypeList := by
  unfold newRecord
  refine types_buildFields h fun i iType => ?_
  split
  · unfold keyOnlyField
    dsimp only
    split <;> rfl
  · unfold namedField
    dsimp only
    split
    · rfl
    · split <;> rfl

theorem types_foldl_assignNamed (t : DBTable fp) (dataList : List (Σ _ : Str, Str)) (r : DBRecord) :
    (dataList.foldl t.assignNamed r).fieldList.map (·.usType) = r.fieldList.map (·.usType) := by
  induction dataList generalizing r with
  | nil => rfl
  | cons e dataList ih =>
    rw [List.foldl_cons, ih]
    unfold assignNamed
    split
    · show (r.fieldList.modify _ fun f => f.resetData e.2).map _ = _
      apply List.ext_getElem?
      intro j
      rw [List.getElem?_map, List.getElem?_modify, List.getElem?_map, Option.map_eq_map, Option.map_map]
      congr 1
      funext f
      show (if _ then f.resetData e.2 else f).usType = f.usType
      split <;> rfl
    · rfl

/-- The field of a record in a column of the table. -/
theorem getField_typed {t : DBTable fp} (h : SchemaOk t) {names : List Str}
    (hnames : t.fieldNameList = names) {r : DBRecord}
    (htypes : r.fieldList.map (·.usType) = t.fieldTypeList) (c : Column names) :
    ∃ f, r.getField (t.getFieldIndex c.1) = .ok f ∧ f.sData = rowOf names r c ∧
      f.usType = t.fieldTypeList.getD (names.idxOf c.1) 0 := by
  subst hnames
  have hlen : r.fieldList.length = t.fieldNameList.length := by
    rw [← h.types, ← htypes, List.length_map]
  have hlt : t.fieldNameList.idxOf c.1 < r.fieldList.length := by
    rw [hlen]
    exact List.idxOf_lt_length_of_mem c.2
  refine ⟨r.fieldList[t.fieldNameList.idxOf c.1], ?_, ?_, ?_⟩
  · rw [getFieldIndex_eq h, if_pos c.2]
    exact vecAt_natCast hlt
  · rw [rowOf, List.getD_eq_getElem _ _ hlt]
  · rw [← htypes, List.getD_eq_getElem _ _ (by rw [List.length_map]; exact hlt), List.getElem_map]

/-! ## Tables of the store -/

/-- The table is that of the store: its columns, its key, its kinds, its rows. -/
structure Represents (t : DBTable fp) (s : Sheet Str UInt16 Str) : Prop where
  loaded : t.Loaded s.names s.key
  typed : t.Typed
  kind : ∀ c, s.kind c = t.fieldTypeList.getD (s.names.idxOf c.1) 0
  rows : s.rows = t.rowsOf s.names

section Represents

variable {t : DBTable fp} {s : Sheet Str UInt16 Str}

/-- Another table of the same columns, with other rows. -/
theorem Represents.of_same (h : t.Represents s) {t' : DBTable fp} {T : Rows Str (Column s.names) Str}
    (hsame : SameSchema t t') (htyped : t'.Typed) (hloaded : t'.Loaded s.names s.key)
    (hrows : T = t'.rowsOf s.names) : t'.Represents { s with rows := T } :=
  ⟨hloaded, htyped, fun c => by rw [hsame.types]; exact h.kind c, hrows⟩

theorem Represents.inColumns (h : t.Represents s) {c : Str} : c ∈ t.fieldNameList ↔ c ∈ s.names := by
  rw [h.loaded.columns]

theorem Represents.keyIndex_iff (h : t.Represents s) (c : Column s.names) :
    t.getFieldIndex c.1 = t.iPriKeyIndex ↔ c = s.key := by
  have hl := h.loaded
  have hc : c.1 ∈ t.fieldNameList := h.inColumns.mpr c.2
  rw [getFieldIndex_eq hl.schema, if_pos hc, DBTable.keyIndex_iff hl.schema
    (by rw [hl.columns]; exact hl.distinct) hc, hl.keyed, Subtype.val_inj]

/-- A record's row tells whether it matches. -/
theorem Represents.matches_iff (h : t.Represents s) (b : Bounds) (c : Column s.names) {k : Str}
    {r : DBRecord} (hr : t.recordSet.lookup k = some r) :
    Matches fp (t.getFieldIndex c.1) b r ↔
      InBounds fp b { sData := rowOf s.names r c, usType := s.kind c } := by
  obtain ⟨f, hf, hdata, htype⟩ := getField_typed h.loaded.schema h.loaded.columns (h.typed k r hr) c
  unfold Matches
  rw [hf, returns_ok, h.kind c]
  unfold InBounds
  rw [hdata, htype]

end Represents

end DBTable

/-! ## What the database holds -/

instance (iPriKeyIndex : Int) (rows : List (List (Option Str))) :
    Decidable (DBTable.KeyedRows iPriKeyIndex rows) :=
  inferInstanceAs (Decidable (_ ∧ _))

theorem key_mem_names {fields : List MysqlField} (h : 0 ≤ (checkFieldInfo fields).2.2) :
    (checkFieldInfo fields).1.getD (checkFieldInfo fields).2.2.toNat [] ∈ (checkFieldInfo fields).1 := by
  have hlt : (checkFieldInfo fields).2.2.toNat < (checkFieldInfo fields).1.length := by
    rw [(length_checkFieldInfo fields).1]
    have := (checkFieldInfo_key fields).2
    omega
  rw [List.getD_eq_getElem _ _ hlt]
  exact List.getElem_mem hlt

/-- The table a result set makes, when its columns have a key and its rows keys of their own. -/
def sheetOf (fields : List MysqlField) (rows : List (List (Option Str))) :
    Option (Sheet Str UInt16 Str) :=
  let info := checkFieldInfo fields
  if h : 0 ≤ info.2.2 ∧ DBTable.KeyedRows info.2.2 rows then
    some {
      names := info.1
      key := ⟨info.1.getD info.2.2.toNat [], key_mem_names h.1⟩
      kind := fun c => info.2.1.getD (info.1.idxOf c.1) 0
      rows := fun k => (rows.find? fun row => rowKey info.2.2 row = k).map fun row c =>
        (row.getD (info.1.idxOf c.1) none).getD [] }
  else none

/-- What the database holds for a load, by the answers to it. -/
def LoadReply.held (reply : LoadReply) (dbname : Str) : Option (Sheet Str UInt16 Str) :=
  if dbname = [] ∨ reply.useOk = true then
    match reply.info, reply.select with
    | some fields, some res => sheetOf fields res.rows
    | _, _ => none
  else none

/-- The load can be served: the answers agree, the columns are reported under distinct names, the
key column has a name and is of integer or string type. -/
structure LoadReply.Servable (reply : LoadReply) : Prop where
  consistent : reply.Consistent
  distinct : ∀ fields ∈ reply.info, (checkFieldInfo fields).1.Nodup
  reported : reply.info ≠ none
  named : ∀ fields ∈ reply.info, (checkFieldInfo fields).1.getD (checkFieldInfo fields).2.2.toNat [] ≠ []
  keyType : ∀ fields ∈ reply.info,
    isIntegerType ((checkFieldInfo fields).2.1.getD (checkFieldInfo fields).2.2.toNat 0) = true ∨
      (checkFieldInfo fields).2.1.getD (checkFieldInfo fields).2.2.toNat 0 = dbStringT

instance (reply : LoadReply) : Decidable reply.Consistent :=
  inferInstanceAs (Decidable (∀ fields ∈ reply.info, ∀ res ∈ reply.select, res.fields = fields))

instance (reply : LoadReply) : Decidable reply.Servable :=
  decidable_of_iff (reply.Consistent ∧ (∀ fields ∈ reply.info, (checkFieldInfo fields).1.Nodup) ∧
      reply.info ≠ none ∧
      (∀ fields ∈ reply.info, (checkFieldInfo fields).1.getD (checkFieldInfo fields).2.2.toNat [] ≠ []) ∧
      ∀ fields ∈ reply.info,
        isIntegerType ((checkFieldInfo fields).2.1.getD (checkFieldInfo fields).2.2.toNat 0) = true ∨
          (checkFieldInfo fields).2.1.getD (checkFieldInfo fields).2.2.toNat 0 = dbStringT)
    ⟨fun ⟨h1, h2, h3, h4, h5⟩ => ⟨h1, h2, h3, h4, h5⟩, fun ⟨h1, h2, h3, h4, h5⟩ => ⟨h1, h2, h3, h4, h5⟩⟩

namespace DBTable

variable {fp : FloatUnit}

theorem types_rowRecord {fields : List MysqlField} {row : List (Option Str)}
    (h : row.length = fields.length) :
    (rowRecord fields row).fieldList.map (·.usType) = (checkFieldInfo fields).2.1 := by
  have htype : ∀ c : (MysqlField × Option Str) × Nat,
      ((((DBField.new (exchangeDataType c.1.1.type)).setDataPtr c.1.2).setIndex c.2).setIsKey
          c.1.1.priKey).usType = exchangeDataType c.1.1.type := by
    intro c
    show ((DBField.new (exchangeDataType c.1.1.type)).setDataPtr c.1.2).usType = _
    cases c.1.2 with
    | none => rfl
    | some data =>
      unfold DBField.setDataPtr
      dsimp only
      split <;> rfl
  have hcolumns : ((fields.zip row).zipIdx.map Prod.fst).map Prod.fst = fields := by
    rw [List.zipIdx_map_fst, List.map_fst_zip h.ge]
  show ((fields.zip row).zipIdx.map _).map _ = fields.map fun f => exchangeDataType f.type
  rw [List.map_map]
  conv => rhs; rw [← hcolumns, List.map_map, List.map_map]
  exact List.map_congr_left fun c _ => htype c

/-- The text of a row in a column, as its record has it. -/
theorem rowOf_rowRecord {fields : List MysqlField} {row : List (Option Str)}
    (h : row.length = fields.length) {names : List Str} (c : Column names) :
    rowOf names (rowRecord fields row) c = (row.getD (names.idxOf c.1) none).getD [] := by
  have hdata := congrArg (fun l => (l[names.idxOf c.1]?).getD []) (rowRecord_sData h)
  simp only [List.getElem?_map] at hdata
  unfold rowOf
  rw [List.getD_eq_getElem?_getD, List.getD_eq_getElem?_getD]
  cases hf : (rowRecord fields row).fieldList[names.idxOf c.1]? with
  | none =>
    rw [hf] at hdata
    cases hrow : row[names.idxOf c.1]? with
    | none => rfl
    | some data =>
      rw [hrow] at hdata
      exact hdata
  | some f =>
    rw [hf] at hdata
    cases hrow : row[names.idxOf c.1]? with
    | none =>
      rw [hrow] at hdata
      exact hdata
    | some data =>
      rw [hrow] at hdata
      exact hdata

/-- A new table that has taken in a result set is what the database holds. -/
theorem represents_of_rows {res : MysqlRes} {t : DBTable fp} (hkey : 0 ≤ (checkFieldInfo res.fields).2.2)
    (ht : checkToTable res.fields res.rows
      (new (checkFieldInfo res.fields).1 (checkFieldInfo res.fields).2.1
      (checkFieldInfo res.fields).2.2 : DBTable fp) = .ok (some t))
    (hdistinct : (checkFieldInfo res.fields).1.Nodup)
    (hnamed : (checkFieldInfo res.fields).1.getD (checkFieldInfo res.fields).2.2.toNat [] ≠ [])
    (htype : isIntegerType
      ((checkFieldInfo res.fields).2.1.getD (checkFieldInfo res.fields).2.2.toNat 0) = true ∨
      (checkFieldInfo res.fields).2.1.getD (checkFieldInfo res.fields).2.2.toNat 0 = dbStringT)
    (tname dbname : Str) :
    ∃ s, sheetOf res.fields res.rows = some s ∧
      DBTable.Represents { t with sTableName := tname, sDBName := dbname } s := by
  have hnew := new_checkFieldInfo fp hkey
  have hlen := (length_checkFieldInfo res.fields).1
  have htypes : (new (checkFieldInfo res.fields).1 (checkFieldInfo res.fields).2.1
      (checkFieldInfo res.fields).2.2 : DBTable fp).fieldTypeList = (checkFieldInfo res.fields).2.1 :=
    List.take_of_length_le ((length_checkFieldInfo res.fields).2.trans hlen.symm).le
  obtain ⟨o, ho, hgrown⟩ := checkToTable_grown res.rows res.width _ hnew.schema hlen.symm
  obtain rfl : o = some t := Except.ok.inj (ho.symm.trans ht)
  have hsame := (hgrown t rfl).same
  have hwf := (hgrown t rfl).wellFormed hnew
  have hempty := (hgrown t rfl).nonempty (AList.notMem_empty [])
  obtain ⟨o, ho, hsome⟩ := DBManager.checkToTable_new_isSome fp res hkey
  obtain rfl : o = some t := Except.ok.inj (ho.symm.trans ht)
  obtain ⟨-, -, -, hlook⟩ := checkToTable_rows res.width ht
  have hfind : ∀ k, t.recordSet.lookup k = (res.rows.find? fun row =>
      rowKey (checkFieldInfo res.fields).2.2 row = k).map (rowRecord res.fields) := by
    intro k
    rw [hlook k]
    show (AList.lookup k ∅).or _ = _
    rw [AList.lookup_empty]
    exact Option.none_or
  unfold sheetOf
  dsimp only
  rw [dif_pos ⟨hkey, hsome.mp rfl⟩]
  refine ⟨_, rfl, ⟨hwf.named tname dbname, hsame.names, hdistinct, ?_, hnamed, ?_, hempty⟩, ?_, ?_, ?_⟩
  · show t.fieldNameList.getD t.iPriKeyIndex.toNat [] = _
    rw [hsame.names, hsame.key]
    rfl
  · show isIntegerType (t.fieldTypeList.getD t.iPriKeyIndex.toNat 0) = true ∨
      t.fieldTypeList.getD t.iPriKeyIndex.toNat 0 = dbStringT
    rw [hsame.types, hsame.key, htypes]
    exact htype
  · intro k r hr
    change t.recordSet.lookup k = some r at hr
    rw [hfind k] at hr
    obtain ⟨row, hrow, rfl⟩ := Option.map_eq_some_iff.mp hr
    show _ = t.fieldTypeList
    rw [hsame.types, htypes]
    exact types_rowRecord (res.width row (List.mem_of_find?_eq_some hrow))
  · intro c
    show _ = t.fieldTypeList.getD _ 0
    rw [hsame.types, htypes]
  · funext k
    show _ = (t.recordSet.lookup k).map (rowOf (checkFieldInfo res.fields).1)
    rw [hfind k, Option.map_map]
    apply Option.map_congr
    intro row hrow
    funext c
    exact (rowOf_rowRecord (res.width row (List.mem_of_find?_eq_some hrow)) c).symm

end DBTable

namespace DBManager

variable {fp : FloatUnit}

/-- A load that can be served returns. -/
theorem loadTable_returns {reply : LoadReply} (hs : reply.Servable) (m : DBManager fp)
    (dbname tname : Str) :
    ∃ m' b, m.loadTable dbname tname reply = .ok (m', b) := by
  have henter : (if dbname ≠ [] then m.changeDB dbname reply.useOk else (m, true)) =
      m.enterDB dbname reply.useOk := rfl
  unfold loadTable
  dsimp only
  rw [henter]
  generalize m.enterDB dbname reply.useOk = changed
  split
  · exact ⟨_, _, rfl⟩
  · split
    · exact ⟨_, _, rfl⟩
    · cases hinfo : reply.info with
      | none => exact absurd hinfo hs.reported
      | some fields =>
        dsimp only
        split
        · exact ⟨_, _, rfl⟩
        · next hkey =>
          cases hsel : reply.select with
          | none => exact ⟨_, _, rfl⟩
          | some res =>
            obtain rfl := hs.consistent fields hinfo res hsel
            obtain ⟨o, ho, -⟩ := checkToTable_new fp res (not_lt.mp hkey)
            dsimp only
            rw [ho, ok_bind]
            cases o with
            | none => exact ⟨_, _, rfl⟩
            | some t => exact ⟨_, _, rfl⟩

/-- A load of a name that is new adds what the database holds, if it holds a table. -/
theorem loadTable_held {reply : LoadReply} (hs : reply.Servable) {m m' : DBManager fp}
    {dbname tname : Str} {b : Bool} (hnew : tname ∉ m.tableSet)
    (h : m.loadTable dbname tname reply = .ok (m', b)) :
    (b = false ∧ reply.held dbname = none ∧ m'.tableSet = m.tableSet) ∨
      ∃ s t, b = true ∧ reply.held dbname = some s ∧ DBTable.Represents t s ∧
        m'.tableSet = UMap.insertNew tname t m.tableSet := by
  have hset := enterDB_tableSet m dbname reply.useOk
  rcases loadTable_exits h with ⟨rfl, hsame⟩ | ⟨fields, res, t, rfl, -, hentered, hinfo, hkey, hsel,
    hrows, rfl⟩
  · refine Or.inl ⟨rfl, ?_, ?_⟩
    · have hrefused := (loadTable_refused_iff hs.consistent m dbname tname).mp
        (h ▸ returns_ok.mpr rfl) hnew
      unfold LoadReply.held
      split
      · next hentered =>
        obtain ⟨fields, hinfo, hnone⟩ := hrefused hentered
        rw [Option.mem_def.mp hinfo]
        cases hsel : reply.select with
        | none => rfl
        | some res =>
          dsimp only
          unfold sheetOf
          dsimp only
          rw [dif_neg]
          rintro ⟨hkey, hkeyed⟩
          exact hnone hkey res hsel hkeyed
      · rfl
    · rcases hsame with rfl | rfl
      · rfl
      · exact hset
  · obtain rfl := hs.consistent fields hinfo res hsel
    obtain ⟨s, hsheet, hrep⟩ :=
      DBTable.represents_of_rows hkey hrows (hs.distinct _ hinfo) (hs.named _ hinfo)
        (hs.keyType _ hinfo) tname (m.enterDB dbname reply.useOk).1.sCurrentDB
    refine Or.inr ⟨s, _, rfl, ?_, hrep, by rw [← hset]⟩
    unfold LoadReply.held
    rw [if_pos ((enterDB_snd m dbname reply.useOk).mp hentered), hinfo, hsel]
    exact hsheet

/-! ## The store of a manager -/

/-- The manager's tables are those of the store, none of them without a name. -/
structure Stores (m : DBManager fp) (S : Store Str Str UInt16 Str) : Prop where
  named : [] ∉ m.tableSet
  absent : ∀ tname, S tname = none ↔ tname ∉ m.tableSet
  present : ∀ tname t s, m.tableSet.lookup tname = some t → S tname = some s → t.Represents s

section Stores

variable {m : DBManager fp} {S : Store Str Str UInt16 Str}

theorem Stores.lookup_eq_none (h : m.Stores S) {tname : Str} (hS : S tname = none) :
    m.tableSet.lookup tname = none :=
  AList.lookup_eq_none.mpr ((h.absent tname).mp hS)

theorem Stores.exists_table (h : m.Stores S) {tname : Str} {s : Sheet Str UInt16 Str}
    (hS : S tname = some s) :
    ∃ t, m.tableSet.lookup tname = some t ∧ t.Represents s := by
  have hmem : tname ∈ m.tableSet := by
    by_contra hnot
    rw [(h.absent tname).mpr hnot] at hS
    cases hS
  obtain ⟨t, ht⟩ := UMap.exists_lookup hmem
  exact ⟨t, ht, h.present tname t s ht hS⟩

theorem Stores.name_ne_nil (h : m.Stores S) {tname : Str} {s : Sheet Str UInt16 Str}
    (hS : S tname = some s) :
    tname ≠ [] := by
  rintro rfl
  obtain ⟨t, ht, -⟩ := h.exists_table hS
  exact h.named (UMap.mem_of_lookup ht)

theorem Stores.wellFormed (h : m.Stores S) : m.WellFormed := by
  intro tname t ht
  cases hS : S tname with
  | none =>
    rw [h.lookup_eq_none hS] at ht
    cases ht
  | some s => exact (h.present tname t s ht hS).loaded.toWellFormed

/-- Managers of the same tables. -/
theorem Stores.of_tables (h : m.Stores S) {m' : DBManager fp} (hset : m'.tableSet = m.tableSet) :
    m'.Stores S :=
  ⟨hset ▸ h.named, hset ▸ h.absent, hset ▸ h.present⟩

/-- One table has other rows. -/
theorem Stores.put (h : m.Stores S) {tname : Str} {t t' : DBTable fp} {s : Sheet Str UInt16 Str}
    (hS : S tname = some s) (ht : m.tableSet.lookup tname = some t)
    {T : Rows Str (DBTable.Column s.names) Str} (hT : t'.Represents { s with rows := T }) :
    (m.putTable tname t').Stores (Function.update S tname (some { s with rows := T })) := by
  refine ⟨?_, fun tname' => ?_, fun tname' u s' hu hs' => ?_⟩
  · show [] ∉ UMap.adjust tname _ m.tableSet
    rw [UMap.mem_adjust]
    exact h.named
  · show _ ↔ tname' ∉ UMap.adjust tname _ m.tableSet
    rw [UMap.mem_adjust]
    by_cases he : tname' = tname
    · subst he
      rw [Function.update_self]
      exact iff_of_false nofun (not_not.mpr (UMap.mem_of_lookup ht))
    · rw [Function.update_of_ne he]
      exact h.absent tname'
  · rw [lookup_putTable] at hu
    by_cases he : tname' = tname
    · subst he
      rw [if_pos rfl, ht] at hu
      rw [Function.update_self] at hs'
      cases hu
      cases hs'
      exact hT
    · rw [if_neg he] at hu
      rw [Function.update_of_ne he] at hs'
      exact h.present tname' u s' hu hs'

/-- A table is added. -/
theorem Stores.add (h : m.Stores S) {tname : Str} {t : DBTable fp} {s : Sheet Str UInt16 Str}
    (hn : tname ≠ []) (hnew : tname ∉ m.tableSet) (ht : t.Represents s) {m' : DBManager fp}
    (hset : m'.tableSet = UMap.insertNew tname t m.tableSet) :
    m'.Stores (Function.update S tname (some s)) := by
  refine ⟨?_, fun tname' => ?_, fun tname' u s' hu hs' => ?_⟩
  · rw [hset, UMap.mem_insertNew]
    rintro (h' | h')
    · exact hn h'.symm
    · exact h.named h'
  · rw [hset, UMap.mem_insertNew]
    by_cases he : tname' = tname
    · subst he
      rw [Function.update_self]
      exact iff_of_false nofun (not_not.mpr (Or.inl rfl))
    · rw [Function.update_of_ne he, h.absent tname', or_iff_right he]
  · rw [hset, UMap.lookup_insertNew] at hu
    by_cases he : tname' = tname
    · subst he
      rw [if_pos ⟨rfl, hnew⟩] at hu
      rw [Function.update_self] at hs'
      cases hu
      cases hs'
      exact ht
    · rw [if_neg fun h' => he h'.1] at hu
      rw [Function.update_of_ne he] at hs'
      exact h.present tname' u s' hu hs'

end Stores

/-! ## Calls -/

/-- A call on the manager, with the answers of the server and the orders of the walks. -/
inductive ManagerCall (fp : FloatUnit)
  | load (dbname tname : Str) (reply : LoadReply)
  | insert (tname : Str) (dataList : UMap Str Str)
  | modify (tname dataKey : Str) (dataList : UMap Str Str)
  | query (ord : HashOrder) (tname fieldName : Str) (b : DBTable.Bounds)
  | update (ord : HashOrder) (answer : Str → RecRef → Bool) (dt : fp.Flt)
  | close

/-- One call and what it returns; nothing when it faults. -/
def manage (m : DBManager fp) : ManagerCall fp → Option (DBManager fp × KeyedStore.Reply Str Str)
  | .load dbname tname reply =>
    match m.loadTable dbname tname reply with
    | .ok (m', ok) => some (m', .loaded ok)
    | .error _ => none
  | .insert tname d =>
    match m.insertDB tname d with
    | .ok (m', k) => some (m', .inserted (if k = [] then none else some k))
    | .error _ => none
  | .modify tname k d =>
    match m.modifyDB tname k d with
    | .ok (m', ok) => some (m', .modified ok)
    | .error _ => none
  | .query ord tname fieldName b =>
    match m.queryDB ord [] [] tname fieldName b with
    | .ok (ok, records, names) => some (m, .found ok names records)
    | .error _ => none
  | .update ord answer dt =>
    match m.update ord answer dt with
    | .ok (m', _) => some (m', .flushed)
    | .error _ => none
  | .close => some ({ m with bClose := true }, .flushed)

section Inversion

variable {m m' : DBManager fp} {r : KeyedStore.Reply Str Str}

theorem manage_load {dbname tname : Str} {reply : LoadReply}
    (h : m.manage (.load dbname tname reply) = some (m', r)) :
    ∃ ok, m.loadTable dbname tname reply = .ok (m', ok) ∧ r = .loaded ok := by
  unfold manage at h
  dsimp only at h
  split at h
  · next hres => cases h; exact ⟨_, hres, rfl⟩
  · cases h

theorem manage_insert {tname : Str} {d : UMap Str Str} (h : m.manage (.insert tname d) = some (m', r)) :
    ∃ k, m.insertDB tname d = .ok (m', k) ∧ r = .inserted (if k = [] then none else some k) := by
  unfold manage at h
  dsimp only at h
  split at h
  · next hres => cases h; exact ⟨_, hres, rfl⟩
  · cases h

theorem manage_modify {tname k : Str} {d : UMap Str Str}
    (h : m.manage (.modify tname k d) = some (m', r)) :
    ∃ ok, m.modifyDB tname k d = .ok (m', ok) ∧ r = .modified ok := by
  unfold manage at h
  dsimp only at h
  split at h
  · next hres => cases h; exact ⟨_, hres, rfl⟩
  · cases h

theorem manage_query {ord : HashOrder} {tname fieldName : Str} {b : DBTable.Bounds}
    (h : m.manage (.query ord tname fieldName b) = some (m', r)) :
    ∃ ok rows names, m.queryDB ord [] [] tname fieldName b = .ok (ok, rows, names) ∧ m' = m ∧
      r = .found ok names rows := by
  unfold manage at h
  dsimp only at h
  split at h
  · next hres => cases h; exact ⟨_, _, _, hres, rfl, rfl⟩
  · cases h

theorem manage_update {ord : HashOrder} {answer : Str → RecRef → Bool} {dt : fp.Flt}
    (h : m.manage (.update ord answer dt) = some (m', r)) :
    ∃ trace, m.update ord answer dt = .ok (m', trace) ∧ r = .flushed := by
  unfold manage at h
  dsimp only at h
  split at h
  · next hres => cases h; exact ⟨_, hres, rfl⟩
  · cases h

end Inversion

/-- What the call asks of the store. -/
def request : ManagerCall fp → KeyedStore.Request Str Str UInt16 Str
  | .load dbname tname reply => .load tname (reply.held dbname)
  | .insert tname d => .call tname (.insert fun c => d.lookup c)
  | .modify tname k d => .call tname (.modify k fun c => d.lookup c)
  | .query _ tname fieldName b =>
    if fieldName = [] ∨ ¬ b.Given then .nothing
    else .call tname (.select fieldName (if b.dataEquKey = [] then none else some b.dataEquKey)
      fun iType text => DBTable.InBounds fp b { sData := text, usType := iType })
  | .update _ _ _ => .flush
  | .close => .flush

/-- The calls the refinement is about.  A load can be served; an insertion names a table that
is there and gives no empty key; a modification and a query name columns of their table;
a query asks for more than a maximum. -/
def Orderly (m : DBManager fp) : ManagerCall fp → Prop
  | .load _ tname reply => tname ≠ [] ∧ reply.Servable
  | .insert tname d => tname ≠ [] → ∃ t ∈ m.tableSet.lookup tname, d.lookup t.keyName ≠ some []
  | .modify tname _ d => ∀ t ∈ m.tableSet.lookup tname, ∀ c ∈ d.keys, c ∈ t.fieldNameList
  | .query _ tname fieldName b =>
    ¬ b.OnlyMax ∧ (fieldName ≠ [] → ∀ t ∈ m.tableSet.lookup tname, fieldName ∈ t.fieldNameList)
  | .update _ _ _ => True
  | .close => True

instance (m : DBManager fp) (c : ManagerCall fp) : Decidable (m.Orderly c) :=
  match c with
  | .load _ tname reply => inferInstanceAs (Decidable (tname ≠ [] ∧ reply.Servable))
  | .insert tname d =>
    inferInstanceAs (Decidable (tname ≠ [] →
      ∃ t ∈ m.tableSet.lookup tname, d.lookup t.keyName ≠ some []))
  | .modify tname _ d =>
    inferInstanceAs (Decidable (∀ t ∈ m.tableSet.lookup tname, ∀ c ∈ d.keys, c ∈ t.fieldNameList))
  | .query _ tname fieldName b =>
    inferInstanceAs (Decidable (¬ b.OnlyMax ∧
      (fieldName ≠ [] → ∀ t ∈ m.tableSet.lookup tname, fieldName ∈ t.fieldNameList)))
  | .update _ _ _ => isTrue trivial
  | .close => isTrue trivial

section Calls

variable {m : DBManager fp} {S : Store Str Str UInt16 Str}

/-- The call goes through, as the store allows it. -/
def Refines (m : DBManager fp) (S : Store Str Str UInt16 Str) (c : ManagerCall fp) : Prop :=
  ∃ m' reply S', m.manage c = some (m', reply) ∧ KeyedStore.Step [] S (request c) reply S' ∧ m'.Stores S'

/-- The one table of the store that a call of it changes. -/
theorem Stores.holds (h : m.Stores S) {tname : Str} {s : Sheet Str UInt16 Str} (hS : S tname = some s) :
    Holds m tname s.names s.key m s.rows := by
  obtain ⟨t, ht, hrep⟩ := h.exists_table hS
  exact ⟨⟨t, ht, hrep.loaded, hrep.rows⟩, fun _ _ => rfl⟩

theorem refines_load (h : m.Stores S) {dbname tname : Str} {reply : LoadReply}
    (hok : m.Orderly (.load dbname tname reply)) : m.Refines S (.load dbname tname reply) := by
  obtain ⟨hn, hs⟩ := hok
  obtain ⟨m', b, hload⟩ := loadTable_returns hs m dbname tname
  have hrun : m.manage (.load dbname tname reply) = some (m', .loaded b) := by
    unfold manage
    dsimp only
    rw [hload]
  by_cases hmem : tname ∈ m.tableSet
  · rw [loadTable, if_pos hmem] at hload
    cases hload
    have hS : S tname ≠ none := fun hnone => (h.absent tname).mp hnone hmem
    exact ⟨_, _, _, hrun, .notLoaded (Or.inl hS), h⟩
  · have hS := (h.absent tname).mpr hmem
    rcases loadTable_held hs hmem hload with ⟨rfl, hheld, hset⟩ | ⟨s, t, rfl, hheld, hrep, hset⟩
    · exact ⟨_, _, _, hrun, .notLoaded (Or.inr hheld), h.of_tables hset⟩
    · refine ⟨_, _, _, hrun, ?_, h.add hn hmem hrep hset⟩
      show KeyedStore.Step [] S (.load tname (reply.held dbname)) _ _
      rw [hheld]
      exact .load hS

theorem refines_insertion (h : m.Stores S) {tname : Str} {d : UMap Str Str}
    (hok : m.Orderly (.insert tname d)) : m.Refines S (.insert tname d) := by
  cases hS : S tname with
  | none =>
    have hn : tname = [] := by
      by_contra hn
      obtain ⟨t, ht, -⟩ := hok hn
      exact (h.absent tname).mp hS (UMap.mem_of_lookup ht)
    have hrun : m.manage (.insert tname d) = some (m, .inserted none) := by
      unfold manage insertDB
      dsimp only
      rw [if_pos hn]
      rfl
    exact ⟨m, _, S, hrun, .missing hS, h⟩
  | some s =>
    have hn := h.name_ne_nil hS
    obtain ⟨t, ht, hrep⟩ := h.exists_table hS
    have hadm : Admissible s.names s.key (.insert d) := by
      obtain ⟨t', ht', hkey⟩ := hok hn
      cases ht.symm.trans ht'
      show d.lookup s.key.1 ≠ some []
      rw [← hrep.loaded.keyed]
      exact hkey
    obtain ⟨m', reply, T, hrun, hstep, hheld⟩ := refines_insert hn (h.holds hS) .plain d hadm
    unfold clientStep at hrun
    dsimp only at hrun
    cases hins : m.insertDB tname d with
    | error e =>
      rw [hins] at hrun
      cases hrun
    | ok r =>
      obtain ⟨m1, k⟩ := r
      rw [hins] at hrun
      cases hrun
      have hrun : m.manage (.insert tname d) =
          some (m', .inserted (if k = [] then none else some k)) := by
        unfold manage
        dsimp only
        rw [hins]
      have hsheet : SheetStep [] s (.insert fun c => d.lookup c)
          (.inserted (if k = [] then none else some k)) T :=
        .insert hstep
      obtain ⟨⟨t', ht', hl', rfl⟩, -⟩ := hheld
      rcases insertDB_cases h.wellFormed hins with ⟨rfl, -⟩ | ⟨t1, ht1, hr, -, rfl⟩
      · cases ht.symm.trans ht'
        rw [← hrep.rows] at hsheet
        exact ⟨_, _, _, hrun, .call_same hS hsheet, h⟩
      · cases ht.symm.trans ht1
        rw [lookup_putTable_self ht] at ht'
        cases ht'
        refine ⟨_, _, _, hrun, .call hS hsheet, h.put hS ht ?_⟩
        refine hrep.of_same (DBTable.addRecord_same t _ _) (fun k' r' hr' => ?_) hl' rfl
        rw [DBTable.addRecord_recordSet, UMap.lookup_insertNew] at hr'
        split at hr'
        · cases hr'
          exact DBTable.types_newRecord hrep.loaded.schema d
        · exact hrep.typed k' r' hr'

theorem refines_modification (h : m.Stores S) {tname k : Str} {d : UMap Str Str}
    (hok : m.Orderly (.modify tname k d)) : m.Refines S (.modify tname k d) := by
  cases hS : S tname with
  | none =>
    have hrun : m.manage (.modify tname k d) = some (m, .modified false) := by
      unfold manage
      dsimp only
      rw [modifyDB_of_notTable (h.lookup_eq_none hS)]
    exact ⟨m, _, S, hrun, .missing hS, h⟩
  | some s =>
    have hn := h.name_ne_nil hS
    obtain ⟨t, ht, hrep⟩ := h.exists_table hS
    have hadm : Admissible s.names s.key (.modify k d) := fun c hc => hrep.inColumns.mp (hok t ht c hc)
    obtain ⟨m', reply, T, hrun, hstep, hheld⟩ := refines_modify hn (h.holds hS) .plain k d hadm
    unfold clientStep at hrun
    dsimp only at hrun
    cases hmod : m.modifyDB tname k d with
    | error e =>
      rw [hmod] at hrun
      cases hrun
    | ok r =>
      obtain ⟨m1, ok⟩ := r
      rw [hmod] at hrun
      cases hrun
      have hrun : m.manage (.modify tname k d) = some (m', .modified ok) := by
        unfold manage
        dsimp only
        rw [hmod]
      have hsheet : SheetStep [] s (.modify k fun c => d.lookup c) (.modified ok) T := .modify hstep
      obtain ⟨⟨t', ht', hl', rfl⟩, -⟩ := hheld
      rcases modifyDB_cases h.wellFormed hmod with ⟨rfl, -⟩ | ⟨t1, r, ht1, hr, -, -, rfl⟩
      · cases ht.symm.trans ht'
        rw [← hrep.rows] at hsheet
        exact ⟨_, _, _, hrun, .call_same hS hsheet, h⟩
      · cases ht.symm.trans ht1
        rw [lookup_putTable_self ht] at ht'
        cases ht'
        refine ⟨_, _, _, hrun, .call hS hsheet, h.put hS ht ?_⟩
        refine hrep.of_same (DBTable.putRecord_same t _ _) (fun k' r' hr' => ?_) hl' rfl
        rw [DBTable.lookup_putRecord] at hr'
        split at hr'
        · rw [hr] at hr'
          cases hr'
          exact (DBTable.types_foldl_assignNamed t d.entries r).trans (hrep.typed k r hr)
        · exact hrep.typed k' r' hr'

/-- Unless only a maximum is given the scan keeps the records that match. -/
theorem scanned_eq_filter {b : DBTable.Bounds} (hb : b.Given) (hmax : ¬ b.OnlyMax) (fieldIndex : Int)
    (records : List DBRecord) :
    DBTable.scanned fp fieldIndex b records = records.filter (DBTable.Matches fp fieldIndex b) := by
  obtain ⟨hlen, hsub⟩ := @DBTable.scanned_subset fp b hb fieldIndex records
  exact hsub.eq_of_length (hlen.mpr fun h => hmax h.1)

/-- A query that names a column and a bound, on a table of the store. -/
theorem select_refines {t : DBTable fp} {s : Sheet Str UInt16 Str} (hrep : t.Represents s)
    (ord : HashOrder) {b : DBTable.Bounds} (hb : b.Given) (hmax : ¬ b.OnlyMax)
    (c : DBTable.Column s.names) :
    ∃ ok rows, t.queryRecord ord c.1 b [] = .ok (ok, rows) ∧
      SheetStep [] s (.select c.1 (if b.dataEquKey = [] then none else some b.dataEquKey)
        fun iType text => DBTable.InBounds fp b { sData := text, usType := iType })
        (.found ok s.names rows) s.rows := by
  have hl := hrep.loaded
  have hwidth : ∀ k r, t.recordSet.lookup k = some r → r.fieldList.length = s.names.length := by
    intro k r hr
    rw [hl.toWellFormed.width hr, hl.columns]
  by_cases hkey : t.getFieldIndex c.1 = t.iPriKeyIndex ∧ b.dataEquKey ≠ []
  · obtain ⟨hindex, hequ⟩ := hkey
    obtain rfl := (hrep.keyIndex_iff c).mp hindex
    refine ⟨_, _, DBTable.queryRecord_key ord hindex hequ [], ?_⟩
    rw [if_neg hequ]
    apply SheetStep.find
    cases hr : t.recordSet.lookup b.dataEquKey with
    | none =>
      apply KeyedTable.Step.queryAbsent
      rw [hrep.rows]
      exact rows_eq_none.mpr (AList.lookup_eq_none.mp hr)
    | some r =>
      have hrow : s.rows b.dataEquKey = some (DBTable.rowOf s.names r) := by
        rw [hrep.rows]
        show (t.recordSet.lookup b.dataEquKey).map _ = _
        rw [hr]
        rfl
      have hstep := KeyedTable.Step.query (L := s.layout []) hrow
      show KeyedTable.Step _ _ _ (.found true [r.checkDataList]) _
      rw [DBTable.checkDataList_eq hl (hwidth _ _ hr)]
      exact hstep
  · have hc : c.1 ∈ t.fieldNameList := hrep.inColumns.mpr c.2
    obtain ⟨⟨ok, rows⟩, hquery⟩ := DBTable.queryRecord_ok hl.schema hl.toWellFormed.fullWidth ord hc b []
    obtain ⟨found, hfound, hrows⟩ := DBTable.queryRecord_rows hquery
    have hflag := DBTable.queryRecord_flag hquery
    change rows = [] ++ found.map (·.checkDataList) at hrows
    rw [List.nil_append] at hrows
    have hanswered : t.answered ord c.1 b =
        (t.walk ord).filter (DBTable.Matches fp (t.getFieldIndex c.1) b) := by
      rw [DBTable.answered, if_neg hkey]
      exact scanned_eq_filter hb hmax _ _
    have hperm : found.Perm (t.records.filter fun r =>
      decide (DBTable.Matches fp (t.getFieldIndex c.1) b r)) :=
      (hanswered ▸ hfound).trans ((t.walk_perm ord).filter _)
    have hlists : Lists s.rows (s.layout []).columns
        (fun row => DBTable.InBounds fp b { sData := row c, usType := s.kind c }) rows := by
      have hmem : ∀ r ∈ found, ∃ k, t.recordSet.lookup k = some r := by
        intro r hr
        exact DBTable.mem_records.mp (List.mem_of_mem_filter (hperm.mem_iff.mp hr))
      have hviews : rows = found.map fun r => (s.layout []).columns.map (DBTable.rowOf s.names r) := by
        rw [hrows]
        apply List.map_congr_left
        intro r hr
        obtain ⟨k, hk⟩ := hmem r hr
        exact DBTable.checkDataList_eq hl (hwidth k r hk)
      rw [hviews, hrep.rows]
      exact lists_entries (fun k r hr => hrep.matches_iff b c hr) hperm
    refine ⟨ok, rows, hquery, SheetStep.scan ?_ hlists hflag⟩
    intro hck
    by_cases hequ : b.dataEquKey = []
    · exact if_pos hequ
    · exact absurd ⟨(hrep.keyIndex_iff c).mpr hck, hequ⟩ hkey

theorem refines_selection (h : m.Stores S) {ord : HashOrder} {tname fieldName : Str} {b : DBTable.Bounds}
    (hok : m.Orderly (.query ord tname fieldName b)) : m.Refines S (.query ord tname fieldName b) := by
  obtain ⟨hmax, hcolumn⟩ := hok
  by_cases hasked : fieldName = [] ∨ ¬ b.Given
  · have hquery : m.queryDB ord [] [] tname fieldName b = .ok (false, [], []) := by
      unfold queryDB
      rcases hasked with hname | hgiven
      · rw [if_pos (Or.inl hname)]
      · rw [if_pos (not_not.mp hgiven), ite_self]
    refine ⟨m, .found false [] [], S, ?_, ?_, h⟩
    · unfold manage
      dsimp only
      rw [hquery]
    · unfold request
      dsimp only
      rw [if_pos hasked]
      exact .nothing
  · obtain ⟨hname, hgiven⟩ := not_or.mp hasked
    have hgiven := not_not.mp hgiven
    unfold Refines request
    dsimp only
    rw [if_neg hasked]
    cases hS : S tname with
    | none =>
      have hquery : m.queryDB ord [] [] tname fieldName b = .ok (false, [], []) := by
        unfold queryDB
        rw [if_neg hgiven, h.lookup_eq_none hS, ite_self]
      refine ⟨m, .found false [] [], S, ?_, .missing hS, h⟩
      unfold manage
      dsimp only
      rw [hquery]
    | some s =>
      obtain ⟨t, ht, hrep⟩ := h.exists_table hS
      have hc : fieldName ∈ s.names := hrep.inColumns.mp (hcolumn hname t ht)
      obtain ⟨ok, rows, hquery, hstep⟩ := select_refines hrep ord hgiven hmax ⟨fieldName, hc⟩
      refine ⟨m, .found ok s.names rows, S, ?_, .call_same hS hstep, h⟩
      unfold manage queryDB
      dsimp only
      rw [if_neg (by rintro (h' | h'); exacts [hname h', h.name_ne_nil hS h']), if_neg hgiven, ht]
      dsimp only
      rw [hquery, ok_bind]
      show some (m, KeyedStore.Reply.found ok ([] ++ t.fieldNameList) rows) = _
      rw [List.nil_append, hrep.loaded.columns]

/-! ## Passes and runs -/

/-- A table after its turn holds what it held. -/
theorem After.represents {dt : fp.Flt} {t t' : DBTable fp} {s : Sheet Str UInt16 Str}
    (h : m.After dt t t')
    (hrep : t.Represents s) : t'.Represents s := by
  have hwf := h.wellFormed hrep.loaded.toWellFormed
  obtain ⟨⟨rs, hrest⟩, hrec⟩ := h
  obtain ⟨⟨-, hcolumns, hdistinct, hkeyed, hnamed, htype, hempty⟩, htyped, hkind, hrows⟩ := hrep
  have hfields : ∀ k, (t'.recordSet.lookup k).map (·.fieldList) =
      (t.recordSet.lookup k).map (·.fieldList) := by
    intro k
    rw [hrec k, Option.map_map]
    congr 1
    funext r
    show (if m.isDue t dt = true then r.cleared else r).fieldList = r.fieldList
    split <;> rfl
  subst hrest
  refine ⟨⟨hwf, hcolumns, hdistinct, hkeyed, hnamed, htype, ?_⟩, ?_, hkind, ?_⟩
  · rw [← AList.lookup_eq_none]
    have hnone := hfields []
    rw [AList.lookup_eq_none.mpr hempty] at hnone
    exact Option.map_eq_none_iff.mp hnone
  · intro k r hr
    have hsome := hfields k
    rw [hr] at hsome
    obtain ⟨r0, hr0, hlist⟩ := Option.map_eq_some_iff.mp hsome.symm
    change r0.fieldList = r.fieldList at hlist
    rw [← hlist]
    exact htyped k r0 hr0
  · rw [hrows]
    funext k
    have hk := congrArg (Option.map fun (l : List DBField) (c : DBTable.Column s.names) =>
      (l.getD (s.names.idxOf c.1) {}).sData) (hfields k)
    rw [Option.map_map, Option.map_map] at hk
    exact hk.symm

theorem refines_update (h : m.Stores S) (ord : HashOrder) (answer : Str → RecRef → Bool) (dt : fp.Flt) :
    m.Refines S (.update ord answer dt) := by
  obtain ⟨s, hok, inv⟩ := update_spec h.wellFormed ord answer dt
  have htable : ∀ tname, (m.tableSet.lookup tname = none ∧ s.mgr.tableSet.lookup tname = none) ∨
      ∃ t t', m.tableSet.lookup tname = some t ∧ s.mgr.tableSet.lookup tname = some t' ∧
          m.After dt t t' := by
    intro tname
    by_cases hmem : tname ∈ ord.order m.tableSet.keys
    · exact Or.inr (inv.after tname hmem)
    · have hnot : m.tableSet.lookup tname = none :=
        AList.lookup_eq_none.mpr fun hk => hmem (ord.mem_order.mpr hk)
      exact Or.inl ⟨hnot, (inv.before tname hmem).trans hnot⟩
  have hmem : ∀ tname, tname ∈ s.mgr.tableSet ↔ tname ∈ m.tableSet := by
    intro tname
    rcases htable tname with ⟨h1, h2⟩ | ⟨t, t', h1, h2, -⟩
    · exact iff_of_false (AList.lookup_eq_none.mp h2) (AList.lookup_eq_none.mp h1)
    · exact iff_of_true (UMap.mem_of_lookup h2) (UMap.mem_of_lookup h1)
  refine ⟨s.mgr, .flushed, S, ?_, .flush, ?_, fun tname => ?_, fun tname t' sheet ht' hS => ?_⟩
  · unfold manage
    dsimp only
    rw [hok]
  · rw [hmem]
    exact h.named
  · rw [hmem]
    exact h.absent tname
  · rcases htable tname with ⟨-, h2⟩ | ⟨t, t1, h1, h2, hafter⟩
    · rw [h2] at ht'
      cases ht'
    · cases h2.symm.trans ht'
      exact hafter.represents (h.present tname t sheet h1 hS)

/-- One call of the manager is one step of the store. -/
theorem refines_call (h : m.Stores S) {c : ManagerCall fp} (hok : m.Orderly c) : m.Refines S c := by
  cases c with
  | load dbname tname reply => exact refines_load h hok
  | insert tname d => exact refines_insertion h hok
  | modify tname k d => exact refines_modification h hok
  | query ord tname fieldName b => exact refines_selection h hok
  | update ord answer dt => exact refines_update h ord answer dt
  | close => exact ⟨{ m with bClose := true }, .flushed, S, rfl, .flush, h.of_tables rfl⟩

end Calls

theorem stores_createLink (dbname : Str) : (createLink dbname : DBManager fp).Stores fun _ => none :=
  ⟨AList.notMem_empty [], fun tname => iff_of_true rfl (AList.notMem_empty tname),
    fun _ _ _ h => by cases h⟩

/-- **The manager is a store of keyed tables.**  From a new connection every run of orderly calls
goes through, and its replies are those of a run of the store from no tables. -/
theorem manager_refines (dbname : Str) (calls : List (ManagerCall fp))
    (hok : Within (fun m c => (m.manage c).map (·.1)) Orderly (createLink dbname) calls) :
    ∃ m' replies S', runOut manage (createLink dbname) calls = some (m', replies) ∧
      SpecRun (fun S c => KeyedStore.Step [] S (request c)) (fun _ => none) calls replies S' ∧
        m'.Stores S' := by
  apply simulation_within (R := Stores) (D := Orderly)
  · intro m S c h hd
    exact refines_call h hd
  · exact hok
  · exact stores_createLink dbname

/-- A table of one row is loaded, a row goes in, both are asked for, one by its key; the tables
are written back and the manager closed. -/
def storeCalls : List (ManagerCall .exactRational) :=
  [.load (lit "game") (lit "t") rowReply, .insert (lit "t") (UMap.insertNew (lit "name") (lit "x") ∅),
    .query .plain (lit "t") (lit "id") ⟨[], lit "1", []⟩,
      .query .plain (lit "t") (lit "id") ⟨lit "2", [], []⟩,
    .update .plain (fun _ _ => true) (10 : ℚ), .close]

theorem manager_refines_storeCalls :
    ∃ m' replies S', runOut manage (createLink (lit "db")) storeCalls = some (m', replies) ∧
      SpecRun (fun S c => KeyedStore.Step [] S (request c)) (fun _ => none) storeCalls replies S' ∧
        m'.Stores S' :=
  manager_refines (lit "db") storeCalls (by decide +kernel)

end DBManager

end FuServer
