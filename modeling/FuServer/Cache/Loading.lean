import FuServer.Cache.ManagerSpec

/-!
# Loaded tables

`LoadTable` builds a table whose schema comes from `mysql_list_fields` and
whose rows come from `select *`.  When the two answers are about the same
columns, the table is well formed: schema, key agreement, no empty key.  The
three client calls keep that.
-/

namespace FuServer

open Bytes Decimal Outcome

namespace DBTable

variable {fp : FloatUnit}

/-- A table the cache can serve from. -/
structure WellFormed (t : DBTable fp) : Prop where
  schema : SchemaOk t
  agree : KeysAgree t

/-- No row waits for write-back. -/
def Clean (t : DBTable fp) : Prop :=
  ∀ k r, t.recordSet.lookup k = some r → r.bInsert = false ∧ r.bModify = false

theorem WellFormed.width {t : DBTable fp} (h : WellFormed t) {k : Str} {r : DBRecord}
    (hr : t.recordSet.lookup k = some r) : r.fieldList.length = t.fieldNameList.length :=
  (h.agree k r hr).1

theorem new_wellFormed {nameList : List Str} {typeList : List UInt16} {key : Int}
    (hl : typeList.length = nameList.length) (h0 : 0 ≤ key) (h : key.toNat < nameList.length) :
    WellFormed (new nameList typeList key : DBTable fp) :=
  ⟨new_schemaOk hl h0 h, fun _ _ hr => by cases hr⟩

/-- The names a table goes by do not matter. -/
theorem WellFormed.named {t : DBTable fp} (h : WellFormed t) (tname dbname : Str) :
    WellFormed { t with sTableName := tname, sDBName := dbname } := by
  obtain ⟨⟨htypes, hindex, hlo, hhi⟩, hagree⟩ := h
  exact ⟨⟨htypes, hindex, hlo, hhi⟩, hagree⟩

theorem WellFormed.enter {t : DBTable fp} (h : WellFormed t) {k : Str} {r : DBRecord}
    (hr : t.KeyedBy k r) : WellFormed (t.enter k r).1 :=
  ⟨h.schema.of_same (enter_same t k r), keysAgree_enter h.agree hr⟩

theorem WellFormed.putRecord {t : DBTable fp} (h : WellFormed t) {k : Str} {r : DBRecord}
    (hr : t.KeyedBy k r) : WellFormed (t.putRecord k r) := by
  refine ⟨h.schema.of_same (putRecord_same t k r), ?_⟩
  by_cases hk : k ∈ t.recordSet
  · exact (keysAgree_putRecord h.agree hk r).mpr hr
  · intro k' r' h'
    rw [lookup_putRecord] at h'
    rw [KeyedBy.of_same (putRecord_same t k r)]
    split at h'
    · rw [AList.lookup_eq_none.mpr hk] at h'
      cases h'
    · exact h.agree k' r' h'

theorem keyedBy_setIsInsert {t : DBTable fp} {k : Str} {r : DBRecord} (b : Bool) :
    t.KeyedBy k (r.setIsInsert b) ↔ t.KeyedBy k r := Iff.rfl

theorem WellFormed.addRecord {t : DBTable fp} (h : WellFormed t) {k : Str} {r : DBRecord}
    (hk : k ∉ t.recordSet) (hr : t.KeyedBy k r) : WellFormed (t.addRecord k r) := by
  have henter := h.enter hr
  rw [DBTable.enter, if_neg hk] at henter
  exact henter

/-! ## Loading rows -/

/-- What loading one more row does: nothing, or a record under a non-empty key. -/
structure Grown (t t' : DBTable fp) : Prop where
  same : SameSchema t t'
  wellFormed : WellFormed t → WellFormed t'
  nonempty : [] ∉ t.recordSet → [] ∉ t'.recordSet
  clean : Clean t → Clean t'

theorem Grown.refl (t : DBTable fp) : Grown t t := ⟨SameSchema.refl t, id, id, id⟩

theorem Grown.trans {t t' t'' : DBTable fp} (h : Grown t t') (h' : Grown t' t'') : Grown t t'' :=
  ⟨h.same.trans h'.same, h'.wellFormed ∘ h.wellFormed, h'.nonempty ∘ h.nonempty, h'.clean ∘ h.clean⟩

end DBTable

theorem rowRecord_length (fields : List MysqlField) (row : List (Option Str))
    (h : row.length = fields.length) : (rowRecord fields row).fieldList.length = fields.length := by
  simp [rowRecord, h]

/-- A stored text of a row is empty exactly when its field is marked null. -/
theorem rowRecord_bNull {fields : List MysqlField} {row : List (Option Str)} {f : DBField}
    (h : f ∈ (rowRecord fields row).fieldList) : f.bNull = true ↔ f.sData = [] := by
  obtain ⟨c, -, rfl⟩ := List.mem_map.mp h
  show ((DBField.new _).setDataPtr c.1.2).bNull = true ↔ ((DBField.new _).setDataPtr c.1.2).sData = []
  cases c.1.2 with
  | none => simp [DBField.setDataPtr]
  | some data =>
    unfold DBField.setDataPtr
    by_cases hlen : 0 < data.length
    · have hne : data ≠ [] := List.ne_nil_of_length_pos hlen
      simp [hlen, hne]
    · simp [hlen]

theorem rowRecord_clean (fields : List MysqlField) (row : List (Option Str)) :
    (rowRecord fields row).bInsert = false ∧ (rowRecord fields row).bModify = false :=
  ⟨rfl, rfl⟩

namespace DBTable

variable {fp : FloatUnit}

/-- Inserting one row never faults; if it is not refused, the table has grown. -/
theorem insertRow_grown {t : DBTable fp} (h : SchemaOk t) {fields : List MysqlField}
    {row : List (Option Str)} (hrow : row.length = fields.length)
    (hf : fields.length = t.fieldNameList.length) :
    ∃ t' o, t.insertRecordPtr (rowRecord fields row) = .ok (t', o) ∧ Grown t t' := by
  have hw := rowRecord_length fields row hrow
  have hlt : t.iPriKeyIndex.toNat < (rowRecord fields row).fieldList.length := by
    rw [hw, hf]
    exact h.keyHi
  have hget : (rowRecord fields row).getField t.iPriKeyIndex = .ok _ := vecAt_of_lt h.keyLo hlt
  rw [insertRecordPtr_eq h hget]
  have hnull := rowRecord_bNull (List.getElem_mem hlt)
  generalize (rowRecord fields row).fieldList[t.iPriKeyIndex.toNat] = f at hget hnull
  by_cases hn : f.bNull = true
  · exact ⟨t, none, by rw [if_pos hn], Grown.refl t⟩
  · have hkeyed : t.KeyedBy f.sData (rowRecord fields row) := ⟨hw.trans hf, f, hget, rfl⟩
    refine ⟨_, _, by rw [if_neg hn], enter_same t _ _, fun hwf => hwf.enter hkeyed, ?_, ?_⟩
    · intro hempty
      unfold enter
      split
      · exact hempty
      · rw [addRecord_recordSet, UMap.mem_insertNew]
        rintro (h0 | h0)
        · exact hn (hnull.mpr h0.symm)
        · exact hempty h0
    · intro hclean
      unfold enter
      split
      · exact hclean
      · intro k r hr
        rw [addRecord_recordSet, UMap.lookup_insertNew] at hr
        split at hr
        · cases hr
          exact rowRecord_clean fields row
        · exact hclean k r hr

theorem checkToTable_grown {fields : List MysqlField} (rows : List (List (Option Str)))
    (hrows : ∀ row ∈ rows, row.length = fields.length) (t : DBTable fp) (h : SchemaOk t)
    (hf : fields.length = t.fieldNameList.length) :
    ∃ o, checkToTable fields rows t = .ok o ∧ ∀ t', o = some t' → Grown t t' := by
  induction rows generalizing t with
  | nil => exact ⟨some t, rfl, fun t' ht' => by cases ht'; exact Grown.refl t⟩
  | cons row rows ih =>
    rw [checkToTable]
    dsimp only
    generalize (fields.foldl (fun b f => if f.priKey then f.autoIncrement else b)
      t.bAutoIncrement) = auto
    have hauto : Grown t { t with bAutoIncrement := auto } :=
      ⟨⟨rfl, rfl, rfl, rfl, rfl, rfl⟩,
        fun hwf => ⟨hwf.schema.of_same ⟨rfl, rfl, rfl, rfl, rfl, rfl⟩, hwf.agree⟩, id, id⟩
    obtain ⟨t1, o1, h1, hg1⟩ := insertRow_grown (h.of_same hauto.same)
      (hrows row List.mem_cons_self) hf
    rw [h1, ok_bind]
    have hg := hauto.trans hg1
    cases o1 with
    | none => exact ⟨none, rfl, fun t' ht' => by cases ht'⟩
    | some k =>
      obtain ⟨o, ho, hgrown⟩ := ih (fun row' hr => hrows row' (List.mem_cons_of_mem row hr)) t1
        (h.of_same hg.same) (by rw [hg.same.names]; exact hf)
      exact ⟨o, ho, fun t' ht' => hg.trans (hgrown t' ht')⟩

end DBTable

/-! ## LoadTable -/

/-- Both answers are about the same columns. -/
def LoadReply.Consistent (reply : LoadReply) : Prop :=
  ∀ fields ∈ reply.info, ∀ res ∈ reply.select, res.fields = fields

/-- The reported key index is a column, or -1. -/
theorem checkFieldInfo_key (fields : List MysqlField) :
    -1 ≤ (checkFieldInfo fields).2.2 ∧ (checkFieldInfo fields).2.2 < fields.length := by
  unfold checkFieldInfo
  dsimp only
  refine List.foldlRecOn (motive := fun p : Int => -1 ≤ p ∧ p < fields.length) _ _ ?_ ?_
  · omega
  · intro p hp f hf
    have hlt := List.snd_lt_add_of_mem_zipIdx hf
    split
    · omega
    · exact hp

theorem length_checkFieldInfo (fields : List MysqlField) :
    (checkFieldInfo fields).1.length = fields.length ∧
      (checkFieldInfo fields).2.1.length = fields.length := by
  constructor <;> simp [checkFieldInfo]

/-- A new table for the columns reported, if one of them is the key. -/
theorem new_checkFieldInfo (fp : FloatUnit) {fields : List MysqlField}
    (hkey : 0 ≤ (checkFieldInfo fields).2.2) :
    DBTable.WellFormed (DBTable.new (checkFieldInfo fields).1 (checkFieldInfo fields).2.1
      (checkFieldInfo fields).2.2 : DBTable fp) := by
  obtain ⟨hnames, htypes⟩ := length_checkFieldInfo fields
  have hhi := (checkFieldInfo_key fields).2
  exact DBTable.new_wellFormed (htypes.trans hnames.symm) hkey (by rw [hnames]; omega)

/-- The rows of a result set go into a new table without a fault; if none is
refused, the table is well formed and clean and has no row under the empty key. -/
theorem checkToTable_new (fp : FloatUnit) (res : MysqlRes) (hkey : 0 ≤ (checkFieldInfo res.fields).2.2) :
    ∃ o, checkToTable res.fields res.rows (DBTable.new (checkFieldInfo res.fields).1
        (checkFieldInfo res.fields).2.1 (checkFieldInfo res.fields).2.2 : DBTable fp) = .ok o ∧
      ∀ t, o = some t → t.WellFormed ∧ [] ∉ t.recordSet ∧ t.Clean := by
  have hnew := new_checkFieldInfo fp hkey
  have hnames := (length_checkFieldInfo res.fields).1
  obtain ⟨o, ho, hgrown⟩ := DBTable.checkToTable_grown res.rows res.width _ hnew.schema hnames.symm
  refine ⟨o, ho, fun t ht => ?_⟩
  have hg := hgrown t ht
  refine ⟨hg.wellFormed hnew, hg.nonempty (AList.notMem_empty []), hg.clean ?_⟩
  intro k r hr
  cases hr

namespace DBManager

variable {fp : FloatUnit}

def WellFormed (m : DBManager fp) : Prop :=
  ∀ tname t, m.tableSet.lookup tname = some t → t.WellFormed

/-- The manager after `changeDB`, as far as `loadTable` uses it. -/
def enterDB (m : DBManager fp) (dbname : Str) (useOk : Bool) : DBManager fp × Bool :=
  if dbname ≠ [] then m.changeDB dbname useOk else (m, true)

theorem enterDB_tableSet (m : DBManager fp) (dbname : Str) (useOk : Bool) :
    (m.enterDB dbname useOk).1.tableSet = m.tableSet := by
  unfold enterDB changeDB
  dsimp only
  split
  · split <;> rfl
  · rfl

/-- The exits of `LoadTable`: five without a new table, and one with the table
that the rows of the result set have gone into. -/
theorem loadTable_exits {m m' : DBManager fp} {dbname tname : Str} {reply : LoadReply} {b : Bool}
    (h : m.loadTable dbname tname reply = .ok (m', b)) :
    (b = false ∧ (m' = m ∨ m' = (m.enterDB dbname reply.useOk).1)) ∨
    ∃ fields res t, b = true ∧ tname ∉ m.tableSet ∧ (m.enterDB dbname reply.useOk).2 = true ∧
      reply.info = some fields ∧ 0 ≤ (checkFieldInfo fields).2.2 ∧ reply.select = some res ∧
      checkToTable res.fields res.rows (DBTable.new (checkFieldInfo fields).1 (checkFieldInfo fields).2.1
        (checkFieldInfo fields).2.2 : DBTable fp) = .ok (some t) ∧
      m' = { (m.enterDB dbname reply.useOk).1 with
        tableSet := UMap.insertNew tname
          { t with sTableName := tname, sDBName := (m.enterDB dbname reply.useOk).1.sCurrentDB }
          (m.enterDB dbname reply.useOk).1.tableSet } := by
  unfold loadTable at h
  split at h
  · cases h
    exact Or.inl ⟨rfl, Or.inl rfl⟩
  · next hnot =>
    have henter : (if dbname ≠ [] then m.changeDB dbname reply.useOk else (m, true)) =
        m.enterDB dbname reply.useOk := rfl
    dsimp only at h
    rw [henter] at h
    generalize m.enterDB dbname reply.useOk = changed at h ⊢
    split at h
    · cases h
      exact Or.inl ⟨rfl, Or.inr rfl⟩
    · next hok =>
      cases hinfo : reply.info with
      | none => rw [hinfo] at h; cases h
      | some fields =>
        rw [hinfo] at h
        dsimp only at h
        split at h
        · cases h
          exact Or.inl ⟨rfl, Or.inr rfl⟩
        · next hkey =>
          cases hsel : reply.select with
          | none =>
            rw [hsel] at h
            cases h
            exact Or.inl ⟨rfl, Or.inr rfl⟩
          | some res =>
            rw [hsel] at h
            obtain ⟨o, ho, h⟩ := bind_eq_ok.mp h
            cases o with
            | none =>
              cases h
              exact Or.inl ⟨rfl, Or.inr rfl⟩
            | some t =>
              cases h
              exact Or.inr ⟨fields, res, t, rfl, hnot, by simpa using hok, rfl, not_lt.mp hkey, rfl,
                ho, rfl⟩

/-- `LoadTable` either adds no table, or adds one well-formed clean table from
the database it has just entered. -/
theorem loadTable_cases {m m' : DBManager fp} {dbname tname : Str} {reply : LoadReply} {b : Bool}
    (hc : reply.Consistent) (h : m.loadTable dbname tname reply = .ok (m', b)) :
    (m' = m ∨ m' = (m.enterDB dbname reply.useOk).1) ∨
    ∃ t, tname ∉ m.tableSet ∧ (m.enterDB dbname reply.useOk).2 = true ∧
      m' = { (m.enterDB dbname reply.useOk).1 with
        tableSet := UMap.insertNew tname t (m.enterDB dbname reply.useOk).1.tableSet } ∧
      t.WellFormed ∧ [] ∉ t.recordSet ∧ t.Clean ∧ t.sTableName = tname ∧
      t.sDBName = (m.enterDB dbname reply.useOk).1.sCurrentDB := by
  rcases loadTable_exits h with ⟨-, hsame⟩ | ⟨fields, res, t, -, hnot, hok, hinfo, hkey, hsel,
    hrows, rfl⟩
  · exact Or.inl hsame
  · obtain rfl := hc fields hinfo res hsel
    obtain ⟨o, ho, hloaded⟩ := checkToTable_new fp res hkey
    cases ho.symm.trans hrows
    obtain ⟨hwf, hempty, hclean⟩ := hloaded t rfl
    exact Or.inr ⟨_, hnot, hok, rfl, hwf.named _ _, hempty, hclean, rfl, rfl⟩

/-! ## The calls keep every table well formed -/

theorem wellFormed_putTable {m : DBManager fp} (h : m.WellFormed) {t : DBTable fp}
    (ht : t.WellFormed) (tname : Str) : (m.putTable tname t).WellFormed := by
  intro tname' t' hm'
  rw [lookup_putTable] at hm'
  split at hm'
  · obtain ⟨-, -, rfl⟩ := Option.map_eq_some_iff.mp hm'
    exact ht
  · exact h tname' t' hm'

theorem wellFormed_loadTable {m m' : DBManager fp} (h : m.WellFormed) {dbname tname : Str}
    {reply : LoadReply} {b : Bool} (hc : reply.Consistent)
    (hs : m.loadTable dbname tname reply = .ok (m', b)) : m'.WellFormed := by
  have hset := enterDB_tableSet m dbname reply.useOk
  rcases loadTable_cases hc hs with (rfl | rfl) | ⟨t, -, -, rfl, ht, -⟩
  · exact h
  · intro tname' t' hm'
    rw [hset] at hm'
    exact h tname' t' hm'
  · intro tname' t' hm'
    rw [UMap.lookup_insertNew, hset] at hm'
    split at hm'
    · cases hm'
      exact ht
    · exact h tname' t' hm'

/-- What `InsertDB` can do: nothing, or one new flagged record in its table. -/
theorem insertDB_cases {m m' : DBManager fp} (h : m.WellFormed) {tname : Str} {d : UMap Str Str}
    {k : Str} (hs : m.insertDB tname d = .ok (m', k)) :
    (m' = m ∧ k = []) ∨
    ∃ t, m.tableSet.lookup tname = some t ∧ ¬ t.Refuses d ∧ k = t.newKey d ∧
      m' = m.putTable tname (t.addRecord (t.newKey d) ((t.newRecord d).setIsInsert true)) := by
  by_cases hn : tname = []
  · rw [insertDB, if_pos hn] at hs
    cases hs
    exact Or.inl ⟨rfl, rfl⟩
  · cases hm : m.tableSet.lookup tname with
    | none => rw [insertDB, if_neg hn, hm] at hs; cases hs
    | some t =>
      rw [insertDB_eq hn hm (h tname t hm).schema d] at hs
      by_cases hr : t.Refuses d
      · rw [if_pos hr] at hs
        cases hs
        exact Or.inl ⟨rfl, rfl⟩
      · rw [if_neg hr] at hs
        cases hs
        exact Or.inr ⟨t, rfl, hr, rfl, rfl⟩

/-- What `ModifyDB` can do: nothing, or assignments to known columns of one record. -/
theorem modifyDB_cases {m m' : DBManager fp} (h : m.WellFormed) {tname k : Str} {d : UMap Str Str}
    {ok : Bool} (hs : m.modifyDB tname k d = .ok (m', ok)) :
    (m' = m ∧ ok = false) ∨
    ∃ t r, m.tableSet.lookup tname = some t ∧ t.recordSet.lookup k = some r ∧
      (∀ c ∈ d.keys, c ∈ t.fieldNameList) ∧ ok = true ∧
      m' = m.putTable tname (t.putRecord k (d.entries.foldl t.assignNamed r)) := by
  by_cases hn : k = [] ∨ tname = []
  · rw [modifyDB, if_pos hn] at hs
    cases hs
    exact Or.inl ⟨rfl, rfl⟩
  · cases hm : m.tableSet.lookup tname with
    | none =>
      rw [modifyDB_of_notTable hm] at hs
      cases hs
      exact Or.inl ⟨rfl, rfl⟩
    | some t =>
      have ht := h tname t hm
      cases hr : t.recordSet.lookup k with
      | none =>
        rw [modifyDB_of_notMem hm (AList.lookup_eq_none.mp hr)] at hs
        cases hs
        exact Or.inl ⟨rfl, rfl⟩
      | some r =>
        rw [modifyDB_eq (fun h0 => hn (Or.inr h0)) (fun h0 => hn (Or.inl h0)) hm ht.schema hr
          (ht.width hr)] at hs
        split at hs
        · next hall =>
          cases hs
          exact Or.inr ⟨t, r, rfl, hr, hall, rfl, rfl⟩
        · cases hs

theorem wellFormed_insertDB {m m' : DBManager fp} (h : m.WellFormed) {tname : Str}
    {d : UMap Str Str} {k : Str} (hs : m.insertDB tname d = .ok (m', k)) : m'.WellFormed := by
  rcases insertDB_cases h hs with ⟨rfl, -⟩ | ⟨t, hm, hr, -, rfl⟩
  · exact h
  · have ht := h tname t hm
    have hkeyed := (DBTable.keyedBy_setIsInsert true).mpr (DBTable.newRecord_keyed ht.schema d)
    exact wellFormed_putTable h (ht.addRecord (fun hk => hr (Or.inl hk)) hkeyed) tname

theorem wellFormed_modifyDB {m m' : DBManager fp} (h : m.WellFormed) {tname k : Str}
    {d : UMap Str Str} {ok : Bool} (hs : m.modifyDB tname k d = .ok (m', ok)) : m'.WellFormed := by
  rcases modifyDB_cases h hs with ⟨rfl, -⟩ | ⟨t, r, hm, hr, hall, -, rfl⟩
  · exact h
  · have ht := h tname t hm
    have hkeyed := DBTable.keyedBy_foldl_assignNamed ht.schema d.entries r (ht.agree k r hr)
      fun e he => hall e.1 (List.mem_map_of_mem he)
    exact wellFormed_putTable h (ht.putRecord hkeyed) tname

theorem wellFormed_createLink (dbname : Str) : (createLink dbname : DBManager fp).WellFormed := by
  intro tname t h
  cases h

/-- A manager with one empty table `t` of an integer key and a text column. -/
def oneTable : DBManager .exactRational where
  tableSet := UMap.insertNew (lit "t") (DBTable.new [lit "id", lit "name"] [dbIntT, dbStringT] 0) ∅
  pDBLink := { selected := lit "db" }
  sCurrentDB := lit "db"
  bClose := false

theorem oneTable_wellFormed : oneTable.WellFormed := by
  intro tname t hm
  have hset : oneTable.tableSet = UMap.insertNew (lit "t") _ ∅ := rfl
  rw [hset, UMap.lookup_insertNew] at hm
  split at hm
  · cases hm
    exact DBTable.new_wellFormed rfl (by decide) (by decide)
  · cases hm

end DBManager

end FuServer
