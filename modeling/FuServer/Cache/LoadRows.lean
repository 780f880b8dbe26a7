import FuServer.Backup.Database

/-!
# What a call of LoadTable leaves

A table that is loaded holds the rows of the result set, one record each, under
the bytes of the key column.  A call that fails leaves the tables alone, but
the database it has entered it does not leave again: `m_sCurrentDB` goes with
the connection, and no path goes back.
-/

namespace FuServer

open Bytes Outcome

/-- The bytes in the key column of a row. -/
def rowKey (iPriKeyIndex : Int) (row : List (Option Str)) : Str :=
  (row.getD iPriKeyIndex.toNat none).getD []

namespace DBTable

variable {fp : FloatUnit}

/-- The records are the rows: one under each row's key, with the bytes of its
columns, NULL as no bytes, and waiting for no write-back. -/
structure HoldsRows (t : DBTable fp) (rows : List (List (Option Str))) : Prop where
  distinct : (rows.map (rowKey t.iPriKeyIndex)).Nodup
  keys : ∀ k, k ∈ t.recordSet ↔ k ∈ rows.map (rowKey t.iPriKeyIndex)
  records : ∀ row ∈ rows, ∃ r, t.recordSet.lookup (rowKey t.iPriKeyIndex row) = some r ∧
    r.fieldList.map (·.sData) = row.map (·.getD []) ∧ r.bInsert = false ∧ r.bModify = false

end DBTable

/-! ## One row -/

theorem setDataPtr_sData (f : DBField) (data : Option Str) :
    (f.setDataPtr data).sData = data.getD [] := by
  cases data with
  | none => rfl
  | some pData =>
    unfold DBField.setDataPtr
    dsimp only
    split
    · rfl
    · next hlen => exact (List.length_eq_zero_iff.mp (Nat.eq_zero_of_not_pos hlen)).symm

theorem rowRecord_sData {fields : List MysqlField} {row : List (Option Str)}
    (h : row.length = fields.length) :
    (rowRecord fields row).fieldList.map (·.sData) = row.map (·.getD []) := by
  have hdata : ∀ c : (MysqlField × Option Str) × Nat,
      ((((DBField.new (exchangeDataType c.1.1.type)).setDataPtr c.1.2).setIndex c.2).setIsKey
          c.1.1.priKey).sData = c.1.2.getD [] := fun c => setDataPtr_sData _ c.1.2
  have hcolumns : ((fields.zip row).zipIdx.map Prod.fst).map Prod.snd = row := by
    rw [List.zipIdx_map_fst, List.map_snd_zip h.le]
  show ((fields.zip row).zipIdx.map _).map _ = _
  rw [List.map_map]
  conv => rhs; rw [← hcolumns, List.map_map, List.map_map]
  exact List.map_congr_left fun c _ => hdata c

/-- The key field of a row's record. -/
theorem rowRecord_key {fields : List MysqlField} {row : List (Option Str)}
    (h : row.length = fields.length) {index : Int} {f : DBField}
    (hf : (rowRecord fields row).getField index = .ok f) :
    f.sData = rowKey index row := by
  obtain ⟨-, hget⟩ := vecAt_eq_ok.mp hf
  have hdata := congrArg (fun l => l[index.toNat]?) (rowRecord_sData h)
  rw [List.getElem?_map, List.getElem?_map, hget] at hdata
  obtain ⟨data, hrow, hd⟩ := Option.map_eq_some_iff.mp hdata.symm
  rw [rowKey, List.getD_eq_getElem?_getD, hrow]
  exact hd.symm

namespace DBTable

variable {fp : FloatUnit}

/-- A row that is not refused goes in under its key. -/
theorem insertRow_spec {t t' : DBTable fp} {fields : List MysqlField} {row : List (Option Str)} {k : Str}
    (hrow : row.length = fields.length)
    (h : t.insertRecordPtr (rowRecord fields row) = .ok (t', some k)) :
    k = rowKey t.iPriKeyIndex row ∧ k ∉ t.recordSet ∧
      t'.recordSet = UMap.insertNew k (rowRecord fields row) t.recordSet ∧
        t'.iPriKeyIndex = t.iPriKeyIndex := by
  obtain ⟨pKeyField, hkey, h⟩ := bind_eq_ok.mp h
  have hdata := rowRecord_key hrow hkey
  by_cases hrefused : pKeyField.bNull || (t.findSet pKeyField.sData).isSome
  · rw [if_pos hrefused] at h
    cases h
  · rw [if_neg hrefused] at h
    obtain ⟨t1, hset, h⟩ := bind_eq_ok.mp h
    cases h
    obtain ⟨hrecords, hindex⟩ := insertSet_spec hset
    refine ⟨hdata, ?_, hrecords, hindex⟩
    rw [← AList.lookup_eq_none]
    rw [Bool.or_eq_true, not_or] at hrefused
    simpa [findSet] using hrefused.2

/-- Over the rows, each with a key that nothing had before it. -/
theorem checkToTable_rows {fields : List MysqlField} {rows : List (List (Option Str))}
    {t t' : DBTable fp} (hrows : ∀ row ∈ rows, row.length = fields.length)
    (h : checkToTable fields rows t = .ok (some t')) :
    t'.iPriKeyIndex = t.iPriKeyIndex ∧ (rows.map (rowKey t.iPriKeyIndex)).Nodup ∧
      (∀ k ∈ rows.map (rowKey t.iPriKeyIndex), k ∉ t.recordSet) ∧
      ∀ k, t'.recordSet.lookup k =
        (t.recordSet.lookup k).or
          ((rows.find? fun row => rowKey t.iPriKeyIndex row = k).map (rowRecord fields)) := by
  induction rows generalizing t with
  | nil =>
    cases h
    exact ⟨rfl, List.nodup_nil, nofun, fun k => (Option.or_none).symm⟩
  | cons row rows ih =>
    rw [checkToTable] at h
    obtain ⟨⟨t1, o⟩, hinsert, h⟩ := bind_eq_ok.mp h
    cases o with
    | none => cases h
    | some k0 =>
      obtain ⟨rfl, hnew, hset, hindex⟩ := insertRow_spec (hrows row List.mem_cons_self) hinsert
      obtain ⟨hindex', hnodup, habsent, hlookup⟩ :=
        ih (fun r hr => hrows r (List.mem_cons_of_mem row hr)) h
      change rowKey t.iPriKeyIndex row ∉ t.recordSet at hnew
      change t1.recordSet =
        UMap.insertNew (rowKey t.iPriKeyIndex row) (rowRecord fields row) t.recordSet at hset
      change t1.iPriKeyIndex = t.iPriKeyIndex at hindex
      rw [hindex] at hindex' hnodup habsent hlookup
      have hout : ∀ k ∈ rows.map (rowKey t.iPriKeyIndex), k ≠ rowKey t.iPriKeyIndex row ∧
          k ∉ t.recordSet := by
        intro k hk
        have hk1 := habsent k hk
        rw [hset, UMap.mem_insertNew, not_or] at hk1
        exact hk1
      refine ⟨hindex', ?_, ?_, ?_⟩
      · rw [List.map_cons, List.nodup_cons]
        exact ⟨fun hin => (hout _ hin).1 rfl, hnodup⟩
      · intro k hk
        rw [List.map_cons] at hk
        rcases List.mem_cons.mp hk with rfl | hk
        · exact hnew
        · exact (hout k hk).2
      · intro k
        rw [hlookup, hset, UMap.lookup_insertNew]
        by_cases hk : k = rowKey t.iPriKeyIndex row
        · rw [if_pos ⟨hk, hnew⟩, hk, AList.lookup_eq_none.mpr hnew, List.find?_cons_of_pos (by simp)]
          rfl
        · rw [if_neg fun hboth => hk hboth.1, List.find?_cons_of_neg (by simpa using Ne.symm hk)]

/-- The rows loaded into a table that was empty. -/
theorem checkToTable_holdsRows {res : MysqlRes} {t t' : DBTable fp} (hempty : t.recordSet = ∅)
    (h : checkToTable res.fields res.rows t = .ok (some t')) :
    t'.iPriKeyIndex = t.iPriKeyIndex ∧ t'.HoldsRows res.rows := by
  obtain ⟨hindex, hnodup, -, hlookup⟩ := checkToTable_rows res.width h
  have hfind : ∀ k, t'.recordSet.lookup k =
      (res.rows.find? fun row => rowKey t.iPriKeyIndex row = k).map (rowRecord res.fields) := by
    intro k
    rw [hlookup, hempty, AList.lookup_empty]
    exact Option.none_or
  refine ⟨hindex, ?_⟩
  constructor
  · rw [hindex]
    exact hnodup
  · intro k
    rw [hindex, ← AList.lookup_isSome, hfind, Option.isSome_map, List.find?_isSome, List.mem_map]
    simp
  · intro row hrow
    rw [hindex, hfind]
    obtain ⟨row', hrow'⟩ :
        ∃ row', res.rows.find? (fun r => rowKey t.iPriKeyIndex r = rowKey t.iPriKeyIndex row) =
        some row' := by
      apply Option.isSome_iff_exists.mp
      rw [List.find?_isSome]
      exact ⟨row, hrow, by simp⟩
    have hsame : row' = row := by
      have hkey : rowKey t.iPriKeyIndex row' = rowKey t.iPriKeyIndex row :=
        of_decide_eq_true (List.find?_some hrow' :)
      exact List.inj_on_of_nodup_map hnodup (List.mem_of_find?_eq_some hrow') hrow hkey
    rw [hrow', hsame]
    exact ⟨_, rfl, rowRecord_sData (res.width row hrow), rfl, rfl⟩

end DBTable

namespace DBManager

variable {fp : FloatUnit}

/-- Entering a database that is refused changes nothing; one that is entered is
the manager's and the connection's. -/
theorem enterDB_cases (m : DBManager fp) (dbname : Str) (useOk : Bool) :
    (m.enterDB dbname useOk).1 = m ∨
      (dbname ≠ [] ∧ useOk = true ∧ (m.enterDB dbname useOk).1.sCurrentDB = dbname ∧
        (m.enterDB dbname useOk).1.pDBLink.selected = cstr dbname) := by
  unfold enterDB
  by_cases hname : dbname = []
  · rw [if_neg (not_not.mpr hname)]
    exact Or.inl rfl
  · rw [if_pos hname]
    unfold changeDB DBMysql.runSqlCMD
    rw [if_neg hname, useOperand_use]
    cases useOk with
    | true => exact Or.inr ⟨hname, rfl, rfl, rfl⟩
    | false => exact Or.inl rfl

/-- The session of two managers is the same. -/
def SameSession (m m' : DBManager fp) : Prop :=
  m'.sCurrentDB = m.sCurrentDB ∧ m'.pDBLink.selected = m.pDBLink.selected

/-- **LoadTable.**  If it returns true there is one more table, under its name,
and it holds the rows of the result set by the key column that was reported; if
it returns false the tables are what they were, and the session is too, unless
`use` has gone through: then it is in the database asked for. -/
theorem loadTable_spec {m m' : DBManager fp} {dbname tname : Str} {reply : LoadReply} {b : Bool}
    (h : m.loadTable dbname tname reply = .ok (m', b)) :
    (b = true → ∃ t fields res, reply.info = some fields ∧ reply.select = some res ∧ tname ∉ m.tableSet ∧
      m'.tableSet = UMap.insertNew tname t m.tableSet ∧ t.sTableName = tname ∧
      t.iPriKeyIndex = (checkFieldInfo fields).2.2 ∧ t.HoldsRows res.rows) ∧
    (b = false → m'.tableSet = m.tableSet ∧ (SameSession m m' ∨
      (dbname ≠ [] ∧ reply.useOk = true ∧ m'.sCurrentDB = dbname ∧
        m'.pDBLink.selected = cstr dbname))) := by
  rcases loadTable_exits h with ⟨rfl, hsame⟩ | ⟨fields, res, t, rfl, hnot, -, hinfo, -, hsel, hrows, rfl⟩
  · refine ⟨nofun, fun _ => ?_⟩
    rcases hsame with rfl | rfl
    · exact ⟨rfl, Or.inl ⟨rfl, rfl⟩⟩
    · refine ⟨enterDB_tableSet m dbname reply.useOk, ?_⟩
      rcases enterDB_cases m dbname reply.useOk with heq | hmoved
      · rw [heq]
        exact Or.inl ⟨rfl, rfl⟩
      · exact Or.inr hmoved
  · refine ⟨fun _ => ?_, nofun⟩
    obtain ⟨hindex, hdistinct, hkeys, hrecords⟩ := DBTable.checkToTable_holdsRows rfl hrows
    refine ⟨{ t with sTableName := tname, sDBName := (m.enterDB dbname reply.useOk).1.sCurrentDB },
      fields, res,
      hinfo, hsel, hnot, ?_, rfl, hindex, hdistinct, hkeys, hrecords⟩
    rw [enterDB_tableSet]

/-- What the server answers for a table of one row. -/
def rowReply : LoadReply where
  useOk := true
  info := some [⟨lit "id", .long, true, false⟩, ⟨lit "name", .varString, false, false⟩]
  select := some
    { fields := [⟨lit "id", .long, true, false⟩, ⟨lit "name", .varString, false, false⟩]
      rows := [[some (lit "1"), none]]
      width := by decide }

theorem loadTable_spec_one_row : ∃ m' : DBManager .exactRational, ∃ b,
    (createLink (lit "db")).loadTable (lit "game") (lit "t") rowReply = .ok (m', b) ∧
      (b = true → ∃ t fields res, rowReply.info = some fields ∧ rowReply.select = some res ∧
        lit "t" ∉ (createLink (lit "db") : DBManager .exactRational).tableSet ∧
        m'.tableSet = UMap.insertNew (lit "t") t
          (createLink (lit "db") : DBManager .exactRational).tableSet ∧
        t.sTableName = lit "t" ∧ t.iPriKeyIndex = (checkFieldInfo fields).2.2 ∧ t.HoldsRows res.rows) ∧
      (b = false → m'.tableSet = (createLink (lit "db") : DBManager .exactRational).tableSet ∧
        (SameSession (createLink (lit "db")) m' ∨
          (lit "game" ≠ [] ∧ rowReply.useOk = true ∧ m'.sCurrentDB = lit "game" ∧
            m'.pDBLink.selected = cstr (lit "game")))) :=
  ⟨_, _, rfl, loadTable_spec rfl⟩

/-- `use game;` goes through, and the table has no key column: the call fails in
the other database. -/
theorem failed_load_leaves_database :
    ((createLink (lit "db") : DBManager .exactRational).loadTable (lit "game") (lit "t")
      { useOk := true, info := some [⟨lit "id", .long, false, false⟩], select := none }).toOption.map
        (fun r => (r.2, r.1.sCurrentDB, r.1.pDBLink.selected)) = some (false, lit "game", lit "game") ∧
      (createLink (lit "db") : DBManager .exactRational).sCurrentDB ≠ lit "game" ∧
      (createLink (lit "db") : DBManager .exactRational).pDBLink.selected ≠ lit "game" := by
  decide

end DBManager

/-! ## Refused loads -/

namespace DBTable

variable {fp : FloatUnit}

/-- A row is refused when its key is empty or taken. -/
theorem insertRow_eq {t : DBTable fp} (h : SchemaOk t) {fields : List MysqlField}
    {row : List (Option Str)} (hrow : row.length = fields.length)
    (hf : fields.length = t.fieldNameList.length) :
    t.insertRecordPtr (rowRecord fields row) = .ok (
      if rowKey t.iPriKeyIndex row = [] then (t, none)
      else t.enter (rowKey t.iPriKeyIndex row) (rowRecord fields row)) := by
  have hlt : t.iPriKeyIndex.toNat < (rowRecord fields row).fieldList.length := by
    rw [rowRecord_length fields row hrow, hf]
    exact h.keyHi
  have hget : (rowRecord fields row).getField t.iPriKeyIndex = .ok _ := vecAt_of_lt h.keyLo hlt
  have hnull := rowRecord_bNull (List.getElem_mem hlt)
  rw [insertRecordPtr_eq h hget, ← rowRecord_key hrow hget]
  simp only [hnull]

/-- One row of `CheckToTable`, before it goes on. -/
theorem checkToTable_cons {t : DBTable fp} (h : SchemaOk t) {fields : List MysqlField}
    {row : List (Option Str)} (hrow : row.length = fields.length)
    (hf : fields.length = t.fieldNameList.length) (rows : List (List (Option Str))) :
    ∃ t1 : DBTable fp, SameSchema t t1 ∧
      t1.recordSet = UMap.insertNew (rowKey t.iPriKeyIndex row) (rowRecord fields row) t.recordSet ∧
      checkToTable fields (row :: rows) t =
        if rowKey t.iPriKeyIndex row = [] ∨ rowKey t.iPriKeyIndex row ∈ t.recordSet then .ok none
        else checkToTable fields rows t1 := by
  let t0 : DBTable fp := { t with
    bAutoIncrement := fields.foldl (fun b f => if f.priKey then f.autoIncrement else b)
      t.bAutoIncrement }
  have h0 : SchemaOk t0 := h.of_same ⟨rfl, rfl, rfl, rfl, rfl, rfl⟩
  refine ⟨t0.addRecord (rowKey t.iPriKeyIndex row) (rowRecord fields row),
    ⟨rfl, rfl, rfl, rfl, rfl, rfl⟩, rfl, ?_⟩
  have hins := insertRow_eq h0 hrow hf
  change t0.insertRecordPtr (rowRecord fields row) =
    .ok (if rowKey t.iPriKeyIndex row = [] then (t0, none)
    else t0.enter (rowKey t.iPriKeyIndex row) (rowRecord fields row)) at hins
  have hmem0 : rowKey t.iPriKeyIndex row ∈ t0.recordSet ↔ rowKey t.iPriKeyIndex row ∈ t.recordSet :=
    Iff.rfl
  rw [checkToTable]
  show t0.insertRecordPtr (rowRecord fields row) >>= _ = _
  rw [hins]
  by_cases hempty : rowKey t.iPriKeyIndex row = []
  · rw [if_pos hempty, if_pos (Or.inl hempty)]
    rfl
  · by_cases hmem : rowKey t.iPriKeyIndex row ∈ t.recordSet
    · rw [if_neg hempty, if_pos (Or.inr hmem), enter, if_pos (hmem0.mpr hmem)]
      rfl
    · rw [if_neg hempty, if_neg (not_or.mpr ⟨hempty, hmem⟩), enter, if_neg fun hm => hmem (hmem0.mp hm)]
      rfl

/-- Each row has a key, and no two the same. -/
def KeyedRows (iPriKeyIndex : Int) (rows : List (List (Option Str))) : Prop :=
  (∀ row ∈ rows, rowKey iPriKeyIndex row ≠ []) ∧ (rows.map (rowKey iPriKeyIndex)).Nodup

/-- All the rows go in when their keys are not empty, differ, and are not taken. -/
theorem checkToTable_isSome {fields : List MysqlField} {rows : List (List (Option Str))}
    (hrows : ∀ row ∈ rows, row.length = fields.length) {t : DBTable fp} (h : SchemaOk t)
    (hf : fields.length = t.fieldNameList.length) {o : Option (DBTable fp)}
    (ho : checkToTable fields rows t = .ok o) :
    o.isSome = true ↔ KeyedRows t.iPriKeyIndex rows ∧
      ∀ row ∈ rows, rowKey t.iPriKeyIndex row ∉ t.recordSet := by
  induction rows generalizing t with
  | nil =>
    cases ho
    simp [KeyedRows]
  | cons row rows ih =>
    obtain ⟨t1, hsame, hset, hcons⟩ := checkToTable_cons h (hrows row List.mem_cons_self) hf rows
    rw [hcons] at ho
    split at ho
    · next hrefused =>
      cases ho
      refine iff_of_false Bool.false_ne_true ?_
      rintro ⟨⟨hne, -⟩, habsent⟩
      rcases hrefused with hempty | hmem
      · exact hne row List.mem_cons_self hempty
      · exact habsent row List.mem_cons_self hmem
    · next hgoes =>
      obtain ⟨hempty, hmem⟩ := not_or.mp hgoes
      rw [ih (fun r hr => hrows r (List.mem_cons_of_mem row hr)) (h.of_same hsame)
        (by rw [hsame.names]; exact hf) ho, hsame.key, hset]
      unfold KeyedRows
      simp only [UMap.mem_insertNew, not_or, List.forall_mem_cons, List.map_cons, List.nodup_cons,
        List.mem_map,
        not_exists, not_and]
      constructor
      · rintro ⟨⟨hne, hnodup⟩, habsent⟩
        exact ⟨⟨⟨hempty, hne⟩, fun r hr => (habsent r hr).1, hnodup⟩, hmem, fun r hr => (habsent r hr).2⟩
      · rintro ⟨⟨⟨-, hne⟩, hdistinct, hnodup⟩, -, habsent⟩
        exact ⟨⟨hne, hnodup⟩, fun r hr => ⟨hdistinct r hr, habsent r hr⟩⟩

end DBTable

namespace DBManager

variable {fp : FloatUnit}

theorem enterDB_snd (m : DBManager fp) (dbname : Str) (useOk : Bool) :
    (m.enterDB dbname useOk).2 = true ↔ dbname = [] ∨ useOk = true := by
  unfold enterDB
  by_cases hname : dbname = []
  · rw [if_neg (not_not.mpr hname)]
    exact iff_of_true rfl (Or.inl hname)
  · rw [if_pos hname, or_iff_right hname]
    unfold changeDB DBMysql.runSqlCMD
    rw [if_neg hname, useOperand_use]
    cases useOk <;> simp

/-- All rows of a result set go into the new table exactly when each has a key of its own. -/
theorem checkToTable_new_isSome (fp : FloatUnit) (res : MysqlRes)
    (hkey : 0 ≤ (checkFieldInfo res.fields).2.2) :
    ∃ o, checkToTable res.fields res.rows (DBTable.new (checkFieldInfo res.fields).1
        (checkFieldInfo res.fields).2.1 (checkFieldInfo res.fields).2.2 : DBTable fp) = .ok o ∧
      (o.isSome = true ↔ DBTable.KeyedRows (checkFieldInfo res.fields).2.2 res.rows) := by
  obtain ⟨o, ho, -⟩ := checkToTable_new fp res hkey
  have hsome := DBTable.checkToTable_isSome res.width (new_checkFieldInfo fp hkey).schema
    (length_checkFieldInfo res.fields).1.symm ho
  have hnone : ∀ row ∈ res.rows, rowKey (checkFieldInfo res.fields).2.2 row ∉ (∅ : UMap Str DBRecord) :=
    fun _ _ => AList.notMem_empty _
  exact ⟨o, ho, hsome.trans (and_iff_left hnone)⟩

/-- The load is refused: the table is there already or the database cannot be entered,
or the columns are reported and there is no key column, no result set, or a row whose
key is empty or met before. -/
def RefusesLoad (m : DBManager fp) (dbname tname : Str) (reply : LoadReply) : Prop :=
  tname ∉ m.tableSet → (dbname = [] ∨ reply.useOk = true) →
    ∃ fields ∈ reply.info, 0 ≤ (checkFieldInfo fields).2.2 →
      ∀ res ∈ reply.select, ¬ DBTable.KeyedRows (checkFieldInfo fields).2.2 res.rows

theorem loadTable_refused_iff {reply : LoadReply} (hc : reply.Consistent) (m : DBManager fp)
    (dbname tname : Str) :
    Returns (m.loadTable dbname tname reply) (fun r => r.2 = false) ↔
      m.RefusesLoad dbname tname reply := by
  have henter : (if dbname ≠ [] then m.changeDB dbname reply.useOk else (m, true)) =
      m.enterDB dbname reply.useOk := rfl
  have hentered := m.enterDB_snd dbname reply.useOk
  unfold loadTable RefusesLoad
  dsimp only
  rw [henter, ← hentered]
  generalize m.enterDB dbname reply.useOk = changed
  by_cases hthere : tname ∈ m.tableSet
  · rw [if_pos hthere]
    exact iff_of_true (returns_ok.mpr rfl) fun h => absurd hthere h
  rw [if_neg hthere]
  cases hok : changed.2 with
  | false =>
    rw [if_pos (by rfl)]
    exact iff_of_true (returns_ok.mpr rfl) fun _ h => absurd h Bool.false_ne_true
  | true =>
    rw [if_neg (by decide)]
    simp only [hthere, not_false_eq_true, forall_true_left]
    cases hinfo : reply.info with
    | none => exact iff_of_false not_returns_error (by simp)
    | some fields =>
      dsimp only
      simp only [Option.mem_some_iff, exists_eq_left']
      by_cases hkey : (checkFieldInfo fields).2.2 < 0
      · rw [if_pos hkey]
        exact iff_of_true (returns_ok.mpr rfl) fun h => absurd hkey (not_lt.mpr h)
      rw [if_neg hkey]
      have hkey0 := not_lt.mp hkey
      cases hsel : reply.select with
      | none => exact iff_of_true (returns_ok.mpr rfl) (by simp)
      | some res =>
        obtain rfl := hc fields hinfo res hsel
        obtain ⟨o, ho, hsome⟩ := checkToTable_new_isSome fp res hkey0
        dsimp only
        rw [ho, ok_bind]
        simp only [hkey0, Option.mem_some_iff, forall_eq', forall_true_left]
        rw [← hsome]
        cases o with
        | none => exact iff_of_true (returns_ok.mpr rfl) Bool.false_ne_true
        | some t =>
          refine iff_of_false ?_ (by simp)
          intro h
          cases returns_ok.mp h

end DBManager

end FuServer
