import FuServer.Cache.Loading

/-!
# Requests with unknown names

`GetFieldIndex` answers -1 for a column it does not know, and neither the scan
of `QueryRecord` nor the map overload of `ModifyRecord` looks at it before
indexing the field list.  `InsertDB` on an unknown table returns `false` where
a string is due.  `safe_iff_guarded` lists exactly the requests that get there.
-/

namespace FuServer

open Bytes Decimal Outcome

/-- What a client may ask of the manager. -/
inductive Request
  | query (tname fieldName : Str) (b : DBTable.Bounds)
  | modify (tname dataKey : Str) (dataList : UMap Str Str)
  | insert (tname : Str) (dataList : UMap Str Str)

namespace DBTable

variable {fp : FloatUnit}

/-! ## The scan -/

/-- In range, a scan reads every field it wants. -/
theorem scanLoop_ok {fieldIndex : Int} {records : List DBRecord} (b : Bounds) (h0 : 0 ≤ fieldIndex)
    (hw : ∀ r ∈ records, fieldIndex.toNat < r.fieldList.length) (fuel beginIndex endIndex : Nat)
    (hlt : beginIndex < endIndex) (hle : endIndex ≤ records.length)
    (found : Bool × List (List Str)) :
    ∃ r, scanLoop fp fieldIndex b records fuel beginIndex endIndex found = .ok r := by
  induction fuel generalizing beginIndex endIndex found with
  | zero => exact ⟨found, rfl⟩
  | succ fuel ih =>
    obtain ⟨temp, recordList⟩ := found
    have h1 : beginIndex < records.length := by omega
    have h2 : endIndex - 1 < records.length := by omega
    have hidx : ((endIndex : Int) - 1) = ((endIndex - 1 : Nat) : Int) := by omega
    have hf1 := hw _ (List.getElem_mem h1)
    have hf2 := hw _ (List.getElem_mem h2)
    rw [scanLoop, vecAt_natCast h1, ok_bind, hidx, vecAt_natCast h2, ok_bind, DBRecord.getField,
      vecAt_of_lt h0 hf1, ok_bind, DBRecord.getField, vecAt_of_lt h0 hf2, ok_bind]
    dsimp only
    split
    · next hmore => exact ih (beginIndex + 1) (endIndex - 1) (by omega) (by omega) _
    · exact ⟨_, rfl⟩

/-- With index -1 the first field it wants is outside the list. -/
theorem scanLoop_neg {fieldIndex : Int} {records : List DBRecord} (b : Bounds)
    (h : fieldIndex < 0) (hne : 0 < records.length) (fuel : Nat) (found : Bool × List (List Str)) :
    scanLoop fp fieldIndex b records (fuel + 1) 0 records.length found = .error .outOfRange := by
  obtain ⟨temp, recordList⟩ := found
  have hlast : records.length - 1 < records.length := by omega
  have hidx : ((records.length : Int) - 1) = ((records.length - 1 : Nat) : Int) := by omega
  rw [scanLoop, vecAt_natCast hne, ok_bind, hidx, vecAt_natCast hlast, ok_bind, DBRecord.getField,
    vecAt_neg _ h]
  rfl

theorem queryRecord_unknown {t : DBTable fp} (h : SchemaOk t) (ord : HashOrder) {fieldName : Str}
    (hf : fieldName ∉ t.fieldNameList) (b : Bounds) (recordList : List (List Str)) :
    t.queryRecord ord fieldName b recordList =
      if t.recordSet.entries = [] then .ok (false, recordList) else .error .outOfRange := by
  have hidx := getFieldIndex_of_notMem h hf
  have hkey : ¬ (t.getFieldIndex fieldName = t.iPriKeyIndex ∧ b.dataEquKey ≠ []) := by
    rintro ⟨hk, -⟩
    have := h.keyLo
    omega
  unfold queryRecord
  dsimp only
  rw [if_neg hkey, hidx]
  by_cases he : t.recordSet.entries = []
  · rw [if_pos he, if_neg (by rw [he]; exact Nat.lt_irrefl 0)]
  · have hpos : 0 < t.recordSet.entries.length := List.length_pos_iff.mpr he
    have hlen : ((ord.order t.recordSet.entries).map (·.2)).length = t.recordSet.entries.length := by
      rw [List.length_map, (ord.perm _).length_eq]
    obtain ⟨fuel, hfuel⟩ : ∃ fuel, t.recordSet.entries.length = fuel + 1 :=
      ⟨t.recordSet.entries.length - 1, by omega⟩
    rw [if_neg he, if_pos hpos]
    generalize (ord.order t.recordSet.entries).map (·.2) = records at hlen
    rw [hfuel] at hlen
    have hscan : scanLoop fp (-1) b records (fuel + 1) 0 records.length (false, recordList) =
        .error .outOfRange := scanLoop_neg b (by omega) (by omega) fuel (false, recordList)
    rw [← hlen] at hscan
    exact hscan

/-- Every record has a field for each column. -/
def FullWidth (t : DBTable fp) : Prop :=
  ∀ k r, t.recordSet.lookup k = some r → r.fieldList.length = t.fieldNameList.length

theorem WellFormed.fullWidth {t : DBTable fp} (h : WellFormed t) : t.FullWidth := fun _ _ => h.width

theorem queryRecord_ok {t : DBTable fp} (h : SchemaOk t) (hw : t.FullWidth) (ord : HashOrder)
    {fieldName : Str} (hf : fieldName ∈ t.fieldNameList) (b : Bounds) (recordList : List (List Str)) :
    ∃ r, t.queryRecord ord fieldName b recordList = .ok r := by
  obtain ⟨h0, hlt⟩ := getFieldIndex_of_mem h hf
  unfold queryRecord
  dsimp only
  split
  · split
    · exact ⟨_, rfl⟩
    · exact ⟨_, rfl⟩
  · split
    · next hpos =>
      have hw' : ∀ r ∈ (ord.order t.recordSet.entries).map (·.2),
          (t.getFieldIndex fieldName).toNat < r.fieldList.length := by
        intro r hr
        obtain ⟨e, he, rfl⟩ := List.mem_map.mp hr
        rw [hw _ _ (UMap.mem_entries.mp (ord.mem_order.mp he))]
        exact hlt
      apply scanLoop_ok b h0 hw'
      · rw [List.length_map, (ord.perm _).length_eq]
        exact hpos
      · exact Nat.le_refl _
    · exact ⟨_, rfl⟩

theorem queryRecord_known {t : DBTable fp} (h : WellFormed t) (ord : HashOrder) {fieldName : Str}
    (hf : fieldName ∈ t.fieldNameList) (b : Bounds) (recordList : List (List Str)) :
    ∃ r, t.queryRecord ord fieldName b recordList = .ok r :=
  queryRecord_ok h.schema h.fullWidth ord hf b recordList

end DBTable

namespace DBManager

variable {fp : FloatUnit}

/-! ## Requests -/

/-- Serve a request; the result says whether the call reports success. -/
def serve (m : DBManager fp) (ord : HashOrder) : Request → Res Bool
  | .query tname fieldName b => do
    let r ← m.queryDB ord [] [] tname fieldName b
    return r.1
  | .modify tname dataKey dataList => do
    let r ← m.modifyDB tname dataKey dataList
    return r.2
  | .insert tname dataList => do
    let r ← m.insertDB tname dataList
    return r.2 != []

/-- The request names a table the cache does not have, or, to be queried or
modified, a column its table does not have. -/
def NamesUnknown (m : DBManager fp) : Request → Prop
  | .query tname fieldName _ => ∀ t ∈ m.tableSet.lookup tname, fieldName ∉ t.fieldNameList
  | .modify tname _ dataList =>
    ∀ t ∈ m.tableSet.lookup tname, ∃ c ∈ dataList.keys, c ∉ t.fieldNameList
  | .insert tname _ => tname ∉ m.tableSet

/-- The call neither indexes outside a list nor makes a string of a null
pointer, and fails if the request names something unknown. -/
def Safe (m : DBManager fp) (ord : HashOrder) (req : Request) : Prop :=
  Returns (m.serve ord req) fun success => m.NamesUnknown req → success = false

/-- The unknown names that the code itself stops before they do harm: a query
of an unknown column must meet an empty table (or no bound to look for), a
modification of one a key that is not there, and an insertion must name a
table of the cache. -/
def Guarded (m : DBManager fp) : Request → Prop
  | .query tname fieldName b =>
    fieldName ≠ [] → tname ≠ [] →
    ¬ (b.dataEquKey = [] ∧ b.dataMinkey = [] ∧ b.dataMaxkey = []) →
    ∀ t ∈ m.tableSet.lookup tname, t.recordSet.entries ≠ [] → fieldName ∈ t.fieldNameList
  | .modify tname dataKey dataList =>
    dataKey ≠ [] → tname ≠ [] →
    ∀ t ∈ m.tableSet.lookup tname, dataKey ∈ t.recordSet → ∀ c ∈ dataList.keys, c ∈ t.fieldNameList
  | .insert tname _ => tname ≠ [] → tname ∈ m.tableSet

/-- A refusal is safe, whatever the request names. -/
theorem refused {m : DBManager fp} {req : Request} :
    Returns (.ok false : Res Bool) fun success => m.NamesUnknown req → success = false :=
  returns_ok.mpr fun _ => rfl

theorem safe_query_iff {m : DBManager fp} (h : m.WellFormed) (ord : HashOrder)
    (tname fieldName : Str) (b : DBTable.Bounds) :
    m.Safe ord (.query tname fieldName b) ↔ m.Guarded (.query tname fieldName b) := by
  unfold Safe serve queryDB
  dsimp only
  by_cases hn : fieldName = [] ∨ tname = []
  · rw [if_pos hn]
    refine iff_of_true refused fun h1 h2 => ?_
    rcases hn with h' | h'
    · exact absurd h' h1
    · exact absurd h' h2
  · obtain ⟨hn1, hn2⟩ := not_or.mp hn
    rw [if_neg hn]
    by_cases hb : b.dataEquKey = [] ∧ b.dataMinkey = [] ∧ b.dataMaxkey = []
    · rw [if_pos hb]
      exact iff_of_true refused fun _ _ h3 => absurd hb h3
    · rw [if_neg hb]
      cases hm : m.tableSet.lookup tname with
      | none =>
        refine iff_of_true refused fun _ _ _ t ht => ?_
        rw [hm] at ht
        cases ht
      | some t =>
        have guarded : m.Guarded (.query tname fieldName b) ↔
            (t.recordSet.entries ≠ [] → fieldName ∈ t.fieldNameList) := by
          constructor
          · intro hg
            exact hg hn1 hn2 hb t hm
          · intro hg _ _ _ t' ht'
            rw [hm] at ht'
            cases ht'
            exact hg
        rw [guarded]
        dsimp only
        have ht := h tname t hm
        by_cases hf : fieldName ∈ t.fieldNameList
        · refine iff_of_true ?_ fun _ => hf
          obtain ⟨r, hr⟩ := DBTable.queryRecord_known ht ord hf b []
          rw [hr]
          refine returns_ok.mpr fun hu => ?_
          exact absurd hf (hu t hm)
        · rw [DBTable.queryRecord_unknown ht.schema ord hf]
          by_cases he : t.recordSet.entries = []
          · rw [if_pos he]
            exact iff_of_true refused fun hne => absurd he hne
          · rw [if_neg he]
            exact iff_of_false not_returns_error fun hg => hf (hg he)

theorem safe_modify_iff {m : DBManager fp} (h : m.WellFormed) (ord : HashOrder)
    (tname dataKey : Str) (d : UMap Str Str) :
    m.Safe ord (.modify tname dataKey d) ↔ m.Guarded (.modify tname dataKey d) := by
  unfold Safe serve
  dsimp only
  by_cases hn : dataKey = [] ∨ tname = []
  · rw [modifyDB, if_pos hn]
    refine iff_of_true refused fun h1 h2 => ?_
    rcases hn with h' | h'
    · exact absurd h' h1
    · exact absurd h' h2
  · obtain ⟨hn1, hn2⟩ := not_or.mp hn
    cases hm : m.tableSet.lookup tname with
    | none =>
      rw [modifyDB_of_notTable hm]
      refine iff_of_true refused fun _ _ t ht => ?_
      rw [hm] at ht
      cases ht
    | some t =>
      have guarded : m.Guarded (.modify tname dataKey d) ↔
          (dataKey ∈ t.recordSet → ∀ c ∈ d.keys, c ∈ t.fieldNameList) := by
        constructor
        · intro hg
          exact hg hn1 hn2 t hm
        · intro hg _ _ t' ht'
          rw [hm] at ht'
          cases ht'
          exact hg
      rw [guarded]
      have ht := h tname t hm
      cases hr : t.recordSet.lookup dataKey with
      | none =>
        have hk : dataKey ∉ t.recordSet := AList.lookup_eq_none.mp hr
        rw [modifyDB_of_notMem hm hk]
        exact iff_of_true refused fun hk' => absurd hk' hk
      | some r =>
        rw [modifyDB_eq hn2 hn1 hm ht.schema hr (ht.width hr)]
        by_cases hall : ∀ c ∈ d.keys, c ∈ t.fieldNameList
        · rw [if_pos hall]
          refine iff_of_true (returns_ok.mpr fun hu => ?_) fun _ => hall
          obtain ⟨c, hc, hnc⟩ := hu t hm
          exact absurd (hall c hc) hnc
        · rw [if_neg hall]
          exact iff_of_false not_returns_error fun hg => hall (hg (UMap.mem_of_lookup hr))

theorem safe_insert_iff {m : DBManager fp} (h : m.WellFormed) (ord : HashOrder) (tname : Str)
    (d : UMap Str Str) : m.Safe ord (.insert tname d) ↔ m.Guarded (.insert tname d) := by
  unfold Safe serve
  dsimp only
  by_cases hn : tname = []
  · rw [insertDB, if_pos hn]
    exact iff_of_true (returns_ok.mpr fun _ => rfl) fun h' => absurd hn h'
  · cases hm : m.tableSet.lookup tname with
    | none =>
      rw [insertDB, if_neg hn, hm]
      refine iff_of_false not_returns_error fun hg => ?_
      exact AList.lookup_eq_none.mp hm (hg hn)
    | some t =>
      have hmem : tname ∈ m.tableSet := UMap.mem_of_lookup hm
      rw [insertDB_eq hn hm (h tname t hm).schema d, ok_bind]
      exact iff_of_true (returns_ok.mpr fun hu => absurd hmem hu) fun _ => hmem

/-! ### Calls that return -/

theorem queryDB_returns_iff {m : DBManager fp} (h : m.WellFormed) (ord : HashOrder)
    (tname fieldName : Str) (b : DBTable.Bounds) :
    (∃ r, m.queryDB ord [] [] tname fieldName b = .ok r) ↔ m.Guarded (.query tname fieldName b) := by
  constructor
  · rintro ⟨r, hr⟩ hn1 hn2 hb t hm hne
    by_contra hf
    unfold queryDB at hr
    rw [if_neg (not_or.mpr ⟨hn1, hn2⟩), if_neg hb, hm] at hr
    dsimp only at hr
    rw [DBTable.queryRecord_unknown (h tname t hm).schema ord hf, if_neg hne] at hr
    cases hr
  · intro hg
    obtain ⟨_, hs, -⟩ := (safe_query_iff h ord tname fieldName b).mpr hg
    obtain ⟨r, hr, -⟩ := bind_eq_ok.mp hs
    exact ⟨r, hr⟩

theorem modifyDB_returns_iff {m : DBManager fp} (h : m.WellFormed) (tname dataKey : Str)
    (d : UMap Str Str) :
    (∃ r, m.modifyDB tname dataKey d = .ok r) ↔ m.Guarded (.modify tname dataKey d) := by
  constructor
  · rintro ⟨r, hr⟩ hn1 hn2 t hm hk
    by_contra hall
    obtain ⟨record, hrecord⟩ := UMap.exists_lookup hk
    have ht := h tname t hm
    rw [modifyDB_eq hn2 hn1 hm ht.schema hrecord (ht.width hrecord), if_neg hall] at hr
    cases hr
  · intro hg
    obtain ⟨_, hs, -⟩ := (safe_modify_iff h .plain tname dataKey d).mpr hg
    obtain ⟨r, hr, -⟩ := bind_eq_ok.mp hs
    exact ⟨r, hr⟩

theorem insertDB_returns_iff {m : DBManager fp} (h : m.WellFormed) (tname : Str) (d : UMap Str Str) :
    (∃ r, m.insertDB tname d = .ok r) ↔ m.Guarded (.insert tname d) := by
  constructor
  · rintro ⟨r, hr⟩ hn
    by_contra hmem
    unfold insertDB at hr
    rw [if_neg hn, AList.lookup_eq_none.mpr hmem] at hr
    cases hr
  · intro hg
    obtain ⟨_, hs, -⟩ := (safe_insert_iff h .plain tname d).mpr hg
    obtain ⟨r, hr, -⟩ := bind_eq_ok.mp hs
    exact ⟨r, hr⟩

/-- **Which requests are safe.**  On well-formed tables a request is served
without a fault, and fails if it names something unknown, exactly when it is
guarded. -/
theorem safe_iff_guarded {m : DBManager fp} (h : m.WellFormed) (ord : HashOrder) (req : Request) :
    m.Safe ord req ↔ m.Guarded req := by
  cases req with
  | query tname fieldName b => exact safe_query_iff h ord tname fieldName b
  | modify tname dataKey d => exact safe_modify_iff h ord tname dataKey d
  | insert tname d => exact safe_insert_iff h ord tname d

theorem not_safe_of_fault {m : DBManager fp} {ord : HashOrder} {req : Request} {e : Fault}
    (h : m.serve ord req = .error e) : ¬ m.Safe ord req := by
  unfold Safe
  rw [h]
  exact not_returns_error

/-- `oneTable` with the row `("1", "a")`. -/
def oneRow : DBManager .exactRational :=
  oneTable.putTable (lit "t") ((DBTable.new [lit "id", lit "name"] [dbIntT, dbStringT] 0).addRecord
    (lit "1") { fieldList := [(DBField.new dbIntT).setData (lit "1"),
      (DBField.new dbStringT).setData (lit "a")] })

theorem oneRow_wellFormed : oneRow.WellFormed := by
  have hnew : DBTable.WellFormed (DBTable.new [lit "id", lit "name"] [dbIntT, dbStringT] 0 :
      DBTable .exactRational) := DBTable.new_wellFormed rfl (by decide) (by decide)
  refine wellFormed_putTable oneTable_wellFormed (hnew.addRecord ?_ ?_) (lit "t")
  · exact AList.notMem_empty _
  · exact ⟨rfl, _, rfl, rfl⟩

/-- An unknown column in a modification and in a query, an unknown table in an insertion. -/
theorem safe_broken :
    oneRow.WellFormed ∧
    ¬ oneRow.Safe .plain (.modify (lit "t") (lit "1") (UMap.insertNew (lit "nick") (lit "x") ∅)) ∧
    ¬ oneRow.Safe .plain (.query (lit "t") (lit "nick") ⟨lit "x", [], []⟩) ∧
    ¬ oneRow.Safe .plain (.insert (lit "u") ∅) :=
  ⟨oneRow_wellFormed, not_safe_of_fault (e := .outOfRange) rfl, not_safe_of_fault (e := .outOfRange) rfl,
    not_safe_of_fault (e := .nullString) rfl⟩

theorem safe_iff_guarded_oneTable :
    oneTable.Safe .plain (.query (lit "t") (lit "nick") ⟨lit "x", [], []⟩) ↔
      oneTable.Guarded (.query (lit "t") (lit "nick") ⟨lit "x", [], []⟩) :=
  safe_iff_guarded oneTable_wellFormed .plain _

end DBManager

end FuServer
