import FuServer.Lib.Runs
import FuServer.Cache.TableSpec

/-!
# Map key and key field

`KeysAgree`: every entry of a table has one field a column, and its key field
holds the key it is stored under.  All five insertions and the name-map
modification keep it.  Two modifications do not look at what they overwrite:
`ModifyRecord(DBRecord*)` clears every field it resets (its loop variable
hides its parameter), and the single-field forms write the key column too.
`keysAgree_iff` says that these are the only ways to break it.
-/

namespace FuServer

open Bytes Decimal Outcome Runs

/-- The public operations of a table, by overload. -/
inductive TableOp
  | insertKey (dataKey : Str)
  | insertPtr (pRecord : DBRecord)
  | insertNamed (dataList : UMap Str Str)
  | insertIndexed (dataList : UMap Int Str)
  | insertList (dataList : List Str)
  | modifyPtr (pRecord : DBRecord)
  | modifyNamedField (dataKey fieldName sData : Str)
  | modifyAt (dataKey : Str) (index : Int) (sData : Str)
  | modifyNamed (dataKey : Str) (dataList : UMap Str Str)

namespace DBTable

variable {fp : FloatUnit}

/-- Run one operation; the result names the record it returns. -/
def call (t : DBTable fp) : TableOp → Res (DBTable fp × Option Str)
  | .insertKey dataKey => t.insertRecordKey dataKey
  | .insertPtr pRecord => t.insertRecordPtr pRecord
  | .insertNamed dataList => t.insertRecord dataList
  | .insertIndexed dataList => t.insertRecordIndexed dataList
  | .insertList dataList => t.insertRecordList dataList
  | .modifyPtr pRecord => t.modifyRecordPtr pRecord
  | .modifyNamedField dataKey fieldName sData => t.modifyRecordNamed dataKey fieldName sData
  | .modifyAt dataKey index sData => t.modifyRecordAt dataKey index sData
  | .modifyNamed dataKey dataList => t.modifyRecord dataKey dataList

def callStep (t : DBTable fp) (op : TableOp) : Option (DBTable fp) :=
  match t.call op with
  | .ok (t', _) => some t'
  | .error _ => none

/-- Records of the schema's width, indices and names of its columns. -/
def InRange (t : DBTable fp) : TableOp → Prop
  | .insertPtr pRecord => pRecord.fieldList.length = t.fieldNameList.length
  | .modifyPtr pRecord => pRecord.fieldList.length = t.fieldNameList.length
  | .modifyNamedField _ fieldName _ => fieldName ∈ t.fieldNameList
  | .modifyAt _ index _ => 0 ≤ index ∧ index.toNat < t.fieldNameList.length
  | .modifyNamed _ dataList => ∀ c ∈ dataList.keys, c ∈ t.fieldNameList
  | _ => True

/-- One field a column, and the key in the key field. -/
def KeyedBy (t : DBTable fp) (k : Str) (r : DBRecord) : Prop :=
  r.fieldList.length = t.fieldNameList.length ∧
    ∃ f, r.getField t.iPriKeyIndex = .ok f ∧ f.sData = k

def KeysAgree (t : DBTable fp) : Prop :=
  ∀ k r, t.recordSet.lookup k = some r → t.KeyedBy k r

/-- The step does not overwrite the key field of a record it finds: it is no
`ModifyRecord(DBRecord*)` on a non-empty key, and no single-field modification
of the key column to another text. -/
def KeepsKey (t : DBTable fp) : TableOp → Prop
  | .modifyPtr pRecord => ∀ f, pRecord.getField t.iPriKeyIndex = .ok f → f.bNull = false →
      f.sData ∈ t.recordSet → f.sData = []
  | .modifyNamedField dataKey fieldName sData => dataKey ∈ t.recordSet →
      t.getFieldIndex fieldName = t.iPriKeyIndex → sData = dataKey
  | .modifyAt dataKey index sData => dataKey ∈ t.recordSet → index = t.iPriKeyIndex → sData = dataKey
  | _ => True

theorem KeyedBy.of_same {t t' : DBTable fp} {k : Str} {r : DBRecord} (hs : SameSchema t t') :
    t'.KeyedBy k r ↔ t.KeyedBy k r := by
  unfold KeyedBy
  rw [hs.names, hs.key]

theorem KeyedBy.keyField {t : DBTable fp} {k : Str} {r : DBRecord} (h : t.KeyedBy k r) :
    0 ≤ t.iPriKeyIndex ∧ ∃ f, r.fieldList[t.iPriKeyIndex.toNat]? = some f ∧ f.sData = k := by
  obtain ⟨-, f, hf, hk⟩ := h
  obtain ⟨h0, hf⟩ := vecAt_eq_ok.mp hf
  exact ⟨h0, f, hf, hk⟩

/-! ## Insertions -/

theorem keyedBy_buildFields {t : DBTable fp} (h : SchemaOk t) {g : Nat → UInt16 → DBField} {k : Str}
    (hg : ∀ iType, (g t.iPriKeyIndex.toNat iType).sData = k) :
    t.KeyedBy k { fieldList := t.buildFields g } := by
  refine ⟨length_buildFields t g, _, vecAt_eq_ok.mpr ⟨h.keyLo, getElem?_buildFields t g h.keyHi⟩, hg _⟩

theorem keysAgree_enter {t : DBTable fp} (ha : t.KeysAgree) {k : Str} {r : DBRecord}
    (hr : t.KeyedBy k r) : (t.enter k r).1.KeysAgree := by
  unfold enter
  split
  · exact ha
  · intro k' r' h'
    rw [addRecord_recordSet, UMap.lookup_insertNew] at h'
    rw [KeyedBy.of_same (addRecord_same t k r)]
    split at h'
    · next hk =>
      obtain rfl := hk.1
      cases h'
      exact hr
    · exact ha k' r' h'

theorem enter_same (t : DBTable fp) (k : Str) (r : DBRecord) : SameSchema t (t.enter k r).1 := by
  unfold enter
  split
  · exact SameSchema.refl t
  · exact addRecord_same t k r

theorem keyIndex_beq {t : DBTable fp} (h : SchemaOk t) :
    ((t.iPriKeyIndex.toNat : Int) == t.iPriKeyIndex) = true := by
  rw [Int.toNat_of_nonneg h.keyLo, beq_self_eq_true]

theorem keyOnlyField_key {t : DBTable fp} (h : SchemaOk t) (k : Str) (iType : UInt16) :
    (t.keyOnlyField k t.iPriKeyIndex.toNat iType).sData = k := by
  unfold keyOnlyField
  rw [if_pos (by rw [DBField.setIsKey_bKey]; exact keyIndex_beq h), DBField.setData_sData]

theorem namedField_key (t : DBTable fp) (k : Str) (dataList : UMap Str Str) (iType : UInt16) :
    (t.namedField k dataList t.iPriKeyIndex.toNat iType).sData = k := by
  unfold namedField
  rw [if_pos (by simp [keyName]), DBField.setData_sData]

theorem indexedField_key {t : DBTable fp} (h : SchemaOk t) (k : Str) (dataList : UMap Int Str)
    (iType : UInt16) : (t.indexedField k dataList t.iPriKeyIndex.toNat iType).sData = k := by
  unfold indexedField
  rw [if_pos (by rw [DBField.setIndex_bKey, DBField.setIsKey_bKey]; exact keyIndex_beq h),
    DBField.setData_sData]

/-- Each insertion refuses, or enters a record that is keyed by its key. -/
theorem insertKey_enters {t : DBTable fp} (h : SchemaOk t) (key : Str) :
    t.insertRecordKey key = .ok (t, none) ∨
      ∃ k r, t.insertRecordKey key = .ok (t.enter k r) ∧ t.KeyedBy k r := by
  rw [insertRecordKey_eq h]
  dsimp only
  generalize (if key = [] then t.nextKey else key) = dataKey
  split
  · exact Or.inl rfl
  · exact Or.inr ⟨_, _, rfl, keyedBy_buildFields h (keyOnlyField_key h dataKey)⟩

theorem insertNamed_enters {t : DBTable fp} (h : SchemaOk t) (dataList : UMap Str Str) :
    t.insertRecord dataList = .ok (t, none) ∨
      ∃ k r, t.insertRecord dataList = .ok (t.enter k r) ∧ t.KeyedBy k r := by
  rw [insertRecord_eq h]
  split
  · exact insertKey_enters h []
  · exact Or.inr ⟨_, _, rfl, keyedBy_buildFields h (namedField_key t _ dataList)⟩

theorem insertIndexed_enters {t : DBTable fp} (h : SchemaOk t) (dataList : UMap Int Str) :
    ∃ k r, t.insertRecordIndexed dataList = .ok (t.enter k r) ∧ t.KeyedBy k r := by
  rw [insertRecordIndexed_eq h]
  exact ⟨_, _, rfl, keyedBy_buildFields h (indexedField_key h _ dataList)⟩

theorem insertList_enters {t : DBTable fp} (h : SchemaOk t) (dataList : List Str) :
    t.insertRecordList dataList = .ok (t, none) ∨
      ∃ k r, t.insertRecordList dataList = .ok (t.enter k r) ∧ t.KeyedBy k r := by
  rw [insertRecordList_eq h]
  split
  · exact Or.inl rfl
  · exact Or.inr ⟨_, _, rfl, keyedBy_buildFields h fun _ => rfl⟩

theorem insertPtr_enters {t : DBTable fp} (h : SchemaOk t) {r : DBRecord}
    (hw : r.fieldList.length = t.fieldNameList.length) :
    t.insertRecordPtr r = .ok (t, none) ∨
      ∃ k r', t.insertRecordPtr r = .ok (t.enter k r') ∧ t.KeyedBy k r' := by
  have hlt : t.iPriKeyIndex.toNat < r.fieldList.length := by rw [hw]; exact h.keyHi
  have hf : r.getField t.iPriKeyIndex = .ok r.fieldList[t.iPriKeyIndex.toNat] :=
    vecAt_of_lt h.keyLo hlt
  rw [insertRecordPtr_eq h hf]
  split
  · exact Or.inl rfl
  · exact Or.inr ⟨_, r, rfl, hw, _, hf, rfl⟩

/-! ## Modifications -/

/-- Putting another record under a key keeps the agreement exactly when that record is keyed. -/
theorem keysAgree_putRecord {t : DBTable fp} (ha : t.KeysAgree) {k : Str} (hk : k ∈ t.recordSet)
    (r : DBRecord) : (t.putRecord k r).KeysAgree ↔ t.KeyedBy k r := by
  obtain ⟨r0, hr0⟩ := UMap.exists_lookup hk
  constructor
  · intro h
    rw [← KeyedBy.of_same (putRecord_same t k r)]
    apply h k r
    rw [lookup_putRecord, if_pos rfl, hr0]
    rfl
  · intro h k' r' h'
    rw [lookup_putRecord] at h'
    rw [KeyedBy.of_same (putRecord_same t k r)]
    split at h'
    · next he =>
      rw [hr0] at h'
      cases h'
      rw [he]
      exact h
    · exact ha k' r' h'

theorem keyedBy_assignAt {t : DBTable fp} {k : Str} {r : DBRecord} (hr : t.KeyedBy k r) {i : Nat}
    (sData : Str) :
    t.KeyedBy k ((assignAt r i sData).setIsModify true) ↔ ((i : Int) = t.iPriKeyIndex → sData = k) := by
  obtain ⟨h0, f, hf, hfk⟩ := hr.keyField
  have hmod : (r.fieldList.modify i (·.resetData sData))[t.iPriKeyIndex.toNat]? =
      some (if i = t.iPriKeyIndex.toNat then f.resetData sData else f) := by
    rw [List.getElem?_modify, hf]
    split <;> rfl
  constructor
  · rintro ⟨-, g, hg, hgk⟩ hi
    have hg' := (vecAt_eq_ok.mp hg).2
    have hi' : i = t.iPriKeyIndex.toNat := by omega
    simp only [assignAt, DBRecord.setIsModify] at hg'
    rw [hmod, if_pos hi'] at hg'
    cases hg'
    exact hgk
  · intro h
    refine ⟨by simp [hr.1], _, vecAt_eq_ok.mpr ⟨h0, hmod⟩, ?_⟩
    split
    · next hi => exact h (by omega)
    · exact hfk

theorem keyedBy_assignNamed {t : DBTable fp} (h : SchemaOk t) {k : Str} {r : DBRecord}
    (hr : t.KeyedBy k r) {e : Σ _ : Str, Str} (he : e.1 ∈ t.fieldNameList) :
    t.KeyedBy k (t.assignNamed r e) := by
  unfold assignNamed
  split
  · next hne =>
    obtain ⟨h0, -⟩ := getFieldIndex_of_mem h he
    exact (keyedBy_assignAt hr e.2).mpr fun hi => absurd (by omega) hne
  · exact hr

theorem keyedBy_foldl_assignNamed {t : DBTable fp} (h : SchemaOk t) {k : Str}
    (dataList : List (Σ _ : Str, Str)) (r : DBRecord) (hr : t.KeyedBy k r)
    (he : ∀ e ∈ dataList, e.1 ∈ t.fieldNameList) : t.KeyedBy k (dataList.foldl t.assignNamed r) := by
  induction dataList generalizing r with
  | nil => exact hr
  | cons e dataList ih =>
    exact ih _ (keyedBy_assignNamed h hr (he e List.mem_cons_self))
      fun e' he' => he e' (List.mem_cons_of_mem e he')

/-- A record reset from itself has only empty texts. -/
theorem keyedBy_resetDataRecord {t : DBTable fp} {k : Str} {r : DBRecord} (hr : t.KeyedBy k r)
    (p : DBRecord) : t.KeyedBy k ((r.resetDataRecord p).setIsModify true) ↔ k = [] := by
  obtain ⟨h0, f, hf, -⟩ := hr.keyField
  have hget : ((r.resetDataRecord p).setIsModify true).getField t.iPriKeyIndex =
      .ok (f.resetDataField f true) := by
    apply vecAt_eq_ok.mpr
    simp [DBRecord.resetDataRecord, DBRecord.setIsModify, hf, h0]
  constructor
  · rintro ⟨-, g, hg, hgk⟩
    rw [hget] at hg
    cases hg
    rw [← hgk, DBField.resetDataField_self]
  · rintro rfl
    exact ⟨by simp [DBRecord.resetDataRecord, hr.1], _, hget, DBField.resetDataField_self f⟩

/-! ## One step -/

/-- An insertion leaves the table or enters a record under its own key. -/
theorem enters_cases {t t' : DBTable fp} {op : TableOp} (hs : t.callStep op = some t')
    (ho : t.call op = .ok (t, none) ∨ ∃ k r, t.call op = .ok (t.enter k r) ∧ t.KeyedBy k r)
    (hc : t.KeepsKey op) :
    (t' = t ∧ t.KeepsKey op) ∨ ∃ k r, t' = (t.enter k r).1 ∧ t.KeyedBy k r ∧ t.KeepsKey op := by
  unfold callStep at hs
  rcases ho with ho | ⟨k, r, ho, hk⟩
  · rw [ho] at hs
    cases hs
    exact Or.inl ⟨rfl, hc⟩
  · rw [ho] at hs
    cases hs
    exact Or.inr ⟨k, r, rfl, hk, hc⟩

/-- The two single-field forms, for the index they write. -/
theorem modifyRecordAt_cases {t t' : DBTable fp} {op : TableOp} {k : Str} {index : Int} {sData : Str}
    (h0 : 0 ≤ index)
    (hc : t.KeepsKey op ↔ (k ∈ t.recordSet → index = t.iPriKeyIndex → sData = k))
    (hs : (match t.modifyRecordAt k index sData with
      | .ok (t1, _) => some t1
      | .error _ => none) = some t') :
    (t' = t ∧ t.KeepsKey op) ∨ ∃ k r0 r, t' = t.putRecord k r ∧ t.recordSet.lookup k = some r0 ∧
      (t.KeyedBy k r0 → (t.KeyedBy k r ↔ t.KeepsKey op)) := by
  cases hr : t.recordSet.lookup k with
  | none =>
    have hk : k ∉ t.recordSet := AList.lookup_eq_none.mp hr
    rw [modifyRecordAt_of_notMem t index sData hk] at hs
    cases hs
    exact Or.inl ⟨rfl, hc.mpr fun hk' => absurd hk' hk⟩
  | some r0 =>
    right
    unfold modifyRecordAt at hs
    rw [hr] at hs
    cases hset : r0.resetData sData index with
    | error e => simp only [hset, error_bind] at hs; cases hs
    | ok r1 =>
      simp only [hset, ok_bind] at hs
      cases hs
      refine ⟨k, r0, r1.setIsModify true, rfl, hr, fun hkey => ?_⟩
      rw [eq_assignAt_of_ok hset, keyedBy_assignAt hkey sData, hc, Int.toNat_of_nonneg h0]
      exact ⟨fun hi _ => hi, fun hi => hi (UMap.mem_of_lookup hr)⟩

/-- The form that takes a record: it finds the record's key and empties the row there. -/
theorem modifyPtr_cases {t t' : DBTable fp} (h : SchemaOk t) {p : DBRecord}
    (hd : t.InRange (.modifyPtr p)) (hs : t.callStep (.modifyPtr p) = some t') :
    (t' = t ∧ t.KeepsKey (.modifyPtr p)) ∨
    ∃ k r0 r, t' = t.putRecord k r ∧ t.recordSet.lookup k = some r0 ∧
      (t.KeyedBy k r0 → (t.KeyedBy k r ↔ t.KeepsKey (.modifyPtr p))) := by
  have hlt : t.iPriKeyIndex.toNat < p.fieldList.length := by
    rw [show p.fieldList.length = t.fieldNameList.length from hd]
    exact h.keyHi
  have hf : p.getField t.iPriKeyIndex = .ok p.fieldList[t.iPriKeyIndex.toNat] :=
    vecAt_of_lt h.keyLo hlt
  generalize p.fieldList[t.iPriKeyIndex.toNat] = f at hf
  simp only [callStep, call, modifyRecordPtr_eq t hf] at hs
  have only : ∀ f', p.getField t.iPriKeyIndex = .ok f' → f' = f := by
    intro f' hf'
    rw [hf] at hf'
    cases hf'
    rfl
  cases hn : f.bNull with
  | true =>
    simp only [hn, if_true] at hs
    cases hs
    refine Or.inl ⟨rfl, fun f' hf' hnull => ?_⟩
    rw [only f' hf', hn] at hnull
    cases hnull
  | false =>
    cases hr : t.recordSet.lookup f.sData with
    | none =>
      simp only [hn, hr] at hs
      cases hs
      refine Or.inl ⟨rfl, fun f' hf' _ hmem => ?_⟩
      rw [only f' hf'] at hmem
      exact absurd hmem (AList.lookup_eq_none.mp hr)
    | some r0 =>
      simp only [hn, hr] at hs
      cases hs
      refine Or.inr ⟨f.sData, r0, _, rfl, hr, fun hkey => ?_⟩
      rw [keyedBy_resetDataRecord hkey p]
      constructor
      · intro he f' hf' _ _
        rw [only f' hf', he]
      · intro hc
        exact hc f hf hn (UMap.mem_of_lookup hr)

/-- The name-map form skips the key column. -/
theorem modifyNamed_cases {t t' : DBTable fp} (h : SchemaOk t) {k : Str} {d : UMap Str Str}
    (hd : t.InRange (.modifyNamed k d)) (hs : t.callStep (.modifyNamed k d) = some t') :
    t' = t ∨ ∃ r0 r, t' = t.putRecord k r ∧ t.recordSet.lookup k = some r0 ∧
      (t.KeyedBy k r0 → t.KeyedBy k r) := by
  cases hr : t.recordSet.lookup k with
  | none =>
    simp only [callStep, call, modifyRecord_of_notMem t d (AList.lookup_eq_none.mp hr)] at hs
    cases hs
    exact Or.inl rfl
  | some r0 =>
    simp only [callStep, call, modifyRecord, hr] at hs
    cases hset : t.assignFields d.entries r0 with
    | error e => simp only [hset, error_bind] at hs; cases hs
    | ok r1 =>
      simp only [hset, ok_bind] at hs
      cases hs
      refine Or.inr ⟨r0, r1, rfl, rfl, fun hkey => ?_⟩
      rw [eq_foldl_of_assignFields_ok d.entries hset]
      exact keyedBy_foldl_assignNamed h d.entries r0 hkey fun e he => hd e.1 (List.mem_map_of_mem he)

/-- What one operation can do to the table. -/
theorem callStep_cases {t t' : DBTable fp} (h : SchemaOk t) {op : TableOp} (hd : t.InRange op)
    (hs : t.callStep op = some t') :
    (t' = t ∧ t.KeepsKey op) ∨
    (∃ k r, t' = (t.enter k r).1 ∧ t.KeyedBy k r ∧ t.KeepsKey op) ∨
    (∃ k r0 r, t' = t.putRecord k r ∧ t.recordSet.lookup k = some r0 ∧
      (t.KeyedBy k r0 → (t.KeyedBy k r ↔ t.KeepsKey op))) := by
  cases op with
  | insertKey key => exact (enters_cases hs (insertKey_enters h key) trivial).imp_right Or.inl
  | insertPtr r => exact (enters_cases hs (insertPtr_enters h hd) trivial).imp_right Or.inl
  | insertNamed d => exact (enters_cases hs (insertNamed_enters h d) trivial).imp_right Or.inl
  | insertIndexed d =>
    exact (enters_cases hs (Or.inr (insertIndexed_enters h d)) trivial).imp_right Or.inl
  | insertList d => exact (enters_cases hs (insertList_enters h d) trivial).imp_right Or.inl
  | modifyPtr p => exact (modifyPtr_cases h hd hs).imp_right Or.inr
  | modifyNamedField k c d =>
    obtain ⟨h0, -⟩ := getFieldIndex_of_mem h hd
    exact (modifyRecordAt_cases h0 Iff.rfl hs).imp_right Or.inr
  | modifyAt k i d => exact (modifyRecordAt_cases hd.1 Iff.rfl hs).imp_right Or.inr
  | modifyNamed k d =>
    rcases modifyNamed_cases h hd hs with rfl | ⟨r0, r, rfl, hr, hkey⟩
    · exact Or.inl ⟨rfl, trivial⟩
    · exact Or.inr (Or.inr ⟨k, r0, r, rfl, hr, fun h0 => iff_of_true (hkey h0) trivial⟩)

theorem callStep_same {t t' : DBTable fp} (h : SchemaOk t) {op : TableOp} (hd : t.InRange op)
    (hs : t.callStep op = some t') : SameSchema t t' := by
  rcases callStep_cases h hd hs with ⟨rfl, -⟩ | ⟨k, r, rfl, -⟩ | ⟨k, r0, r, rfl, -⟩
  · exact SameSchema.refl t'
  · exact enter_same t k r
  · exact putRecord_same t k r

/-- From an agreeing table, a step keeps the agreement exactly when it keeps the key fields. -/
theorem keysAgree_step_iff {t t' : DBTable fp} (h : SchemaOk t) (ha : t.KeysAgree) {op : TableOp}
    (hd : t.InRange op) (hs : t.callStep op = some t') : t'.KeysAgree ↔ t.KeepsKey op := by
  rcases callStep_cases h hd hs with ⟨rfl, hc⟩ | ⟨k, r, rfl, hk, hc⟩ | ⟨k, r0, r, rfl, hr, hc⟩
  · exact iff_of_true ha hc
  · exact iff_of_true (keysAgree_enter ha hk) hc
  · rw [keysAgree_putRecord ha (UMap.mem_of_lookup hr) r]
    exact hc (ha k r0 hr)

/-- **Key agreement over runs.**  In every run of public operations from a new
table, map key and key field agree in every state exactly when no step of the
run is one that overwrites the key field of a record it finds. -/
theorem keysAgree_iff {nameList : List Str} {typeList : List UInt16} {key : Int}
    (hl : typeList.length = nameList.length) (h0 : 0 ≤ key) (h : key.toNat < nameList.length)
    (ops : List TableOp) (hd : ∀ op ∈ ops, (new nameList typeList key : DBTable fp).InRange op) :
    Always callStep KeysAgree (new nameList typeList key : DBTable fp) ops ↔
      EachStep callStep KeepsKey (new nameList typeList key : DBTable fp) ops := by
  have hnew : SchemaOk (new nameList typeList key : DBTable fp) := new_schemaOk hl h0 h
  have range : ∀ {t : DBTable fp} {op : TableOp}, SameSchema (new nameList typeList key) t →
      (new nameList typeList key : DBTable fp).InRange op → t.InRange op := by
    intro t op hs hop
    cases op <;> simp only [InRange] at hop ⊢ <;> rw [hs.names] <;> exact hop
  apply always_iff_eachStep
    (J := fun t => SchemaOk t ∧ SameSchema (new nameList typeList key) t)
    (D := fun _ op => (new nameList typeList key : DBTable fp).InRange op)
  · rintro t op t' ⟨ht, hsame⟩ hop hs
    have hs' := callStep_same ht (range hsame hop) hs
    exact ⟨ht.of_same hs', hsame.trans hs'⟩
  · rintro t op t' ⟨ht, hsame⟩ ha hop hs
    exact keysAgree_step_iff ht ha (range hsame hop) hs
  · exact ⟨hnew, SameSchema.refl _⟩
  · intro k r hr
    cases hr
  · exact eachStep_of_forall ops _ fun _ op hop => hd op hop

/-- The entry under `k` holds another key in its key field. -/
def clash (t : DBTable fp) (k : Str) : Bool :=
  match t.recordSet.lookup k with
  | some r => match r.getField t.iPriKeyIndex with
    | .ok f => f.sData != k
    | .error _ => true
  | none => false

theorem not_keysAgree_of_clash {t : DBTable fp} {k : Str} (h : t.clash k = true) : ¬ t.KeysAgree := by
  intro ha
  unfold clash at h
  cases hr : t.recordSet.lookup k with
  | none => simp [hr] at h
  | some r =>
    obtain ⟨-, f, hf, hk⟩ := ha k r hr
    simp [hr, hf, hk] at h

/-- Both ways to break it, on a table of two columns with the row `("1", "a")`:
write the key column by index, or replace the record by itself. -/
theorem keysAgree_broken :
    ¬ Always callStep KeysAgree
      (new [lit "id", lit "name"] [dbIntT, dbStringT] 0 : DBTable .exactRational)
      [.insertList [lit "1", lit "a"], .modifyAt (lit "1") 0 (lit "2")] ∧
    ¬ Always callStep KeysAgree
      (new [lit "id", lit "name"] [dbIntT, dbStringT] 0 : DBTable .exactRational)
      [.insertList [lit "1", lit "a"],
        .modifyPtr { fieldList := [(DBField.new dbIntT).setData (lit "1"),
          (DBField.new dbStringT).setData (lit "b")] }] :=
  ⟨not_always_of_any (fun _ => not_keysAgree_of_clash)
    (by decide : Option.any (clash · (lit "1")) _ = true),
    not_always_of_any (fun _ => not_keysAgree_of_clash)
      (by decide : Option.any (clash · (lit "1")) _ = true)⟩

theorem keysAgree_iff_two_columns :
    Always callStep KeysAgree
      (new [lit "id", lit "name"] [dbIntT, dbStringT] 0 : DBTable .exactRational)
      [.insertList [lit "1", lit "a"], .modifyAt (lit "1") 1 (lit "b")] ↔
    EachStep callStep KeepsKey
      (new [lit "id", lit "name"] [dbIntT, dbStringT] 0 : DBTable .exactRational)
      [.insertList [lit "1", lit "a"], .modifyAt (lit "1") 1 (lit "b")] :=
  keysAgree_iff rfl (by decide) (by decide) _ (by simp [InRange, new])

end DBTable

end FuServer
