import Mathlib.Data.List.GetD
import FuServer.Model.Manager

/-!
# What each table operation does

On a table with a well-formed schema (`SchemaOk`) no insertion faults, and
each overload either refuses (`NULL`) or adds one record under one key.  The
lemmas here say so once for each function; later files cite them and do not
open the functions again.
-/

namespace FuServer

open Bytes Decimal Outcome

namespace DBTable

variable {fp : FloatUnit}

/-! ## Schema -/

/-- What the constructor is given: as many types as names, a key index in range. -/
structure SchemaOk (t : DBTable fp) : Prop where
  types : t.fieldTypeList.length = t.fieldNameList.length
  index : t.fieldIndexList = indexNames 0 t.fieldNameList ∅
  keyLo : 0 ≤ t.iPriKeyIndex
  keyHi : t.iPriKeyIndex.toNat < t.fieldNameList.length

/-- The parts of a table that no insertion and no modification touches. -/
structure SameSchema (t t' : DBTable fp) : Prop where
  index : t'.fieldIndexList = t.fieldIndexList
  names : t'.fieldNameList = t.fieldNameList
  types : t'.fieldTypeList = t.fieldTypeList
  key : t'.iPriKeyIndex = t.iPriKeyIndex
  tname : t'.sTableName = t.sTableName
  dbname : t'.sDBName = t.sDBName

theorem SameSchema.refl (t : DBTable fp) : SameSchema t t := ⟨rfl, rfl, rfl, rfl, rfl, rfl⟩

theorem SameSchema.trans {t t' t'' : DBTable fp} (h : SameSchema t t') (h' : SameSchema t' t'') :
    SameSchema t t'' :=
  ⟨h'.index.trans h.index, h'.names.trans h.names, h'.types.trans h.types, h'.key.trans h.key,
    h'.tname.trans h.tname, h'.dbname.trans h.dbname⟩

theorem SchemaOk.of_same {t t' : DBTable fp} (h : SchemaOk t) (hs : SameSchema t t') :
    SchemaOk t' := by
  obtain ⟨h1, h2, h3, h4⟩ := h
  constructor
  · rw [hs.types, hs.names]; exact h1
  · rw [hs.index, hs.names]; exact h2
  · rw [hs.key]; exact h3
  · rw [hs.key, hs.names]; exact h4

theorem new_schemaOk {nameList : List Str} {typeList : List UInt16} {key : Int}
    (hl : typeList.length = nameList.length) (h0 : 0 ≤ key) (h : key.toNat < nameList.length) :
    SchemaOk (new nameList typeList key : DBTable fp) :=
  ⟨by simp [new, hl], rfl, h0, h⟩

theorem lookup_indexNames (nameList : List Str) (i : Nat) (m : UMap Str Int) (name : Str) :
    (indexNames i nameList m).lookup name =
      if name ∈ m then m.lookup name
      else if name ∈ nameList then some ((i + nameList.idxOf name : Nat) : Int) else none := by
  induction nameList generalizing i m with
  | nil =>
    by_cases h : name ∈ m
    · simp [indexNames, h]
    · simp [indexNames, h, AList.lookup_eq_none.mpr h]
  | cons head nameList ih =>
    rw [indexNames, ih, UMap.lookup_insertNew]
    simp only [UMap.mem_insertNew]
    by_cases hm : name ∈ m
    · have hne : ¬ (name = head ∧ head ∉ m) := by
        rintro ⟨rfl, h⟩; exact h hm
      simp [hm, hne]
    · by_cases he : name = head
      · subst he
        simp [hm]
      · simp only [he, hm, or_self, if_false, List.mem_cons, false_or]
        rw [List.idxOf_cons_ne _ (Ne.symm he)]
        split
        · congr 2; omega
        · rfl

theorem getFieldIndex_eq {t : DBTable fp} (h : SchemaOk t) (fieldName : Str) :
    t.getFieldIndex fieldName =
      if fieldName ∈ t.fieldNameList then (t.fieldNameList.idxOf fieldName : Int) else -1 := by
  have hl := lookup_indexNames t.fieldNameList 0 ∅ fieldName
  rw [← h.index] at hl
  unfold getFieldIndex
  rw [hl]
  by_cases hm : fieldName ∈ t.fieldNameList
  · simp [hm]
  · simp [hm]

theorem getFieldIndex_of_notMem {t : DBTable fp} (h : SchemaOk t) {fieldName : Str}
    (hn : fieldName ∉ t.fieldNameList) : t.getFieldIndex fieldName = -1 := by
  rw [getFieldIndex_eq h, if_neg hn]

theorem getFieldIndex_of_mem {t : DBTable fp} (h : SchemaOk t) {fieldName : Str}
    (hn : fieldName ∈ t.fieldNameList) :
    0 ≤ t.getFieldIndex fieldName ∧ (t.getFieldIndex fieldName).toNat < t.fieldNameList.length := by
  rw [getFieldIndex_eq h, if_pos hn]
  have := List.idxOf_lt_length_of_mem hn
  omega

/-! ## Keys -/

/-- The key column's type. -/
def keyType (t : DBTable fp) : UInt16 := t.fieldTypeList.getD t.iPriKeyIndex.toNat 0

/-- The key column's name. -/
def keyName (t : DBTable fp) : Str := t.fieldNameList.getD t.iPriKeyIndex.toNat []

theorem getFieldType_key {t : DBTable fp} (h : SchemaOk t) :
    t.getFieldType t.iPriKeyIndex = .ok t.keyType := by
  have hlt : t.iPriKeyIndex.toNat < t.fieldTypeList.length := by rw [h.types]; exact h.keyHi
  rw [getFieldType, vecAt_of_lt h.keyLo hlt, keyType, List.getD_eq_getElem _ _ hlt]

theorem getFieldName_key {t : DBTable fp} (h : SchemaOk t) :
    t.getFieldName t.iPriKeyIndex = .ok t.keyName := by
  rw [getFieldName, vecAt_of_lt h.keyLo h.keyHi, keyName, List.getD_eq_getElem _ _ h.keyHi]

theorem keyName_mem {t : DBTable fp} (h : SchemaOk t) : t.keyName ∈ t.fieldNameList := by
  rw [keyName, List.getD_eq_getElem _ _ h.keyHi]
  exact List.getElem_mem h.keyHi

theorem idxOf_keyName {t : DBTable fp} (h : SchemaOk t) (hd : t.fieldNameList.Nodup) :
    t.fieldNameList.idxOf t.keyName = t.iPriKeyIndex.toNat := by
  rw [keyName, List.getD_eq_getElem _ _ h.keyHi]
  exact hd.idxOf_getElem _ h.keyHi

theorem keyIndex_iff {t : DBTable fp} (h : SchemaOk t) (hd : t.fieldNameList.Nodup) {c : Str}
    (hc : c ∈ t.fieldNameList) :
    (t.fieldNameList.idxOf c : Int) = t.iPriKeyIndex ↔ c = t.keyName := by
  have hlt := List.idxOf_lt_length_of_mem hc
  have hhi := h.keyHi
  have hkey : t.keyName = t.fieldNameList[t.iPriKeyIndex.toNat] := by
    rw [keyName, List.getD_eq_getElem _ _ hhi]
  have hlo := h.keyLo
  constructor
  · intro hi
    have hi' : t.fieldNameList.idxOf c = t.iPriKeyIndex.toNat := by omega
    rw [hkey, ← List.getElem_idxOf hlt]
    congr 1
  · rintro rfl
    rw [idxOf_keyName h hd]
    omega

/-- The table after `CheckIncrementField`. -/
def trackKey (t : DBTable fp) (dataKey : Str) : DBTable fp :=
  let sMinKey := if t.sMinKey = [] then dataKey else t.sMinKey
  let sMaxKey := if t.sMaxKey = [] then dataKey else t.sMaxKey
  { t with
    sMinKey := if dbCompareDataKey fp dataKey sMinKey t.keyType < 0 then dataKey else sMinKey
    sMaxKey := if dbCompareDataKey fp dataKey sMaxKey t.keyType > 0 then dataKey else sMaxKey }

/-- The table after `InsertSet`. -/
def addRecord (t : DBTable fp) (dataKey : Str) (pRecord : DBRecord) : DBTable fp :=
  { t with recordSet := UMap.insertNew dataKey pRecord t.recordSet }.trackKey dataKey

@[simp] theorem addRecord_recordSet (t : DBTable fp) (k : Str) (r : DBRecord) :
    (t.addRecord k r).recordSet = UMap.insertNew k r t.recordSet := rfl

theorem addRecord_same (t : DBTable fp) (k : Str) (r : DBRecord) : SameSchema t (t.addRecord k r) :=
  ⟨rfl, rfl, rfl, rfl, rfl, rfl⟩

theorem addRecord_sMinKey (t : DBTable fp) (k : Str) (r : DBRecord) :
    (t.addRecord k r).sMinKey =
      if dbCompareDataKey fp k (if t.sMinKey = [] then k else t.sMinKey) t.keyType < 0 then k
      else if t.sMinKey = [] then k else t.sMinKey := rfl

theorem addRecord_sMaxKey (t : DBTable fp) (k : Str) (r : DBRecord) :
    (t.addRecord k r).sMaxKey =
      if dbCompareDataKey fp k (if t.sMaxKey = [] then k else t.sMaxKey) t.keyType > 0 then k
      else if t.sMaxKey = [] then k else t.sMaxKey := rfl

theorem insertSet_eq {t : DBTable fp} (h : SchemaOk t) (k : Str) (r : DBRecord) :
    t.insertSet k r = .ok (t.addRecord k r) := by
  let t1 : DBTable fp := { t with recordSet := UMap.insertNew k r t.recordSet }
  have h1 : SchemaOk t1 := h.of_same ⟨rfl, rfl, rfl, rfl, rfl, rfl⟩
  show t1.checkIncrementField k = .ok (t1.trackKey k)
  rw [checkIncrementField, getFieldType_key h1]
  rfl

/-- Whatever the schema, the record goes in and the rest of it stays. -/
theorem insertSet_spec {t t' : DBTable fp} {k : Str} {r : DBRecord} (h : t.insertSet k r = .ok t') :
    t'.recordSet = UMap.insertNew k r t.recordSet ∧ t'.iPriKeyIndex = t.iPriKeyIndex := by
  obtain ⟨iType, -, h⟩ := bind_eq_ok.mp h
  cases h
  exact ⟨rfl, rfl⟩

/-- The key `PriKeyIncrement` makes. -/
def nextKey (t : DBTable fp) : Str :=
  if isIntegerType t.keyType || t.keyType == dbStringT then fuStrIncrement 1 t.sMaxKey
  else if t.keyType == dbFloatT then
    fp.fltFormat (fp.fltAdd (fp.fltOfNat t.sMaxKey.length) (fp.fltOfNat 1))
  else if t.keyType == dbDoubleT then
    fp.dblFormat (fp.dblAdd (fuStrToDouble fp t.sMaxKey) (fp.dblOfNat 1))
  else []

theorem priKeyIncrement_eq {t : DBTable fp} (h : SchemaOk t) : t.priKeyIncrement = .ok t.nextKey := by
  unfold priKeyIncrement nextKey
  rw [getFieldType_key h, ok_bind]
  split
  · rfl
  · split
    · rfl
    · split <;> rfl

theorem givenKey_eq {t : DBTable fp} (h : SchemaOk t) (given : Option Str) :
    t.givenKey given = .ok (given.getD t.nextKey) := by
  cases given with
  | none => exact priKeyIncrement_eq h
  | some data => rfl

theorem findSet_isSome (t : DBTable fp) (k : Str) : (t.findSet k).isSome = true ↔ k ∈ t.recordSet :=
  AList.lookup_isSome

/-! ## Insertion -/

/-- One field for each column, built from its index and type. -/
def buildFields (t : DBTable fp) (g : Nat → UInt16 → DBField) : List DBField :=
  (List.range t.fieldNameList.length).map fun i => g i (t.fieldTypeList.getD i 0)

@[simp] theorem length_buildFields (t : DBTable fp) (g : Nat → UInt16 → DBField) :
    (t.buildFields g).length = t.fieldNameList.length := by
  simp [buildFields]

theorem getElem?_buildFields (t : DBTable fp) (g : Nat → UInt16 → DBField) {i : Nat}
    (hi : i < t.fieldNameList.length) :
    (t.buildFields g)[i]? = some (g i (t.fieldTypeList.getD i 0)) := by
  simp [buildFields, hi]

theorem newFields_eq {t : DBTable fp} (h : SchemaOk t) {field : Nat → UInt16 → Res DBField}
    {g : Nat → UInt16 → DBField}
    (hf : ∀ i iType, i < t.fieldNameList.length → field i iType = .ok (g i iType)) :
    t.newFields field = .ok (t.buildFields g) := by
  unfold newFields buildFields
  apply mapM_ok
  intro i hi
  rw [List.mem_range] at hi
  have hlt : i < t.fieldTypeList.length := by rw [h.types]; exact hi
  rw [getFieldType, vecAt_natCast hlt, ok_bind, hf i _ hi, List.getD_eq_getElem _ _ hlt]

/-- The field `InsertRecord(std::string)` makes for column `i`. -/
def keyOnlyField (t : DBTable fp) (dataKey : Str) (i : Nat) (iType : UInt16) : DBField :=
  let pField := (DBField.new iType).setIsKey ((i : Int) == t.iPriKeyIndex)
  if pField.bKey then pField.setData dataKey else pField

/-- The field the name-map overload makes for column `i`. -/
def namedField (t : DBTable fp) (dataKey : Str) (dataList : UMap Str Str) (i : Nat) (iType : UInt16) :
    DBField :=
  let fieldName := t.fieldNameList.getD i []
  let pField := ((DBField.new iType).setIsKey (fieldName == t.keyName)).setIndex i
  if pField.bKey then pField.setData dataKey
  else match dataList.lookup fieldName with
    | some data => pField.setData data
    | none => pField

/-- The field the value-vector overload makes for column `i`. -/
def listField (t : DBTable fp) (dataList : List Str) (i : Nat) (iType : UInt16) : DBField :=
  (((DBField.new iType).setIsKey ((i : Int) == t.iPriKeyIndex)).setIndex i).setData (dataList.getD i [])

/-- The field the index-map overload makes for column `i`. -/
def indexedField (t : DBTable fp) (dataKey : Str) (dataList : UMap Int Str) (i : Nat)
    (iType : UInt16) : DBField :=
  let pField := ((DBField.new iType).setIsKey ((i : Int) == t.iPriKeyIndex)).setIndex i
  if pField.bKey then pField.setData dataKey
  else match dataList.lookup (i : Int) with
    | some data => pField.setData data
    | none => pField

/-- Add a new record unless its key is taken. -/
def enter (t : DBTable fp) (dataKey : Str) (pRecord : DBRecord) : DBTable fp × Option Str :=
  if dataKey ∈ t.recordSet then (t, none) else (t.addRecord dataKey pRecord, some dataKey)

theorem enter_bind {t : DBTable fp} (h : SchemaOk t) (k : Str) (r : DBRecord) :
    (if (t.findSet k).isSome = true then (.ok (t, none) : Res (DBTable fp × Option Str))
      else (t.insertSet k r).bind fun t' => .ok (t', some k)) = .ok (t.enter k r) := by
  unfold enter
  rw [insertSet_eq h]
  by_cases hk : k ∈ t.recordSet
  · rw [if_pos ((findSet_isSome t k).mpr hk), if_pos hk]
  · rw [if_neg (fun h' => hk ((findSet_isSome t k).mp h')), if_neg hk]
    rfl

/-- The key-only overload: an empty key asks for a generated one, no key is a refusal. -/
theorem insertRecordKey_eq {t : DBTable fp} (h : SchemaOk t) (key : Str) :
    t.insertRecordKey key = .ok (
      let dataKey := if key = [] then t.nextKey else key
      if dataKey = [] then (t, none)
      else t.enter dataKey { fieldList := t.buildFields (t.keyOnlyField dataKey) }) := by
  have hk : (if key = [] then none else some key : Option Str).getD t.nextKey =
      if key = [] then t.nextKey else key := by
    split <;> rfl
  unfold insertRecordKey
  rw [givenKey_eq h, ok_bind, hk]
  generalize (if key = [] then t.nextKey else key) = dataKey
  by_cases h0 : dataKey = []
  · simp [h0]
  · simp only [h0, if_false, pure_eq_ok]
    show (if (t.findSet dataKey).isSome = true then (.ok (t, none) : Res (DBTable fp × Option Str))
      else (t.newFields fun i iType => .ok (t.keyOnlyField dataKey i iType)) >>= fun fieldList =>
        (t.insertSet dataKey { fieldList := fieldList }).bind fun t' => .ok (t', some dataKey)) = _
    rw [newFields_eq h fun _ _ _ => rfl]
    exact enter_bind h dataKey _

/-- The name-map overload. -/
theorem insertRecord_eq {t : DBTable fp} (h : SchemaOk t) (dataList : UMap Str Str) :
    t.insertRecord dataList =
      if dataList.entries = [] then t.insertRecordKey []
      else .ok (
        let dataKey := (dataList.lookup t.keyName).getD t.nextKey
        t.enter dataKey { fieldList := t.buildFields (t.namedField dataKey dataList) }) := by
  unfold insertRecord
  split
  · rfl
  · rw [getFieldName_key h, ok_bind, givenKey_eq h, ok_bind]
    generalize (dataList.lookup t.keyName).getD t.nextKey = dataKey
    simp only [pure_eq_ok]
    rw [newFields_eq h (g := t.namedField dataKey dataList)]
    · exact enter_bind h dataKey _
    · intro i iType hi
      rw [getFieldName, vecAt_natCast hi, ok_bind, namedField, List.getD_eq_getElem _ _ hi]
      split
      · rfl
      · cases dataList.lookup t.fieldNameList[i] <;> rfl

/-- The value-vector overload. -/
theorem insertRecordList_eq {t : DBTable fp} (h : SchemaOk t) (dataList : List Str) :
    t.insertRecordList dataList = .ok (
      if t.fieldNameList.length ≠ dataList.length then (t, none)
      else t.enter (dataList.getD t.iPriKeyIndex.toNat [])
        { fieldList := t.buildFields (t.listField dataList) }) := by
  unfold insertRecordList
  by_cases hl : t.fieldNameList.length = dataList.length
  · have hlt : t.iPriKeyIndex.toNat < dataList.length := by rw [← hl]; exact h.keyHi
    simp only [hl, ne_eq, not_true, if_false, pure_eq_ok]
    rw [vecAt_of_lt h.keyLo hlt, ok_bind, List.getD_eq_getElem _ _ hlt]
    rw [newFields_eq h (g := t.listField dataList)]
    · exact enter_bind h _ _
    · intro i iType hi
      have hi' : i < dataList.length := by rw [← hl]; exact hi
      rw [vecAt_natCast hi', ok_bind, listField, List.getD_eq_getElem _ _ hi']
  · simp [hl]

/-- The index-map overload. -/
theorem insertRecordIndexed_eq {t : DBTable fp} (h : SchemaOk t) (dataList : UMap Int Str) :
    t.insertRecordIndexed dataList = .ok (
      let dataKey := (dataList.lookup t.iPriKeyIndex).getD t.nextKey
      t.enter dataKey { fieldList := t.buildFields (t.indexedField dataKey dataList) }) := by
  unfold insertRecordIndexed
  rw [givenKey_eq h, ok_bind]
  generalize (dataList.lookup t.iPriKeyIndex).getD t.nextKey = dataKey
  simp only [pure_eq_ok]
  rw [newFields_eq h (g := t.indexedField dataKey dataList)]
  · exact enter_bind h dataKey _
  · intro i iType _
    rw [indexedField]
    split
    · rfl
    · cases dataList.lookup (i : Int) <;> rfl

/-- The overload that takes a finished record. -/
theorem insertRecordPtr_eq {t : DBTable fp} (h : SchemaOk t) {r : DBRecord} {f : DBField}
    (hf : r.getField t.iPriKeyIndex = .ok f) :
    t.insertRecordPtr r = .ok (if f.bNull = true then (t, none) else t.enter f.sData r) := by
  unfold insertRecordPtr
  rw [hf, ok_bind]
  cases hn : f.bNull with
  | true => rfl
  | false =>
    simp only [Bool.false_or, Bool.false_eq_true, if_false]
    exact enter_bind h f.sData r

/-! ## Modification -/

/-- Another record under a key that is there. -/
def putRecord (t : DBTable fp) (dataKey : Str) (pRecord : DBRecord) : DBTable fp :=
  { t with recordSet := UMap.adjust dataKey (fun _ => pRecord) t.recordSet }

theorem putRecord_same (t : DBTable fp) (k : Str) (r : DBRecord) : SameSchema t (t.putRecord k r) :=
  ⟨rfl, rfl, rfl, rfl, rfl, rfl⟩

theorem lookup_putRecord (t : DBTable fp) (k k' : Str) (r : DBRecord) :
    (t.putRecord k r).recordSet.lookup k' =
      if k' = k then (t.recordSet.lookup k).map fun _ => r else t.recordSet.lookup k' :=
  UMap.lookup_adjust k k' _ t.recordSet

/-- Column `i` of a record set to a text. -/
def assignAt (r : DBRecord) (i : Nat) (sData : Str) : DBRecord :=
  { r with fieldList := r.fieldList.modify i (·.resetData sData) }

@[simp] theorem length_assignAt (r : DBRecord) (i : Nat) (sData : Str) :
    (assignAt r i sData).fieldList.length = r.fieldList.length := by
  simp [assignAt]

theorem resetData_eq {r : DBRecord} {index : Int} (sData : Str) (h0 : 0 ≤ index)
    (h : index.toNat < r.fieldList.length) :
    r.resetData sData index = .ok (assignAt r index.toNat sData) := by
  unfold DBRecord.resetData
  rw [vecModify_of_lt _ h0 h]
  rfl

theorem eq_assignAt_of_ok {r r' : DBRecord} {sData : Str} {index : Int}
    (h : r.resetData sData index = .ok r') : r' = assignAt r index.toNat sData := by
  obtain ⟨v, hv, hr⟩ := bind_eq_ok.mp h
  obtain ⟨-, rfl⟩ := vecModify_eq_ok.mp hv
  cases hr
  rfl

/-- One assignment of a name map: the key column is skipped. -/
def assignNamed (t : DBTable fp) (r : DBRecord) (toIter : Σ _ : Str, Str) : DBRecord :=
  if t.getFieldIndex toIter.1 ≠ t.iPriKeyIndex then
    (assignAt r (t.getFieldIndex toIter.1).toNat toIter.2).setIsModify true
  else r

theorem length_assignNamed (t : DBTable fp) (r : DBRecord) (e : Σ _ : Str, Str) :
    (t.assignNamed r e).fieldList.length = r.fieldList.length := by
  unfold assignNamed
  split
  · exact length_assignAt r _ e.2
  · rfl

theorem sData_assignAt {r : DBRecord} {j : Nat} (hj : j < r.fieldList.length) (i : Nat) (sData : Str) :
    ((assignAt r i sData).fieldList.getD j {}).sData =
      if i = j then sData else (r.fieldList.getD j {}).sData := by
  have hget : (r.fieldList.modify i (·.resetData sData))[j]? =
      some (if i = j then r.fieldList[j].resetData sData else r.fieldList[j]) := by
    rw [List.getElem?_modify, List.getElem?_eq_getElem hj]
    rfl
  show ((r.fieldList.modify i (·.resetData sData)).getD j {}).sData = _
  rw [List.getD_eq_getElem?_getD, hget, Option.getD_some]
  by_cases hij : i = j
  · rw [if_pos hij, if_pos hij]
    rfl
  · rw [if_neg hij, if_neg hij, List.getD_eq_getElem _ _ hj]

/-- One assignment of a name map changes one column, unless it is the key column. -/
theorem sData_assignNamed {t : DBTable fp} (h : SchemaOk t) (hd : t.fieldNameList.Nodup) {r : DBRecord}
    (hw : r.fieldList.length = t.fieldNameList.length) {e : Σ _ : Str, Str} (he : e.1 ∈ t.fieldNameList)
    {c : Str} (hc : c ∈ t.fieldNameList) :
    ((t.assignNamed r e).fieldList.getD (t.fieldNameList.idxOf c) {}).sData =
      if c = t.keyName then (r.fieldList.getD (t.fieldNameList.idxOf c) {}).sData
      else if c = e.1 then e.2 else (r.fieldList.getD (t.fieldNameList.idxOf c) {}).sData := by
  have hlt : t.fieldNameList.idxOf c < r.fieldList.length := by
    rw [hw]
    exact List.idxOf_lt_length_of_mem hc
  have hke := keyIndex_iff h hd he
  unfold assignNamed
  rw [getFieldIndex_eq h, if_pos he]
  by_cases hek : e.1 = t.keyName
  · rw [if_neg (by simpa using hke.mpr hek)]
    by_cases hcn : c = t.keyName
    · rw [if_pos hcn]
    · have hce : c ≠ e.1 := fun h' => hcn (h'.trans hek)
      rw [if_neg hcn, if_neg hce]
  · rw [if_pos (fun h' => hek (hke.mp h')), Int.toNat_natCast]
    have hone := sData_assignAt hlt (t.fieldNameList.idxOf e.1) e.2
    by_cases hcn : c = t.keyName
    · have hne : t.fieldNameList.idxOf e.1 ≠ t.fieldNameList.idxOf c :=
        fun h' => hek (((List.idxOf_inj he).mp h').trans hcn)
      rw [if_neg hne] at hone
      rw [if_pos hcn]
      exact hone
    · rw [if_neg hcn]
      refine hone.trans (if_congr ?_ rfl rfl)
      rw [List.idxOf_inj he]
      exact eq_comm

/-- After the assignments of a whole name map a column has its new text, the key column its old one. -/
theorem sData_foldl_assignNamed {t : DBTable fp} (h : SchemaOk t) (hd : t.fieldNameList.Nodup)
    (dataList : List (Σ _ : Str, Str)) (hnd : dataList.NodupKeys)
    (hall : ∀ e ∈ dataList, e.1 ∈ t.fieldNameList) (r : DBRecord)
    (hw : r.fieldList.length = t.fieldNameList.length) {c : Str} (hc : c ∈ t.fieldNameList) :
    ((dataList.foldl t.assignNamed r).fieldList.getD (t.fieldNameList.idxOf c) {}).sData =
      if c = t.keyName then (r.fieldList.getD (t.fieldNameList.idxOf c) {}).sData
      else (dataList.dlookup c).getD (r.fieldList.getD (t.fieldNameList.idxOf c) {}).sData := by
  induction dataList generalizing r with
  | nil =>
    show (r.fieldList.getD (t.fieldNameList.idxOf c) {}).sData = _
    exact (ite_self _).symm
  | cons e dataList ih =>
    obtain ⟨hnot, hnd'⟩ := List.nodupKeys_cons.mp hnd
    have hone := sData_assignNamed h hd hw (hall e List.mem_cons_self) hc
    rw [List.foldl_cons, ih hnd' (fun e' he' => hall e' (List.mem_cons_of_mem e he')) _
      (by rw [length_assignNamed, hw]), hone]
    by_cases hck : c = t.keyName
    · rw [if_pos hck, if_pos hck, if_pos hck]
    · rw [if_neg hck, if_neg hck, if_neg hck]
      obtain ⟨k, v⟩ := e
      show (List.dlookup c dataList).getD (if c = k then v else _) =
        (List.dlookup c (⟨k, v⟩ :: dataList)).getD _
      by_cases hce : c = k
      · subst hce
        rw [if_pos rfl, List.dlookup_cons_eq, List.dlookup_eq_none.mpr hnot]
        rfl
      · have hrest : List.dlookup c (⟨k, v⟩ :: dataList) = List.dlookup c dataList :=
          List.dlookup_cons_ne dataList (⟨k, v⟩ : Σ _ : Str, Str) hce
        rw [if_neg hce, hrest]

/-- An assignment leaves the insert flag alone. -/
theorem bInsert_foldl_assignNamed (t : DBTable fp) (dataList : List (Σ _ : Str, Str)) (r : DBRecord) :
    (dataList.foldl t.assignNamed r).bInsert = r.bInsert := by
  induction dataList generalizing r with
  | nil => rfl
  | cons e dataList ih =>
    rw [List.foldl_cons, ih]
    unfold assignNamed
    split <;> rfl

/-- The assignments go through when all their columns exist, and fault otherwise. -/
theorem assignFields_eq {t : DBTable fp} (h : SchemaOk t) (dataList : List (Σ _ : Str, Str))
    (r : DBRecord) (hw : r.fieldList.length = t.fieldNameList.length) :
    t.assignFields dataList r =
      if ∀ e ∈ dataList, e.1 ∈ t.fieldNameList then .ok (dataList.foldl t.assignNamed r)
      else .error .outOfRange := by
  induction dataList generalizing r with
  | nil => simp [assignFields]
  | cons e dataList ih =>
    rw [assignFields]
    by_cases he : e.1 ∈ t.fieldNameList
    · obtain ⟨h0, hlt⟩ := getFieldIndex_of_mem h he
      simp only [List.mem_cons, forall_eq_or_imp, he, true_and, List.foldl_cons]
      by_cases hk : t.getFieldIndex e.1 = t.iPriKeyIndex
      · rw [if_neg (by simpa using hk), ih r hw]
        simp [assignNamed, hk]
      · rw [if_pos hk, resetData_eq e.2 h0 (by omega), ok_bind, ih _ (by
          show (assignAt r _ e.2).fieldList.length = _
          rw [length_assignAt, hw])]
        simp [assignNamed, hk]
    · have hneg := getFieldIndex_of_notMem h he
      have hk : t.getFieldIndex e.1 ≠ t.iPriKeyIndex := by
        have := h.keyLo
        omega
      rw [if_pos hk, if_neg (fun hall => he (hall e List.mem_cons_self)), DBRecord.resetData, hneg,
        vecModify_neg _ _ (by omega)]
      rfl

theorem eq_foldl_of_assignFields_ok {t : DBTable fp} (dataList : List (Σ _ : Str, Str))
    {r r' : DBRecord} (h : t.assignFields dataList r = .ok r') :
    r' = dataList.foldl t.assignNamed r := by
  induction dataList generalizing r with
  | nil => cases h; rfl
  | cons e dataList ih =>
    rw [assignFields] at h
    rw [List.foldl_cons]
    by_cases hk : t.getFieldIndex e.1 = t.iPriKeyIndex
    · rw [if_neg (by simpa using hk)] at h
      simpa [assignNamed, hk] using ih h
    · rw [if_pos hk] at h
      obtain ⟨r1, hr1, h⟩ := bind_eq_ok.mp h
      rw [eq_assignAt_of_ok hr1] at h
      simpa [assignNamed, hk] using ih h

/-- The name-map overload on a record that is there. -/
theorem modifyRecord_eq {t : DBTable fp} (h : SchemaOk t) {k : Str} {r : DBRecord}
    (dataList : UMap Str Str) (hr : t.recordSet.lookup k = some r)
    (hw : r.fieldList.length = t.fieldNameList.length) :
    t.modifyRecord k dataList =
      if ∀ c ∈ dataList.keys, c ∈ t.fieldNameList then
        .ok (t.putRecord k (dataList.entries.foldl t.assignNamed r), some k)
      else .error .outOfRange := by
  have hkeys : (∀ c ∈ dataList.keys, c ∈ t.fieldNameList) ↔
      ∀ e ∈ dataList.entries, e.1 ∈ t.fieldNameList := by
    show (∀ c ∈ dataList.entries.map Sigma.fst, c ∈ t.fieldNameList) ↔ _
    exact List.forall_mem_map
  unfold modifyRecord
  rw [hr]
  dsimp only
  rw [assignFields_eq h dataList.entries r hw]
  by_cases hall : ∀ e ∈ dataList.entries, e.1 ∈ t.fieldNameList
  · rw [if_pos hall, if_pos (hkeys.mpr hall)]
    rfl
  · rw [if_neg hall, if_neg fun h' => hall (hkeys.mp h')]
    rfl

/-- The overload that takes a record: it is read for its key only. -/
theorem modifyRecordPtr_eq (t : DBTable fp) {p : DBRecord} {f : DBField}
    (hf : p.getField t.iPriKeyIndex = .ok f) :
    t.modifyRecordPtr p = .ok (
      if f.bNull = true then (t, none)
      else match t.recordSet.lookup f.sData with
        | none => (t, none)
        | some r => (t.putRecord f.sData ((r.resetDataRecord p).setIsModify true), some f.sData)) := by
  unfold modifyRecordPtr
  rw [hf, ok_bind]
  split
  · rfl
  · cases t.recordSet.lookup f.sData <;> rfl

theorem modifyRecord_of_notMem (t : DBTable fp) {k : Str} (dataList : UMap Str Str)
    (hk : k ∉ t.recordSet) : t.modifyRecord k dataList = .ok (t, none) := by
  unfold modifyRecord
  rw [AList.lookup_eq_none.mpr hk]
  rfl

theorem modifyRecordAt_of_notMem (t : DBTable fp) {k : Str} (index : Int) (sData : Str)
    (hk : k ∉ t.recordSet) : t.modifyRecordAt k index sData = .ok (t, none) := by
  unfold modifyRecordAt
  rw [AList.lookup_eq_none.mpr hk]
  rfl

end DBTable

end FuServer
