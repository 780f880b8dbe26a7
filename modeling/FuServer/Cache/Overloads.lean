import FuServer.Cache.Inserts

/-!
# The records the insert overloads build

Four overloads of `InsertRecord` build their record column by column.  On the
values they are given they make the same field, `madeField`, up to its index:
the loop of `InsertRecord(std::string)` has no `SetIndex`, so with it (and with
an empty name map, which calls it) every field keeps the index `0`.

    a.Stored t r → b.Stored u s →
      (OfColumns t r ∧ OfColumns u s ∧ (a.row t = b.row u → r.fieldList = s.fieldList)) ↔
        a.IndexesColumns t ∧ b.IndexesColumns u                    (overloads_agree_iff)
-/

namespace FuServer

open Bytes Outcome

namespace DBTable

variable {fp : FloatUnit}

/-- Field `i` of the record has the type of column `i` and the index `i`, and is a key field if
that column is the primary key. -/
def OfColumns (t : DBTable fp) (r : DBRecord) : Prop :=
  r.fieldList.length = t.fieldNameList.length ∧
    ∀ (i : Nat) (f : DBField), r.fieldList[i]? = some f →
      t.fieldTypeList[i]? = some f.usType ∧ f.usIndex.toNat = i ∧
        (f.bKey = true ↔ (i : Int) = t.iPriKeyIndex)

theorem buildFields_congr {t : DBTable fp} {g g' : Nat → UInt16 → DBField}
    (h : ∀ i iType, i < t.fieldNameList.length → g i iType = g' i iType) :
    t.buildFields g = t.buildFields g' := by
  apply List.map_congr_left
  intro i hi
  exact h i _ (List.mem_range.mp hi)

theorem keyName_beq {t : DBTable fp} (h : SchemaOk t) (hd : t.fieldNameList.Nodup) {i : Nat}
    (hi : i < t.fieldNameList.length) :
    (t.fieldNameList.getD i [] == t.keyName) = ((i : Int) == t.iPriKeyIndex) := by
  have hiff := keyIndex_iff h hd (List.getElem_mem hi)
  rw [hd.idxOf_getElem i hi] at hiff
  rw [List.getD_eq_getElem _ _ hi, Bool.eq_iff_iff, beq_iff_eq, beq_iff_eq]
  exact hiff.symm

end DBTable

namespace InsertArgs

variable {fp : FloatUnit}

/-- The overload builds its own record. -/
def Constructs : InsertArgs → Prop
  | byRecord _ => False
  | _ => True

/-- The overload's loop calls `SetIndex`. -/
def setsIndex : InsertArgs → Bool
  | byKey _ => false
  | byRecord _ => false
  | byName dataList => dataList.entries != []
  | byList _ => true
  | byIndex _ => true

/-! ## The row a call is given -/

/-- The key the call inserts under. -/
def keyOf (t : DBTable fp) : InsertArgs → Str
  | byKey key => if key = [] then t.nextKey else key
  | byRecord pRecord => (pRecord.fieldList.getD t.iPriKeyIndex.toNat {}).sData
  | byName dataList => (dataList.lookup t.keyName).getD t.nextKey
  | byList dataList => dataList.getD t.iPriKeyIndex.toNat []
  | byIndex dataList => (dataList.lookup t.iPriKeyIndex).getD t.nextKey

/-- The value given for a column that is not the key, empty if there is none. -/
def dataOf (t : DBTable fp) (i : Nat) : InsertArgs → Str
  | byKey _ => []
  | byRecord pRecord => (pRecord.fieldList.getD i {}).sData
  | byName dataList => (dataList.lookup (t.fieldNameList.getD i [])).getD []
  | byList dataList => dataList.getD i []
  | byIndex dataList => (dataList.lookup (i : Int)).getD []

def valueAt (t : DBTable fp) (args : InsertArgs) (i : Nat) : Str :=
  if (i : Int) == t.iPriKeyIndex then args.keyOf t else args.dataOf t i

/-- The row of values, one for each column. -/
def row (t : DBTable fp) (args : InsertArgs) : List Str :=
  (List.range t.fieldNameList.length).map (args.valueAt t)

/-- The field made for column `i`. -/
def madeField (t : DBTable fp) (args : InsertArgs) (i : Nat) (iType : UInt16) : DBField where
  sData := args.valueAt t i
  usType := iType
  usIndex := if args.setsIndex then UInt16.ofNat i else 0
  bKey := (i : Int) == t.iPriKeyIndex
  bNull := args.valueAt t i == []

/-- A field without data and one whose data is set to the empty text are one. -/
theorem setData_getD (f : DBField) (hf : f.sData = []) (hn : f.bNull = true) (data : Option Str) :
    (match data with
      | some data => f.setData data
      | none => f) = f.setData (data.getD []) := by
  cases data with
  | some data => rfl
  | none =>
    obtain ⟨sData, usType, usIndex, bKey, bNull⟩ := f
    simp only at hf hn
    rw [hf, hn]
    rfl

theorem keyOnlyField_eq (t : DBTable fp) (key : Str) (i : Nat) (iType : UInt16) :
    t.keyOnlyField ((byKey key).keyOf t) i iType = (byKey key).madeField t i iType := by
  unfold DBTable.keyOnlyField madeField valueAt
  dsimp only [DBField.setIsKey_bKey]
  cases (i : Int) == t.iPriKeyIndex with
  | true => rfl
  | false => rfl

theorem namedField_eq {t : DBTable fp} (h : t.SchemaOk) (hd : t.fieldNameList.Nodup) {d : UMap Str Str}
    (hne : d.entries ≠ []) {i : Nat} (hi : i < t.fieldNameList.length) (iType : UInt16) :
    t.namedField ((byName d).keyOf t) d i iType = (byName d).madeField t i iType := by
  have hset : (byName d).setsIndex = true := bne_iff_ne.mpr hne
  unfold DBTable.namedField madeField valueAt
  rw [hset]
  dsimp only [DBField.setIndex_bKey, DBField.setIsKey_bKey]
  rw [DBTable.keyName_beq h hd hi]
  cases (i : Int) == t.iPriKeyIndex with
  | true => rfl
  | false => exact setData_getD _ rfl rfl _

theorem listField_eq {t : DBTable fp} (l : List Str) (i : Nat) (iType : UInt16) :
    t.listField l i iType = (byList l).madeField t i iType := by
  have hval : (byList l).valueAt t i = l.getD i [] := by
    unfold valueAt
    split
    · next hk =>
      have hi : t.iPriKeyIndex.toNat = i := by
        rw [← beq_iff_eq.mp hk]
        rfl
      rw [keyOf, hi]
    · rfl
  unfold DBTable.listField madeField
  rw [hval]
  rfl

theorem indexedField_eq {t : DBTable fp} (d : UMap Int Str) (i : Nat) (iType : UInt16) :
    t.indexedField ((byIndex d).keyOf t) d i iType = (byIndex d).madeField t i iType := by
  unfold DBTable.indexedField madeField valueAt
  dsimp only [DBField.setIndex_bKey, DBField.setIsKey_bKey]
  cases (i : Int) == t.iPriKeyIndex with
  | true => rfl
  | false => exact setData_getD _ rfl rfl _

/-! ## What a call stores -/

/-- The record a call makes of its row. -/
def made (t : DBTable fp) (args : InsertArgs) : DBRecord where
  fieldList := t.buildFields (args.madeField t)

theorem insert_byKey_made {t : DBTable fp} (h : t.SchemaOk) (key : Str) :
    t.insertRecordKey key = .ok (t, none) ∨
      t.insertRecordKey key = .ok (t.enter ((byKey key).keyOf t) ((byKey key).made t)) := by
  have hmade : t.buildFields (t.keyOnlyField ((byKey key).keyOf t)) = ((byKey key).made t).fieldList :=
    DBTable.buildFields_congr fun i iType _ => keyOnlyField_eq t key i iType
  have heq : t.insertRecordKey key = .ok (if (byKey key).keyOf t = [] then (t, none)
      else t.enter ((byKey key).keyOf t) { fieldList := ((byKey key).made t).fieldList }) := by
    rw [← hmade]
    exact DBTable.insertRecordKey_eq h key
  rw [heq]
  by_cases h0 : (byKey key).keyOf t = []
  · rw [if_pos h0]
    exact Or.inl rfl
  · rw [if_neg h0]
    exact Or.inr rfl

/-- An empty name map is the empty key. -/
theorem made_of_empty {t : DBTable fp} {d : UMap Str Str} (hd : d.entries = []) :
    (byName d).keyOf t = (byKey []).keyOf t ∧ (byName d).made t = (byKey []).made t := by
  obtain rfl : d = ∅ := AList.ext hd
  exact ⟨rfl, rfl⟩

/-- **What an overload does.**  It refuses, or it enters the record made of its row. -/
theorem insert_made {t : DBTable fp} (h : t.SchemaOk) (hd : t.fieldNameList.Nodup) {args : InsertArgs}
    (hc : args.Constructs) :
    args.insert t = .ok (t, none) ∨ args.insert t = .ok (t.enter (args.keyOf t) (args.made t)) := by
  cases args with
  | byRecord pRecord => exact hc.elim
  | byKey key => exact insert_byKey_made h key
  | byName dataList =>
    show t.insertRecord dataList = _ ∨ t.insertRecord dataList = _
    rw [DBTable.insertRecord_eq h]
    by_cases hnil : dataList.entries = []
    · obtain ⟨hkey, hmade⟩ := made_of_empty (t := t) hnil
      rw [if_pos hnil, hkey, hmade]
      exact insert_byKey_made h []
    · have hmade : t.buildFields (t.namedField ((byName dataList).keyOf t) dataList) =
          ((byName dataList).made t).fieldList :=
        DBTable.buildFields_congr fun i iType hi => namedField_eq h hd hnil hi iType
      rw [if_neg hnil]
      refine Or.inr ?_
      show Except.ok (t.enter ((byName dataList).keyOf t)
        { fieldList := t.buildFields (t.namedField ((byName dataList).keyOf t) dataList) }) = _
      rw [hmade]
      rfl
  | byList dataList =>
    show t.insertRecordList dataList = _ ∨ t.insertRecordList dataList = _
    rw [DBTable.insertRecordList_eq h]
    by_cases hlen : t.fieldNameList.length ≠ dataList.length
    · rw [if_pos hlen]
      exact Or.inl rfl
    · have hmade : t.buildFields (t.listField dataList) = ((byList dataList).made t).fieldList :=
        DBTable.buildFields_congr fun i iType _ => listField_eq dataList i iType
      rw [if_neg hlen, hmade]
      exact Or.inr rfl
  | byIndex dataList =>
    show t.insertRecordIndexed dataList = _ ∨ t.insertRecordIndexed dataList = _
    have hmade : t.buildFields (t.indexedField ((byIndex dataList).keyOf t) dataList) =
        ((byIndex dataList).made t).fieldList :=
      DBTable.buildFields_congr fun i iType _ => indexedField_eq dataList i iType
    rw [DBTable.insertRecordIndexed_eq h]
    refine Or.inr ?_
    show Except.ok (t.enter ((byIndex dataList).keyOf t)
      { fieldList := t.buildFields (t.indexedField ((byIndex dataList).keyOf t) dataList) }) = _
    rw [hmade]
    rfl

/-- The call has stored the record `r`. -/
def Stored (t : DBTable fp) (args : InsertArgs) (r : DBRecord) : Prop :=
  ∃ t' k, args.insert t = .ok (t', some k) ∧ t'.recordSet.lookup k = some r

theorem stored_eq_made {t : DBTable fp} (h : t.SchemaOk) (hd : t.fieldNameList.Nodup) {args : InsertArgs}
    (hc : args.Constructs) {r : DBRecord} (hr : args.Stored t r) : r = args.made t := by
  obtain ⟨t', k, hins, hlook⟩ := hr
  rcases insert_made h hd hc with hno | hyes
  · rw [hno] at hins
    cases hins
  · rw [hyes] at hins
    unfold DBTable.enter at hins
    split at hins
    · cases hins
    · next hk =>
      cases hins
      rw [DBTable.addRecord_recordSet, UMap.lookup_insertNew, if_pos ⟨rfl, hk⟩] at hlook
      exact (Option.some.inj hlook).symm

/-! ## Field by field -/

/-- The indices the call writes are those of the columns: with `SetIndex` an `unsigned
short` has to hold them, without it there is one column at most. -/
def IndexesColumns (t : DBTable fp) (args : InsertArgs) : Prop :=
  if args.setsIndex then t.fieldNameList.length ≤ 65536 else t.fieldNameList.length ≤ 1

theorem index_of_setsIndex {i : Nat} : (UInt16.ofNat i).toNat = i ↔ i < 65536 := by
  rw [UInt16.toNat_ofNat']
  omega

theorem getElem?_made {t : DBTable fp} {args : InsertArgs} {i : Nat} {f : DBField} :
    (args.made t).fieldList[i]? = some f ↔
      i < t.fieldNameList.length ∧ args.madeField t i (t.fieldTypeList.getD i 0) = f := by
  by_cases hi : i < t.fieldNameList.length
  · show (t.buildFields _)[i]? = some f ↔ _
    rw [DBTable.getElem?_buildFields t _ hi, Option.some_inj]
    exact (and_iff_right hi).symm
  · have hnone : (args.made t).fieldList[i]? = none := by
      rw [List.getElem?_eq_none_iff]
      show (t.buildFields _).length ≤ i
      rw [DBTable.length_buildFields]
      omega
    rw [hnone]
    constructor
    · intro h
      cases h
    · exact fun h => absurd h.1 hi

theorem checkDataList_made (t : DBTable fp) (args : InsertArgs) :
    (args.made t).checkDataList = args.row t := by
  show ((List.range _).map _).map _ = _
  rw [List.map_map]
  rfl

/-- Every index the call writes is right. -/
theorem indexesColumns_iff {t : DBTable fp} {args : InsertArgs} :
    args.IndexesColumns t ↔
      ∀ i, i < t.fieldNameList.length → (if args.setsIndex then UInt16.ofNat i else 0).toNat = i := by
  unfold IndexesColumns
  cases args.setsIndex with
  | true =>
    simp only [if_true, index_of_setsIndex]
    constructor
    · intro hle i hi
      omega
    · intro hall
      by_contra hgt
      have hlast := hall 65536 (by omega)
      omega
  | false =>
    simp only [Bool.false_eq_true, if_false, UInt16.toNat_zero]
    constructor
    · intro hle i hi
      omega
    · intro hall
      by_contra hgt
      have hsecond := hall 1 (by omega)
      omega

theorem ofColumns_made_iff {t : DBTable fp} (h : t.SchemaOk) (args : InsertArgs) :
    t.OfColumns (args.made t) ↔ args.IndexesColumns t := by
  rw [indexesColumns_iff]
  constructor
  · intro hof i hi
    exact (hof.2 i _ (getElem?_made.mpr ⟨hi, rfl⟩)).2.1
  · intro hindex
    refine ⟨DBTable.length_buildFields t _, ?_⟩
    intro i f hf
    obtain ⟨hi, rfl⟩ := getElem?_made.mp hf
    have hlt : i < t.fieldTypeList.length := by
      rw [h.types]
      exact hi
    refine ⟨?_, hindex i hi, beq_iff_eq⟩
    show t.fieldTypeList[i]? = some (t.fieldTypeList.getD i 0)
    rw [List.getElem?_eq_getElem hlt, List.getD_eq_getElem _ _ hlt]

/-- Two records of one schema with the columns' attributes and the same texts have the same fields. -/
theorem made_fieldList_eq {t u : DBTable fp} (hs : DBTable.SameSchema t u) {a b : InsertArgs}
    (ha : a.IndexesColumns t) (hb : b.IndexesColumns u) (hrow : a.row t = b.row u) :
    (a.made t).fieldList = (b.made u).fieldList := by
  have hvalue : ∀ i, i < t.fieldNameList.length → a.valueAt t i = b.valueAt u i := by
    unfold row at hrow
    rw [hs.names] at hrow
    intro i hi
    exact List.map_inj_left.mp hrow i (List.mem_range.mpr hi)
  show t.buildFields _ = u.buildFields _
  unfold DBTable.buildFields
  rw [hs.names, hs.types]
  apply List.map_congr_left
  intro i hi
  rw [List.mem_range] at hi
  have hia := indexesColumns_iff.mp ha i hi
  have hib := indexesColumns_iff.mp hb i (by rw [hs.names]; exact hi)
  have hindex : (if a.setsIndex then UInt16.ofNat i else 0) = if b.setsIndex then
      UInt16.ofNat i else 0 :=
    UInt16.toNat_inj.mp (hia.trans hib.symm)
  unfold madeField
  rw [hvalue i hi, hindex, hs.key]

/-- **One record for one row.**  Records that two overloads store on tables of one
schema hold the rows the calls are given; they have the attributes of the columns, and
agree if the rows do, exactly when both calls write the right indices. -/
theorem overloads_agree_iff {t u : DBTable fp} (ht : t.SchemaOk) (hd : t.fieldNameList.Nodup)
    (hs : DBTable.SameSchema t u) {a b : InsertArgs} (ha : a.Constructs) (hb : b.Constructs)
    {r s : DBRecord} (hr : a.Stored t r) (hst : b.Stored u s) :
    r.checkDataList = a.row t ∧ s.checkDataList = b.row u ∧
      ((t.OfColumns r ∧ u.OfColumns s ∧ (a.row t = b.row u → r.fieldList = s.fieldList)) ↔
        a.IndexesColumns t ∧ b.IndexesColumns u) := by
  have hu : u.SchemaOk := ht.of_same hs
  obtain rfl := stored_eq_made ht hd ha hr
  obtain rfl := stored_eq_made hu (by rw [hs.names]; exact hd) hb hst
  refine ⟨checkDataList_made t a, checkDataList_made u b, ?_⟩
  rw [ofColumns_made_iff ht, ofColumns_made_iff hu]
  constructor
  · rintro ⟨hia, hib, -⟩
    exact ⟨hia, hib⟩
  · rintro ⟨hia, hib⟩
    exact ⟨hia, hib, made_fieldList_eq hs hia hib⟩

/-- The empty table of an `id` and a `name`. -/
def idName : DBTable .exactRational := DBTable.new [lit "id", lit "name"] [dbIntT, dbStringT] 0

theorem idName_schemaOk : idName.SchemaOk := DBTable.new_schemaOk rfl (by decide) (by decide)

/-- The row `1` by key alone and by value vector. -/
theorem overloads_agree_iff_one :
    ∃ r s, (byKey (lit "1")).Stored idName r ∧ (byList [lit "1", []]).Stored idName s ∧
      r.checkDataList = (byKey (lit "1")).row idName ∧
        s.checkDataList = (byList [lit "1", []]).row idName ∧
      ((idName.OfColumns r ∧ idName.OfColumns s ∧
          ((byKey (lit "1")).row idName = (byList [lit "1", []]).row idName →
            r.fieldList = s.fieldList)) ↔
        (byKey (lit "1")).IndexesColumns idName ∧ (byList [lit "1", []]).IndexesColumns idName) :=
  ⟨_, _, ⟨_, _, rfl, rfl⟩, ⟨_, _, rfl, rfl⟩,
    overloads_agree_iff (a := byKey (lit "1")) (b := byList [lit "1", []]) idName_schemaOk (by decide)
      (DBTable.SameSchema.refl _) trivial trivial ⟨_, _, rfl, rfl⟩ ⟨_, _, rfl, rfl⟩⟩

/-- By key alone the `name` field has the index `0`; by value vector it has the index `1`. -/
theorem overloads_differ :
    ∃ r s, (byKey (lit "1")).Stored idName r ∧ (byList [lit "1", []]).Stored idName s ∧
      (byKey (lit "1")).row idName = (byList [lit "1", []]).row idName ∧
      ¬ idName.OfColumns r ∧ r.fieldList ≠ s.fieldList := by
  refine ⟨_, _, ⟨_, _, rfl, rfl⟩, ⟨_, _, rfl, rfl⟩, rfl, ?_, by decide⟩
  rintro ⟨-, hfields⟩
  exact absurd (hfields 1 _ rfl).2.1 (by decide)

end InsertArgs

end FuServer
