import FuServer.Cache.KeyAgreement

/-!
# What each manager call does

`InsertDB`, `ModifyDB` and `QueryDB` on a table of the manager, in terms of
the table's own records.
-/

namespace FuServer

open Bytes Decimal Outcome

namespace DBTable

variable {fp : FloatUnit}

/-! ## The record an insert makes -/

/-- The key `InsertDB` inserts under: the given one, else a generated one. -/
def newKey (t : DBTable fp) (dataList : UMap Str Str) : Str :=
  (dataList.lookup t.keyName).getD t.nextKey

/-- The record `InsertDB` inserts; an empty data list goes through the key-only overload. -/
def newRecord (t : DBTable fp) (dataList : UMap Str Str) : DBRecord where
  fieldList := t.buildFields
    (if dataList.entries = [] then t.keyOnlyField (t.newKey dataList)
      else t.namedField (t.newKey dataList) dataList)

/-- `InsertDB` adds no row: the key is taken, or an empty data list got no key. -/
def Refuses (t : DBTable fp) (dataList : UMap Str Str) : Prop :=
  t.newKey dataList ∈ t.recordSet ∨ dataList.entries = [] ∧ t.newKey dataList = []

instance (t : DBTable fp) (d : UMap Str Str) : Decidable (t.Refuses d) :=
  inferInstanceAs (Decidable (_ ∨ _))

theorem newRecord_keyed {t : DBTable fp} (h : SchemaOk t) (d : UMap Str Str) :
    t.KeyedBy (t.newKey d) (t.newRecord d) := by
  unfold newRecord
  split
  · exact keyedBy_buildFields h (keyOnlyField_key h _)
  · exact keyedBy_buildFields h (namedField_key t _ d)

theorem newKey_of_empty {t : DBTable fp} {d : UMap Str Str} (hd : d.entries = []) :
    t.newKey d = t.nextKey := by
  have h0 : d = ∅ := AList.ext hd
  rw [newKey, h0, AList.lookup_empty]
  rfl

theorem insertRecord_eq_newRecord {t : DBTable fp} (h : SchemaOk t) (d : UMap Str Str) :
    t.insertRecord d = .ok (
      if t.Refuses d then (t, none)
      else (t.addRecord (t.newKey d) (t.newRecord d), some (t.newKey d))) := by
  have hrec : t.newRecord d = { fieldList := t.buildFields (
      if d.entries = [] then t.keyOnlyField (t.newKey d) else t.namedField (t.newKey d) d) } := rfl
  rw [insertRecord_eq h]
  by_cases hd : d.entries = []
  · have hk := newKey_of_empty (t := t) hd
    rw [if_pos hd, insertRecordKey_eq h, hrec, if_pos hd, hk]
    simp only [if_true]
    by_cases hr : t.Refuses d
    · rw [if_pos hr]
      by_cases h0 : t.nextKey = []
      · rw [if_pos h0]
      · have hmem : t.nextKey ∈ t.recordSet := by
          rcases hr with hm | ⟨-, h0'⟩
          · rw [← hk]; exact hm
          · exact absurd (hk ▸ h0') h0
        rw [if_neg h0, enter, if_pos hmem]
    · have h0 : t.nextKey ≠ [] := fun h0 => hr (Or.inr ⟨hd, by rw [hk, h0]⟩)
      have hmem : t.nextKey ∉ t.recordSet := fun hm => hr (Or.inl (by rw [hk]; exact hm))
      rw [if_neg hr, if_neg h0, enter, if_neg hmem]
  · rw [if_neg hd, hrec, if_neg hd]
    show Except.ok (t.enter (t.newKey d) _) = _
    by_cases hm : t.newKey d ∈ t.recordSet
    · rw [enter, if_pos hm, if_pos (show t.Refuses d from Or.inl hm)]
    · have hr : ¬ t.Refuses d := by
        rintro (hm' | ⟨h0, -⟩)
        · exact hm hm'
        · exact hd h0
      rw [enter, if_neg hm, if_neg hr]
      rfl

end DBTable

namespace DBManager

variable {fp : FloatUnit}

/-! ## Changing one table -/

def putTable (m : DBManager fp) (tname : Str) (t : DBTable fp) : DBManager fp :=
  { m with tableSet := UMap.adjust tname (fun _ => t) m.tableSet }

theorem lookup_putTable (m : DBManager fp) (tname tname' : Str) (t : DBTable fp) :
    (m.putTable tname t).tableSet.lookup tname' =
      if tname' = tname then (m.tableSet.lookup tname).map fun _ => t
      else m.tableSet.lookup tname' :=
  UMap.lookup_adjust tname tname' _ m.tableSet

theorem lookup_putTable_self {m : DBManager fp} {tname : Str} {t0 : DBTable fp}
    (hm : m.tableSet.lookup tname = some t0) (t : DBTable fp) :
    (m.putTable tname t).tableSet.lookup tname = some t := by
  rw [lookup_putTable, if_pos rfl, hm]
  rfl

theorem putTable_self {m : DBManager fp} {tname : Str} {t : DBTable fp}
    (hm : m.tableSet.lookup tname = some t) : m.putTable tname t = m := by
  have hset : UMap.adjust tname (fun _ => t) m.tableSet = m.tableSet := by
    apply UMap.adjust_eq_self
    intro v hv
    rw [hm] at hv
    cases hv
    rfl
  unfold putTable
  rw [hset]

/-! ## InsertDB and ModifyDB -/

theorem insertDB_eq {m : DBManager fp} {tname : Str} {t : DBTable fp} (hn : tname ≠ [])
    (hm : m.tableSet.lookup tname = some t) (h : t.SchemaOk) (d : UMap Str Str) :
    m.insertDB tname d = .ok (
      if t.Refuses d then (m, [])
      else (m.putTable tname (t.addRecord (t.newKey d) ((t.newRecord d).setIsInsert true)),
        t.newKey d)) := by
  unfold insertDB
  rw [if_neg hn, hm]
  dsimp only
  rw [DBTable.insertRecord_eq_newRecord h, ok_bind]
  by_cases hr : t.Refuses d
  · rw [if_pos hr, if_pos hr]
    show Except.ok (m.putTable tname t, []) = _
    rw [putTable_self hm]
  · rw [if_neg hr, if_neg hr]
    have hk : t.newKey d ∉ t.recordSet := fun hk => hr (Or.inl hk)
    -- setting the flag after the insertion is inserting the flagged record
    have hset : UMap.adjust (t.newKey d) (·.setIsInsert true)
        (t.addRecord (t.newKey d) (t.newRecord d)).recordSet =
        UMap.insertNew (t.newKey d) ((t.newRecord d).setIsInsert true) t.recordSet :=
      UMap.adjust_insertNew hk _ _
    obtain ⟨-, f, hf, hfk⟩ := DBTable.newRecord_keyed h d
    have hget : ((t.newRecord d).setIsInsert true).getField t.iPriKeyIndex = .ok f := hf
    simp only [hset, UMap.lookup_insertNew, hk, not_false_eq_true, and_self, if_true]
    show (((t.newRecord d).setIsInsert true).getField t.iPriKeyIndex >>= _) = _
    rw [hget, ok_bind, hfk]
    rfl

theorem modifyDB_eq {m : DBManager fp} {tname k : Str} {t : DBTable fp} {r : DBRecord}
    (hn : tname ≠ []) (hk : k ≠ []) (hm : m.tableSet.lookup tname = some t) (h : t.SchemaOk)
    (hr : t.recordSet.lookup k = some r) (hw : r.fieldList.length = t.fieldNameList.length)
    (d : UMap Str Str) :
    m.modifyDB tname k d =
      if ∀ c ∈ d.keys, c ∈ t.fieldNameList then
        .ok (m.putTable tname (t.putRecord k (d.entries.foldl t.assignNamed r)), true)
      else .error .outOfRange := by
  unfold modifyDB
  rw [if_neg (by rintro (h' | h'); exacts [hk h', hn h']), hm]
  dsimp only
  rw [DBTable.modifyRecord_eq h d hr hw]
  split <;> rfl

theorem modifyDB_of_notMem {m : DBManager fp} {tname k : Str} {t : DBTable fp}
    (hm : m.tableSet.lookup tname = some t) (hr : k ∉ t.recordSet) (d : UMap Str Str) :
    m.modifyDB tname k d = .ok (m, false) := by
  unfold modifyDB
  split
  · rfl
  · rw [hm]
    dsimp only
    rw [DBTable.modifyRecord_of_notMem t d hr]
    show Except.ok (m.putTable tname t, false) = _
    rw [putTable_self hm]

theorem modifyDB_of_notTable {m : DBManager fp} {tname k : Str}
    (hm : m.tableSet.lookup tname = none) (d : UMap Str Str) :
    m.modifyDB tname k d = .ok (m, false) := by
  unfold modifyDB
  rw [hm]
  split <;> rfl

end DBManager

end FuServer
