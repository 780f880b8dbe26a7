import FuServer.Cache.TableSpec

/-!
# Replacing a record (`ModifyRecord(DBRecord*)`)

The call looks the record up by the argument's key field and hands the argument
to `DBRecord::ResetData`, where the loop variable hides it: every field of the
stored record is reset from itself and ends up without its text.

    modifyRecordPtr t p = ok (t', …) ∧ Replaced t t' k p ↔ SameAfterReset old p f   (modifyRecordPtr_replaces_iff)
-/

namespace FuServer

open Bytes Outcome

/-- The field with no text; its type, index and flags stay. -/
def DBField.cleared (f : DBField) : DBField := { f with sData := [] }

/-- What resetting a field from itself leaves. -/
theorem DBField.resetDataField_same (f : DBField) : f.resetDataField f true = f.cleared := by
  unfold DBField.resetDataField
  dsimp only
  split
  · rfl
  · rfl

/-- What is given to the inner `ResetData` does not matter. -/
theorem DBRecord.resetDataRecord_fieldList (r p : DBRecord) :
    (r.resetDataRecord p).fieldList = r.fieldList.map DBField.cleared := by
  show r.fieldList.map (fun pField => pField.resetDataField pField true) = _
  apply List.map_congr_left
  intro f _
  exact f.resetDataField_same

namespace DBTable

variable {fp : FloatUnit}

/-- The record under `k` has the fields of `p` and waits for write-back; no other has changed. -/
structure Replaced (t t' : DBTable fp) (k : Str) (p : DBRecord) : Prop where
  stored : ∃ r, t'.recordSet.lookup k = some r ∧ r.fieldList = p.fieldList ∧ r.bModify = true
  others : ∀ k', k' ≠ k → t'.recordSet.lookup k' = t.recordSet.lookup k'

/-- Nothing had to be copied: either the call is refused for a null key field and
`old` has the fields of `p` already, or `p` has an empty key and no texts, and its
other attributes are those of `old`. -/
def SameAfterReset (old p : DBRecord) (f : DBField) : Prop :=
  f.bNull = true ∧ old.fieldList = p.fieldList ∧ old.bModify = true ∨
    f.bNull = false ∧ f.sData = [] ∧ old.fieldList.map DBField.cleared = p.fieldList

instance (old p : DBRecord) (f : DBField) : Decidable (SameAfterReset old p f) := by
  unfold SameAfterReset
  infer_instance

theorem replaced_self {t : DBTable fp} {k : Str} {old p : DBRecord}
    (hold : t.recordSet.lookup k = some old) :
    Replaced t t k p ↔ old.fieldList = p.fieldList ∧ old.bModify = true := by
  constructor
  · intro h
    obtain ⟨r, hr, hfields⟩ := h.stored
    obtain rfl : old = r := Option.some.inj (hold.symm.trans hr)
    exact hfields
  · intro h
    exact ⟨⟨old, hold, h⟩, fun _ _ => rfl⟩

theorem replaced_putRecord {t : DBTable fp} {k : Str} {old p r : DBRecord}
    (hold : t.recordSet.lookup k = some old) :
    Replaced t (t.putRecord k r) k p ↔ r.fieldList = p.fieldList ∧ r.bModify = true := by
  have hlook : (t.putRecord k r).recordSet.lookup k = some r := by
    rw [lookup_putRecord, if_pos rfl, hold]
    rfl
  constructor
  · intro h
    obtain ⟨r', hr', hfields⟩ := h.stored
    obtain rfl : r = r' := Option.some.inj (hlook.symm.trans hr')
    exact hfields
  · intro h
    refine ⟨⟨r, hlook, h⟩, ?_⟩
    intro k' hne
    rw [lookup_putRecord, if_neg hne]

/-- **Replacing.**  `ModifyRecord(p)` for a record that is there stores the fields of
`p` only where the reset loses nothing; under a key with text it never does, unless
the key field is marked null and the call does nothing. -/
theorem modifyRecordPtr_replaces_iff {t : DBTable fp} {k : Str} {old p : DBRecord} {f : DBField}
    (hold : t.recordSet.lookup k = some old) (hf : p.getField t.iPriKeyIndex = .ok f)
    (hk : f.sData = k) :
    Returns (t.modifyRecordPtr p) (fun r => Replaced t r.1 k p) ↔ SameAfterReset old p f := by
  subst hk
  rw [modifyRecordPtr_eq t hf, returns_ok, hold]
  unfold SameAfterReset
  cases hnull : f.bNull with
  | true =>
    rw [if_pos rfl, replaced_self hold]
    simp
  | false =>
    rw [if_neg Bool.false_ne_true]
    dsimp only
    rw [replaced_putRecord hold, DBRecord.setIsModify_fieldList, DBRecord.resetDataRecord_fieldList]
    constructor
    · rintro ⟨hfields, -⟩
      refine Or.inr ⟨rfl, ?_, hfields⟩
      -- the key field of `p` is one of the cleared fields
      have hmem : f ∈ p.fieldList := List.mem_of_getElem? (vecAt_eq_ok.mp hf).2
      rw [← hfields] at hmem
      obtain ⟨g, -, rfl⟩ := List.mem_map.mp hmem
      rfl
    · rintro (⟨h, -⟩ | ⟨-, -, hfields⟩)
      · cases h
      · exact ⟨hfields, rfl⟩

/-- A record `1, a` of a table keyed by its first column. -/
def oneNamed : DBTable .exactRational :=
  ((new [lit "id", lit "name"] [dbIntT, dbStringT] 0 : DBTable .exactRational).addRecord (lit "1")
    { fieldList :=
        [(((DBField.new dbIntT).setIsKey true).setIndex 0).setData (lit "1"),
          ((DBField.new dbStringT).setIndex 1).setData (lit "a")] })

/-- The record to put in its place. -/
def renamed : DBRecord where
  fieldList :=
    [(((DBField.new dbIntT).setIsKey true).setIndex 0).setData (lit "1"),
      ((DBField.new dbStringT).setIndex 1).setData (lit "b")]

theorem modifyRecordPtr_replaces_iff_renamed :
    ∃ old f, oneNamed.recordSet.lookup (lit "1") = some old ∧ renamed.getField 0 = .ok f ∧
      (Returns (oneNamed.modifyRecordPtr renamed) (fun r => Replaced oneNamed r.1 (lit "1") renamed) ↔
        SameAfterReset old renamed f) :=
  ⟨_, _, rfl, rfl, modifyRecordPtr_replaces_iff rfl rfl rfl⟩

/-- Given the name `b`, the record loses its key and its name. -/
theorem modifyRecordPtr_clears :
    ¬ Returns (oneNamed.modifyRecordPtr renamed) (fun r => Replaced oneNamed r.1 (lit "1") renamed) ∧
      Returns (oneNamed.modifyRecordPtr renamed) fun r =>
        (r.1.recordSet.lookup (lit "1")).map DBRecord.checkDataList = some [[], []] := by
  constructor
  · rintro ⟨r, hr, h⟩
    obtain ⟨s, hs, hfields, -⟩ := h.stored
    cases hr
    cases hs
    exact absurd hfields (by decide)
  · decide

end DBTable

end FuServer
