import FuServer.Cache.Loading

/-!
# The commands of one table

`BackupTableCmd` collects a command for each record whose `IsInsert` or
`IsModify` flag is set.  On a well-formed table building a command never
faults; the lemmas here give the texts in closed form and say what the
collection holds afterwards.
-/

namespace FuServer

open Bytes Decimal Outcome

namespace DBRecord

/-- The text in column `i`. -/
def text (r : DBRecord) (i : Nat) : Str := (r.fieldList.getD i {}).sData

theorem vecAt_text {r : DBRecord} {i : Nat} (h : i < r.fieldList.length) :
    ∃ f, vecAt r.fieldList i = .ok f ∧ f.sData = r.text i := by
  refine ⟨r.fieldList[i], vecAt_natCast h, ?_⟩
  rw [text, List.getD_eq_getElem _ _ h]

/-- `c='v'` between blanks, for the columns that are not the key. -/
def setItems (r : DBRecord) (keyIndex : Int) (cols : List (Str × Nat)) : Str :=
  (cols.filter fun c => (c.2 : Int) != keyIndex).flatMap fun c =>
    lit " " ++ (cstr c.1 ++ (lit "='" ++ (cstr (r.text c.2) ++ lit "' ")))

theorem modifySqlItems_eq {r : DBRecord} (keyIndex : Int) (nameList : List Str) (i : Nat)
    (hw : i + nameList.length ≤ r.fieldList.length) :
    r.modifySqlItems keyIndex i nameList = .ok (r.setItems keyIndex (nameList.zipIdx i)) := by
  induction nameList generalizing i with
  | nil => rfl
  | cons name nameList ih =>
    rw [List.length_cons] at hw
    obtain ⟨f, hf, hft⟩ := vecAt_text (r := r) (i := i) (by omega)
    rw [modifySqlItems, ih (i + 1) (by omega), List.zipIdx_cons]
    by_cases hk : (i : Int) = keyIndex
    · rw [if_neg (by simpa using hk)]
      unfold setItems
      rw [List.filter_cons_of_neg (by simpa using hk)]
    · rw [if_pos hk, hf, ok_bind, ok_bind]
      unfold setItems
      rw [List.filter_cons_of_pos (by simpa using hk), List.flatMap_cons, ← hft]
      rfl

/-- The names up to the closing bracket. -/
def nameItems : List (Str × Nat) → Str
  | [] => []
  | [c] => cstr c.1 ++ lit ")"
  | c :: cols => cstr c.1 ++ lit ", " ++ nameItems cols

/-- The values up to the closing bracket. -/
def valueItems (r : DBRecord) : List (Str × Nat) → Str
  | [] => []
  | [c] => lit "'" ++ (cstr (r.text c.2) ++ lit "')")
  | c :: cols => lit "'" ++ (cstr (r.text c.2) ++ lit "', ") ++ valueItems r cols

theorem insertSqlItems_eq {r : DBRecord} {fieldCount : Nat} (nameList : List Str) (i : Nat)
    (hn : i + nameList.length = fieldCount) (hw : fieldCount ≤ r.fieldList.length) :
    r.insertSqlItems fieldCount i nameList =
      .ok (nameItems (nameList.zipIdx i), r.valueItems (nameList.zipIdx i)) := by
  induction nameList generalizing i with
  | nil => rfl
  | cons name nameList ih =>
    rw [List.length_cons] at hn
    obtain ⟨f, hf, hft⟩ := vecAt_text (r := r) (i := i) (by omega)
    rw [insertSqlItems, getField, hf, ok_bind, ih (i + 1) (by omega), ok_bind, List.zipIdx_cons]
    cases nameList with
    | nil =>
      rw [List.length_nil] at hn
      rw [if_neg (by omega), hft, List.zipIdx_nil, nameItems, valueItems, List.append_nil,
        List.append_nil]
      rfl
    | cons name' nameList =>
      rw [List.length_cons] at hn
      rw [if_pos (by omega), hft]
      rfl

/-- The record waits for write-back. -/
def pending (r : DBRecord) : Bool := r.bInsert || r.bModify

end DBRecord

namespace DBTable

variable {fp : FloatUnit}

/-- The insert command of a record. -/
def insertCmd (t : DBTable fp) (r : DBRecord) : Str :=
  let cols := t.fieldNameList.zipIdx
  lit "insert into " ++ (cstr t.sTableName ++ (cstr (lit "(" ++ DBRecord.nameItems cols) ++
    (lit " values" ++ (cstr (lit "(" ++ r.valueItems cols) ++ lit ";"))))

/-- The update command of a record. -/
def modifyCmd (t : DBTable fp) (r : DBRecord) : Str :=
  (lit "update " ++ (cstr t.sTableName ++ lit " set")) ++
    r.setItems t.iPriKeyIndex t.fieldNameList.zipIdx ++
    (lit "where " ++ (cstr t.keyName ++ (lit "='" ++ (cstr (r.text t.iPriKeyIndex.toNat) ++ lit "';"))))

/-- The command `BackupTableCmd` collects for a pending record. -/
def cmdText (t : DBTable fp) (r : DBRecord) : Str := if r.bInsert then t.insertCmd r else t.modifyCmd r

theorem checkInsertSqlCmd_eq {t : DBTable fp} {r : DBRecord}
    (hw : r.fieldList.length = t.fieldNameList.length) :
    t.checkInsertSqlCmd r = .ok (t.insertCmd r) := by
  unfold checkInsertSqlCmd DBRecord.chcekInsertSqlCmd
  rw [DBRecord.insertSqlItems_eq t.fieldNameList 0 (Nat.zero_add _) (by omega)]
  rfl

theorem checkModifySqlCmd_eq {t : DBTable fp} (h : SchemaOk t) {r : DBRecord}
    (hw : r.fieldList.length = t.fieldNameList.length) :
    t.checkModifySqlCmd r = .ok (t.modifyCmd r) := by
  have hlt : t.iPriKeyIndex.toNat < r.fieldList.length := by rw [hw]; exact h.keyHi
  have hname : vecAt t.fieldNameList t.iPriKeyIndex = .ok t.keyName := getFieldName_key h
  unfold checkModifySqlCmd DBRecord.checkModifySqlCmd
  rw [DBRecord.modifySqlItems_eq t.iPriKeyIndex t.fieldNameList 0 (by omega), ok_bind, hname, ok_bind,
    vecAt_of_lt h.keyLo hlt, ok_bind]
  unfold modifyCmd DBRecord.text
  rw [List.getD_eq_getElem _ _ hlt]
  rfl

/-- The command a record waits for, if it is pending. -/
def cmdOf (t : DBTable fp) (r : DBRecord) : Option Str := if r.pending then some (t.cmdText r) else none

/-- The command waiting under a key. -/
def cmdAt (t : DBTable fp) (k : Str) : Option Str := (t.recordSet.lookup k).bind t.cmdOf

/-! ## Collecting -/

/-- The collection after one record of the walk: its command is added if it is pending. -/
def collect (t : DBTable fp) (tname : Str) (e : Σ _ : Str, DBRecord) (cmdList : UMap RecRef Str) :
    UMap RecRef Str :=
  match t.cmdOf e.2 with
  | some cmd => UMap.insertNew (tname, e.1) cmd cmdList
  | none => cmdList

theorem lookup_collect (t : DBTable fp) (tname : Str) (e : Σ _ : Str, DBRecord)
    (cmdList : UMap RecRef Str) (ref : RecRef) :
    (t.collect tname e cmdList).lookup ref =
      (cmdList.lookup ref).or (if ref = (tname, e.1) then t.cmdOf e.2 else none) := by
  unfold collect
  cases t.cmdOf e.2 with
  | none =>
    rw [ite_self, Option.or_none]
  | some cmd =>
    dsimp only
    rw [UMap.lookup_insertNew]
    by_cases hk : ref = (tname, e.1)
    · subst hk
      rw [if_pos rfl]
      by_cases hmem : (tname, e.1) ∈ cmdList
      · obtain ⟨v, hv⟩ := UMap.exists_lookup hmem
        rw [if_neg fun h => h.2 hmem, hv]
        rfl
      · rw [if_pos ⟨rfl, hmem⟩, AList.lookup_eq_none.mpr hmem]
        rfl
    · rw [if_neg fun h => hk h.1, if_neg hk, Option.or_none]

theorem backupRecords_cons {t : DBTable fp} (h : SchemaOk t) (tname : Str)
    (e : Σ _ : Str, DBRecord) (hw : e.2.fieldList.length = t.fieldNameList.length)
    (rest : List (Σ _ : Str, DBRecord)) (cmdList : UMap RecRef Str) :
    t.backupRecords tname (e :: rest) cmdList =
      t.backupRecords tname rest (t.collect tname e cmdList) := by
  rw [backupRecords]
  unfold collect cmdOf DBRecord.pending cmdText
  cases hi : e.2.bInsert with
  | true =>
    rw [if_pos rfl, checkInsertSqlCmd_eq hw, ok_bind]
    rfl
  | false =>
    cases hm : e.2.bModify with
    | true =>
      rw [if_neg Bool.false_ne_true, if_pos rfl, checkModifySqlCmd_eq h hw, ok_bind]
      rfl
    | false => rfl

/-- The command of the first entry, or else of a later one. -/
theorem dlookup_cons_bind (t : DBTable fp) (tname : Str) {e : Σ _ : Str, DBRecord}
    {l : List (Σ _ : Str, DBRecord)} (hnot : e.1 ∉ l.keys) (ref : RecRef) :
    (if ref = (tname, e.1) then t.cmdOf e.2 else none).or
        (if ref.1 = tname then (l.dlookup ref.2).bind t.cmdOf else none) =
      if ref.1 = tname then ((e :: l).dlookup ref.2).bind t.cmdOf else none := by
  obtain ⟨tn, k⟩ := ref
  obtain ⟨k', r⟩ := e
  by_cases hk : (tn, k) = (tname, k')
  · obtain ⟨rfl, rfl⟩ := Prod.mk.inj hk
    rw [if_pos rfl, if_pos rfl, if_pos rfl, List.dlookup_eq_none.mpr hnot, List.dlookup_cons_eq,
      Option.bind_none, Option.or_none, Option.bind_some]
  · rw [if_neg hk, Option.none_or]
    by_cases h1 : tn = tname
    · have hne : k ≠ k' := fun h2 => hk (by rw [h1, h2])
      have hrest : List.dlookup k (⟨k', r⟩ :: l) = List.dlookup k l :=
        List.dlookup_cons_ne l (⟨k', r⟩ : Σ _ : Str, DBRecord) hne
      rw [if_pos h1, if_pos h1, hrest]
    · rw [if_neg h1, if_neg h1]

theorem backupRecords_eq {t : DBTable fp} (h : SchemaOk t) (tname : Str)
    (l : List (Σ _ : Str, DBRecord)) (hnd : l.NodupKeys)
    (hw : ∀ e ∈ l, e.2.fieldList.length = t.fieldNameList.length) (cmdList : UMap RecRef Str) :
    ∃ cmdList', t.backupRecords tname l cmdList = .ok cmdList' ∧ ∀ ref,
      cmdList'.lookup ref = (cmdList.lookup ref).or (
        if ref.1 = tname then (l.dlookup ref.2).bind t.cmdOf else none) := by
  induction l generalizing cmdList with
  | nil =>
    refine ⟨cmdList, rfl, fun ref => ?_⟩
    simp
  | cons e l ih =>
    obtain ⟨hnot, hnd'⟩ := List.nodupKeys_cons.mp hnd
    obtain ⟨cmdList', hok, hlook⟩ :=
      ih hnd' (fun e' he' => hw e' (List.mem_cons_of_mem _ he')) (t.collect tname e cmdList)
    refine ⟨cmdList', ?_, fun ref => ?_⟩
    · rw [backupRecords_cons h tname e (hw e List.mem_cons_self)]
      exact hok
    · rw [hlook ref, lookup_collect, Option.or_assoc, dlookup_cons_bind t tname hnot]

/-- After `BackupTableCmd` the collection has the commands of the table's
pending records besides what it had. -/
theorem backupTableCmd_eq {t : DBTable fp} (h : t.WellFormed) (ord : HashOrder) (tname : Str)
    (cmdList : UMap RecRef Str) :
    ∃ cmdList', t.backupTableCmd ord tname cmdList = .ok cmdList' ∧ ∀ ref,
      cmdList'.lookup ref =
        (cmdList.lookup ref).or (if ref.1 = tname then t.cmdAt ref.2 else none) := by
  have hw : ∀ e ∈ ord.order t.recordSet.entries, e.2.fieldList.length = t.fieldNameList.length :=
    fun e he => h.width (UMap.mem_entries.mp (ord.mem_order.mp he))
  obtain ⟨cmdList', hok, hlook⟩ := backupRecords_eq h.schema tname _
    (UMap.nodupKeys_order ord t.recordSet) hw cmdList
  refine ⟨cmdList', hok, fun ref => ?_⟩
  rw [hlook ref, UMap.dlookup_order]
  rfl

/-- Into an empty collection: under a record's key its command. -/
theorem backupTableCmd_at {t : DBTable fp} (h : t.WellFormed) (ord : HashOrder) (tname k : Str) :
    ∃ cmdList, t.backupTableCmd ord tname ∅ = .ok cmdList ∧ cmdList.lookup (tname, k) = t.cmdAt k := by
  obtain ⟨cmdList, hok, hlook⟩ := backupTableCmd_eq h ord tname ∅
  refine ⟨cmdList, hok, ?_⟩
  rw [hlook, if_pos rfl, AList.lookup_empty, Option.none_or]

/-- No backup command is a `use` statement. -/
theorem useOperand_cmdText (t : DBTable fp) (r : DBRecord) : useOperand (cstr (t.cmdText r)) = none := by
  unfold cmdText
  split
  · rfl
  · rfl

end DBTable

end FuServer
