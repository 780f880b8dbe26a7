import FuServer.Lib.Outcome
import FuServer.Model.Convert

/-!
# Fields and records (DBField, DBRecord)

Vector accesses go through `vecAt` and `vecModify`, which fault outside the
vector: a fault is where the C++ program has no defined behaviour.  The size
that the command builders pass to `fu_string_format` before the format does
not take part in the expansion and is left out.
-/

namespace FuServer

open Bytes Decimal

/-! ## Faults -/

inductive Fault
  | outOfRange
  | nullString
  | nullPointer
  | readPastEnd
deriving DecidableEq, Repr

abbrev Res := Except Fault

/-- `v[index]` -/
def vecAt {α : Type} (v : List α) (index : Int) : Res α :=
  if 0 ≤ index then
    match v[index.toNat]? with
    | some a => .ok a
    | none => .error .outOfRange
  else .error .outOfRange

/-- Change `v[index]` in place. -/
def vecModify {α : Type} (v : List α) (index : Int) (f : α → α) : Res (List α) :=
  if 0 ≤ index ∧ index.toNat < v.length then .ok (v.modify index.toNat f) else .error .outOfRange

theorem vecAt_eq_ok {α : Type} {v : List α} {index : Int} {a : α} :
    vecAt v index = .ok a ↔ 0 ≤ index ∧ v[index.toNat]? = some a := by
  unfold vecAt
  split
  · next h =>
    cases hv : v[index.toNat]? with
    | none => simp
    | some b => simp [h]
  · next h => simp [h]

theorem vecAt_of_lt {α : Type} {v : List α} {index : Int} (h0 : 0 ≤ index)
    (h : index.toNat < v.length) : vecAt v index = .ok v[index.toNat] :=
  vecAt_eq_ok.mpr ⟨h0, List.getElem?_eq_getElem h⟩

theorem vecAt_natCast {α : Type} {v : List α} {i : Nat} (h : i < v.length) :
    vecAt v (i : Int) = .ok v[i] :=
  vecAt_of_lt (Int.natCast_nonneg i) h

theorem vecAt_neg {α : Type} (v : List α) {index : Int} (h : index < 0) :
    vecAt v index = .error .outOfRange := by
  unfold vecAt
  rw [if_neg (by omega)]

theorem vecModify_eq_ok {α : Type} {v w : List α} {index : Int} {f : α → α} :
    vecModify v index f = .ok w ↔
      (0 ≤ index ∧ index.toNat < v.length) ∧ w = v.modify index.toNat f := by
  unfold vecModify
  split
  · next h => simp [h, eq_comm]
  · next h => simp [h]

theorem vecModify_of_lt {α : Type} {v : List α} {index : Int} (f : α → α) (h0 : 0 ≤ index)
    (h : index.toNat < v.length) : vecModify v index f = .ok (v.modify index.toNat f) := by
  unfold vecModify
  rw [if_pos ⟨h0, h⟩]

theorem vecModify_natCast {α : Type} {v : List α} {i : Nat} (f : α → α) (h : i < v.length) :
    vecModify v (i : Int) f = .ok (v.modify i f) :=
  vecModify_of_lt f (Int.natCast_nonneg i) h

theorem vecModify_neg {α : Type} (v : List α) {index : Int} (f : α → α) (h : index < 0) :
    vecModify v index f = .error .outOfRange := by
  unfold vecModify
  rw [if_neg (by omega)]

/-! ## Text building -/

/-- `printf` expansion of a format whose only directives are `%s`. -/
def fuStringFormat : Str → List Str → Str
  | 37 :: 115 :: format, arg :: args => cstr arg ++ fuStringFormat format args
  | c :: format, args => c :: fuStringFormat format args
  | [], _ => []

theorem noNul_fuStringFormat {format : Str} (h : NoNul format) (args : List Str) :
    NoNul (fuStringFormat format args) := by
  fun_induction fuStringFormat format args with
  | case1 format arg args ih =>
    exact noNul_append.mpr ⟨noNul_cstr arg,
      ih fun c hc => h c (List.mem_cons_of_mem _ (List.mem_cons_of_mem _ hc))⟩
  | case2 c format args _ ih =>
    intro x hx
    rcases List.mem_cons.mp hx with rfl | hx
    · exact h x List.mem_cons_self
    · exact ih (fun y hy => h y (List.mem_cons_of_mem c hy)) x hx
  | case3 => nofun

/-! ## DBField -/

structure DBField where
  sData : Str := []
  usType : UInt16 := 0
  usIndex : UInt16 := 0
  bKey : Bool := false
  bNull : Bool := true
deriving DecidableEq, Repr

namespace DBField

def new (iType : UInt16) : DBField := { usType := iType }

def setIsKey (f : DBField) (flag : Bool) : DBField := { f with bKey := flag }

def setIndex (f : DBField) (index : Nat) : DBField := { f with usIndex := UInt16.ofNat index }

/-- `SetData(const std::string&)`; an empty text is a null field. -/
def setData (f : DBField) (sData : Str) : DBField := { f with sData := sData, bNull := sData == [] }

/-- `SetData(const char*, int)`; `none` is the null pointer. -/
def setDataPtr (f : DBField) : Option Str → DBField
  | none => { f with sData := [], bNull := true }
  | some pData =>
    if 0 < pData.length then { f with sData := pData, bNull := false }
    else { f with sData := [], bNull := true }

/-- `ResetData(const std::string&)` -/
def resetData (f : DBField) (sData : Str) : DBField := { f with sData := sData, bNull := sData == [] }

/-- `ResetData(DBField*)`; `same` when the argument is the field itself. -/
def resetDataField (f pField : DBField) (same : Bool) : DBField :=
  let f' := { f with
    bKey := pField.bKey, bNull := pField.bNull, usIndex := pField.usIndex,
    usType := pField.usType, sData := [] }
  -- by now the text has been cleared, the argument's too if it is this field
  if f'.bNull then f' else { f' with sData := if same then f'.sData else pField.sData }

/-- `Clone`, a new field -/
def clone (f : DBField) : DBField :=
  let pField := { new 0 with
    bKey := f.bKey, bNull := f.bNull, usIndex := f.usIndex, usType := f.usType }
  if !f.bNull then { pField with sData := f.sData } else pField

/-- `CompareWith` -/
def compareWith (fp : FloatUnit) (f pField : DBField) : Int :=
  -- both operands are the argument's text
  let dataOrder := dbCompareDataKey fp pField.sData pField.sData f.usType
  if f.usIndex ≠ pField.usIndex ∨ f.usType ≠ pField.usType ∨ f.bKey ≠ pField.bKey then -1
  else if f.bNull ≠ pField.bNull then
    if !f.bNull then -1
    -- only a null argument would be met here
    else if pField.bNull then 1
    else dataOrder
  else dataOrder

@[simp] theorem setIsKey_bKey (f : DBField) (flag : Bool) : (f.setIsKey flag).bKey = flag := rfl
@[simp] theorem setIndex_bKey (f : DBField) (i : Nat) : (f.setIndex i).bKey = f.bKey := rfl
@[simp] theorem setData_sData (f : DBField) (sData : Str) : (f.setData sData).sData = sData := rfl

/-- Reset from itself, a field ends up with no text. -/
theorem resetDataField_self (f : DBField) : (f.resetDataField f true).sData = [] := by
  simp only [resetDataField]
  split <;> rfl

end DBField

/-! ## DBRecord -/

structure DBRecord where
  fieldList : List DBField := []
  bInsert : Bool := false
  bModify : Bool := false
deriving DecidableEq, Repr

namespace DBRecord

def setIsInsert (r : DBRecord) (data : Bool) : DBRecord := { r with bInsert := data }

def setIsModify (r : DBRecord) (data : Bool) : DBRecord := { r with bModify := data }

def getField (r : DBRecord) (index : Int) : Res DBField := vecAt r.fieldList index

/-- `ResetData(DBRecord*)`; its loop variable hides the parameter, so every
field is reset from itself. -/
def resetDataRecord (r _pRecord : DBRecord) : DBRecord :=
  { r with fieldList := r.fieldList.map fun pField => pField.resetDataField pField true }

/-- `ResetData(const std::string&, int)` -/
def resetData (r : DBRecord) (sData : Str) (index : Int) : Res DBRecord := do
  let fieldList ← vecModify r.fieldList index (·.resetData sData)
  return { r with fieldList := fieldList }

/-- The texts of the fields, in order. -/
def checkDataList (r : DBRecord) : List Str := r.fieldList.map (·.sData)

@[simp] theorem setIsModify_fieldList (r : DBRecord) (b : Bool) :
    (r.setIsModify b).fieldList = r.fieldList := rfl

/-- The assignments of `CheckModifySqlCmd`, column `i` on. -/
def modifySqlItems (r : DBRecord) (keyIndex : Int) : Nat → List Str → Res Str
  | _, [] => .ok []
  | i, name :: nameList => do
    if (i : Int) ≠ keyIndex then
      let pField ← vecAt r.fieldList i
      let rest ← modifySqlItems r keyIndex (i + 1) nameList
      return fuStringFormat (lit " %s='%s' ") [name, pField.sData] ++ rest
    else modifySqlItems r keyIndex (i + 1) nameList

def checkModifySqlCmd (r : DBRecord) (tname : Str) (nameList : List Str) (keyIndex : Int) : Res Str := do
  let items ← r.modifySqlItems keyIndex 0 nameList
  let keyName ← vecAt nameList keyIndex
  let pKeyField ← vecAt r.fieldList keyIndex
  return fuStringFormat (lit "update %s set") [tname] ++ items ++
    fuStringFormat (lit "where %s='%s';") [keyName, pKeyField.sData]

/-- The column list and the value list of `ChcekInsertSqlCmd`, column `i` on. -/
def insertSqlItems (r : DBRecord) (fieldCount : Nat) : Nat → List Str → Res (Str × Str)
  | _, [] => .ok ([], [])
  | i, name :: nameList => do
    let pField ← r.getField i
    let rest ← insertSqlItems r fieldCount (i + 1) nameList
    if (i : Int) ≠ (fieldCount : Int) - 1 then
      return (fuStringFormat (lit "%s, ") [name] ++ rest.1,
        fuStringFormat (lit "'%s', ") [pField.sData] ++ rest.2)
    else
      return (fuStringFormat (lit "%s)") [name] ++ rest.1,
        fuStringFormat (lit "'%s')") [pField.sData] ++ rest.2)

def chcekInsertSqlCmd (r : DBRecord) (tname : Str) (nameList : List Str) : Res Str := do
  let items ← r.insertSqlItems nameList.length 0 nameList
  let nameStr := lit "(" ++ items.1
  let valueStr := lit "(" ++ items.2
  return fuStringFormat (lit "insert into %s%s values%s;") [tname, nameStr, valueStr]

end DBRecord

end FuServer
