import FuServer.Lib.HashMap
import FuServer.Model.Record

/-!
# Tables (DBTable)

A `DBRecord*` is the key of the table entry that owns the record: the entry's
value is the record, and no operation moves it.  Each call is one step; the
lock around the mutations is not a separate event.
-/

namespace FuServer

open Bytes Decimal

structure DBTable (fp : FloatUnit) where
  recordSet : UMap Str DBRecord
  fieldIndexList : UMap Str Int
  fieldNameList : List Str
  fieldTypeList : List UInt16
  sMinKey : Str
  sMaxKey : Str
  sTableName : Str
  sDBName : Str
  iPriKeyIndex : Int
  fBackupTime : fp.Flt
  bAutoIncrement : Bool

/-- The owner of a record: the table's name in the manager and the record's key. -/
abbrev RecRef := Str × Str

namespace DBTable

variable {fp : FloatUnit}

/-! ## Construction and columns -/

/-- `m_FieldIndexList` after the constructor's loop from column `i` on. -/
def indexNames : Nat → List Str → UMap Str Int → UMap Str Int
  | _, [], m => m
  | i, name :: nameList, m => indexNames (i + 1) nameList (UMap.insertNew name (i : Int) m)

/-- The constructor; the two lists have one length, it takes as many types as names. -/
def new (nameList : List Str) (typeList : List UInt16) (iKeyIndex : Int) : DBTable fp where
  recordSet := ∅
  fieldIndexList := indexNames 0 nameList ∅
  fieldNameList := nameList
  fieldTypeList := typeList.take nameList.length
  sMinKey := []
  sMaxKey := []
  sTableName := []
  sDBName := []
  iPriKeyIndex := iKeyIndex
  fBackupTime := fp.fltOfNat 0
  bAutoIncrement := false

def getFieldIndex (t : DBTable fp) (fieldName : Str) : Int :=
  match t.fieldIndexList.lookup fieldName with
  | some index => index
  | none => -1

def getFieldType (t : DBTable fp) (index : Int) : Res UInt16 := vecAt t.fieldTypeList index

def getFieldName (t : DBTable fp) (index : Int) : Res Str := vecAt t.fieldNameList index

/-! ## Keys -/

def checkIncrementField (t : DBTable fp) (dataKey : Str) : Res (DBTable fp) := do
  let sMinKey := if t.sMinKey = [] then dataKey else t.sMinKey
  let sMaxKey := if t.sMaxKey = [] then dataKey else t.sMaxKey
  let iType ← t.getFieldType t.iPriKeyIndex
  return { t with
    sMinKey := if dbCompareDataKey fp dataKey sMinKey iType < 0 then dataKey else sMinKey
    sMaxKey := if dbCompareDataKey fp dataKey sMaxKey iType > 0 then dataKey else sMaxKey }

def priKeyIncrement (t : DBTable fp) : Res Str := do
  let priKeyType ← t.getFieldType t.iPriKeyIndex
  if isIntegerType priKeyType || priKeyType == dbStringT then
    return fuStrIncrement 1 t.sMaxKey
  else if priKeyType == dbFloatT then
    -- a comma expression: the length of the key is what is converted
    return fp.fltFormat (fp.fltAdd (fp.fltOfNat t.sMaxKey.length) (fp.fltOfNat 1))
  else if priKeyType == dbDoubleT then
    return fp.dblFormat (fp.dblAdd (fuStrToDouble fp t.sMaxKey) (fp.dblOfNat 1))
  else return []

/-- The key the caller gives, else the next one. -/
def givenKey (t : DBTable fp) : Option Str → Res Str
  | some data => pure data
  | none => t.priKeyIncrement

def insertSet (t : DBTable fp) (dataKey : Str) (pRecord : DBRecord) : Res (DBTable fp) :=
  { t with recordSet := UMap.insertNew dataKey pRecord t.recordSet }.checkIncrementField dataKey

def findSet (t : DBTable fp) (dataKey : Str) : Option DBRecord := t.recordSet.lookup dataKey

/-! ## Insertion

The result names the new record by its key; `none` is `NULL`. -/

/-- The fields of a new record, built column by column. -/
def newFields (t : DBTable fp) (field : Nat → UInt16 → Res DBField) : Res (List DBField) :=
  (List.range t.fieldNameList.length).mapM fun (i : Nat) => do
    let iType ← t.getFieldType i
    field i iType

/-- `InsertRecord(std::string)` -/
def insertRecordKey (t : DBTable fp) (key : Str) : Res (DBTable fp × Option Str) := do
  let dataKey ← t.givenKey (if key = [] then none else some key)
  if dataKey = [] then return (t, none)
  if (t.findSet dataKey).isSome then return (t, none)
  let fieldList ← t.newFields fun i iType => do
    let pField := (DBField.new iType).setIsKey ((i : Int) == t.iPriKeyIndex)
    return if pField.bKey then pField.setData dataKey else pField
  let t' ← t.insertSet dataKey { fieldList := fieldList }
  return (t', some dataKey)

/-- `InsertRecord(DBRecord*)` -/
def insertRecordPtr (t : DBTable fp) (pRecord : DBRecord) : Res (DBTable fp × Option Str) := do
  let pKeyField ← pRecord.getField t.iPriKeyIndex
  if pKeyField.bNull || (t.findSet pKeyField.sData).isSome then return (t, none)
  let t' ← t.insertSet pKeyField.sData pRecord
  return (t', some pKeyField.sData)

/-- `InsertRecord(const std::unordered_map<std::string, std::string>&)` -/
def insertRecord (t : DBTable fp) (dataList : UMap Str Str) : Res (DBTable fp × Option Str) := do
  if dataList.entries = [] then t.insertRecordKey []
  else
    let keyName ← t.getFieldName t.iPriKeyIndex
    let dataKey ← t.givenKey (dataList.lookup keyName)
    if (t.findSet dataKey).isSome then return (t, none)
    let fieldList ← t.newFields fun i iType => do
      let fieldName ← t.getFieldName i
      let pField := ((DBField.new iType).setIsKey (fieldName == keyName)).setIndex i
      if pField.bKey then return pField.setData dataKey
      else match dataList.lookup fieldName with
        | some data => return pField.setData data
        | none => return pField
    let t' ← t.insertSet dataKey { fieldList := fieldList }
    return (t', some dataKey)

/-- `InsertRecord(const std::vector<std::string>&)` -/
def insertRecordList (t : DBTable fp) (dataList : List Str) : Res (DBTable fp × Option Str) := do
  if t.fieldNameList.length ≠ dataList.length then return (t, none)
  let dataKey ← vecAt dataList t.iPriKeyIndex
  if (t.findSet dataKey).isSome then return (t, none)
  let fieldList ← t.newFields fun i iType => do
    let data ← vecAt dataList i
    return (((DBField.new iType).setIsKey ((i : Int) == t.iPriKeyIndex)).setIndex i).setData data
  let t' ← t.insertSet dataKey { fieldList := fieldList }
  return (t', some dataKey)

/-- `InsertRecord(const std::unordered_map<int, std::string>&)` -/
def insertRecordIndexed (t : DBTable fp) (dataList : UMap Int Str) : Res (DBTable fp × Option Str) := do
  let dataKey ← t.givenKey (dataList.lookup t.iPriKeyIndex)
  if (t.findSet dataKey).isSome then return (t, none)
  let fieldList ← t.newFields fun i iType => do
    let pField := ((DBField.new iType).setIsKey ((i : Int) == t.iPriKeyIndex)).setIndex i
    if pField.bKey then return pField.setData dataKey
    else match dataList.lookup (i : Int) with
      | some data => return pField.setData data
      | none => return pField
  let t' ← t.insertSet dataKey { fieldList := fieldList }
  return (t', some dataKey)

/-! ## Query -/

/-- What a query asks of the column: an exact key, a lower and an upper bound, each unless empty. -/
structure Bounds where
  dataEquKey : Str
  dataMinkey : Str
  dataMaxkey : Str
deriving DecidableEq, Repr

/-- The two insert flags of one round of the scan; `same` when both iterators are on one record. -/
def scanFlags (fp : FloatUnit) (b : Bounds) (pField01 pField02 : DBField) (same : Bool) : Bool × Bool :=
  let cmp01 := fun key => dbCompareDataKey fp pField01.sData key pField01.usType
  let cmp02 := fun key => dbCompareDataKey fp pField02.sData key pField02.usType
  if b.dataEquKey ≠ [] then
    (cmp01 b.dataEquKey == 0, !same && cmp02 b.dataEquKey == 0)
  else if b.dataMinkey ≠ [] ∧ b.dataMaxkey ≠ [] then
    (decide (cmp01 b.dataMinkey ≥ 0 ∧ cmp01 b.dataMaxkey ≤ 0),
      !same && decide (cmp02 b.dataMinkey ≥ 0 ∧ cmp02 b.dataMaxkey ≤ 0))
  else
    let low := if b.dataMinkey ≠ [] then
        (decide (cmp01 b.dataMinkey ≥ 0), !same && decide (cmp02 b.dataMinkey ≥ 0))
      else (false, false)
    if !same && b.dataMaxkey != [] then
      (low.1 || decide (cmp01 b.dataMaxkey ≤ 0), low.2 || decide (cmp02 b.dataMaxkey ≤ 0))
    else low

/-- The scan from both ends, one round for each `beginIndex`; `fuel` bounds the rounds. -/
def scanLoop (fp : FloatUnit) (fieldIndex : Int) (b : Bounds) (records : List DBRecord) :
    Nat → Nat → Nat → Bool × List (List Str) → Res (Bool × List (List Str))
  | 0, _, _, found => .ok found
  | fuel + 1, beginIndex, endIndex, (temp, recordList) => do
    let iter01 ← vecAt records beginIndex
    let iter02 ← vecAt records (endIndex - 1 : Int)
    let same := beginIndex + 1 == endIndex
    let pField01 ← iter01.getField fieldIndex
    let pField02 ← iter02.getField fieldIndex
    let flags := scanFlags fp b pField01 pField02 same
    let found01 := if flags.1 then (true, recordList ++ [iter01.checkDataList]) else (temp, recordList)
    let found02 :=
      if !same && flags.2 then (true, found01.2 ++ [iter02.checkDataList]) else found01
    if beginIndex + 1 < endIndex - 1 then
      scanLoop fp fieldIndex b records fuel (beginIndex + 1) (endIndex - 1) found02
    else return found02

def queryRecord (t : DBTable fp) (ord : HashOrder) (fieldName : Str) (b : Bounds)
    (recordList : List (List Str)) : Res (Bool × List (List Str)) :=
  let fieldIndex := t.getFieldIndex fieldName
  if fieldIndex = t.iPriKeyIndex ∧ b.dataEquKey ≠ [] then
    match t.recordSet.lookup b.dataEquKey with
    | some record => .ok (true, recordList ++ [record.checkDataList])
    | none => .ok (false, recordList)
  else if t.recordSet.entries.length > 0 then
    let records := (ord.order t.recordSet.entries).map (·.2)
    scanLoop fp fieldIndex b records records.length 0 records.length (false, recordList)
  else .ok (false, recordList)

/-! ## Modification -/

/-- `ModifyRecord(DBRecord*)` -/
def modifyRecordPtr (t : DBTable fp) (pRecord : DBRecord) : Res (DBTable fp × Option Str) := do
  let pKeyField ← pRecord.getField t.iPriKeyIndex
  if pKeyField.bNull then return (t, none)
  match t.recordSet.lookup pKeyField.sData with
  | none => return (t, none)
  | some record =>
    let record' := (record.resetDataRecord pRecord).setIsModify true
    return ({ t with recordSet := UMap.adjust pKeyField.sData (fun _ => record') t.recordSet },
      some pKeyField.sData)

/-- `ModifyRecord(const std::string&, int, const std::string&)` -/
def modifyRecordAt (t : DBTable fp) (dataKey : Str) (index : Int) (sData : Str) :
    Res (DBTable fp × Option Str) :=
  match t.recordSet.lookup dataKey with
  | some record => do
    let record' ← record.resetData sData index
    return ({ t with recordSet := UMap.adjust dataKey (fun _ => record'.setIsModify true) t.recordSet },
      some dataKey)
  | none => return (t, none)

/-- `ModifyRecord(const std::string&, const std::string&, const std::string&)` -/
def modifyRecordNamed (t : DBTable fp) (dataKey fieldName sData : Str) : Res (DBTable fp × Option Str) :=
  t.modifyRecordAt dataKey (t.getFieldIndex fieldName) sData

/-- The assignments of a name map to one record. -/
def assignFields (t : DBTable fp) : List (Σ _ : Str, Str) → DBRecord → Res DBRecord
  | [], pRecord => .ok pRecord
  | toIter :: dataList, pRecord =>
    let index := t.getFieldIndex toIter.1
    if index ≠ t.iPriKeyIndex then do
      let pRecord ← pRecord.resetData toIter.2 index
      t.assignFields dataList (pRecord.setIsModify true)
    else t.assignFields dataList pRecord

/-- `ModifyRecord(const std::string&, const std::unordered_map<std::string, std::string>&)` -/
def modifyRecord (t : DBTable fp) (dataKey : Str) (dataList : UMap Str Str) :
    Res (DBTable fp × Option Str) :=
  match t.recordSet.lookup dataKey with
  | none => return (t, none)
  | some record => do
    let record' ← t.assignFields dataList.entries record
    return ({ t with recordSet := UMap.adjust dataKey (fun _ => record') t.recordSet }, some dataKey)

/-! ## Backup -/

def checkInsertSqlCmd (t : DBTable fp) (pRecord : DBRecord) : Res Str :=
  pRecord.chcekInsertSqlCmd t.sTableName t.fieldNameList

def checkModifySqlCmd (t : DBTable fp) (pRecord : DBRecord) : Res Str :=
  pRecord.checkModifySqlCmd t.sTableName t.fieldNameList t.iPriKeyIndex

/-- The commands of the records met on the walk; `tname` is the table's name in the manager. -/
def backupRecords (t : DBTable fp) (tname : Str) :
    List (Σ _ : Str, DBRecord) → UMap RecRef Str → Res (UMap RecRef Str)
  | [], cmdList => .ok cmdList
  | iter :: rest, cmdList => do
    if iter.2.bInsert then
      let cmd ← t.checkInsertSqlCmd iter.2
      t.backupRecords tname rest (UMap.insertNew (tname, iter.1) cmd cmdList)
    else if iter.2.bModify then
      let cmd ← t.checkModifySqlCmd iter.2
      t.backupRecords tname rest (UMap.insertNew (tname, iter.1) cmd cmdList)
    else t.backupRecords tname rest cmdList

def backupTableCmd (t : DBTable fp) (ord : HashOrder) (tname : Str) (cmdList : UMap RecRef Str) :
    Res (UMap RecRef Str) :=
  t.backupRecords tname (ord.order t.recordSet.entries) cmdList

end DBTable

end FuServer
