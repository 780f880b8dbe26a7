import FuServer.Lib.Codec
import FuServer.Lib.HashMap
import FuServer.Model.Record

/-!
# Messages on the wire (UtilsSerialize, DBProtocol)

An `int` is four bytes, low byte first; a string is its bytes and a NUL.
`Output` reads from `c_str()`, so the NUL after the last byte may be read too,
and a read past it faults.
-/

namespace FuServer

open Bytes Codec

/-! ## UtilsSerialize -/

structure UtilsSerialize where
  dataString : Str := []
  iterator : Nat := 0
deriving DecidableEq

/-- The four bytes of an `int`. -/
def intBytes (toData : Int32) : Str :=
  let n := toData.toUInt32.toNat
  [UInt8.ofNat n, UInt8.ofNat (n / 256), UInt8.ofNat (n / 65536), UInt8.ofNat (n / 16777216)]

def intOfBytes (b0 b1 b2 b3 : UInt8) : Int32 :=
  (UInt32.ofNat (b0.toNat + 256 * b1.toNat + 65536 * b2.toNat + 16777216 * b3.toNat)).toInt32

/-- A reader moves the iterator. -/
abbrev Out := StateT UtilsSerialize Res

namespace UtilsSerialize

def inputInt (d : UtilsSerialize) (toData : Int32) : UtilsSerialize :=
  { d with dataString := d.dataString ++ intBytes toData }

def inputString (d : UtilsSerialize) (toData : Str) : UtilsSerialize :=
  { d with dataString := d.dataString ++ (toData ++ [0]) }

def outputInt : Out Int32 := fun d =>
  match (d.dataString ++ [0]).drop d.iterator with
  | b0 :: b1 :: b2 :: b3 :: _ => .ok (intOfBytes b0 b1 b2 b3, { d with iterator := d.iterator + 4 })
  | _ => .error .readPastEnd

def outputString : Out Str := fun d =>
  if d.iterator ≤ d.dataString.length then
    let toData := cstr (d.dataString.drop d.iterator)
    .ok (toData, { d with iterator := d.iterator + (toData.length + 1) })
  else .error .readPastEnd

end UtilsSerialize

open UtilsSerialize

/-! ## Containers

A container is written with its size before it, as an `int`; the reader's loop
counts an `int` up to that size. -/

def inputSize (size : Nat) (d : UtilsSerialize) : UtilsSerialize := d.inputInt (Int32.ofNat size)

/-- `for (int i = 0; i < size; i++)` -/
def forTo {α : Type} (size : Int32) (body : α → Out α) : α → Out α := times body size.toNatClampNeg

/-- Read a string and `push_back` it. -/
def pushString (nameList : List Str) : Out (List Str) := do
  let toName ← outputString
  return nameList ++ [toName]

/-- Read two strings and `insert` them. -/
def insertPair (dataList : UMap Str Str) : Out (UMap Str Str) := do
  let firstStr ← outputString
  let secondStr ← outputString
  return UMap.insertNew firstStr secondStr dataList

/-- `for (auto& name : nameList)` -/
def inputStrings (nameList : List Str) (d : UtilsSerialize) : UtilsSerialize :=
  nameList.foldl inputString d

/-- `for (auto& iter : dataList)` -/
def inputPairs (ord : HashOrder) (dataList : UMap Str Str) (d : UtilsSerialize) : UtilsSerialize :=
  (ord.order dataList.entries).foldl (fun d iter => (d.inputString iter.1).inputString iter.2) d

/-! ## DBProtocol -/

def unserializeDbProtid : Out Int32 := outputInt

def serializeDbProtid (protId : Int32) (dSerialize : UtilsSerialize) : UtilsSerialize :=
  dSerialize.inputInt protId

structure DbProtError where
  protId : Int32
  code : Int32
deriving DecidableEq

def unserializeProtError (dStruct : DbProtError) : Out DbProtError := do
  let protId ← outputInt
  let code ← outputInt
  return { dStruct with protId := protId, code := code }

def serializeProtError (dStruct : DbProtError) (dSerialize : UtilsSerialize) : UtilsSerialize :=
  serializeDbProtid dStruct.protId dSerialize
    |>.inputInt dStruct.protId
    |>.inputInt dStruct.code

/-! ### Loading a table -/

structure DbScLoadtable where
  protId : Int32
deriving DecidableEq

structure DbCsLoadtable where
  protId : Int32
  dbname : Str := []
  tname : Str := []
deriving DecidableEq

def unserializeProtScLoadtable (dStruct : DbScLoadtable) : Out DbScLoadtable := do
  let protId ← outputInt
  return { dStruct with protId := protId }

def unserializeProtCsLoadtable (dStruct : DbCsLoadtable) : Out DbCsLoadtable := do
  let protId ← outputInt
  let dbname ← outputString
  let tname ← outputString
  return { dStruct with protId := protId, dbname := dbname, tname := tname }

def serializeProtScLoadtable (dStruct : DbScLoadtable) (dSerialize : UtilsSerialize) :
    UtilsSerialize :=
  serializeDbProtid dStruct.protId dSerialize
    |>.inputInt dStruct.protId

def serializeProtCsLoadtable (dStruct : DbCsLoadtable) (dSerialize : UtilsSerialize) :
    UtilsSerialize :=
  serializeDbProtid dStruct.protId dSerialize
    |>.inputInt dStruct.protId
    |>.inputString dStruct.dbname
    |>.inputString dStruct.tname

/-! ### Query -/

structure DbScQuery where
  protId : Int32
  fieldNameList : List Str := []
  recordList : List (List Str) := []
deriving DecidableEq

structure DbCsQuery where
  protId : Int32
  tname : Str := []
  fieldName : Str := []
  dataEquKey : Str := []
  dataMinKey : Str := []
  dataMaxKey : Str := []
deriving DecidableEq

/-- Read one record and `push_back` it. -/
def pushRecord (recordList : List (List Str)) : Out (List (List Str)) := do
  let fieldSize ← outputInt
  let fieldList ← forTo fieldSize pushString []
  return recordList ++ [fieldList]

def unserializeProtScQuery (dStruct : DbScQuery) : Out DbScQuery := do
  let protId ← outputInt
  let nameSize ← outputInt
  let fieldNameList ← forTo nameSize pushString dStruct.fieldNameList
  let recordSize ← outputInt
  let recordList ← forTo recordSize pushRecord dStruct.recordList
  return { dStruct with protId := protId, fieldNameList := fieldNameList, recordList := recordList }

def unserializeProtCsQuery (dStruct : DbCsQuery) : Out DbCsQuery := do
  let protId ← outputInt
  let tname ← outputString
  let fieldName ← outputString
  let dataEquKey ← outputString
  let dataMinKey ← outputString
  let dataMaxKey ← outputString
  return { dStruct with
    protId := protId, tname := tname, fieldName := fieldName,
    dataEquKey := dataEquKey, dataMinKey := dataMinKey, dataMaxKey := dataMaxKey }

def inputRecord (d : UtilsSerialize) (fieldList : List Str) : UtilsSerialize :=
  inputStrings fieldList (inputSize fieldList.length d)

def serializeProtScQuery (dStruct : DbScQuery) (dSerialize : UtilsSerialize) : UtilsSerialize :=
  let dSerialize := serializeDbProtid dStruct.protId dSerialize
  let dSerialize := dSerialize.inputInt dStruct.protId
  let dSerialize := inputSize dStruct.fieldNameList.length dSerialize
  let dSerialize := inputStrings dStruct.fieldNameList dSerialize
  let dSerialize := inputSize dStruct.recordList.length dSerialize
  dStruct.recordList.foldl inputRecord dSerialize

def serializeProtCsQuery (dStruct : DbCsQuery) (dSerialize : UtilsSerialize) : UtilsSerialize :=
  serializeDbProtid dStruct.protId dSerialize
    |>.inputInt dStruct.protId
    |>.inputString dStruct.tname
    |>.inputString dStruct.fieldName
    |>.inputString dStruct.dataEquKey
    |>.inputString dStruct.dataMinKey
    |>.inputString dStruct.dataMaxKey

/-! ### Modification -/

structure DbScModify where
  protId : Int32
deriving DecidableEq

structure DbCsModify where
  protId : Int32
  tname : Str := []
  dataKey : Str := []
  dataList : UMap Str Str := ∅

def unserializeProtScModify (dStruct : DbScModify) : Out DbScModify := do
  let protId ← outputInt
  return { dStruct with protId := protId }

def unserializeProtCsModify (dStruct : DbCsModify) : Out DbCsModify := do
  let protId ← outputInt
  let tname ← outputString
  let dataKey ← outputString
  let fieldSize ← outputInt
  let dataList ← forTo fieldSize insertPair dStruct.dataList
  return { dStruct with protId := protId, tname := tname, dataKey := dataKey, dataList := dataList }

def serializeProtScModify (dStruct : DbScModify) (dSerialize : UtilsSerialize) : UtilsSerialize :=
  serializeDbProtid dStruct.protId dSerialize
    |>.inputInt dStruct.protId

def serializeProtCsModify (ord : HashOrder) (dStruct : DbCsModify) (dSerialize : UtilsSerialize) :
    UtilsSerialize :=
  let dSerialize := serializeDbProtid dStruct.protId dSerialize
  let dSerialize := dSerialize.inputInt dStruct.protId
  let dSerialize := dSerialize.inputString dStruct.tname
  let dSerialize := dSerialize.inputString dStruct.dataKey
  let dSerialize := inputSize dStruct.dataList.entries.length dSerialize
  inputPairs ord dStruct.dataList dSerialize

/-! ### Insertion -/

structure DbScInsert where
  protId : Int32
  dataKey : Str := []
deriving DecidableEq

structure DbCsInsert where
  protId : Int32
  tname : Str := []
  dataList : UMap Str Str := ∅

def unserializeProtScInsert (dStruct : DbScInsert) : Out DbScInsert := do
  let protId ← outputInt
  let dataKey ← outputString
  return { dStruct with protId := protId, dataKey := dataKey }

def unserializeProtCsInsert (dStruct : DbCsInsert) : Out DbCsInsert := do
  let protId ← outputInt
  let tname ← outputString
  let fieldSize ← outputInt
  let dataList ← forTo fieldSize insertPair dStruct.dataList
  return { dStruct with protId := protId, tname := tname, dataList := dataList }

def serializeProtScInsert (dStruct : DbScInsert) (dSerialize : UtilsSerialize) : UtilsSerialize :=
  serializeDbProtid dStruct.protId dSerialize
    |>.inputInt dStruct.protId
    |>.inputString dStruct.dataKey

def serializeProtCsInsert (ord : HashOrder) (dStruct : DbCsInsert) (dSerialize : UtilsSerialize) :
    UtilsSerialize :=
  let dSerialize := serializeDbProtid dStruct.protId dSerialize
  let dSerialize := dSerialize.inputInt dStruct.protId
  let dSerialize := dSerialize.inputString dStruct.tname
  let dSerialize := inputSize dStruct.dataList.entries.length dSerialize
  inputPairs ord dStruct.dataList dSerialize

end FuServer
