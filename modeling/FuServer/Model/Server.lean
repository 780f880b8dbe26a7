import FuServer.Model.Manager
import FuServer.Model.Protocol

/-!
# The database server and its client (DBServer, DBClient)

A request is read and then served; what `SendText` is given is the result.
The client keeps one reply slot a kind of request and one error code for all
of them, and a call spins until its own exit test holds.
-/

namespace FuServer

open Bytes UtilsSerialize

/-! ## Codes -/

def errorCodeLoaddb : Int32 := 100
def errorCodeQuery : Int32 := 101
def errorCodeModify : Int32 := 102
def errorCodeInsert : Int32 := 103

def protocolDbSToCError : Int32 := 100
def protocolDbSToCQuery : Int32 := 101
def protocolDbSToCModify : Int32 := 102
def protocolDbSToCInsert : Int32 := 103
def protocolDbSToCLoadtable : Int32 := 104
def protocolDbCToSQuery : Int32 := 201
def protocolDbCToSModify : Int32 := 202
def protocolDbCToSInsert : Int32 := 203
def protocolDbCToSLoadtable : Int32 := 104

/-! ## DBServer -/

/-- A request as `NotifyRecvFinish` reads it. -/
inductive DbRequest
  | query (dInStruct : DbCsQuery)
  | modify (dInStruct : DbCsModify)
  | insert (dInStruct : DbCsInsert)
  | loadtable (dInStruct : DbCsLoadtable)
  | other (protId : Int32)

namespace DBServer

/-- The id and the struct it selects; the id inside the struct is read over at once. -/
def readRequest : Out DbRequest := do
  let protId ← unserializeDbProtid
  if protId = protocolDbCToSQuery then do
    let dInStruct ← unserializeProtCsQuery { protId := 0 }
    return .query dInStruct
  else if protId = protocolDbCToSModify then do
    let dInStruct ← unserializeProtCsModify { protId := 0 }
    return .modify dInStruct
  else if protId = protocolDbCToSInsert then do
    let dInStruct ← unserializeProtCsInsert { protId := 0 }
    return .insert dInStruct
  else if protId = protocolDbCToSLoadtable then do
    let dInStruct ← unserializeProtCsLoadtable { protId := 0 }
    return .loadtable dInStruct
  else return .other protId

/-- What is sent when `errorcode` was set. -/
def errorText (errorcode : Int32) : Str :=
  (serializeProtError { protId := protocolDbSToCError, code := errorcode } {}).dataString

variable {fp : FloatUnit}

/-- The manager's part of a request and the text sent back.  `reply` is what
MySQL answers if a table is loaded. -/
def serveRequest (m : DBManager fp) (ord : HashOrder) (reply : LoadReply) :
    DbRequest → Res (DBManager fp × Option Str)
  | .query d => do
    let temp ← m.queryDB ord [] [] d.tname d.fieldName ⟨d.dataEquKey, d.dataMinKey, d.dataMaxKey⟩
    if temp.1 then
      let dOutStruct : DbScQuery :=
        { protId := protocolDbSToCQuery, fieldNameList := temp.2.2, recordList := temp.2.1 }
      return (m, some (serializeProtScQuery dOutStruct {}).dataString)
    else return (m, some (errorText errorCodeQuery))
  | .modify d => do
    let temp ← m.modifyDB d.tname d.dataKey d.dataList
    if temp.2 then
      let dOutStruct : DbScModify := { protId := protocolDbSToCModify }
      return (temp.1, some (serializeProtScModify dOutStruct {}).dataString)
    else return (temp.1, some (errorText errorCodeModify))
  | .insert d => do
    let temp ← m.insertDB d.tname d.dataList
    if temp.2 ≠ [] then
      let dOutStruct : DbScInsert := { protId := protocolDbSToCInsert, dataKey := temp.2 }
      return (temp.1, some (serializeProtScInsert dOutStruct {}).dataString)
    else return (temp.1, some (errorText errorCodeInsert))
  | .loadtable d => do
    let temp ← m.loadTable d.dbname d.tname reply
    if temp.2 then
      -- the answer to a load is an insert's struct with no key
      let dOutStruct : DbScInsert := { protId := protocolDbSToCLoadtable }
      return (temp.1, some (serializeProtScInsert dOutStruct {}).dataString)
    else return (temp.1, some (errorText errorCodeLoaddb))
  | .other _ => return (m, none)

/-- `NotifyRecvFinish`: the manager afterwards and the text sent, if any. -/
def notifyRecvFinish (m : DBManager fp) (ord : HashOrder) (reply : LoadReply) (buf : Str) :
    Res (DBManager fp × Option Str) := do
  let request ← readRequest ⟨buf, 0⟩
  serveRequest m ord reply request.1

end DBServer

/-! ## DBClient -/

structure DBClient where
  queryRef : DbScQuery
  modifyRef : DbScModify
  insertRef : DbScInsert
  loadTableRef : DbScLoadtable
  iErrorCode : Int32
deriving DecidableEq

inductive RequestKind
  | query | modify | insert | loadtable
deriving DecidableEq, Repr

/-- The id a call of this kind waits for. -/
def RequestKind.toProtId : RequestKind → Int32
  | query => protocolDbSToCQuery
  | modify => protocolDbSToCModify
  | insert => protocolDbSToCInsert
  | loadtable => protocolDbSToCLoadtable

namespace DBClient

/-- The constructor sets the error code; the ids of the slots hold anything. -/
def new (junk : RequestKind → Int32) : DBClient where
  queryRef := { protId := junk .query }
  modifyRef := ⟨junk .modify⟩
  insertRef := { protId := junk .insert }
  loadTableRef := ⟨junk .loadtable⟩
  iErrorCode := -1

/-! What each call does to the client after `SendText` and before it spins. -/

def sendQueryDB (c : DBClient) : DBClient :=
  { c with queryRef := { protId := -1, fieldNameList := [], recordList := [] }, iErrorCode := -1 }

def sendModifyDB (c : DBClient) : DBClient := { c with modifyRef := ⟨-1⟩ }

def sendInsertDB (c : DBClient) : DBClient := { c with insertRef := { protId := -1, dataKey := [] } }

def sendLoadTableDB (c : DBClient) : DBClient := { c with loadTableRef := ⟨-1⟩ }

def resetSlot (c : DBClient) : RequestKind → DBClient
  | .query => c.sendQueryDB
  | .modify => c.sendModifyDB
  | .insert => c.sendInsertDB
  | .loadtable => c.sendLoadTableDB

/-- The id in the slot of a kind. -/
def slotProtId (c : DBClient) : RequestKind → Int32
  | .query => c.queryRef.protId
  | .modify => c.modifyRef.protId
  | .insert => c.insertRef.protId
  | .loadtable => c.loadTableRef.protId

/-- How `CHECK_WHILE_RETURN` leaves its loop. -/
inductive Exit
  | reply | errorCode
deriving DecidableEq, Repr

/-- One round of `CHECK_WHILE_RETURN`. -/
def checkWhileReturn (c : DBClient) (kind : RequestKind) : Option Exit :=
  if c.slotProtId kind = kind.toProtId then some .reply
  else if 0 < c.iErrorCode then some .errorCode
  else none

/-- `NotifyRecvText`: the message is read into the slot its id selects. -/
def notifyRecvText (c : DBClient) (pData : Str) : Res DBClient := do
  let (protId, dSerialize) ← unserializeDbProtid ⟨pData, 0⟩
  if protId = protocolDbSToCQuery then do
    let r ← unserializeProtScQuery c.queryRef dSerialize
    return { c with queryRef := r.1 }
  else if protId = protocolDbSToCModify then do
    let r ← unserializeProtScModify c.modifyRef dSerialize
    return { c with modifyRef := r.1 }
  else if protId = protocolDbSToCInsert then do
    let r ← unserializeProtScInsert c.insertRef dSerialize
    return { c with insertRef := r.1 }
  else if protId = protocolDbSToCLoadtable then do
    let r ← unserializeProtScLoadtable c.loadTableRef dSerialize
    return { c with loadTableRef := r.1 }
  else if protId = protocolDbSToCError then do
    let r ← unserializeProtError { protId := 0, code := 0 } dSerialize
    return { c with iErrorCode := r.1.code }
  else return c

end DBClient

end FuServer
