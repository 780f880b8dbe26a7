import FuServer.Lib.Decimal
import FuServer.Lib.Outcome
import FuServer.Model.Convert
import FuServer.Model.Record

/-!
# Messages of the game clients (FUProtocol, FUNetServer, FULogin)

`Json::Reader::parse` is an argument.  What jsoncpp reports with an exception
is an error here: looking up a key in a value that is neither null nor an
object, and taking an array or an object for a string.
-/

namespace FuServer

open Bytes Decimal

/-! ## Json::Value -/

/-- A number is kept as the text that `asString` prints for it. -/
inductive Json
  | null
  | bool (b : Bool)
  | num (text : Str)
  | str (text : Str)
  | arr (items : List Json)
  | obj (members : List (Str × Json))

/-- An exception of jsoncpp. -/
inductive Raised
  | logicError
deriving DecidableEq, Repr

abbrev JsonRes := Except Raised

namespace Json

/-- The member under a key, if this is an object that has one. -/
def member : Json → Str → Option Json
  | obj members, key => members.lookup key
  | _, _ => none

/-- `find(key, key + strlen(key))` -/
def findKeyValue (root : Json) (keyname : Str) : JsonRes (Option Json) :=
  match root with
  | null => .ok none
  | obj _ => .ok (root.member (cstr keyname))
  | _ => .error .logicError

/-- `operator[](const char*)` of a constant: null for an absent key. -/
def atKey (value : Json) (key : Str) : JsonRes Json := do
  let found ← value.findKeyValue key
  return found.getD null

def asString : Json → JsonRes Str
  | null => .ok []
  | bool b => .ok (if b then lit "true" else lit "false")
  | num text => .ok text
  | str text => .ok text
  | arr _ => .error .logicError
  | obj _ => .error .logicError

/-- Put a member in, in place of one with the same key. -/
def putMember (key : Str) (v : Json) : List (Str × Json) → List (Str × Json)
  | [] => [(key, v)]
  | m :: members => if m.1 = key then (key, v) :: members else m :: putMember key v members

/-- `value[key] = v` -/
def assign (value : Json) (key : Str) (v : Json) : JsonRes Json :=
  match value with
  | null => .ok (obj [(key, v)])
  | obj members => .ok (obj (putMember key v members))
  | _ => .error .logicError

end Json

/-! ## atoi -/

def isSpace (c : UInt8) : Bool := c == 32 || (9 ≤ c && c ≤ 13)

/-- An `int` after wrap-around. -/
def wrap32 (x : Int) : Int := x.bmod (2 ^ 32)

def atoi (s : Str) : Int :=
  match (cstr s).dropWhile isSpace with
  | 45 :: digits => wrap32 (-(value (digits.takeWhile isDigit) : Int))
  | 43 :: digits => wrap32 (value (digits.takeWhile isDigit))
  | digits => wrap32 (value (digits.takeWhile isDigit))

/-! ## FUProtocol -/

namespace FUProtocol

/-- `st_IsProtIdInList` over the files in `g_JsonProtList`. -/
def isProtIdInList : List Json → Str → JsonRes (Option Json)
  | [], _ => .ok none
  | iter :: protList, protId => do
    let pValue ← iter.findKeyValue protId
    match pValue with
    | some pValue => return some pValue
    | none => isProtIdInList protList protId

/-- `CreateProt`; the value stays as it was when the id is not in the list. -/
def createProt (protList : List Json) (protId : Int) (outValue : Json) : JsonRes (Bool × Json) := do
  let pValue ← isProtIdInList protList (fuIntToStr protId)
  match pValue with
  | none => return (false, outValue)
  | some pValue => do
    let outValue ← pValue.assign (lit "msgId") (.num (fuIntToStr protId))
    return (true, outValue)

/-- `RecvProt`: the id, or a negative code, and the value. -/
def recvProt (parse : Str → Option Json) (protList : List Json) (pbuf : Str) : JsonRes (Int × Json) :=
  match parse pbuf with
  | none => .ok (-1, .null)
  | some outValue => do
    let pIdValue ← outValue.findKeyValue (lit "msgId")
    match pIdValue with
    | none => return (-1, outValue)
    | some pIdValue => do
      let pDataValue ← outValue.findKeyValue (lit "msgData")
      match pDataValue with
      | none => return (-1, outValue)
      | some _ => do
        let protIdStr ← pIdValue.asString
        let pValue ← isProtIdInList protList protIdStr
        match pValue with
        | none => return (-2, outValue)
        | some _ => return (atoi protIdStr, outValue)

/-- `SendError`; the value that is sent. -/
def sendError (protList : List Json) (protId : Int) : JsonRes Json := do
  let hValue ← createProt protList protId .null
  return hValue.2

end FUProtocol

/-! ## Game logic -/

/-- `CheckProtocol` of a game logic: the reply it sends if it takes the message. -/
abbrev GameBaseLogic := Int → Json → JsonRes (Option Json)

namespace FULogin

/-- The answer to a login. -/
def loginReply (protList : List Json) (loginPwd : Str) : JsonRes Json := do
  let hOutValue ← FUProtocol.createProt protList 1002 .null
  let msgData ← hOutValue.2.atKey (lit "msgData")
  let loginIn := if loginPwd = lit "111111" then lit "1" else lit "0"
  let msgData ← msgData.assign (lit "loginIn") (.num loginIn)
  hOutValue.2.assign (lit "msgData") msgData

def checkProtocol (protList : List Json) : GameBaseLogic := fun protId jsonProtValue =>
  if protId = 1001 then do
    let hMsgData ← jsonProtValue.atKey (lit "msgData")
    let nameValue ← hMsgData.atKey (lit "loginName")
    let _loginName ← nameValue.asString
    let pwdValue ← hMsgData.atKey (lit "loginPwd")
    let loginPwd ← pwdValue.asString
    let hOutValue ← loginReply protList loginPwd
    return some hOutValue
  else return none

end FULogin

/-- `GameBaseLogic::RegisterNetServer` -/
def registerNetServer (protList : List Json) : List GameBaseLogic := [FULogin.checkProtocol protList]

/-! ## FUNetServer -/

/-- What `CheckProtocolBuffer` did with a buffer. -/
inductive Handling
  /-- `SendError` with this id and value -/
  | errorReply (protId : Int) (sent : Json)
  /-- the logic at this place took the message and replied -/
  | handled (logic : Nat) (protId : Int) (value sent : Json)
  /-- no logic took the id, and this was logged -/
  | unhandled (protId : Int) (value : Json)
  /-- another negative id: only a log line -/
  | dropped (protId : Int)

namespace FUNetServer

/-- The loop over the registered logics, from place `i` on. -/
def dispatch (protId : Int) (hValue : Json) : Nat → List GameBaseLogic → JsonRes Handling
  | _, [] => .ok (.unhandled protId hValue)
  | i, pLogic :: regGameLogicList => do
    let taken ← pLogic protId hValue
    match taken with
    | some sent => return .handled i protId hValue sent
    | none => dispatch protId hValue (i + 1) regGameLogicList

def checkProtocolBuffer (parse : Str → Option Json) (protList : List Json)
    (regGameLogicList : List GameBaseLogic) (buf : Str) : JsonRes Handling := do
  let received ← FUProtocol.recvProt parse protList buf
  if received.1 < 0 then
    if received.1 = -1 then do
      let sent ← FUProtocol.sendError protList 100
      return .errorReply 100 sent
    else if received.1 = -2 then do
      let sent ← FUProtocol.sendError protList 101
      return .errorReply 101 sent
    else return .dropped received.1
  else dispatch received.1 received.2 0 regGameLogicList

/-- `st_ReadFinishFunc` and `NotifyRecvFinish`: one read callback, with the NUL
appended to what was read. -/
def readFinish (parse : Str → Option Json) (protList : List Json)
    (regGameLogicList : List GameBaseLogic) (recvStr : Str) : JsonRes Handling :=
  checkProtocolBuffer parse protList regGameLogicList (recvStr ++ [0])

end FUNetServer

end FuServer
