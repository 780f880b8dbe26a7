import FuServer.Model.DataSet

/-!
# Reading a result (DBSqlServer)

The statement handle is what the driver has for it: the rows not fetched yet,
what comes behind them, and the row fetched last.  `SQLGetData` hands a value
out in pieces: while bytes are left it stores as many as the buffer takes with
a NUL behind them and says how many were left before the call.  The two loops
have a bound on their rounds; a call that uses it up has not returned.
-/

namespace FuServer

open Bytes

/-- Why a call has not returned. -/
inductive Unfinished
  | fault (f : Fault)
  | roundsUsed
deriving DecidableEq, Repr

abbrev Rounds := Except Unfinished

/-- The return codes that the code tells apart. -/
inductive SqlReturn
  | success
  | noData
  | error
deriving DecidableEq, Repr

/-! ## SQLGetData -/

/-- What a column still has to hand out. -/
inductive ColumnData
  | null
  | bytes (left : Str)
  /-- there is no current row -/
  | invalid
deriving DecidableEq, Repr

/-- The outcome of a call: the buffer and the length as it leaves them. -/
structure GetData where
  ret : SqlReturn
  data : ColumnData
  pFieldBuf : Str
  nBytesLen : Int

def sqlGetData (data : ColumnData) (pFieldBuf : Str) (nBytesLen : Int) : GetData :=
  match data with
  | .null => { ret := .success, data := .null, pFieldBuf := pFieldBuf, nBytesLen := -1 }
  | .bytes [] => { ret := .noData, data := .bytes [], pFieldBuf := pFieldBuf, nBytesLen := nBytesLen }
  | .bytes (b :: rest) =>
    let left := b :: rest
    let stored := left.take (pFieldBuf.length - 1) ++ [0]
    { ret := .success
      data := .bytes (left.drop (pFieldBuf.length - 1))
      pFieldBuf := stored ++ pFieldBuf.drop stored.length
      nBytesLen := left.length }
  | .invalid => { ret := .error, data := .invalid, pFieldBuf := pFieldBuf, nBytesLen := nBytesLen }

/-- `fieldStr.append(pFieldBuf, nBytesLen)` -/
def appendBytes (fieldStr pFieldBuf : Str) (nBytesLen : Int) : Rounds Str :=
  if nBytesLen.toNat ≤ pFieldBuf.length then .ok (fieldStr ++ pFieldBuf.take nBytesLen.toNat)
  else .error (.fault .readPastEnd)

/-- The loop of `st_CollectField`. -/
def stCollectFieldLoop : Nat → ColumnData → Str → Int → Str → Rounds Str
  | 0, _, _, _, _ => .error .roundsUsed
  | fuel + 1, data, pFieldBuf, nBytesLen, fieldStr =>
    let got := sqlGetData data pFieldBuf nBytesLen
    if got.ret = .noData then .ok fieldStr
    else if got.nBytesLen ≤ 0 then .ok fieldStr
    else do
      let fieldStr ← appendBytes fieldStr got.pFieldBuf got.nBytesLen
      stCollectFieldLoop fuel got.data got.pFieldBuf got.nBytesLen fieldStr

/-- `st_CollectField` -/
def stCollectField (fuel : Nat) (data : ColumnData) : Rounds Str :=
  stCollectFieldLoop fuel data (List.replicate 255 0) 0 []

/-! ## SQLFetch -/

/-- A statement that has been run; a value is `none` for a NULL. -/
structure SqlHstmt where
  columns : List Str
  ahead : List (List (Option Str))
  ending : SqlReturn
  row : Option (List (Option Str)) := none

namespace SqlHstmt

/-- The next row, or what comes behind them all, as often as it is asked for. -/
def sqlFetch (hstmt : SqlHstmt) : SqlHstmt × SqlReturn :=
  match hstmt.ahead with
  | values :: ahead => ({ hstmt with ahead := ahead, row := some values }, .success)
  | [] => ({ hstmt with row := none }, hstmt.ending)

/-- The data of a column of the current row. -/
def columnData (hstmt : SqlHstmt) (i : Nat) : ColumnData :=
  match hstmt.row with
  | none => .invalid
  | some values =>
    match values.getD i none with
    | none => .null
    | some value => .bytes value

/-- The columns of the current row; a name met twice keeps its first text. -/
def collectRow (fuel : Nat) (hstmt : SqlHstmt) : Rounds (UMap Str DBDataField) :=
  hstmt.columns.zipIdx.foldlM
    (fun toRow column => do
      let fieldStr ← stCollectField fuel (hstmt.columnData column.2)
      return UMap.insertNew (cstr column.1) (DBDataField.new fieldStr) toRow)
    ∅

/-- The loop of `st_CollectRecordSet`; `limit` bounds the rounds of each field. -/
def stCollectRecordSetLoop (limit : Nat) : Nat → SqlHstmt → DBDataSet → Rounds DBDataSet
  | 0, _, _ => .error .roundsUsed
  | fuel + 1, hstmt, dataSet => do
    let toRow ← hstmt.collectRow limit
    let dataSet := dataSet.pushRow toRow
    let fetch := hstmt.sqlFetch
    -- an error is not told from a row
    if fetch.2 ≠ .noData then stCollectRecordSetLoop limit fuel fetch.1 dataSet else return dataSet

/-- `st_CollectRecordSet` -/
def stCollectRecordSet (fuel : Nat) (hstmt : SqlHstmt) (dataSet : DBDataSet) :
    Rounds (DBDataSet × Bool) :=
  let fetch := hstmt.sqlFetch
  if fetch.2 = .noData ∨ hstmt.columns.length ≤ 0 then .ok (dataSet, false)
  else do
    let dataSet ← stCollectRecordSetLoop fuel fuel fetch.1 dataSet
    return (dataSet, true)

end SqlHstmt

end FuServer
