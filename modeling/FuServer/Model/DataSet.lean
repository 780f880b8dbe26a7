import FuServer.Lib.HashMap
import FuServer.Model.Record

/-!
# Data sets over SQL Server (DBDataField, DBDataRow, DBDataSet, DBSqlManager)

A data set holds rows and a cursor.  What the server answers to a select is an
argument of the call; the outcomes of the statements of a `Commit` are queued
in its link.  Texts are built with `fuStringFormat`, the expansion of the format;
the loop of `fu_string_format` returns it unless one of its buffers is just as
long (`fuStringFormatBuf_iff`), which is left out here.
-/

namespace FuServer

open Bytes

/-! ## DBDataField and DBDataRow -/

structure DBDataField where
  sData : Str := []
  bModify : Bool := false
deriving DecidableEq, Repr

namespace DBDataField

def new (data : Str) : DBDataField := { sData := data }

/-- `operator=(const std::string&)` -/
def assign (f : DBDataField) (data : Str) : DBDataField where
  sData := data
  bModify := if !f.bModify && f.sData != data then true else f.bModify

def setModify (f : DBDataField) (flag : Bool) : DBDataField := { f with bModify := flag }

end DBDataField

structure DBDataRow where
  rowList : UMap Str DBDataField := ∅
  bInsert : Bool := false

namespace DBDataRow

/-- The constructor from a map of fields. -/
def new (rowlist : UMap Str DBDataField) : DBDataRow := { rowList := rowlist }

/-- `At`: the row once the field is there, an absent one with no text. -/
def atField (r : DBDataRow) (fname : Str) : DBDataRow :=
  { r with rowList := UMap.insertNew fname (DBDataField.new []) r.rowList }

def setIsInsert (r : DBDataRow) (flag : Bool) : DBDataRow := { r with bInsert := flag }

/-- `SetModify`; its loop takes each entry by value. -/
def setModify (r : DBDataRow) (flag : Bool) : DBDataRow :=
  r.rowList.entries.foldl
    (fun r iter =>
      let _iter := iter.2.setModify flag
      r)
    r

/-- The flags are set on copies. -/
theorem setModify_eq_self (r : DBDataRow) (flag : Bool) : r.setModify flag = r := by
  unfold setModify
  induction r.rowList.entries with
  | nil => rfl
  | cons e entries ih => exact ih

/-- Some field of the row answers `isModify`. -/
def Dirty (r : DBDataRow) : Prop := ∃ e ∈ r.rowList.entries, e.2.bModify = true

instance (r : DBDataRow) : Decidable r.Dirty := inferInstanceAs (Decidable (∃ e ∈ r.rowList.entries, _))

/-- Looking a field up marks nothing. -/
theorem dirty_atField {r : DBDataRow} {fname : Str} : (r.atField fname).Dirty ↔ r.Dirty := by
  unfold Dirty DBDataRow.atField
  by_cases h : fname ∈ r.rowList
  · rw [UMap.insertNew, if_pos h]
  · rw [UMap.insertNew_of_notMem _ h]
    simp [DBDataField.new]

end DBDataRow

/-! ## DBDataSet -/

structure DBDataSet where
  sTableName : Str
  sKeyName : Str := []
  bIdentity : Bool := false
  setList : List DBDataRow := []
  setIndex : Int := 0

/-- The rows of a select, each with a text for every column. -/
structure ResultSet where
  columns : List Str
  rows : List (List Str)
deriving DecidableEq, Repr

/-- The outcomes of the statements to come, and the statements run so far with theirs. -/
structure DBSqlServer where
  answers : List Bool
  ran : List (Str × Bool) := []
deriving DecidableEq, Repr

/-- `ExcuteCommitSQL`; without a link, or when the statement fails, the outcome is `false`. -/
def DBSqlServer.excuteCommitSQL (hSqlServer : DBSqlServer) (sqlStr : Str) : DBSqlServer × Bool :=
  let bSuccess := hSqlServer.answers.headD false
  ({ answers := hSqlServer.answers.tail, ran := hSqlServer.ran ++ [(cstr sqlStr, bSuccess)] }, bSuccess)

namespace DBDataSet

/-- The constructor; `attr` is what `CheckTableAttribute` finds, the key and whether it is an
identity. -/
def new (tname : Str) (attr : Option (Str × Bool)) : DBDataSet :=
  if tname = [] then { sTableName := tname }
  else match attr with
  | none => { sTableName := tname }
  | some (keyName, isIdentity) => { sTableName := tname, sKeyName := keyName, bIdentity := isIdentity }

def clear (d : DBDataSet) : DBDataSet := { d with setList := [] }

/-- `operator=` from another set. -/
def assign (d set : DBDataSet) : DBDataSet :=
  { d.clear with
    setList := set.setList, sTableName := set.sTableName, sKeyName := set.sKeyName,
    bIdentity := set.bIdentity, setIndex := 0 }

/-- `operator=` from itself: the rows are gone before they are copied. -/
def assignSelf (d : DBDataSet) : DBDataSet := d.clear.assign d.clear

def pushRow (d : DBDataSet) (row : UMap Str DBDataField) : DBDataSet :=
  { d with setList := d.setList ++ [DBDataRow.new row] }

/-! ### The current row -/

/-- `m_SetList[m_SetIndex]` -/
def curRow (d : DBDataSet) : Res DBDataRow := vecAt d.setList d.setIndex

/-- Change `m_SetList[m_SetIndex]` in place. -/
def modifyCurRow (d : DBDataSet) (f : DBDataRow → DBDataRow) : Res DBDataSet := do
  let setList ← vecModify d.setList d.setIndex f
  return { d with setList := setList }

def isNewRow (d : DBDataSet) : Res Bool := do
  let row ← d.curRow
  return row.bInsert

def setCurNewRow (d : DBDataSet) (flag : Bool) : Res DBDataSet := d.modifyCurRow (·.setIsInsert flag)

def setCurModify (d : DBDataSet) (flag : Bool) : Res DBDataSet := d.modifyCurRow (·.setModify flag)

def moveBeginRow (d : DBDataSet) : DBDataSet × Bool :=
  if d.setList = [] then (d, false) else ({ d with setIndex := 0 }, true)

def moveNextRow (d : DBDataSet) : DBDataSet × Bool :=
  if d.setIndex < (d.setList.length : Int) - 1 then ({ d with setIndex := d.setIndex + 1 }, true)
  else (d, false)

/-- `operator[]`: the set once the field it refers to is there. -/
def index (d : DBDataSet) (fieldName : Str) : Res DBDataSet :=
  if d.setList = [] then do
    let d := { d with setList := [DBDataRow.new ∅], setIndex := 0 }
    let d ← d.modifyCurRow (·.setIsInsert true)
    d.modifyCurRow (·.atField fieldName)
  else d.modifyCurRow (·.atField fieldName)

/-- `dataSet[fieldName] = data` -/
def write (d : DBDataSet) (fieldName data : Str) : Res DBDataSet := do
  let d ← d.index fieldName
  d.modifyCurRow fun row => { row with rowList := UMap.adjust fieldName (·.assign data) row.rowList }

/-! ### Queries -/

/-- The fields of a fetched row; a column met twice keeps its first text. -/
def collectRow (columns row : List Str) : UMap Str DBDataField :=
  (columns.zip row).foldl (fun toRow c => UMap.insertNew (cstr c.1) (DBDataField.new c.2) toRow) ∅

/-- `st_CollectRecordSet` -/
def collectRecordSet (d : DBDataSet) (hstmt : ResultSet) : DBDataSet × Bool :=
  if hstmt.rows = [] ∨ hstmt.columns = [] then (d, false)
  else (hstmt.rows.foldl (fun d row => d.pushRow (collectRow hstmt.columns row)) d, true)

/-- `ExcuteCollectSQL`; the server answers `none` without a link or when the statement fails. -/
def excuteCollectSQL (server : Str → Option ResultSet) (sqlStr : Str) (d : DBDataSet) :
    DBDataSet × Bool :=
  match server (cstr sqlStr) with
  | none => (d, false)
  | some hstmt => d.collectRecordSet hstmt

/-- The text of `QueryRecord` by key. -/
def querySql (tableName keyName tkeyData : Str) : Str :=
  let sqlStr := fuStringFormat (lit "select * from %s") [tableName]
  let sqlStr :=
    if tkeyData ≠ [] then sqlStr ++ fuStringFormat (lit " where %s='%s'") [keyName, tkeyData] else sqlStr
  sqlStr ++ lit ";"

/-- `str[str.length() - 1] = c` -/
def setLast (s : Str) (c : UInt8) : Str := s.dropLast ++ [c]

/-- The text of `QueryRecord` by condition. -/
def queryConditionSql (ord : HashOrder) (tableName : Str) (condition : UMap Str Str) : Str :=
  let sqlStr := (ord.order condition.entries).foldl
    (fun sqlStr iter => sqlStr ++ fuStringFormat (lit " %s='%s',") [iter.1, iter.2])
    (fuStringFormat (lit "select * from %s where") [tableName])
  setLast sqlStr 32

/-- `QueryRecord(const std::string&)` -/
def queryRecord (server : Str → Option ResultSet) (tkeyData : Str) (d : DBDataSet) : DBDataSet × Bool :=
  excuteCollectSQL server (querySql d.sTableName d.sKeyName tkeyData) d

/-- `QueryRecord(const std::unordered_map&)` -/
def queryRecordCondition (server : Str → Option ResultSet) (ord : HashOrder) (condition : UMap Str Str)
    (d : DBDataSet) : DBDataSet × Bool :=
  if condition.entries = [] then (d, false)
  else excuteCollectSQL server (queryConditionSql ord d.sTableName condition) d

def newRecord (server : Str → Option ResultSet) (d : DBDataSet) : DBDataSet × Bool :=
  excuteCollectSQL server
    (fuStringFormat (lit "set nocount on;insert into %s default values; select @@identity as NewId;")
      [d.sTableName]) d

/-- `New(const std::string&)` -/
def newKeyData (server : Str → Option ResultSet) (d : DBDataSet) (keyData : Str) :
    Res (DBDataSet × Bool) :=
  if d.sKeyName = [] then .ok (d, false)
  else
    let query := queryRecord server keyData d
    if query.2 then do
      let d ← query.1.setCurNewRow false
      let d ← d.setCurModify false
      return (d, true)
    else if keyData = [] then do
      -- `toFlag` is set whether `NewRecord` brought a row or not
      let record := newRecord server query.1
      let d ← record.1.setCurNewRow false
      let d ← d.setCurModify false
      return (d, record.2)
    else do
      let d := query.1.pushRow (UMap.insertNew query.1.sKeyName (DBDataField.new keyData) ∅)
      let d := { d with setIndex := (d.setList.length : Int) - 1 }
      let d ← d.setCurNewRow true
      return (d, true)

/-- `New(const std::unordered_map&)` -/
def newCodition (server : Str → Option ResultSet) (ord : HashOrder) (d : DBDataSet)
    (codition : UMap Str Str) : DBDataSet × Bool :=
  queryRecordCondition server ord codition d

/-- `NewProcedure`: the rows that the procedure selects; `none` without a link, or when it fails. -/
def newProcedure (answer : Option ResultSet) (d : DBDataSet) : DBDataSet × Bool :=
  match answer with
  | none => (d, false)
  | some hstmt => d.collectRecordSet hstmt

/-! ### Commit -/

/-- The text of `CommitModify` for the fields that answer `isModify`; none, and there is no statement. -/
def modifySql (ord : HashOrder) (tableName keyName : Str) (row : DBDataRow) : Option Str :=
  let modified := (ord.order row.rowList.entries).filter (·.2.bModify)
  if modified = [] then none
  else
    let sqlStr := modified.foldl
      (fun sqlStr iter => sqlStr ++ fuStringFormat (lit "%s='%s' ") [iter.1, iter.2.sData])
      (fuStringFormat (lit "update %s set ") [tableName])
    let keyData := ((row.atField keyName).rowList.lookup keyName).elim [] (·.sData)
    some (sqlStr ++ fuStringFormat (lit "where %s='%s';") [keyName, keyData])

/-- The text of `CommitInsert`. -/
def insertSql (ord : HashOrder) (tableName : Str) (row : DBDataRow) : Str :=
  let entries := ord.order row.rowList.entries
  let keyStr := entries.foldl (fun keyStr iter => keyStr ++ fuStringFormat (lit "%s,") [iter.1])
    (lit "(")
  let dataStr := entries.foldl
    (fun dataStr iter => dataStr ++ fuStringFormat (lit "'%s',") [iter.2.sData]) (lit "(")
  fuStringFormat (lit "insert into %s") [tableName] ++ setLast keyStr 41 ++ lit " values" ++
    setLast dataStr 41 ++ lit ";"

def commitModify (ord : HashOrder) (hSqlServer : DBSqlServer) (d : DBDataSet) :
    Res (DBSqlServer × DBDataSet × Bool) := do
  let row ← d.curRow
  match modifySql ord d.sTableName d.sKeyName row with
  | none => return (hSqlServer, d, false)
  | some sqlStr =>
    -- `CurKeyField` looks the key up with `At`
    let d ← d.modifyCurRow (·.atField d.sKeyName)
    let run := hSqlServer.excuteCommitSQL sqlStr
    return (run.1, d, run.2)

def commitInsert (ord : HashOrder) (hSqlServer : DBSqlServer) (d : DBDataSet) :
    Res (DBSqlServer × Bool) := do
  if ← d.isNewRow then
    let row ← d.curRow
    return hSqlServer.excuteCommitSQL (insertSql ord d.sTableName row)
  else return (hSqlServer, false)

/-- One turn of the loop of `Commit`. -/
def commitRow (ord : HashOrder) (hSqlServer : DBSqlServer) (d : DBDataSet) :
    Res (DBSqlServer × DBDataSet) := do
  let (hSqlServer, d, temp) ←
    if ← d.isNewRow then do
      let run ← commitInsert ord hSqlServer d
      pure (run.1, d, run.2)
    else commitModify ord hSqlServer d
  if temp then
    let d ← d.setCurNewRow false
    let d ← d.setCurModify false
    return (hSqlServer, d)
  else return (hSqlServer, d)

/-- The loop of `Commit`; `fuel` is the number of rows, which the cursor outlasts. -/
def commitLoop (ord : HashOrder) : Nat → DBSqlServer → DBDataSet → Res (DBSqlServer × DBDataSet)
  | 0, hSqlServer, d => .ok (hSqlServer, d)
  | fuel + 1, hSqlServer, d => do
    let (hSqlServer, d) ← commitRow ord hSqlServer d
    let rowloop := d.moveNextRow
    if rowloop.2 then commitLoop ord fuel hSqlServer rowloop.1 else return (hSqlServer, rowloop.1)

def commit (ord : HashOrder) (hSqlServer : DBSqlServer) (d : DBDataSet) :
    Res (DBSqlServer × DBDataSet) :=
  let rowloop := d.moveBeginRow
  if rowloop.2 then commitLoop ord d.setList.length hSqlServer rowloop.1 else .ok (hSqlServer, rowloop.1)

end DBDataSet

end FuServer
