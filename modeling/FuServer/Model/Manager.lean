import FuServer.Model.Table

/-!
# The cache manager (DBMysql, DBManager)

What MySQL answers is an argument of each call: whether a statement succeeded,
what `mysql_list_fields` and `mysql_store_result` returned.  The link keeps
the part of the server session the cache depends on, the selected database.
-/

namespace FuServer

open Bytes

/-! ## DBMysql -/

structure DBMysql where
  selected : Str
deriving DecidableEq, Repr

/-- The database a `use` statement names, if the command is one. -/
def useOperand (cmdStr : Str) : Option Str :=
  if (lit "use ").isPrefixOf cmdStr then some (cmdStr.drop 4).dropLast else none

/-- One statement, with the server's answer: a successful `use` moves the session. -/
def DBMysql.runSqlCMD (link : DBMysql) (cmdStr : Str) (answer : Bool) : DBMysql × Bool :=
  match useOperand (cstr cmdStr), answer with
  | some db, true => ({ link with selected := db }, true)
  | _, _ => (link, answer)

inductive MysqlType
  | tiny | short | int24 | long | float | double | longlong | string | varString | bit | blob
  | other
deriving DecidableEq, Repr

/-- `ExchangeDataType` -/
def exchangeDataType : MysqlType → UInt16
  | .tiny | .short | .int24 | .long => dbIntT
  | .float | .double => dbDoubleT
  | .longlong => dbLonglongT
  | .string | .varString | .bit | .blob => dbStringT
  | .other => 0

structure MysqlField where
  name : Str
  type : MysqlType
  priKey : Bool
  autoIncrement : Bool
deriving DecidableEq, Repr

/-- A stored result set; every row has one entry a column, `none` for NULL. -/
structure MysqlRes where
  fields : List MysqlField
  rows : List (List (Option Str))
  width : ∀ row ∈ rows, row.length = fields.length

/-- `CheckFieldInfo`: names, types and the index of the last key column, or -1. -/
def checkFieldInfo (fields : List MysqlField) : List Str × List UInt16 × Int :=
  (fields.map (·.name), fields.map fun f => exchangeDataType f.type,
    fields.zipIdx.foldl (fun (priKeyIndex : Int) f =>
      if f.1.priKey then (f.2 : Int) else priKeyIndex) (-1))

/-- The record of one row of the result set. -/
def rowRecord (fields : List MysqlField) (row : List (Option Str)) : DBRecord where
  fieldList := (fields.zip row).zipIdx.map fun c =>
    (((DBField.new (exchangeDataType c.1.1.type)).setDataPtr c.1.2).setIndex c.2).setIsKey c.1.1.priKey

/-- `CheckToTable`: insert the rows in order; `none` when an insert is refused. -/
def checkToTable {fp : FloatUnit} (fields : List MysqlField) :
    List (List (Option Str)) → DBTable fp → Res (Option (DBTable fp))
  | [], pTable => .ok (some pTable)
  | row :: rows, pTable => do
    let auto := fields.foldl (fun b f => if f.priKey then f.autoIncrement else b) pTable.bAutoIncrement
    let (pTable, inserted) ←
      { pTable with bAutoIncrement := auto }.insertRecordPtr (rowRecord fields row)
    match inserted with
    | none => return none
    | some _ => checkToTable fields rows pTable

/-! ## DBManager -/

structure DBManager (fp : FloatUnit) where
  tableSet : UMap Str (DBTable fp)
  pDBLink : DBMysql
  sCurrentDB : Str
  bClose : Bool

/-- What the server answers while one table is loaded. -/
structure LoadReply where
  /-- outcome of `use dbname;` -/
  useOk : Bool
  /-- `mysql_list_fields`, `none` for a null result -/
  info : Option (List MysqlField)
  /-- `select * from tname`, `none` when it failed -/
  select : Option MysqlRes

/-- `DB_BACKUP_LIMITE_TIME` -/
def dbBackupLimiteTime : Nat := 10

namespace DBManager

variable {fp : FloatUnit}

/-- A new manager after a successful `CreateLink(…, dbname)`. -/
def createLink (dbname : Str) : DBManager fp where
  tableSet := ∅
  pDBLink := { selected := cstr dbname }
  sCurrentDB := cstr dbname
  bClose := false

def changeDB (m : DBManager fp) (dbname : Str) (answer : Bool) : DBManager fp × Bool :=
  if dbname = [] then (m, false)
  else
    let run := m.pDBLink.runSqlCMD (fuStringFormat (lit "use %s;") [dbname]) answer
    if run.2 then ({ m with pDBLink := run.1, sCurrentDB := dbname }, true)
    else ({ m with pDBLink := run.1 }, false)

def loadTable (m : DBManager fp) (dbname tname : Str) (reply : LoadReply) :
    Res (DBManager fp × Bool) :=
  if tname ∈ m.tableSet then .ok (m, false)
  else
    let changed := if dbname ≠ [] then m.changeDB dbname reply.useOk else (m, true)
    if !changed.2 then .ok (changed.1, false)
    else match reply.info with
    -- `mysql_num_fields` of a null result
    | none => .error .nullPointer
    | some fields =>
      let info := checkFieldInfo fields
      if info.2.2 < 0 then .ok (changed.1, false)
      else match reply.select with
      | none => .ok (changed.1, false)
      | some res => do
        match ← checkToTable res.fields res.rows (DBTable.new info.1 info.2.1 info.2.2) with
        | none => return (changed.1, false)
        | some pTable =>
          let pTable := { pTable with sTableName := tname, sDBName := changed.1.sCurrentDB }
          return ({ changed.1 with tableSet := UMap.insertNew tname pTable changed.1.tableSet }, true)

/-- `QueryDB`; the two lists are the caller's, the result extends them. -/
def queryDB (m : DBManager fp) (ord : HashOrder) (recordList : List (List Str)) (nameList : List Str)
    (tname fieldName : Str) (b : DBTable.Bounds) : Res (Bool × List (List Str) × List Str) :=
  if fieldName = [] ∨ tname = [] then .ok (false, recordList, nameList)
  else if b.dataEquKey = [] ∧ b.dataMinkey = [] ∧ b.dataMaxkey = [] then
    .ok (false, recordList, nameList)
  else match m.tableSet.lookup tname with
  | none => .ok (false, recordList, nameList)
  | some pTable => do
    let found ← pTable.queryRecord ord fieldName b recordList
    return (found.1, found.2, nameList ++ pTable.fieldNameList)

def modifyDB (m : DBManager fp) (tname dataKey : Str) (dataList : UMap Str Str) :
    Res (DBManager fp × Bool) :=
  if dataKey = [] ∨ tname = [] then .ok (m, false)
  else match m.tableSet.lookup tname with
  | none => .ok (m, false)
  | some pTable => do
    let (pTable, record) ← pTable.modifyRecord dataKey dataList
    return ({ m with tableSet := UMap.adjust tname (fun _ => pTable) m.tableSet }, record.isSome)

def insertDB (m : DBManager fp) (tname : Str) (dataList : UMap Str Str) : Res (DBManager fp × Str) :=
  if tname = [] then .ok (m, [])
  else match m.tableSet.lookup tname with
  -- `return false;` from a function that returns a string: a string made from a null pointer
  | none => .error .nullString
  | some pTable => do
    let (pTable, record) ← pTable.insertRecord dataList
    match record with
    | none => return ({ m with tableSet := UMap.adjust tname (fun _ => pTable) m.tableSet }, [])
    | some key =>
      let recordSet := UMap.adjust key (·.setIsInsert true) pTable.recordSet
      let pTable := { pTable with recordSet := recordSet }
      let m := { m with tableSet := UMap.adjust tname (fun _ => pTable) m.tableSet }
      match recordSet.lookup key with
      | none => return (m, [])
      | some pRecord => do
        let pField ← pRecord.getField pTable.iPriKeyIndex
        return (m, pField.sData)

/-! ## Update -/

/-- One `RunSqlCMD` of a backup pass: whose command, its text, the database
selected when it ran, the outcome. -/
structure CmdRun where
  ref : RecRef
  text : Str
  db : Str
  ok : Bool
deriving DecidableEq, Repr

/-- The state of a pass: the manager, `st_backupCmdList`, and the commands run so far. -/
structure Pass (fp : FloatUnit) where
  mgr : DBManager fp
  cmdList : UMap RecRef Str
  trace : List CmdRun

/-- `SetIsInsert(false)` and `SetIsModify(false)` on the record under `key`. -/
def clearRecord (t : DBTable fp) (key : Str) : DBTable fp :=
  { t with recordSet := UMap.adjust key (fun r => (r.setIsInsert false).setIsModify false) t.recordSet }

def clearFlags (m : DBManager fp) (ref : RecRef) : DBManager fp :=
  { m with tableSet := UMap.adjust ref.1 (fun t => clearRecord t ref.2) m.tableSet }

/-- Run one collected command; both flags are cleared whatever the answer. -/
def runCmd (answer : RecRef → Bool) (s : Pass fp) (cmd : Σ _ : RecRef, Str) : Pass fp :=
  let run := s.mgr.pDBLink.runSqlCMD cmd.2 (answer cmd.1)
  { s with
    mgr := { s.mgr with pDBLink := run.1 }.clearFlags cmd.1
    trace := s.trace ++ [⟨cmd.1, cmd.2, s.mgr.pDBLink.selected, run.2⟩] }

def backtime (t : DBTable fp) (dt : fp.Flt) : fp.Flt := fp.fltAdd t.fBackupTime dt

def isDue (m : DBManager fp) (t : DBTable fp) (dt : fp.Flt) : Bool :=
  fp.fltLe (fp.fltOfNat dbBackupLimiteTime) (backtime t dt) || m.bClose

def setBackupTime (m : DBManager fp) (tname : Str) (time : fp.Flt) : DBManager fp :=
  { m with tableSet := UMap.adjust tname (fun t => { t with fBackupTime := time }) m.tableSet }

/-- The body of `Update`'s loop over the tables; `answer tname ref` is what the
server says to the command of `ref` while table `tname` is processed. -/
def updateTable (ord : HashOrder) (answer : Str → RecRef → Bool) (dt : fp.Flt) (s : Pass fp)
    (tname : Str) : Res (Pass fp) :=
  match s.mgr.tableSet.lookup tname with
  | none => .ok s
  | some pTable =>
    if s.mgr.isDue pTable dt then do
      let cmdList ← pTable.backupTableCmd ord tname s.cmdList
      let s' := (ord.order cmdList.entries).foldl (runCmd (answer tname)) { s with cmdList := cmdList }
      return { s' with mgr := s'.mgr.setBackupTime tname (fp.fltOfNat 0) }
    else .ok { s with mgr := s.mgr.setBackupTime tname (backtime pTable dt) }

/-- `Update(dt)`: the manager after the pass and the commands it ran. -/
def update (m : DBManager fp) (ord : HashOrder) (answer : Str → RecRef → Bool) (dt : fp.Flt) :
    Res (DBManager fp × List CmdRun) :=
  if m.tableSet.entries = [] then .ok (m, [])
  else do
    let s ← (ord.order m.tableSet.keys).foldlM (updateTable ord answer dt)
      { mgr := m, cmdList := ∅, trace := [] }
    return (s.mgr, s.trace)

end DBManager

end FuServer
