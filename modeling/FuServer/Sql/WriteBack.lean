import FuServer.Lib.Runs
import FuServer.Sql.Cursor

/-!
# Rows that go back to where they came from

The update of a row names the row of the table by the text in the key field.
`RowOrigin` keeps beside each cached row the row of the table it was fetched
from, and the last text that a fetch or an assignment has put in its key field.
-/

namespace FuServer

open Bytes Outcome Runs

/-! ## Where rows come from -/

/-- The rows of a select, each with the primary key of the row of the table behind it. -/
structure OriginSet where
  columns : List Str
  rows : List (Str × List Str)
deriving DecidableEq, Repr

def OriginSet.resultSet (s : OriginSet) : ResultSet where
  columns := s.columns
  rows := s.rows.map (·.2)

/-- What is known of a cached row: the primary key it was fetched under, unless
the client made it, and the last text put in its key field. -/
structure RowOrigin where
  fetched : Option Str
  keyText : Str
deriving DecidableEq, Repr

/-- The text a fetch brings for the key field: none when the column is not there. -/
def fetchedKey (keyName : Str) (columns row : List Str) : Str :=
  ((columns.zip row).find? fun c => cstr c.1 = keyName).elim [] (·.2)

def OriginSet.origins (keyName : Str) (s : OriginSet) : List RowOrigin :=
  if s.columns = [] then []
  else s.rows.map fun row => { fetched := some row.1, keyText := fetchedKey keyName s.columns row.2 }

/-- A data set beside the origins of its rows. -/
structure Tracked where
  set : DBDataSet
  origins : List RowOrigin

inductive LoadOp
  | newKeyData (server : Str → Option OriginSet) (keyData : Str)
  | newCodition (server : Str → Option OriginSet) (ord : HashOrder) (codition : UMap Str Str)
  | newProcedure (answer : Option OriginSet)
  | write (fieldName data : Str)
  | moveBeginRow
  | moveNextRow

namespace LoadOp

/-- What the data set sees of the server. -/
def results (server : Str → Option OriginSet) (sqlStr : Str) : Option ResultSet :=
  (server sqlStr).map OriginSet.resultSet

def call (d : DBDataSet) : LoadOp → Res DBDataSet
  | newKeyData server keyData => do return (← d.newKeyData (results server) keyData).1
  | newCodition server ord codition => .ok (d.newCodition (results server) ord codition).1
  | newProcedure answer => .ok (d.newProcedure (answer.map OriginSet.resultSet)).1
  | write fieldName data => d.write fieldName data
  | moveBeginRow => .ok d.moveBeginRow.1
  | moveNextRow => .ok d.moveNextRow.1

/-- The origins of the rows that a statement brings. -/
def fetchedOrigins (server : Str → Option OriginSet) (d : DBDataSet) (sqlStr : Str) : List RowOrigin :=
  (server (cstr sqlStr)).elim [] (OriginSet.origins d.sKeyName)

/-- The origins of the rows that a call appends. -/
def arrived (d : DBDataSet) : LoadOp → List RowOrigin
  | newKeyData server keyData =>
    let found := fetchedOrigins server d (DBDataSet.querySql d.sTableName d.sKeyName keyData)
    if d.sKeyName = [] then []
    else if found ≠ [] then found
    else if keyData = [] then
      fetchedOrigins server d
        (fuStringFormat (lit "set nocount on;insert into %s default values; select @@identity as NewId;")
          [d.sTableName])
    else [{ fetched := none, keyText := keyData }]
  | newCodition server ord codition =>
    if codition.entries = [] then []
    else fetchedOrigins server d (DBDataSet.queryConditionSql ord d.sTableName codition)
  | newProcedure answer => answer.elim [] (OriginSet.origins d.sKeyName)
  | write _ _ => []
  | moveBeginRow => []
  | moveNextRow => []

/-- An assignment to the key field. -/
def rekey (d : DBDataSet) (fieldName data : Str) (o : RowOrigin) : RowOrigin :=
  if fieldName = d.sKeyName then { o with keyText := data } else o

/-- The origins of the rows that are there, after the call. -/
def kept (d : DBDataSet) (origins : List RowOrigin) : LoadOp → List RowOrigin
  | newKeyData _ _ => origins
  | newCodition _ _ _ => origins
  | newProcedure _ => origins
  | write fieldName data =>
    if d.setList = [] then [rekey d fieldName data { fetched := none, keyText := [] }]
    else origins.modify d.setIndex.toNat (rekey d fieldName data)
  | moveBeginRow => origins
  | moveNextRow => origins

def step : Res Tracked → LoadOp → Option (Res Tracked)
  | .ok t, op => some do
    let d ← op.call t.set
    return { set := d, origins := op.kept t.set t.origins ++ op.arrived t.set }
  | .error _, _ => none

end LoadOp

namespace DBDataSet

variable {d d' : DBDataSet}

/-- The text in the key field of a row, none when it is not there. -/
def keyData (keyName : Str) (row : DBDataRow) : Str := (row.rowList.lookup keyName).elim [] (·.sData)

def HasKey (keyName : Str) (row : DBDataRow) (o : RowOrigin) : Prop := keyData keyName row = o.keyText

/-- Every row has the key text that is kept for it. -/
def Follows (d : DBDataSet) (origins : List RowOrigin) : Prop :=
  List.Forall₂ (HasKey d.sKeyName) d.setList origins

/-! ## Fetched rows -/

theorem lookup_foldl_fields (columns : List (Str × Str)) (toRow : UMap Str DBDataField) (keyName : Str) :
    (columns.foldl (fun toRow c => UMap.insertNew (cstr c.1)
      (DBDataField.new c.2) toRow) toRow).lookup keyName =
      (toRow.lookup keyName).or
        ((columns.find? fun c => cstr c.1 = keyName).map fun c => DBDataField.new c.2) := by
  induction columns generalizing toRow with
  | nil => exact (Option.or_none).symm
  | cons c columns ih =>
    rw [List.foldl_cons, ih, UMap.lookup_insertNew]
    by_cases hname : keyName = cstr c.1
    · rw [List.find?_cons_of_pos (by simpa using hname.symm)]
      by_cases hmem : cstr c.1 ∈ toRow
      · obtain ⟨f, hf⟩ := UMap.exists_lookup hmem
        rw [if_neg fun h => h.2 hmem, hname, hf]
        rfl
      · rw [if_pos ⟨hname, hmem⟩, hname, AList.lookup_eq_none.mpr hmem]
        rfl
    · rw [if_neg fun h => hname h.1, List.find?_cons_of_neg (by simpa using Ne.symm hname)]

theorem keyData_collectRow (keyName : Str) (columns row : List Str) :
    keyData keyName (DBDataRow.new (collectRow columns row)) = fetchedKey keyName columns row := by
  unfold keyData fetchedKey
  show ((collectRow columns row).lookup keyName).elim [] (·.sData) = _
  rw [collectRow, lookup_foldl_fields, AList.lookup_empty, Option.none_or]
  cases (columns.zip row).find? fun c => cstr c.1 = keyName with
  | none => rfl
  | some c => rfl

theorem fetched_hasKey (server : Str → Option OriginSet) (d : DBDataSet) (sqlStr : Str) :
    List.Forall₂ (HasKey d.sKeyName) (fetched (LoadOp.results server) sqlStr)
      (LoadOp.fetchedOrigins server d sqlStr) := by
  unfold fetched LoadOp.results LoadOp.fetchedOrigins
  cases server (cstr sqlStr) with
  | none => exact List.Forall₂.nil
  | some s =>
    show List.Forall₂ _ (if s.columns = [] then [] else (s.rows.map (·.2)).map _) (s.origins d.sKeyName)
    unfold OriginSet.origins
    split
    · exact List.Forall₂.nil
    · rw [List.map_map, List.forall₂_map_left_iff, List.forall₂_map_right_iff, List.forall₂_same]
      exact fun row _ => keyData_collectRow d.sKeyName s.columns row.2

theorem isEmpty_origins {server : Str → Option OriginSet} {sqlStr : Str} :
    fetched (LoadOp.results server) sqlStr = [] ↔ LoadOp.fetchedOrigins server d sqlStr = [] := by
  have hlen := (fetched_hasKey server d sqlStr).length_eq
  rw [← List.length_eq_zero_iff, ← List.length_eq_zero_iff, hlen]

theorem Follows.append {origins origins' : List RowOrigin} {rows : List DBDataRow}
    (h : d.Follows origins) (hrows : List.Forall₂ (HasKey d.sKeyName) rows origins') :
    (d.append rows).Follows (origins ++ origins') :=
  List.rel_append h hrows

/-! ## One call -/

/-- A row and its origin changed in step. -/
theorem forall₂_modify {R : DBDataRow → RowOrigin → Prop} {f : DBDataRow → DBDataRow}
    {g : RowOrigin → RowOrigin} (hfg : ∀ row o, R row o → R (f row) (g o)) {rows : List DBDataRow}
    {origins : List RowOrigin} (i : Nat)
    (h : List.Forall₂ R rows origins) : List.Forall₂ R (rows.modify i f) (origins.modify i g) := by
  induction h generalizing i with
  | nil =>
    rw [List.modify_nil, List.modify_nil]
    exact List.Forall₂.nil
  | cons hrow hrest ih =>
    cases i with
    | zero => exact List.Forall₂.cons (hfg _ _ hrow) hrest
    | succ i =>
      rw [List.modify_succ_cons, List.modify_succ_cons]
      exact List.Forall₂.cons hrow (ih i)

theorem Follows.settled {origins : List RowOrigin} (h : d.Follows origins) {temp : Bool}
    {r : DBDataSet × Bool} (hr : d.settled temp = .ok r) :
    r.1.Follows origins ∧ r.1.sKeyName = d.sKeyName := by
  unfold DBDataSet.settled at hr
  split at hr
  · cases hr
    refine ⟨?_, rfl⟩
    have hflag := forall₂_modify (R := HasKey d.sKeyName) (f := (·.setIsInsert false)) (g := id)
      (fun _ _ hrow => hrow) d.setIndex.toNat h
    rw [List.modify_id] at hflag
    exact hflag
  · cases hr

/-- An assignment puts its text in the field, and no other. -/
theorem keyData_write (keyName fieldName data : Str) (row : DBDataRow) :
    keyData keyName { row.atField fieldName with
        rowList := UMap.adjust fieldName (·.assign data) (row.atField fieldName).rowList } =
      if fieldName = keyName then data else keyData keyName row := by
  unfold keyData DBDataRow.atField
  dsimp only
  rw [UMap.lookup_adjust]
  by_cases hname : fieldName = keyName
  · rw [if_pos hname.symm, if_pos hname, UMap.lookup_insertNew]
    by_cases hmem : fieldName ∈ row.rowList
    · obtain ⟨f, hf⟩ := UMap.exists_lookup hmem
      rw [if_neg fun h => h.2 hmem, hf]
      rfl
    · rw [if_pos ⟨rfl, hmem⟩]
      rfl
  · rw [if_neg (Ne.symm hname), if_neg hname, UMap.lookup_insertNew, if_neg fun h => hname h.1.symm]

theorem hasKey_rekey {d : DBDataSet} (fieldName data : Str) {row : DBDataRow} {o : RowOrigin}
    (h : HasKey d.sKeyName row o) :
    HasKey d.sKeyName { row.atField fieldName with
      rowList := UMap.adjust fieldName (·.assign data) (row.atField fieldName).rowList }
      (LoadOp.rekey d fieldName data o) := by
  unfold HasKey LoadOp.rekey
  rw [keyData_write]
  split
  · rfl
  · exact h

theorem Follows.write {origins : List RowOrigin} (h : d.Follows origins) {fieldName data : Str}
    (hd : d.write fieldName data = .ok d') :
    d'.Follows (LoadOp.kept d origins (.write fieldName data)) ∧ d'.sKeyName = d.sKeyName := by
  obtain ⟨d1, h1, h2⟩ := bind_eq_ok.mp hd
  unfold index at h1
  unfold LoadOp.kept
  dsimp only
  split at h1
  · next hnil =>
    have hrow : ({ d with setList := [DBDataRow.new ∅], setIndex := 0 } : DBDataSet) =
        d.onRow [] (DBDataRow.new ∅) [] := rfl
    dsimp only at h1
    rw [hrow, modifyCurRow_onRow, ok_bind, modifyCurRow_onRow] at h1
    cases h1
    rw [modifyCurRow_onRow] at h2
    cases h2
    rw [if_pos hnil]
    have hrow : HasKey d.sKeyName ((DBDataRow.new ∅).setIsInsert true) ⟨none, []⟩ := rfl
    exact ⟨List.Forall₂.cons (hasKey_rekey fieldName data hrow) List.Forall₂.nil, rfl⟩
  · next hne =>
    rw [if_neg hne]
    by_cases hrange : d.InRange
    · rw [modifyCurRow_of_inRange _ hrange] at h1
      cases h1
      rw [modifyCurRow_of_inRange _ (inRange_modify.mpr hrange)] at h2
      cases h2
      refine ⟨?_, rfl⟩
      show List.Forall₂ _ ((d.setList.modify _ _).modify _ _) _
      rw [List.modify_modify_eq]
      exact forall₂_modify (fun _ _ hrow => hasKey_rekey fieldName data hrow) _ h
    · rw [modifyCurRow_of_not_inRange _ hrange] at h1
      cases h1

theorem newProcedure_eq (answer : Option ResultSet) (d : DBDataSet) :
    (d.newProcedure answer).1 = d.append (fetched (fun _ => answer) []) := by
  refine Eq.trans ?_ (congrArg Prod.fst (excuteCollectSQL_eq [] d))
  cases answer with
  | none => rfl
  | some hstmt => rfl

theorem Follows.newKeyData {origins : List RowOrigin} (h : d.Follows origins)
    {server : Str → Option OriginSet} {keyData : Str} {r : DBDataSet × Bool}
    (hr : d.newKeyData (LoadOp.results server) keyData = .ok r) :
    r.1.Follows (origins ++ LoadOp.arrived d (.newKeyData server keyData)) ∧
      r.1.sKeyName = d.sKeyName := by
  rw [newKeyData_eq] at hr
  unfold LoadOp.arrived
  dsimp only
  by_cases hname : d.sKeyName = []
  · rw [if_pos hname] at hr
    cases hr
    rw [if_pos hname, List.append_nil]
    exact ⟨h, rfl⟩
  · rw [if_neg hname] at hr
    rw [if_neg hname]
    by_cases hfound : d.found (LoadOp.results server) keyData = []
    · rw [if_neg (not_not.mpr hfound)] at hr
      rw [if_neg (not_not.mpr (isEmpty_origins.mp hfound))]
      by_cases hkey : keyData = []
      · rw [if_pos hkey] at hr
        rw [if_pos hkey]
        exact (h.append (fetched_hasKey server d _)).settled hr
      · rw [if_neg hkey] at hr
        cases hr
        rw [if_neg hkey]
        refine ⟨h.append (List.Forall₂.cons ?_ List.Forall₂.nil), rfl⟩
        show ((UMap.insertNew d.sKeyName (DBDataField.new keyData) ∅).lookup d.sKeyName).elim []
            (·.sData) = keyData
        rw [UMap.lookup_insertNew, if_pos ⟨rfl, AList.notMem_empty _⟩]
        rfl
    · rw [if_pos hfound] at hr
      rw [if_pos (mt isEmpty_origins.mpr hfound)]
      exact (h.append (fetched_hasKey server d _)).settled hr

/-- **One call.** -/
theorem Follows.call {origins : List RowOrigin} (h : d.Follows origins) {op : LoadOp}
    (hd : op.call d = .ok d') :
    d'.Follows (op.kept d origins ++ op.arrived d) ∧ d'.sKeyName = d.sKeyName := by
  cases op with
  | newKeyData server keyData =>
    obtain ⟨r, hr, hd⟩ := bind_eq_ok.mp hd
    cases hd
    exact h.newKeyData hr
  | newCodition server ord codition =>
    cases hd
    rw [newCodition_eq]
    refine ⟨h.append ?_, rfl⟩
    unfold appended LoadOp.arrived
    dsimp only
    split
    · exact List.Forall₂.nil
    · exact fetched_hasKey server d _
  | newProcedure answer =>
    cases hd
    rw [newProcedure_eq]
    exact ⟨h.append (fetched_hasKey (fun _ => answer) d []), rfl⟩
  | write fieldName data =>
    rw [LoadOp.arrived, List.append_nil]
    exact h.write hd
  | moveBeginRow =>
    cases hd
    rw [LoadOp.arrived, List.append_nil]
    unfold moveBeginRow
    split
    · exact ⟨h, rfl⟩
    · exact ⟨h, rfl⟩
  | moveNextRow =>
    cases hd
    rw [LoadOp.arrived, List.append_nil]
    unfold moveNextRow
    split
    · exact ⟨h, rfl⟩
    · exact ⟨h, rfl⟩

end DBDataSet

/-! ## The statements of a Commit -/

namespace DBDataSet

variable {d : DBDataSet}

/-- The update of a row up to its where clause. -/
def setPart (ord : HashOrder) (tableName : Str) (row : DBDataRow) : Str :=
  ((ord.order row.rowList.entries).filter (·.2.bModify)).foldl
    (fun sqlStr iter => sqlStr ++ fuStringFormat (lit "%s='%s' ") [iter.1, iter.2.sData])
    (fuStringFormat (lit "update %s set ") [tableName])

/-- The where clause that names the row with the primary key `key`. -/
def wherePart (keyName key : Str) : Str :=
  lit "where " ++ (cstr keyName ++ (lit "='" ++ (key ++ lit "';")))

theorem modifySql_parts {ord : HashOrder} {row : DBDataRow} (h : row.Dirty) (tableName keyName : Str) :
    modifySql ord tableName keyName row =
      some (setPart ord tableName row ++ wherePart keyName (cstr (keyData keyName row))) := by
  have hne : (ord.order row.rowList.entries).filter (·.2.bModify) ≠ [] := by
    intro hnil
    obtain ⟨e, he, hm⟩ := h
    exact List.filter_eq_nil_iff.mp hnil e (ord.mem_order.mpr he) hm
  have hkey : ((row.atField keyName).rowList.lookup keyName).elim [] (·.sData) =
      keyData keyName row := by
    unfold keyData DBDataRow.atField
    rw [UMap.lookup_insertNew]
    by_cases hmem : keyName ∈ row.rowList
    · rw [if_neg fun h => h.2 hmem]
    · rw [if_pos ⟨rfl, hmem⟩, AList.lookup_eq_none.mpr hmem]
      rfl
  unfold modifySql
  dsimp only
  rw [if_neg hne, hkey]
  rfl

theorem noNul_setPart (ord : HashOrder) (tableName : Str) (row : DBDataRow) :
    NoNul (setPart ord tableName row) := by
  unfold setPart
  generalize (ord.order row.rowList.entries).filter (·.2.bModify) = entries
  have hhead : NoNul (fuStringFormat (lit "update %s set ") [tableName]) :=
    noNul_fuStringFormat (by decide) _
  generalize fuStringFormat (lit "update %s set ") [tableName] = sqlStr at hhead
  induction entries generalizing sqlStr with
  | nil => exact hhead
  | cons e entries ih =>
    rw [List.foldl_cons]
    exact ih _ (noNul_append.mpr ⟨hhead, noNul_fuStringFormat (by decide) _⟩)

theorem noNul_wherePart {keyName key : Str} (h : NoNul key) : NoNul (wherePart keyName key) :=
  noNul_append.mpr ⟨by decide, noNul_append.mpr ⟨noNul_cstr keyName, noNul_append.mpr ⟨by decide,
    noNul_append.mpr ⟨h, by decide⟩⟩⟩⟩

/-- Two updates of one row are the same when their keys are. -/
theorem wherePart_inj {sqlStr keyName key key' : Str} :
    sqlStr ++ wherePart keyName key = sqlStr ++ wherePart keyName key' ↔ key = key' := by
  unfold wherePart
  simp only [List.append_cancel_left_eq, List.append_cancel_right_eq]

/-- A walk over the rows runs the statements of those that have one, in their order. -/
theorem commitRows_issued (ord : HashOrder) (rows : List (DBDataRow × RowOrigin))
    (hSqlServer : DBSqlServer) :
    ∃ runs, (commitRows ord d (rows.map (·.1)) hSqlServer).1.ran = hSqlServer.ran ++ runs ∧
      List.Forall₂ (fun c run => (rowSql ord d c.1).map cstr = some run.1)
        (rows.filter fun c => (rowSql ord d c.1).isSome) runs := by
  induction rows generalizing hSqlServer with
  | nil => exact ⟨[], (List.append_nil _).symm, List.Forall₂.nil⟩
  | cons c rows ih =>
    rw [List.map_cons]
    cases hsql : rowSql ord d c.1 with
    | none =>
      obtain ⟨runs, hran, hissued⟩ := ih hSqlServer
      rw [commitRows_idle hsql, List.filter_cons_of_neg (by rw [hsql]; exact Bool.false_ne_true)]
      exact ⟨runs, hran, hissued⟩
    | some sqlStr =>
      obtain ⟨runs, hran, hissued⟩ := ih (hSqlServer.excuteCommitSQL sqlStr).1
      rw [commitRows_run hsql, List.filter_cons_of_pos (by rw [hsql]; rfl)]
      refine ⟨(cstr sqlStr, (hSqlServer.excuteCommitSQL sqlStr).2) :: runs, ?_,
        List.Forall₂.cons ?_ hissued⟩
      · rw [hran, List.append_cons]
        rfl
      · rw [hsql]
        rfl

end DBDataSet

/-! ## Runs, and the Commit after them -/

namespace Tracked

open DBDataSet

def start (tname : Str) (attr : Option (Str × Bool)) : Tracked :=
  { set := DBDataSet.new tname attr, origins := [] }

theorem run_follows (ops : List LoadOp) {t t' : Tracked} (h : t.set.Follows t.origins)
    (hrun : run LoadOp.step (.ok t) ops = some (.ok t')) : t'.set.Follows t'.origins := by
  induction ops generalizing t with
  | nil =>
    cases hrun
    exact h
  | cons op ops ih =>
    obtain ⟨r, hr, hrun⟩ := Option.bind_eq_some_iff.mp hrun
    cases hr
    cases hcall : op.call t.set with
    | error e =>
      rw [hcall] at hrun
      cases ops with
      | nil => cases hrun
      | cons op' ops =>
        obtain ⟨r', hr', -⟩ := Option.bind_eq_some_iff.mp hrun
        cases hr'
    | ok d =>
      rw [hcall] at hrun
      exact ih (h.call hcall).1 hrun

/-- The statements that a `Commit` runs are those of the rows that are new or
modified, in their order, and that of a row which is not new is an update of
the row of the table it was fetched from. -/
def WritesBack (t : Tracked) (ord : HashOrder) (answers : List Bool) : Prop :=
  Returns (t.set.commit ord { answers := answers }) fun r =>
    List.Forall₂
      (fun (c : DBDataRow × RowOrigin) (run : Str × Bool) => c.1.bInsert = false →
        ∃ key ∈ c.2.fetched, run.1 = setPart ord t.set.sTableName c.1 ++ wherePart t.set.sKeyName key)
      ((t.set.setList.zip t.origins).filter fun c => c.1.bInsert || decide c.1.Dirty) r.1.ran

instance (t : Tracked) (ord : HashOrder) (answers : List Bool) :
    Decidable (t.WritesBack ord answers) := by
  unfold WritesBack
  infer_instance

/-- A row that is not new and has a modified field was fetched, and the text last
put in its key field is its primary key. -/
def KeyKept (t : Tracked) : Prop :=
  ∀ c ∈ t.set.setList.zip t.origins, c.1.bInsert = false → c.1.Dirty →
    ∃ key ∈ c.2.fetched, cstr c.2.keyText = key

theorem forall₂_iff_of {α β : Type} {R P : α → β → Prop} {Q : α → Prop} {l : List α} {l' : List β}
    (h : List.Forall₂ R l l') (hPQ : ∀ a b, a ∈ l → R a b → (P a b ↔ Q a)) :
    List.Forall₂ P l l' ↔ ∀ a ∈ l, Q a := by
  induction h with
  | nil => exact iff_of_true List.Forall₂.nil nofun
  | cons hab hrest ih =>
    rw [List.forall₂_cons, List.forall_mem_cons, hPQ _ _ List.mem_cons_self hab,
      ih fun a b ha => hPQ a b (List.mem_cons_of_mem _ ha)]

theorem writesBack_iff {t : Tracked} (h : t.set.Follows t.origins) (ord : HashOrder)
    (answers : List Bool) :
    t.WritesBack ord answers ↔ t.KeyKept := by
  obtain ⟨i, hcommit, -⟩ := commit_eq ord { answers := answers } t.set
  obtain ⟨runs, hran, hissued⟩ :=
    commitRows_issued (d := t.set) ord (t.set.setList.zip t.origins) { answers := answers }
  rw [List.map_fst_zip h.length_eq.le] at hran
  have hfilter : ((t.set.setList.zip t.origins).filter fun c => (rowSql ord t.set c.1).isSome) =
      (t.set.setList.zip t.origins).filter fun c => c.1.bInsert || decide c.1.Dirty := by
    apply List.filter_congr
    intro c _
    rw [Bool.eq_iff_iff, Option.isSome_iff_ne_none, ne_eq, rowSql_eq_none, Bool.or_eq_true,
      decide_eq_true_iff]
    cases c.1.bInsert <;> simp
  rw [hfilter] at hissued
  have hruns : (commitRows ord t.set t.set.setList { answers := answers }).1.ran = runs := hran
  unfold WritesBack
  rw [hcommit, returns_ok]
  dsimp only
  rw [hruns, forall₂_iff_of hissued (Q := fun c => c.1.bInsert = false →
    ∃ key ∈ c.2.fetched, cstr c.2.keyText = key)]
  · unfold KeyKept
    constructor
    · intro hall c hc hnew hdirty
      exact hall c (List.mem_filter.mpr ⟨hc, by simp [hdirty]⟩) hnew
    · intro hall c hc hnew
      obtain ⟨hmem, hstmt⟩ := List.mem_filter.mp hc
      rw [hnew, Bool.false_or, decide_eq_true_iff] at hstmt
      exact hall c hmem hnew hstmt
  · intro c run hc hrun
    obtain ⟨hmem, hstmt⟩ := List.mem_filter.mp hc
    apply imp_congr_right
    intro hnew
    rw [hnew, Bool.false_or, decide_eq_true_iff] at hstmt
    have hkey : keyData t.set.sKeyName c.1 = c.2.keyText := (List.forall₂_iff_zip.mp h).2 hmem
    have hnoNul : NoNul (setPart ord t.set.sTableName c.1 ++
      wherePart t.set.sKeyName (cstr c.2.keyText)) :=
      noNul_append.mpr ⟨noNul_setPart ord _ c.1, noNul_wherePart (noNul_cstr _)⟩
    unfold rowSql at hrun
    rw [hnew, if_neg Bool.false_ne_true, modifySql_parts hstmt, hkey, Option.map_some,
      cstr_eq_self.mpr hnoNul] at hrun
    rw [← Option.some.inj hrun]
    simp only [wherePart_inj]

/-- **Writing rows back.**  After any calls on a new data set, `Commit` sends each
modified row that is not new back to the row it was fetched from exactly when
every such row was fetched, and the last text put in its key field, by the fetch
or by an assignment, is the primary key it was fetched under. -/
theorem commit_writesBack_iff {tname : Str} {attr : Option (Str × Bool)} {ops : List LoadOp}
    {t : Tracked} (hrun : run LoadOp.step (.ok (start tname attr)) ops = some (.ok t))
    (ord : HashOrder) (answers : List Bool) :
    t.WritesBack ord answers ↔ t.KeyKept := by
  apply writesBack_iff
  refine run_follows ops ?_ hrun
  have hnil : (DBDataSet.new tname attr).setList = [] := by
    unfold DBDataSet.new
    split
    · rfl
    · split <;> rfl
  show List.Forall₂ _ (DBDataSet.new tname attr).setList []
  rw [hnil]
  exact List.Forall₂.nil

/-- A server whose one row has the key `1`. -/
def onlyFirst (_ : Str) : Option OriginSet :=
  some { columns := [lit "id", lit "name"], rows := [(lit "1", [lit "1", lit "a"])] }

theorem commit_writesBack_iff_fetched :
    ∃ t, run LoadOp.step (.ok (start (lit "t") (some (lit "id", false))))
        [.newKeyData onlyFirst (lit "1"), .write (lit "name") (lit "b")] = some (.ok t) ∧
      (t.WritesBack .plain [true] ↔ t.KeyKept) := by
  obtain ⟨t, hrun⟩ : ∃ t, run LoadOp.step (.ok (start (lit "t") (some (lit "id", false))))
      [.newKeyData onlyFirst (lit "1"), .write (lit "name") (lit "b")] = some (.ok t) := ⟨_, rfl⟩
  exact ⟨t, hrun, commit_writesBack_iff hrun .plain [true]⟩

/-- A server whose table is empty: an insert of default values gets the identity `7`. -/
def identitySeven (sqlStr : Str) : Option OriginSet :=
  if (lit "set nocount on;").isPrefixOf sqlStr then
    some { columns := [lit "NewId"], rows := [(lit "7", [lit "7"])] }
  else some { columns := [lit "id"], rows := [] }

/-- `New("")` on an empty identity table brings a row without its key column; the
update of its name looks for an empty key. -/
theorem identity_row_not_written_back :
    ∃ t, run LoadOp.step (.ok (start (lit "t") (some (lit "id", true))))
        [.newKeyData identitySeven [], .write (lit "name") (lit "a")] = some (.ok t) ∧
      ¬ t.WritesBack .plain [true] ∧
      Returns (t.set.commit .plain { answers := [true] }) fun r =>
        r.1.ran = [(lit "update t set name='a' where id='';", true)] := by
  refine ⟨_, rfl, ?_, ?_⟩
  · decide +kernel
  · decide +kernel

end Tracked

end FuServer
