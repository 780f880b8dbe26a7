import FuServer.Lib.Outcome
import FuServer.Model.DataSet

/-!
# Commit and its flags

`Commit` walks the rows and runs at most one statement for each, so it is a
function of the row list (`commitRows`).  The insert flag of a row is cleared
when its statement succeeds; the modify flags are cleared on copies.
`commitsOnce_iff` says for which data sets a second `Commit` is idle.
-/

namespace FuServer

open Bytes Outcome

namespace DBDataSet

/-! ## The cursor on a row -/

/-- The set with the cursor on `row`, between the rows before and after it. -/
def onRow (d : DBDataSet) (done : List DBDataRow) (row : DBDataRow) (rest : List DBDataRow) :
    DBDataSet :=
  { d with setList := done ++ row :: rest, setIndex := done.length }

variable {d : DBDataSet} {done rest : List DBDataRow} {row : DBDataRow}

@[simp] theorem onRow_sTableName : (d.onRow done row rest).sTableName = d.sTableName := rfl

@[simp] theorem onRow_sKeyName : (d.onRow done row rest).sKeyName = d.sKeyName := rfl

@[simp] theorem curRow_onRow : (d.onRow done row rest).curRow = .ok row := by
  apply vecAt_eq_ok.mpr
  refine ⟨Int.natCast_nonneg _, ?_⟩
  show (done ++ row :: rest)[((done.length : Nat) : Int).toNat]? = some row
  rw [Int.toNat_natCast, List.getElem?_append_right (Nat.le_refl _), Nat.sub_self]
  rfl

@[simp] theorem modifyCurRow_onRow (f : DBDataRow → DBDataRow) :
    (d.onRow done row rest).modifyCurRow f = .ok (d.onRow done (f row) rest) := by
  have hlt : done.length < (done ++ row :: rest).length := by
    rw [List.length_append, List.length_cons]
    omega
  have hlist : (done ++ row :: rest).modify done.length f = done ++ f row :: rest :=
    List.modifyTailIdx_add (List.modifyHead f) 0 done (row :: rest)
  unfold modifyCurRow onRow
  dsimp only
  rw [vecModify_natCast f hlt, ok_bind, hlist]
  rfl

@[simp] theorem isNewRow_onRow : (d.onRow done row rest).isNewRow = .ok row.bInsert := by
  unfold isNewRow
  rw [curRow_onRow]
  rfl

theorem moveNextRow_last : (d.onRow done row []).moveNextRow = (d.onRow done row [], false) := by
  unfold moveNextRow onRow
  rw [if_neg]
  show ¬ ((done.length : Nat) : Int) < ((done ++ [row]).length : Int) - 1
  rw [List.length_append, List.length_singleton]
  omega

theorem moveNextRow_next (next : DBDataRow) :
    (d.onRow done row (next :: rest)).moveNextRow = (d.onRow (done ++ [row]) next rest, true) := by
  unfold moveNextRow onRow
  rw [if_pos]
  · simp
  · show ((done.length : Nat) : Int) < ((done ++ row :: next :: rest).length : Int) - 1
    rw [List.length_append, List.length_cons, List.length_cons]
    omega

/-! ## Commit as a walk over the rows -/

/-- The statement `Commit` has for a row, if any. -/
def rowSql (ord : HashOrder) (d : DBDataSet) (row : DBDataRow) : Option Str :=
  if row.bInsert then some (insertSql ord d.sTableName row)
  else modifySql ord d.sTableName d.sKeyName row

/-- A row once its statement has run; a modification has looked its key up. -/
def committed (d : DBDataSet) (row : DBDataRow) (temp : Bool) : DBDataRow :=
  let row := if row.bInsert then row else row.atField d.sKeyName
  if temp then row.setIsInsert false else row

def commitRows (ord : HashOrder) (d : DBDataSet) :
    List DBDataRow → DBSqlServer → DBSqlServer × List DBDataRow
  | [], hSqlServer => (hSqlServer, [])
  | row :: rest, hSqlServer =>
    match rowSql ord d row with
    | none =>
      let walk := commitRows ord d rest hSqlServer
      (walk.1, row :: walk.2)
    | some sqlStr =>
      let run := hSqlServer.excuteCommitSQL sqlStr
      let walk := commitRows ord d rest run.1
      (walk.1, d.committed row run.2 :: walk.2)

theorem commitRows_idle {ord : HashOrder} {hSqlServer : DBSqlServer} (h : rowSql ord d row = none) :
    commitRows ord d (row :: rest) hSqlServer =
      ((commitRows ord d rest hSqlServer).1, row :: (commitRows ord d rest hSqlServer).2) := by
  rw [commitRows, h]

theorem commitRows_run {ord : HashOrder} {hSqlServer : DBSqlServer} {sqlStr : Str}
    (h : rowSql ord d row = some sqlStr) :
    commitRows ord d (row :: rest) hSqlServer =
      ((commitRows ord d rest (hSqlServer.excuteCommitSQL sqlStr).1).1,
        d.committed row (hSqlServer.excuteCommitSQL sqlStr).2 ::
          (commitRows ord d rest (hSqlServer.excuteCommitSQL sqlStr).1).2) := by
  rw [commitRows, h]

/-- One turn of the loop, on any row. -/
theorem commitRow_onRow (ord : HashOrder) (hSqlServer : DBSqlServer) :
    commitRow ord hSqlServer (d.onRow done row rest) =
      match rowSql ord d row with
      | none => .ok (hSqlServer, d.onRow done row rest)
      | some sqlStr =>
        let run := hSqlServer.excuteCommitSQL sqlStr
        .ok (run.1, d.onRow done (d.committed row run.2) rest) := by
  unfold commitRow rowSql committed
  rw [isNewRow_onRow, ok_bind]
  cases hnew : row.bInsert with
  | true =>
    simp only [if_true, commitInsert, isNewRow_onRow, hnew, curRow_onRow, ok_bind, pure_eq_ok,
      onRow_sTableName]
    cases (hSqlServer.excuteCommitSQL (insertSql ord d.sTableName row)).2 with
    | true => simp [setCurNewRow, setCurModify, DBDataRow.setModify_eq_self]
    | false => simp
  | false =>
    simp only [Bool.false_eq_true, if_false, commitModify, curRow_onRow, ok_bind, pure_eq_ok,
      onRow_sTableName, onRow_sKeyName]
    cases hsql : modifySql ord d.sTableName d.sKeyName row with
    | none => simp
    | some sqlStr =>
      simp only [modifyCurRow_onRow, ok_bind]
      cases (hSqlServer.excuteCommitSQL sqlStr).2 with
      | true => simp [setCurNewRow, setCurModify, DBDataRow.setModify_eq_self]
      | false => simp

/-- From any row on, the loop does the rest of the rows. -/
theorem commitLoop_onRow (ord : HashOrder) (rest done : List DBDataRow) (row : DBDataRow)
    (hSqlServer : DBSqlServer) (fuel : Nat) (hfuel : rest.length < fuel) :
    commitLoop ord fuel hSqlServer (d.onRow done row rest) =
      .ok ((commitRows ord d (row :: rest) hSqlServer).1,
        { d with
          setList := done ++ (commitRows ord d (row :: rest) hSqlServer).2
          setIndex := ((done.length + rest.length : Nat) : Int) }) := by
  induction rest generalizing done row hSqlServer fuel with
  | nil =>
    obtain ⟨fuel, rfl⟩ := Nat.exists_eq_add_one_of_ne_zero (Nat.ne_of_gt hfuel)
    rw [commitLoop, commitRow_onRow]
    cases hsql : rowSql ord d row with
    | none =>
      rw [commitRows_idle hsql]
      simp only [ok_bind, moveNextRow_last]
      rfl
    | some sqlStr =>
      rw [commitRows_run hsql]
      simp only [ok_bind, moveNextRow_last]
      rfl
  | cons next rest ih =>
    obtain ⟨fuel, rfl⟩ :=
      Nat.exists_eq_add_one_of_ne_zero (Nat.ne_of_gt (Nat.lt_of_le_of_lt (Nat.zero_le _) hfuel))
    have hfuel' : rest.length < fuel := by
      rw [List.length_cons] at hfuel
      omega
    have hindex : ∀ row' : DBDataRow, (done ++ [row']).length + rest.length =
        done.length + (next :: rest).length := by
      intro row'
      rw [List.length_append, List.length_singleton, List.length_cons]
      omega
    rw [commitLoop, commitRow_onRow]
    cases hsql : rowSql ord d row with
    | none =>
      rw [commitRows_idle hsql]
      simp only [ok_bind, moveNextRow_next, if_true]
      rw [ih (done ++ [row]) next hSqlServer fuel hfuel', hindex, List.append_assoc]
      rfl
    | some sqlStr =>
      rw [commitRows_run hsql]
      simp only [ok_bind, moveNextRow_next, if_true]
      rw [ih _ next _ fuel hfuel', hindex, List.append_assoc]
      rfl

/-- `Commit` never leaves the row list, and does what the walk over the rows does. -/
theorem commit_eq (ord : HashOrder) (hSqlServer : DBSqlServer) (d : DBDataSet) :
    ∃ setIndex, d.commit ord hSqlServer =
      .ok ((commitRows ord d d.setList hSqlServer).1,
        { d with setList := (commitRows ord d d.setList hSqlServer).2, setIndex := setIndex }) ∧
      (d.setList = [] → setIndex = d.setIndex) ∧
      (d.setList ≠ [] → 0 ≤ setIndex ∧ setIndex.toNat < d.setList.length) := by
  unfold commit moveBeginRow
  cases hlist : d.setList with
  | nil =>
    rw [if_pos rfl]
    refine ⟨d.setIndex, ?_, fun _ => rfl, fun h => absurd rfl h⟩
    show Except.ok (hSqlServer, d) =
        Except.ok (hSqlServer, { d with setList := [], setIndex := d.setIndex })
    rw [← hlist]
  | cons row rest =>
    rw [if_neg (List.cons_ne_nil row rest)]
    have hplace : { d with setList := row :: rest, setIndex := 0 } = d.onRow [] row rest := rfl
    refine ⟨rest.length, ?_, fun h => absurd h (List.cons_ne_nil row rest),
      fun _ => ⟨Int.natCast_nonneg _, ?_⟩⟩
    · dsimp only
      rw [if_pos rfl, hplace, commitLoop_onRow ord rest [] row hSqlServer _ (by simp)]
      simp
    · rw [Int.toNat_natCast, List.length_cons]
      omega

theorem length_commitRows (ord : HashOrder) (rows : List DBDataRow) (hSqlServer : DBSqlServer) :
    (commitRows ord d rows hSqlServer).2.length = rows.length := by
  induction rows generalizing hSqlServer with
  | nil => rfl
  | cons row rows ih =>
    cases hsql : rowSql ord d row with
    | none => rw [commitRows_idle hsql, List.length_cons, ih, List.length_cons]
    | some sqlStr => rw [commitRows_run hsql, List.length_cons, ih, List.length_cons]

/-! ## What a walk leaves of the flags -/

variable {ord : HashOrder}

theorem modifySql_eq_none {tableName keyName : Str} :
    modifySql ord tableName keyName row = none ↔ ¬ row.Dirty := by
  have hnone : (ord.order row.rowList.entries).filter (·.2.bModify) = [] ↔ ¬ row.Dirty := by
    rw [List.filter_eq_nil_iff]
    constructor
    · rintro h ⟨e, he, hm⟩
      exact h e (ord.mem_order.mpr he) hm
    · intro h e he hm
      exact h ⟨e, ord.mem_order.mp he, hm⟩
  unfold modifySql
  dsimp only
  split
  · next h => exact iff_of_true rfl (hnone.mp h)
  · next h => exact iff_of_false (fun he => by cases he) fun hd => h (hnone.mpr hd)

/-- Rows that are neither new nor modified need no statement. -/
theorem rowSql_eq_none : rowSql ord d row = none ↔ row.bInsert = false ∧ ¬ row.Dirty := by
  unfold rowSql
  cases hnew : row.bInsert with
  | true => simp
  | false => simpa using modifySql_eq_none

theorem committed_bInsert : (d.committed row true).bInsert = false := rfl

theorem dirty_committed {temp : Bool} : (d.committed row temp).Dirty ↔ row.Dirty := by
  have hkey : (if row.bInsert then row else row.atField d.sKeyName).Dirty ↔ row.Dirty := by
    split
    · exact Iff.rfl
    · exact DBDataRow.dirty_atField
  unfold committed
  cases temp with
  | true => exact hkey
  | false => exact hkey

/-- A walk over rows that need no statement changes nothing. -/
theorem commitRows_eq_self (rows : List DBDataRow) (hSqlServer : DBSqlServer)
    (h : ∀ row ∈ rows, rowSql ord d row = none) :
    commitRows ord d rows hSqlServer = (hSqlServer, rows) := by
  induction rows with
  | nil => rfl
  | cons row rows ih =>
    rw [commitRows_idle (h row List.mem_cons_self), ih fun r hr => h r (List.mem_cons_of_mem row hr)]

theorem commitRows_ran (rows : List DBDataRow) (hSqlServer : DBSqlServer) :
    hSqlServer.ran <+: (commitRows ord d rows hSqlServer).1.ran := by
  induction rows generalizing hSqlServer with
  | nil => exact List.prefix_rfl
  | cons row rows ih =>
    cases hsql : rowSql ord d row with
    | none =>
      rw [commitRows_idle hsql]
      exact ih hSqlServer
    | some sqlStr =>
      rw [commitRows_run hsql]
      have hrun : hSqlServer.ran <+: (hSqlServer.excuteCommitSQL sqlStr).1.ran := List.prefix_append _ _
      exact hrun.trans (ih _)

/-- Once every statement has succeeded, no row is new. -/
theorem commitRows_bInsert (rows : List DBDataRow) (hSqlServer : DBSqlServer)
    (h : ∀ run ∈ (commitRows ord d rows hSqlServer).1.ran, run.2 = true) :
    ∀ row ∈ (commitRows ord d rows hSqlServer).2, row.bInsert = false := by
  induction rows generalizing hSqlServer with
  | nil => intro row hrow; cases hrow
  | cons row rows ih =>
    cases hsql : rowSql ord d row with
    | none =>
      rw [commitRows_idle hsql] at h ⊢
      intro r hr
      rcases List.mem_cons.mp hr with rfl | hr
      · exact (rowSql_eq_none.mp hsql).1
      · exact ih hSqlServer h r hr
    | some sqlStr =>
      rw [commitRows_run hsql] at h ⊢
      intro r hr
      rcases List.mem_cons.mp hr with rfl | hr
      · have hran : (cstr sqlStr, (hSqlServer.excuteCommitSQL sqlStr).2) ∈
            (hSqlServer.excuteCommitSQL sqlStr).1.ran := by
          exact List.mem_append_right _ List.mem_cons_self
        have hok := h _ ((commitRows_ran rows _).subset hran)
        rw [show (hSqlServer.excuteCommitSQL sqlStr).2 = true from hok]
        exact committed_bInsert
      · exact ih _ h r hr

/-- A walk clears no modify flag. -/
theorem dirty_commitRows (rows : List DBDataRow) (hSqlServer : DBSqlServer) :
    (∃ row ∈ (commitRows ord d rows hSqlServer).2, row.Dirty) ↔ ∃ row ∈ rows, row.Dirty := by
  induction rows generalizing hSqlServer with
  | nil => exact Iff.rfl
  | cons row rows ih =>
    cases hsql : rowSql ord d row with
    | none =>
      rw [commitRows_idle hsql]
      simp only [List.mem_cons, exists_eq_or_imp, ih]
    | some sqlStr =>
      rw [commitRows_run hsql]
      simp only [List.mem_cons, exists_eq_or_imp, ih, dirty_committed]

/-- With enough successes to come, a walk meets no failure. -/
theorem commitRows_succeed (rows : List DBDataRow) (n : Nat) (ran : List (Str × Bool))
    (hn : rows.length ≤ n) (h : ∀ run ∈ ran, run.2 = true) :
    ∀ run ∈ (commitRows ord d rows { answers := List.replicate n true, ran := ran }).1.ran,
      run.2 = true := by
  induction rows generalizing n ran with
  | nil => exact h
  | cons row rows ih =>
    rw [List.length_cons] at hn
    cases hsql : rowSql ord d row with
    | none =>
      rw [commitRows_idle hsql]
      exact ih n ran (by omega) h
    | some sqlStr =>
      obtain ⟨n, rfl⟩ := Nat.exists_eq_add_one_of_ne_zero (show n ≠ 0 by omega)
      rw [commitRows_run hsql]
      refine ih n (ran ++ [(cstr sqlStr, true)]) (by omega) fun run hrun => ?_
      rcases List.mem_append.mp hrun with hrun | hrun
      · exact h run hrun
      · rw [List.mem_singleton.mp hrun]

/-! ## Committing twice -/

/-- After a `Commit` whose statements all succeeded, no row is new, no field
answers `isModify`, and another `Commit` runs no statement. -/
def CommitsOnce (ord : HashOrder) (d : DBDataSet) : Prop :=
  ∀ answers, Returns (d.commit ord { answers := answers }) fun first =>
    (∀ run ∈ first.1.ran, run.2 = true) →
      (∀ row ∈ first.2.setList, row.bInsert = false ∧ ¬ row.Dirty) ∧
      ∀ ord' answers', Returns (first.2.commit ord' { answers := answers' }) fun second =>
        second.1.ran = []

/-- A modified field is still modified after a `Commit` that succeeded. -/
theorem not_commitsOnce_of_dirty (h : ∃ row ∈ d.setList, row.Dirty) : ¬ d.CommitsOnce ord := by
  intro honce
  obtain ⟨i, hcommit, -⟩ := commit_eq ord { answers := List.replicate d.setList.length true } d
  have hfirst := honce (List.replicate d.setList.length true)
  rw [hcommit, returns_ok] at hfirst
  have hran : ∀ run ∈ (commitRows ord d d.setList
      { answers := List.replicate d.setList.length true }).1.ran, run.2 = true :=
    commitRows_succeed d.setList _ [] (Nat.le_refl _) (by simp)
  obtain ⟨row, hrow, hdirty⟩ : ∃ row ∈ (commitRows ord d d.setList
      { answers := List.replicate d.setList.length true }).2, row.Dirty :=
    (dirty_commitRows d.setList _).mpr h
  exact ((hfirst hran).1 row hrow).2 hdirty

/-- **Committing twice.**  A second `Commit` is idle after every successful
first one exactly when no field was modified to begin with: inserts are
settled, modifications are sent again each time. -/
theorem commitsOnce_iff (ord : HashOrder) (d : DBDataSet) :
    d.CommitsOnce ord ↔ ∀ row ∈ d.setList, ¬ row.Dirty := by
  constructor
  · intro h row hrow hdirty
    exact not_commitsOnce_of_dirty ⟨row, hrow, hdirty⟩ h
  · intro h answers
    obtain ⟨i, hcommit, -⟩ := commit_eq ord { answers := answers } d
    rw [hcommit, returns_ok]
    intro hran
    have hclean : ∀ row ∈ (commitRows ord d d.setList { answers := answers }).2,
        row.bInsert = false ∧ ¬ row.Dirty := by
      intro row hrow
      refine ⟨commitRows_bInsert d.setList _ hran row hrow, fun hdirty => ?_⟩
      obtain ⟨row', hrow', hdirty'⟩ := (dirty_commitRows d.setList _).mp ⟨row, hrow, hdirty⟩
      exact h row' hrow' hdirty'
    refine ⟨hclean, fun ord' answers' => ?_⟩
    obtain ⟨j, hsecond, -⟩ := commit_eq ord' { answers := answers' }
      { d with setList := (commitRows ord d d.setList { answers := answers }).2, setIndex := i }
    rw [hsecond, returns_ok, commitRows_eq_self _ _ fun row hrow => rowSql_eq_none.mpr (hclean row hrow)]

/-- A row fetched by key, with its name changed since. -/
def renamedRow : DBDataSet where
  sTableName := lit "t"
  sKeyName := lit "id"
  setList := [DBDataRow.new (UMap.insertNew (lit "name") { sData := lit "b", bModify := true }
    (UMap.insertNew (lit "id") (DBDataField.new (lit "1")) ∅))]

/-- The update of a changed name is run by each of two commits. -/
theorem commitsOnce_broken :
    ¬ renamedRow.CommitsOnce .plain ∧
    Returns (renamedRow.commit .plain { answers := [true] }) fun first =>
      first.1.ran = [(lit "update t set name='b' where id='1';", true)] ∧
      Returns (first.2.commit .plain { answers := [true] }) fun second => second.1.ran =
          first.1.ran := by
  refine ⟨not_commitsOnce_of_dirty ⟨_, List.mem_cons_self, ?_⟩, ?_⟩
  · decide
  · decide +kernel

end DBDataSet

end FuServer
