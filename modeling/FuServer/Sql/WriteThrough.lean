import FuServer.Sql.Execute

/-!
# Rows written through

A `Commit` is a walk over the rows, and the server a table under keys.  Each
row is told what becomes of it and of what the server has under its key; rows
with keys that the server tells apart do not meet.
-/

namespace FuServer

open Bytes SqlText SqlTables

namespace DBDataSet

variable {E : QueryEngine} {db : Str} {s : E.State} {ord : HashOrder} {d : DBDataSet} {row : DBDataRow}
  {rows : List DBDataRow} {T T' : Table}

/-! ## A row -/

/-- The row behind a `Commit`: still new when its key was there. -/
def rowAfter (row : DBDataRow) (before : Option NullRow) : DBDataRow :=
  { row with bInsert := row.bInsert && before.isSome }

theorem rowAfter_old (h : row.bInsert = false) (before : Option NullRow) :
    rowAfter row before = row := by
  unfold rowAfter
  rw [h, Bool.false_and, ← h]

theorem Belongs.atField_eq (hb : Belongs E db d T row) : row.atField d.sKeyName = row := by
  obtain ⟨f, hf, -⟩ := hb.key
  unfold DBDataRow.atField
  rw [UMap.insertNew, if_pos (UMap.mem_of_lookup hf)]

/-- A row is done as the server says. -/
theorem committed_taken (ord : HashOrder) (hb : Belongs E db d T row) (before : Option NullRow) :
    d.committed row (taken ord row before) = rowAfter row before := by
  unfold committed
  cases hnew : row.bInsert with
  | true =>
    rw [if_pos rfl, taken, if_pos hnew]
    unfold rowAfter
    rw [hnew, Bool.true_and]
    cases before with
    | none => rfl
    | some r =>
      show row = { row with bInsert := true }
      rw [← hnew]
  | false =>
    rw [if_neg Bool.false_ne_true, hb.atField_eq, rowAfter_old hnew]
    split
    · rw [DBDataRow.setIsInsert, ← hnew]
    · rfl

theorem walked_eq_nil (hsql : modifySql ord d.sTableName d.sKeyName row = none) :
    row.walked ord = [] := by
  rw [List.eq_nil_iff_forall_not_mem]
  intro i hi
  obtain ⟨e, he, hm, -⟩ := mem_walked hi
  exact modifySql_eq_none.mp hsql ⟨e, he, hm⟩

/-- A row without a statement is not new and has nothing to send. -/
theorem idle_row (hsql : rowSql ord d row = none) (before : Option NullRow) :
    row.bInsert = false ∧ serverAfter ord row before = before := by
  unfold rowSql at hsql
  cases hnew : row.bInsert with
  | true =>
    rw [if_pos hnew] at hsql
    cases hsql
  | false =>
    rw [if_neg (Bool.eq_false_iff.mp hnew)] at hsql
    refine ⟨rfl, ?_⟩
    rw [serverAfter, hnew, if_neg Bool.false_ne_true, walked_eq_nil hsql]

/-! ## The rows one by one -/

/-- One row, and then the others, none of which has its key. -/
theorem Settled.cons {T1 : Table} (h : Settled ord d [row] T T1) (h' : Settled ord d rows T1 T')
    (hne : ∀ r ∈ rows, d.rowKey r ≠ d.rowKey row) : Settled ord d (row :: rows) T T' := by
  have hkeys : d.rowKey row ∉ rows.map d.rowKey := by
    intro hmem
    obtain ⟨r, hr, heq⟩ := List.mem_map.mp hmem
    exact hne r hr heq
  have hother : ∀ k ≠ d.rowKey row, T1.rows.lookup k = T.rows.lookup k := by
    intro k hk
    refine h.other k ?_
    rw [List.map_singleton, List.mem_singleton]
    exact hk
  refine ⟨⟨h'.shape.1.trans h.shape.1, h'.shape.2.trans h.shape.2⟩, fun k hk => ?_, fun r hr => ?_⟩
  · rw [List.map_cons, List.mem_cons, not_or] at hk
    exact (h'.other k hk.2).trans (hother k hk.1)
  · rcases List.mem_cons.mp hr with rfl | hr
    · exact (h'.other _ hkeys).trans (h.server r List.mem_cons_self)
    · rw [h'.server r hr, hother _ (hne r hr)]

/-- The table has no keys but those it had and those of the rows. -/
theorem Settled.mem (h : Settled ord d rows T T') {k : Str} (hk : k ∈ T'.rows) :
    k ∈ T.rows ∨ k ∈ rows.map d.rowKey := by
  by_cases hmem : k ∈ rows.map d.rowKey
  · exact Or.inr hmem
  · rw [← AList.lookup_isSome, h.other k hmem, AList.lookup_isSome] at hk
    exact Or.inl hk

/-- The rows of a walk: rows of the table, which the server has unless they are
new, with keys that it tells apart from one another and from those of the table. -/
structure Walk (E : QueryEngine) (db : Str) (d : DBDataSet) (T : Table)
    (rows : List DBDataRow) : Prop where
  belongs : ∀ row ∈ rows, Belongs E db d T row
  there : ∀ row ∈ rows, row.bInsert = false → d.rowKey row ∈ T.rows
  apart : ∀ row ∈ rows, E.Apart db d.sTableName T (d.rowKey row)
  unlike : (rows.map d.rowKey).Pairwise fun k k' => ¬ E.Alike db d.sTableName k k'

theorem Walk.unlike_head (h : Walk E db d T (row :: rows)) :
    ∀ r ∈ rows, ¬ E.Alike db d.sTableName (d.rowKey row) (d.rowKey r) := by
  have hunlike := h.unlike
  rw [List.map_cons, List.pairwise_cons] at hunlike
  exact fun r hr => hunlike.1 _ (List.mem_map_of_mem hr)

theorem Walk.ne_head (h : Walk E db d T (row :: rows)) : ∀ r ∈ rows, d.rowKey r ≠ d.rowKey row :=
  fun r hr heq => h.unlike_head r hr (heq ▸ Engine.Alike.refl _)

/-- What one row does leaves a walk of the others. -/
theorem Walk.tail (h : Walk E db d T (row :: rows)) (hset : Settled ord d [row] T T') :
    Walk E db d T' rows := by
  have hunlike := h.unlike
  rw [List.map_cons, List.pairwise_cons] at hunlike
  refine ⟨fun r hr => ?_, fun r hr hold => ?_, fun r hr => ?_, hunlike.2⟩
  · exact (h.belongs r (List.mem_cons_of_mem row hr)).of_columns rfl rfl hset.shape.1
  · have hkey : d.rowKey r ∉ [row].map d.rowKey := by
      rw [List.map_singleton, List.mem_singleton]
      exact h.ne_head r hr
    rw [← AList.lookup_isSome, hset.other _ hkey, AList.lookup_isSome]
    exact h.there r (List.mem_cons_of_mem row hr) hold
  · refine (h.apart r (List.mem_cons_of_mem row hr)).of_rows fun k hk => ?_
    rcases hset.mem hk with hmem | hmem
    · exact Or.inl hmem
    · rw [List.map_singleton, List.mem_singleton] at hmem
      exact Or.inr (Or.inr (hmem ▸ h.unlike_head r hr))

/-- The server does with the texts of a walk what each row asks, when it is the one that answered. -/
theorem serve_commitRows (ord : HashOrder) (hT : E.tables s db d.sTableName = some T)
    (hedit : E.Editable db d.sTableName T) (hkey : T.key = d.sKeyName) (hwalk : Walk E db d T rows)
    (hSqlServer : DBSqlServer) :
    ∃ run, (commitRows ord d rows hSqlServer).1.ran = hSqlServer.ran ++ run ∧
      ((E.serve s db (run.map (·.1))).2 = run.map (·.2) →
        ∃ T', E.tables (E.serve s db (run.map (·.1))).1 = (E.tables s).put db d.sTableName T' ∧
          Settled ord d rows T T' ∧
          (commitRows ord d rows hSqlServer).2 =
            rows.map fun row => rowAfter row (T.rows.lookup (d.rowKey row))) := by
  induction rows generalizing s T hSqlServer with
  | nil =>
    refine ⟨[], (List.append_nil _).symm, fun _ => ⟨T, ?_, ⟨⟨rfl, rfl⟩, fun _ _ => rfl, nofun⟩, rfl⟩⟩
    exact (Database.put_eq_self hT).symm
  | cons row rows ih =>
    have hrow := hwalk.belongs row List.mem_cons_self
    cases hsql : rowSql ord d row with
    | none =>
      obtain ⟨hold, hidle⟩ := idle_row hsql (T.rows.lookup (d.rowKey row))
      have hset : Settled ord d [row] T T := settled_refused hidle
      obtain ⟨run, hran, hserve⟩ := ih hT hedit hkey (hwalk.tail hset) hSqlServer
      refine ⟨run, by rw [commitRows_idle hsql, hran], fun hagree => ?_⟩
      obtain ⟨T', htables, hrest, hrows⟩ := hserve hagree
      refine ⟨T', htables, hset.cons hrest hwalk.ne_head, ?_⟩
      rw [commitRows_idle hsql, List.map_cons, rowAfter_old hold, hrows]
    | some sqlStr =>
      obtain ⟨hflag, T1, htables, hset⟩ :=
        exec_row hT hedit hkey hrow (hwalk.apart row List.mem_cons_self)
          (hwalk.there row List.mem_cons_self) hsql
      have hT1 : E.tables (E.exec s db (cstr sqlStr)).1 db d.sTableName = some T1 := by
        rw [htables, Database.put_self]
      obtain ⟨run, hran, hserve⟩ :=
        ih hT1 (hedit.of_shape hset.shape) (hset.shape.2.trans hkey) (hwalk.tail hset)
          (hSqlServer.excuteCommitSQL sqlStr).1
      refine ⟨(cstr sqlStr, (hSqlServer.excuteCommitSQL sqlStr).2) :: run, ?_, fun hagree => ?_⟩
      · rw [commitRows_run hsql, hran, ← List.singleton_append, ← List.append_assoc]
        rfl
      · rw [List.map_cons, List.map_cons, Engine.serve] at hagree
        obtain ⟨hfirst, hagree⟩ := List.cons.inj hagree
        obtain ⟨T', htables', hrest, hrows⟩ := hserve hagree
        refine ⟨T', ?_, hset.cons hrest hwalk.ne_head, ?_⟩
        · rw [List.map_cons, Engine.serve]
          dsimp only
          rw [htables', htables, Database.put_put]
        · have hothers : (rows.map fun r => rowAfter r (T1.rows.lookup (d.rowKey r))) =
              rows.map fun r => rowAfter r (T.rows.lookup (d.rowKey r)) := by
            apply List.map_congr_left
            intro r hr
            rw [hset.other]
            rw [List.map_singleton, List.mem_singleton]
            exact hwalk.ne_head r hr
          rw [commitRows_run hsql, List.map_cons, ← hothers, ← hrows, ← committed_taken ord hrow,
            ← hflag]
          exact congrArg (d.committed row · :: _) hfirst.symm

/-! ## Commit -/

theorem rowKey_congr {d' : DBDataSet} (h : d'.sKeyName = d.sKeyName) : d'.rowKey = d.rowKey := by
  funext row
  unfold rowKey
  rw [h]

/-- What a `Commit` leaves of the rows and of the table they belong to. -/
structure Settles (ord : HashOrder) (d : DBDataSet) (T T' : Table) (d' : DBDataSet) : Prop
    extends Settled ord d d.setList T T' where
  rows : d'.setList = d.setList.map fun row => rowAfter row (T.rows.lookup (d.rowKey row))

/-- The rows keep their keys. -/
theorem Settles.keys {d' : DBDataSet} (h : Settles ord d T T' d') (hkey : d'.sKeyName = d.sKeyName) :
    d'.setList.map d'.rowKey = d.setList.map d.rowKey := by
  rw [h.rows, rowKey_congr hkey, List.map_map]
  rfl

/-- The server that answers a `Commit` has settled the rows behind it. -/
theorem commit_settles {answers : List Bool} {hSqlServer : DBSqlServer} {d' : DBDataSet}
    (hT : E.tables s db d.sTableName = some T) (hedit : E.Editable db d.sTableName T)
    (hkey : T.key = d.sKeyName) (hwalk : Walk E db d T d.setList)
    (h : d.commit ord { answers := answers } = .ok (hSqlServer, d'))
    (hagree : (E.serve s db (hSqlServer.ran.map (·.1))).2 = hSqlServer.ran.map (·.2)) :
    ∃ T', E.tables (E.serve s db (hSqlServer.ran.map (·.1))).1 = (E.tables s).put db d.sTableName T' ∧
      Settles ord d T T' d' := by
  obtain ⟨setIndex, hcommit, -⟩ := commit_eq ord { answers := answers } d
  obtain ⟨run, hran, hserve⟩ := serve_commitRows ord hT hedit hkey hwalk { answers := answers }
  rw [hcommit] at h
  cases h
  rw [hran, List.nil_append] at hagree ⊢
  obtain ⟨T', htables, hset, hrows⟩ := hserve hagree
  exact ⟨T', htables, hset, hrows⟩

/-- What a walk asks does not depend on the answers, so a server can answer it. -/
theorem commitRows_answered (E : QueryEngine) (s : E.State) (db : Str) (ord : HashOrder) (d : DBDataSet)
    (rows : List DBDataRow) :
    ∃ answers, ∀ ran, ∃ run, (commitRows ord d rows { answers := answers, ran := ran }).1.ran =
      ran ++ run ∧
      (E.serve s db (run.map (·.1))).2 = run.map (·.2) := by
  induction rows generalizing s with
  | nil => exact ⟨[], fun ran => ⟨[], (List.append_nil ran).symm, rfl⟩⟩
  | cons row rows ih =>
    cases hsql : rowSql ord d row with
    | none =>
      obtain ⟨answers, hanswers⟩ := ih s
      refine ⟨answers, fun ran => ?_⟩
      rw [commitRows_idle hsql]
      exact hanswers ran
    | some sqlStr =>
      obtain ⟨answers, hanswers⟩ := ih (E.exec s db (cstr sqlStr)).1
      refine ⟨(E.exec s db (cstr sqlStr)).2 :: answers, fun ran => ?_⟩
      obtain ⟨run, hran, hserve⟩ := hanswers (ran ++ [(cstr sqlStr, (E.exec s db (cstr sqlStr)).2)])
      refine ⟨(cstr sqlStr, (E.exec s db (cstr sqlStr)).2) :: run, ?_, ?_⟩
      · rw [commitRows_run hsql]
        exact hran.trans (List.append_assoc _ _ _)
      · rw [List.map_cons, List.map_cons, Engine.serve]
        exact congrArg (_ :: ·) hserve

theorem commit_answered (E : QueryEngine) (s : E.State) (db : Str) (ord : HashOrder) (d : DBDataSet) :
    ∃ answers hSqlServer d', d.commit ord { answers := answers } = .ok (hSqlServer, d') ∧
      (E.serve s db (hSqlServer.ran.map (·.1))).2 = hSqlServer.ran.map (·.2) := by
  obtain ⟨answers, hanswers⟩ := commitRows_answered E s db ord d d.setList
  obtain ⟨run, hran, hserve⟩ := hanswers []
  obtain ⟨setIndex, hcommit, -⟩ := commit_eq ord { answers := answers } d
  refine ⟨answers, _, _, hcommit, ?_⟩
  rw [hran, List.nil_append]
  exact hserve

end DBDataSet

end FuServer
