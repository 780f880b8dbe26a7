import FuServer.Backup.Actions

/-!
# Which database a command runs on

A backup command names its table without a database, so it runs on the one
the connection has selected.  `LoadTable` selects; `Update` does not.
`onItsDatabase_iff` says when every command of a run reaches the database its
table was loaded from.
-/

namespace FuServer

open Bytes Decimal Outcome Runs

namespace DBManager

variable {fp : FloatUnit}

/-- The connection's database is the one the manager entered last. -/
def Selected (m : DBManager fp) : Prop := m.pDBLink.selected = cstr m.sCurrentDB

theorem useOperand_use (dbname : Str) :
    useOperand (cstr (fuStringFormat (lit "use %s;") [dbname])) = some (cstr dbname) := by
  have hcmd : fuStringFormat (lit "use %s;") [dbname] = lit "use " ++ (cstr dbname ++ lit ";") := rfl
  have hnul : NoNul (lit "use " ++ (cstr dbname ++ lit ";")) :=
    noNul_append.mpr ⟨by decide, noNul_append.mpr ⟨noNul_cstr dbname, by decide⟩⟩
  rw [hcmd, cstr_eq_self.mpr hnul]
  show some ((cstr dbname ++ [59]).dropLast) = _
  rw [List.dropLast_concat]

theorem selected_changeDB {m : DBManager fp} (h : m.Selected) (dbname : Str) (answer : Bool) :
    (m.changeDB dbname answer).1.Selected := by
  unfold changeDB
  split
  · exact h
  · unfold DBMysql.runSqlCMD
    rw [useOperand_use]
    cases answer with
    | true => rfl
    | false => exact h

theorem selected_enterDB {m : DBManager fp} (h : m.Selected) (dbname : Str) (answer : Bool) :
    (m.enterDB dbname answer).1.Selected := by
  unfold enterDB
  split
  · exact selected_changeDB h dbname answer
  · exact h

theorem selected_act {m : DBManager fp} (hw : m.WellFormed) (h : m.Selected) {a : Action fp}
    (hc : Consistent a) {e : Effect fp} (hs : m.act a = some e) : e.mgr.Selected := by
  cases a with
  | load dbname tname reply =>
    obtain ⟨b, hr, -⟩ := act_load hs
    rcases loadTable_cases hc hr with (he | he) | ⟨t, -, -, he, -⟩
    · rw [he]
      exact h
    · rw [he]
      exact selected_enterDB h dbname reply.useOk
    · rw [he]
      exact selected_enterDB h dbname reply.useOk
  | insert tname d =>
    obtain ⟨k, hr, -⟩ := act_insert hs
    rcases insertDB_cases hw hr with ⟨he, -⟩ | ⟨t, -, -, -, he⟩
    · rw [he]
      exact h
    · rw [he]
      exact h
  | modify tname k d =>
    obtain ⟨ok, hr, -⟩ := act_modify hs
    rcases modifyDB_cases hw hr with ⟨he, -⟩ | ⟨t, r, -, -, -, -, he⟩
    · rw [he]
      exact h
    · rw [he]
      exact h
  | update ord answer dt =>
    obtain ⟨s, hok, inv⟩ := update_spec hw ord answer dt
    obtain ⟨hr, -⟩ := act_update hs
    rw [hok] at hr
    obtain ⟨he, -⟩ := Prod.mk.inj (Except.ok.inj hr)
    rw [← he]
    show s.mgr.pDBLink.selected = cstr s.mgr.sCurrentDB
    rw [inv.link, inv.current]
    exact h

/-! ## Commands and databases -/

/-- Every command the call runs meets the database recorded for its table. -/
def OnItsDatabase (m : DBManager fp) (a : Action fp) : Prop :=
  ∀ e ∈ m.act a, ∀ run ∈ e.runs, ∃ t ∈ m.tableSet.lookup run.ref.1, run.db = t.sDBName

instance (m : DBManager fp) (a : Action fp) : Decidable (m.OnItsDatabase a) :=
  inferInstanceAs (Decidable
    (∀ e ∈ m.act a, ∀ run ∈ e.runs, ∃ t ∈ m.tableSet.lookup run.ref.1, run.db = t.sDBName))

/-- A pass finds records to write back only in due tables of the database entered last. -/
def SameDatabase (m : DBManager fp) : Action fp → Prop
  | .update _ _ dt => ∀ tname t k r, m.tableSet.lookup tname = some t → m.isDue t dt = true →
      t.recordSet.lookup k = some r → r.pending = true → t.sDBName = cstr m.sCurrentDB
  | _ => True

/-- The commands of a pass are those of the records it owes one. -/
theorem exists_run_iff {m : DBManager fp} {answer : Str → RecRef → Bool} {dt : fp.Flt}
    {ord : HashOrder} {s : Pass fp} (inv : PassInv m answer dt (ord.order m.tableSet.keys) s)
    (ref : RecRef) : (∃ run ∈ s.trace, run.ref = ref) ↔ m.commandOf dt ref ≠ none := by
  have hruns := inv.runs ref
  have hne : (∃ run ∈ s.trace, run.ref = ref) ↔ runsOf s.trace ref ≠ [] := by
    unfold runsOf
    rw [ne_eq, List.map_eq_nil_iff, List.filter_eq_nil_iff]
    push Not
    simp
  rw [hne, hruns, expectedRuns]
  cases hcmd : m.commandOf dt ref with
  | none => simp
  | some text =>
    obtain ⟨t, r, hm, hd, -⟩ := text_of_commandOf hcmd
    dsimp only
    rw [dueFrom_walk ord hm hd]
    simp

theorem onItsDatabase_step {m : DBManager fp} (hw : m.WellFormed) (hs : m.Selected) (a : Action fp) :
    m.OnItsDatabase a ↔ m.SameDatabase a := by
  have idle : (∀ e, m.act a = some e → e.runs = []) → m.OnItsDatabase a := by
    intro h e he run hrun
    rw [h e he] at hrun
    cases hrun
  cases a with
  | load dbname tname reply =>
    refine iff_of_true (idle fun e he => ?_) trivial
    obtain ⟨b, -, hruns, -⟩ := act_load he
    exact hruns
  | insert tname d =>
    refine iff_of_true (idle fun e he => ?_) trivial
    obtain ⟨k, -, hruns, -⟩ := act_insert he
    exact hruns
  | modify tname k d =>
    refine iff_of_true (idle fun e he => ?_) trivial
    obtain ⟨ok, -, hruns, -⟩ := act_modify he
    exact hruns
  | update ord answer dt =>
    obtain ⟨s, hok, inv⟩ := update_spec hw ord answer dt
    have hact : m.act (.update ord answer dt) = some ⟨s.mgr, s.trace, none⟩ := by
      unfold act
      simp only [hok]
    constructor
    · intro h tname t k r hm hd hr hp
      have hcmd := commandOf_of_pending hm hd hr hp
      obtain ⟨run, hrun, href⟩ := (exists_run_iff inv (tname, k)).mpr (by rw [hcmd]; simp)
      obtain ⟨t', hm', hdb⟩ := h _ hact run hrun
      rw [href] at hm'
      obtain rfl : t = t' := Option.some.inj (hm.symm.trans hm')
      rw [← hdb, inv.db run hrun]
      exact hs
    · intro h e he run hrun
      rw [hact] at he
      cases he
      have hne := (exists_run_iff inv run.ref).mp ⟨run, hrun, rfl⟩
      obtain ⟨text, htext⟩ := Option.ne_none_iff_exists'.mp hne
      obtain ⟨t, r, hm, hd, hr, hp, -⟩ := text_of_commandOf htext
      refine ⟨t, hm, ?_⟩
      rw [h run.ref.1 t run.ref.2 r hm hd hr hp, inv.db run hrun]
      exact hs

def dbStep (m : DBManager fp) (a : Action fp) : Option (DBManager fp) := (m.act a).map (·.mgr)

/-- **Where commands run.**  In every run from a fresh connection, every backup
command meets the database of its table exactly when each pass finds records
to write back only in tables of the database entered last. -/
theorem onItsDatabase_iff (dbname : Str) (actions : List (Action fp))
    (hc : ∀ a ∈ actions, Consistent a) :
    EachStep dbStep OnItsDatabase (createLink dbname : DBManager fp) actions ↔
      EachStep dbStep SameDatabase (createLink dbname : DBManager fp) actions := by
  apply eachStep_congr (J := fun m => m.WellFormed ∧ m.Selected) (D := fun _ a => Consistent a)
  · rintro m a m' ⟨hw, hs⟩ hc - hstep
    obtain ⟨e, he, rfl⟩ := Option.map_eq_some_iff.mp hstep
    exact ⟨wellFormed_act hw hc he, selected_act hw hs hc he⟩
  · rintro m a m' ⟨hw, hs⟩ - -
    exact onItsDatabase_step hw hs a
  · refine ⟨wellFormed_createLink dbname, ?_⟩
    show cstr dbname = cstr (cstr dbname)
    rw [cstr_cstr]
  · exact eachStep_of_forall actions _ fun _ a ha => hc a ha

/-- A table of an integer key and a text column, with no rows. -/
def emptyReply : LoadReply where
  useOk := true
  info := some [⟨lit "id", .long, true, false⟩, ⟨lit "name", .varString, false, false⟩]
  select := some ⟨[⟨lit "id", .long, true, false⟩, ⟨lit "name", .varString, false, false⟩], [], nofun⟩

/-- A row goes into table `t` of database `a`; then a table of database `b` is loaded. -/
def crossRun : List (Action .exactRational) :=
  [.load [] (lit "t") emptyReply, .insert (lit "t") (UMap.insertNew (lit "name") (lit "x") ∅),
    .load (lit "b") (lit "u") emptyReply, .update .plain (fun _ _ => true) (10 : ℚ)]

/-- The row of `t` is written back while database `b` is selected. -/
theorem onItsDatabase_broken :
    ¬ EachStep dbStep OnItsDatabase (createLink (lit "a") : DBManager .exactRational) crossRun := by
  decide +kernel

theorem onItsDatabase_iff_crossRun :
    EachStep dbStep OnItsDatabase (createLink (lit "a") : DBManager .exactRational) crossRun ↔
      EachStep dbStep SameDatabase (createLink (lit "a") : DBManager .exactRational) crossRun :=
  onItsDatabase_iff (lit "a") crossRun (by decide)

end DBManager

end FuServer
