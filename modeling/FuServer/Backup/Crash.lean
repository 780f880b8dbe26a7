import FuServer.Backup.Restart

/-!
# Stopping without a last pass

A pass writes a table when its time is up; what comes after that is only in
the cache.  `crash_restores`: stop a run anywhere, and a manager that loads a
table has the rows of its last save.  `rows_untouched`: a row that no
modification names is as it was when the run began.
-/

namespace FuServer

open Bytes Outcome SqlText SqlTables Runs KeyedStore

/-! ## What a pass leaves alone -/

namespace DBTable

variable {fp : FloatUnit} {E : Engine} {s : E.State} {t : DBTable fp} {r : DBRecord} {T : Table}
    {db : Str}
/-- The command of a record touches its row and no other. -/
theorem rowAt_exec (h : t.WellFormed) (hd : t.fieldNameList.Nodup) {done : List RecRef}
    (hm : t.Mirrors done T) {k : Str} (hr : t.recordSet.lookup k = some r)
    (hread : t.Readable E db r) (hT : E.tables s db t.sTableName = some T) {db' table k' : Str}
    (hother : db' = db → table = t.sTableName → k' ≠ k) :
    (E.tables (E.exec s db (cstr (t.cmdText r))).1).rowAt db' table k' =
      (E.tables s).rowAt db' table k' := by
  obtain ⟨T', row, htables, hsets, -⟩ := exec_cmdText h hd hm hr hread hT
  rw [htables]
  exact (E.tables s).rowAt_put hT fun hdb htable => hsets.other k' (hother hdb htable)

/-- Loading rows takes no time. -/
theorem checkToTable_backupTime {fields : List MysqlField} {rows : List (List (Option Str))}
    {t t' : DBTable fp}
    (h : checkToTable fields rows t = .ok (some t')) : t'.fBackupTime = t.fBackupTime := by
  induction rows generalizing t with
  | nil =>
    cases h
    rfl
  | cons row rows ih =>
    rw [checkToTable] at h
    obtain ⟨⟨t1, o⟩, hinsert, h⟩ := bind_eq_ok.mp h
    cases o with
    | none => cases h
    | some k =>
      refine (ih h).trans ?_
      obtain ⟨f, -, hinsert⟩ := bind_eq_ok.mp hinsert
      split at hinsert
      · cases hinsert
      · obtain ⟨t2, hset, hinsert⟩ := bind_eq_ok.mp hinsert
        obtain ⟨iType, -, hset⟩ := bind_eq_ok.mp hset
        cases hset
        cases hinsert
        rfl

end DBTable

namespace DBManager

variable {fp : FloatUnit} {E : Engine} {m m' : DBManager fp} {dt : fp.Flt} {s : E.State}

theorem rowAt_trace (h : m.WellFormed)
    (hd : ∀ tname t, m.tableSet.lookup tname = some t → t.fieldNameList.Nodup)
    (hwrite : m.Writable E dt) {trace : List CmdRun}
    (htrace : ∀ run ∈ trace, run.db = m.pDBLink.selected ∧ m.commandOf dt run.ref = some run.text)
    {done : List RecRef} (hk : m.KeptBut done (E.tables s)) {db table k : Str}
    (hnot : m.commandOf dt (table, k) = none ∨ db ≠ m.pDBLink.selected) :
    (E.tables (served E s trace)).rowAt db table k = (E.tables s).rowAt db table k := by
  induction trace generalizing done s with
  | nil => rfl
  | cons run trace ih =>
    obtain ⟨hdb, hcmd⟩ := htrace run List.mem_cons_self
    refine (ih (fun run' hrun => htrace run' (List.mem_cons_of_mem _ hrun))
      (kept_run h hd hwrite hk hdb hcmd)).trans ?_
    obtain ⟨t, r, ht, hdue, hr, hp, htext⟩ := text_of_commandOf hcmd
    obtain ⟨hselected, hread⟩ :=
      hwrite ⟨_, t⟩ (UMap.mem_entries.mpr ht) hdue ⟨_, r⟩ (UMap.mem_entries.mpr hr) hp
    obtain ⟨hname, -, T, hT, hm⟩ := hk _ t ht
    rw [← hselected] at hread
    rw [htext, hdb, ← hselected]
    refine DBTable.rowAt_exec (h _ t ht) (hd _ t ht) hm hr hread (hname.symm ▸ hT) ?_
    rintro hsame htable rfl
    rw [hname] at htable
    subst htable
    rcases hnot with hnone | hdb'
    · cases hnone.symm.trans hcmd
    · exact hdb' (hsame.trans hselected)

/-- A pass leaves the rows it has no command for. -/
theorem rowAt_update (h : m.WellFormed)
    (hd : ∀ tname t, m.tableSet.lookup tname = some t → t.fieldNameList.Nodup)
    (hwrite : m.Writable E dt) (hk : m.KeptBut [] (E.tables s)) {ord : HashOrder}
    {answer : Str → RecRef → Bool} {trace : List CmdRun}
    (hs : m.update ord answer dt = .ok (m', trace)) {db table k : Str}
    (hnot : m.commandOf dt (table, k) = none ∨ db ≠ m.pDBLink.selected) :
    (E.tables (served E s trace)).rowAt db table k = (E.tables s).rowAt db table k :=
  rowAt_trace h hd hwrite (update_runs h hs) hk hnot

/-! ## Saves -/

/-- The call takes all of the table from the server or sends all of it there. -/
def Saves (m : DBManager fp) (tname : Str) : ManagerCall fp → Prop
  | .load _ tname' _ => tname' = tname ∧ tname ∉ m.tableSet
  | .update _ _ dt => m.isDueName dt tname = true
  | _ => False

end DBManager

namespace System

open DBManager

variable {fp : FloatUnit} {E : Engine} {s s' : System fp E} {c : ManagerCall fp} {tname : Str}

/-- `t'` is `t` at a later time, with other records perhaps. -/
structure Later (t t' : DBTable fp) (time : fp.Flt) : Prop where
  names : t'.fieldNameList = t.fieldNameList
  key : t'.keyName = t.keyName
  dbname : t'.sDBName = t.sDBName
  time : t'.fBackupTime = time

theorem Later.refl (t : DBTable fp) : Later t t t.fBackupTime := ⟨rfl, rfl, rfl, rfl⟩

theorem Later.trans {t t1 t' : DBTable fp} {time time' : fp.Flt} (h : Later t t1 time)
    (h' : Later t1 t' time') :
    Later t t' time' :=
  ⟨h'.names.trans h.names, h'.key.trans h.key, h'.dbname.trans h.dbname, h'.time⟩

theorem step_other (hc : ∀ ord answer dt, c ≠ .update ord answer dt) (hs : step s c = some s') :
    s'.db = s.db ∧ ∃ r, s.mgr.manage c = some (s'.mgr, r) := by
  have hstep : step s c = (s.mgr.manage c).map fun p => ⟨p.1, s.db⟩ := by
    cases c with
    | update ord answer dt => exact absurd rfl (hc ord answer dt)
    | load dbname tname reply => rfl
    | insert tname d => rfl
    | modify tname k d => rfl
    | query ord tname fieldName b => rfl
    | close => rfl
  rw [hstep] at hs
  obtain ⟨p, hp, rfl⟩ := Option.map_eq_some_iff.mp hs
  exact ⟨rfl, p.2, hp⟩

/-- A table whose records change keeps the rest. -/
theorem later_put {m : DBManager fp} {tname' : Str} {t0 t1 t' : DBTable fp}
    (ht0 : m.tableSet.lookup tname' = some t0) (hsame : t0.SameSchema t1)
    (htime : t1.fBackupTime = t0.fBackupTime)
    (ht' : (m.putTable tname' t1).tableSet.lookup tname = some t') :
    ∃ t, m.tableSet.lookup tname = some t ∧ Later t t' t.fBackupTime ∧
      ∀ k r, t.recordSet.lookup k = some r →
        (tname' = tname → t1.recordSet.lookup k = t0.recordSet.lookup k) →
        t'.recordSet.lookup k = some r := by
  rw [lookup_putTable] at ht'
  split at ht'
  · next he =>
    subst he
    rw [ht0] at ht'
    cases ht'
    refine ⟨t0, ht0, ⟨hsame.names, ?_, hsame.dbname, htime⟩, fun k r hr hkept => (hkept rfl).trans hr⟩
    unfold DBTable.keyName
    rw [hsame.names, hsame.key]
  · exact ⟨t', ht', Later.refl t', fun _ _ hr _ => hr⟩

/-- A table that is there after a call was there before, or the call loaded it; the call leaves
the records it does not modify. -/
theorem later_manage (hw : s.mgr.WellFormed) {m' : DBManager fp} {r : KeyedStore.Reply Str Str}
    (hc : ∀ ord answer dt, c ≠ .update ord answer dt) (hs : s.mgr.manage c = some (m', r))
    {t' : DBTable fp} (ht' : m'.tableSet.lookup tname = some t') (hnot : ¬ s.mgr.Saves tname c) :
    ∃ t, s.mgr.tableSet.lookup tname = some t ∧ Later t t' t.fBackupTime ∧
      ∀ k r, t.recordSet.lookup k = some r → (∀ d, c ≠ .modify tname k d) →
        t'.recordSet.lookup k = some r := by
  have same : s.mgr.tableSet.lookup tname = some t' → ∃ t, s.mgr.tableSet.lookup tname = some t ∧
      Later t t' t.fBackupTime ∧ ∀ k r, t.recordSet.lookup k = some r → (∀ d, c ≠ .modify tname k d) →
        t'.recordSet.lookup k = some r := fun ht => ⟨t', ht, Later.refl t', fun _ _ hr _ => hr⟩
  cases c with
  | load dbname tname' reply =>
    obtain ⟨ok, hr, -⟩ := manage_load hs
    rcases loadTable_exits hr with ⟨-, rfl | rfl⟩ | ⟨fields, res, t, -, hnew, -, -, -, -, -, rfl⟩
    · exact same ht'
    · rw [enterDB_tableSet] at ht'
      exact same ht'
    · change (UMap.insertNew tname' _ (s.mgr.enterDB dbname reply.useOk).1.tableSet).lookup tname =
        some t' at ht'
      rw [UMap.lookup_insertNew, enterDB_tableSet] at ht'
      split at ht'
      · next he => exact absurd ⟨he.1.symm, he.1 ▸ hnew⟩ hnot
      · exact same ht'
  | insert tname' d =>
    obtain ⟨k0, hr, -⟩ := manage_insert hs
    rcases insertDB_cases hw hr with ⟨rfl, -⟩ | ⟨t0, ht0, hrefuse, -, rfl⟩
    · exact same ht'
    · obtain ⟨t, ht, hlater, hrec⟩ := later_put ht0 (DBTable.addRecord_same t0 _ _) rfl ht'
      refine ⟨t, ht, hlater, fun k r hr _ => hrec k r hr fun he => ?_⟩
      subst he
      cases ht.symm.trans ht0
      have hnew : t0.newKey d ∉ t0.recordSet := fun hmem => hrefuse (Or.inl hmem)
      rw [DBTable.addRecord_recordSet, UMap.lookup_insertNew, if_neg]
      rintro ⟨rfl, -⟩
      exact hnew (UMap.mem_of_lookup hr)
  | modify tname' k0 d =>
    obtain ⟨ok, hr, -⟩ := manage_modify hs
    rcases modifyDB_cases hw hr with ⟨rfl, -⟩ | ⟨t0, r0, ht0, -, -, -, rfl⟩
    · exact same ht'
    · obtain ⟨t, ht, hlater, hrec⟩ := later_put ht0 (DBTable.putRecord_same t0 _ _) rfl ht'
      refine ⟨t, ht, hlater, fun k r hr hother => hrec k r hr fun he => ?_⟩
      subst he
      rw [DBTable.lookup_putRecord, if_neg]
      rintro rfl
      exact hother d rfl
  | query ord tname' fieldName b =>
    obtain ⟨ok, rows, names, -, rfl, -⟩ := manage_query hs
    exact same ht'
  | update ord answer dt => exact absurd rfl (hc ord answer dt)
  | close =>
    cases hs
    exact same ht'

/-- A pass runs its commands on the server. -/
theorem db_update {ord : HashOrder} {answer : Str → RecRef → Bool} {dt : fp.Flt} {trace : List CmdRun}
    (hs : step s (.update ord answer dt) = some s')
    (hup : s.mgr.update ord answer dt = .ok (s'.mgr, trace)) :
    s'.db = served E s.db trace := by
  unfold step at hs
  dsimp only at hs
  rw [hup] at hs
  exact (congrArg System.db (Option.some.inj hs)).symm

/-- **A save** leaves nothing of the table pending, and its clock starts. -/
theorem step_saved (h : s.Sound) (hready : Ready s c) (hs : step s c = some s')
    {t' : DBTable fp} (ht' : s'.mgr.tableSet.lookup tname = some t') (hsaves : s.mgr.Saves tname c) :
    t'.fBackupTime = fp.fltOfNat 0 ∧ ∀ k, ∀ r ∈ t'.recordSet.lookup k, r.pending = false := by
  obtain ⟨S, hS⟩ := h.stores
  cases c with
  | update ord answer dt =>
    obtain ⟨trace, hup⟩ := step_update hs
    obtain ⟨t, ht, hafter⟩ := after_update hS.wellFormed hup ht'
    have hdue : s.mgr.isDue t dt = true := by
      rw [← isDueName_of_lookup ht]
      exact hsaves
    obtain ⟨rs, hrest⟩ := hafter.rest
    refine ⟨by rw [hrest, if_pos hdue], fun k r hr => ?_⟩
    rw [hafter.records k] at hr
    obtain ⟨r0, -, rfl⟩ := Option.map_eq_some_iff.mp hr
    rw [if_pos hdue]
    rfl
  | load dbname tname' reply =>
    obtain ⟨rfl, hnew⟩ := hsaves
    obtain ⟨-, r, hrun⟩ := step_other (fun _ _ _ heq => by cases heq) hs
    obtain ⟨ok, hr, -⟩ := manage_load hrun
    rcases loadTable_exits hr with ⟨-, hm | hm⟩ | ⟨fields, res, t, -, -, -, hinfo, hkey, hselect,
      hrows, hm⟩
    · rw [hm, AList.lookup_eq_none.mpr hnew] at ht'
      cases ht'
    · rw [hm, enterDB_tableSet, AList.lookup_eq_none.mpr hnew] at ht'
      cases ht'
    · have hlook : s'.mgr.tableSet.lookup tname' = some
          { t with
            sTableName := tname'
            sDBName := (s.mgr.enterDB dbname reply.useOk).1.sCurrentDB } := by
        rw [hm]
        show (UMap.insertNew _ _ (s.mgr.enterDB dbname reply.useOk).1.tableSet).lookup _ = _
        rw [UMap.lookup_insertNew, if_pos ⟨rfl, by rw [enterDB_tableSet]; exact hnew⟩]
      cases hlook.symm.trans ht'
      obtain rfl := hready.1.2.consistent fields hinfo res hselect
      obtain ⟨o, ho, hloaded⟩ := checkToTable_new fp res hkey
      cases ho.symm.trans hrows
      refine ⟨DBTable.checkToTable_backupTime hrows, fun k r hr => ?_⟩
      obtain ⟨hi, hmod⟩ := (hloaded t rfl).2.2 k r hr
      unfold DBRecord.pending
      rw [hi, hmod]
      rfl
  | insert tname' d => exact absurd hsaves id
  | modify tname' k d => exact absurd hsaves id
  | query ord tname' fieldName b => exact absurd hsaves id
  | close => exact absurd hsaves id

/-! ## Runs -/

theorem Sound.after (h : s.Sound) (hready : Ready s c) (hs : step s c = some s') : s'.Sound := by
  obtain ⟨s1, hs1, hsound⟩ := sound_step h hready
  cases hs1.symm.trans hs
  exact hsound

/-- The row is on the server, and the cache has nothing to write for it. -/
structure Rests (s : System fp E) (db table k : Str) (row : NullRow) : Prop where
  there : (E.tables s.db).rowAt db table k = some row
  written : ∀ t, s.mgr.tableSet.lookup table = some t → cstr t.sDBName = db →
    ∀ r, t.recordSet.lookup k = some r →
    r.pending = false

/-- A row that rests is that of a record, if its table is cached. -/
theorem Rests.cached {db table k : Str} {row : NullRow} (h : Rests s db table k row) (hs : s.Sound)
    {t : DBTable fp} (ht : s.mgr.tableSet.lookup table = some t) (hdb : cstr t.sDBName = db) :
    ∃ r, t.recordSet.lookup k = some r := by
  obtain ⟨-, -, T, hT, hm⟩ := hs.kept table t ht
  have hrow := h.there
  unfold Database.rowAt at hrow
  rw [← hdb, hT, Option.bind_some] at hrow
  have hfit := (mirrors_nil.mp hm).2.2 k
  cases hr : t.recordSet.lookup k with
  | none =>
    rw [hr] at hfit
    cases hrow.symm.trans hfit
  | some r => exact ⟨r, rfl⟩

theorem rests_step (h : s.Sound) {db table k : Str} {row : NullRow} (hrests : Rests s db table k row)
    (hready : Ready s c) (hother : ∀ d, c ≠ .modify table k d) (hs : step s c = some s') :
    Rests s' db table k row := by
  obtain ⟨S, hS⟩ := h.stores
  have hw := hS.wellFormed
  by_cases hc : ∀ ord answer dt, c ≠ .update ord answer dt
  · obtain ⟨hdb, r, hrun⟩ := step_other hc hs
    refine ⟨by rw [hdb]; exact hrests.there, fun t' ht' hdb' r' hr' => ?_⟩
    by_cases hsaves : s.mgr.Saves table c
    · exact (step_saved h hready hs ht' hsaves).2 k r' hr'
    · obtain ⟨t, ht, hlater, hrec⟩ := later_manage hw hc hrun ht' hsaves
      rw [hlater.dbname] at hdb'
      obtain ⟨r0, hr0⟩ := hrests.cached h ht hdb'
      cases hr'.symm.trans (hrec k r0 hr0 hother)
      exact hrests.written t ht hdb' r' hr0
  · push Not at hc
    obtain ⟨ord, answer, dt, rfl⟩ := hc
    obtain ⟨trace, hup⟩ := step_update hs
    refine ⟨?_, fun t' ht' hdb' r' hr' => ?_⟩
    · -- a command for the row would be that of a record that waits
      rw [db_update hs hup, rowAt_update hw (fun _ _ ht => (h.loaded ht).2.1) hready.2 h.kept hup,
        hrests.there]
      by_cases hcmd : s.mgr.commandOf dt (table, k) = none
      · exact Or.inl hcmd
      · obtain ⟨text, htext⟩ := Option.ne_none_iff_exists'.mp hcmd
        obtain ⟨t, r, ht, hdue, hr, hp, -⟩ := text_of_commandOf htext
        obtain ⟨hselected, -⟩ :=
          hready.2 ⟨_, t⟩ (UMap.mem_entries.mpr ht) hdue ⟨_, r⟩ (UMap.mem_entries.mpr hr) hp
        refine Or.inr fun hdb => ?_
        rw [hrests.written t ht (hselected.trans hdb.symm) r hr] at hp
        cases hp
    · obtain ⟨t, ht, ⟨rs, hrest⟩, hrec⟩ := after_update hw hup ht'
      have hname : t'.sDBName = t.sDBName := by rw [hrest]
      rw [hname] at hdb'
      rw [hrec k] at hr'
      obtain ⟨r, hr, rfl⟩ := Option.map_eq_some_iff.mp hr'
      split
      · rfl
      · exact hrests.written t ht hdb' r hr

/-- **A row that no modification names is untouched**, in whatever database it is, whoever loads
its table and however often its neighbours are written: every cell stays, the NULLs too. -/
theorem rows_untouched (dbname : Str) (server : E.State) (calls : List (ManagerCall fp))
    (hok : Within step Ready (⟨createLink dbname, server⟩ : System fp E) calls) {db table k : Str}
    {row : NullRow} (hrow : (E.tables server).rowAt db table k = some row)
    (hother : ∀ c ∈ calls, ∀ d, c ≠ .modify table k d) :
    ∃ s' : System fp E, run step ⟨createLink dbname, server⟩ calls = some s' ∧
      (E.tables s'.db).rowAt db table k = some row := by
  suffices ∀ s : System fp E, s.Sound → Rests s db table k row → Within step Ready s calls →
      ∃ s', run step s calls = some s' ∧ (E.tables s'.db).rowAt db table k = some row from
    this _ (sound_createLink dbname server) ⟨hrow, fun t ht => by cases ht⟩ hok
  clear hok hrow
  induction calls with
  | nil => exact fun s _ hrests _ => ⟨s, rfl, hrests.there⟩
  | cons c calls ih =>
    rintro s h hrests ⟨hready, hrest⟩
    obtain ⟨s1, hs1, hsound⟩ := sound_step h hready
    have hrests1 := rests_step h hrests hready (hother c List.mem_cons_self) hs1
    obtain ⟨s', hrun, hlast⟩ :=
      ih (fun c' hc' => hother c' (List.mem_cons_of_mem c hc')) s1 hsound hrests1 (hrest s1 hs1)
    refine ⟨s', ?_, hlast⟩
    rw [run, hs1]
    exact hrun

/-- The row of `oneRowDatabase` keeps its NULL while another goes in beside it. -/
theorem rows_untouched_oneRow :
    ∃ s', run step oneRowSystem
        [.load [] (lit "t") rowReply, .insert (lit "t") (UMap.insertNew (lit "name") (lit "x") ∅),
          .update .plain (fun _ _ => true) (10 : ℚ)] = some s' ∧
      Database.rowAt s'.db (lit "db") (lit "t") (lit "1") = some fun _ => none :=
  rows_untouched (E := .ofTables []) (lit "db") oneRowDatabase _ (by decide +kernel) rfl (by simp)

end System

end FuServer
