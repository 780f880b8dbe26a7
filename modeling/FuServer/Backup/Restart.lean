import FuServer.Backup.Coherence

/-!
# Closing and starting again

When the thread of the manager ends it makes one more pass, with the closing
flag set, so every table is due.  `restart_restores`: a manager that loads a
table afterwards has the rows the first one had when it was closed.
-/

namespace FuServer

open Bytes Outcome SqlText SqlTables Runs KeyedStore

/-! ## Records that are written -/

/-- What a row of the server says in the columns of a table. -/
def rowTexts (names : List Str) (key k : Str) (row : NullRow) (c : DBTable.Column names) : Str :=
  (if c.1 = key then some k else row c.1).getD []

/-- A record that fits its row and is not pending has the row's texts. -/
theorem Fits.texts {T : Table} {names : List Str} {k : Str} {o : Option DBRecord} (h : Fits T names k o)
    (hp : ∀ r ∈ o, r.pending = false) :
    o.map (DBTable.rowOf names) = (T.rows.lookup k).map (rowTexts names T.key k) := by
  cases o with
  | none =>
    rw [show T.rows.lookup k = none from h]
    rfl
  | some r =>
    obtain ⟨hi, hm⟩ := Bool.or_eq_false_iff.mp (hp r rfl)
    obtain ⟨row, hrow, htexts⟩ := (fits_old (Bool.eq_false_iff.mp hi)).mp h
    rw [hrow, Option.map_some, Option.map_some]
    congr 1
    funext c
    exact (htexts hm c.1 c.2).symm

namespace DBManager

variable {fp : FloatUnit}

/-- While the manager closes every table is due. -/
theorem isDue_of_close {m : DBManager fp} (h : m.bClose = true) (t : DBTable fp) (dt : fp.Flt) :
    m.isDue t dt = true := by
  unfold isDue
  rw [h]
  exact Bool.or_true _

/-- After the last pass each table has the texts it had and nothing is pending. -/
theorem update_of_close {m m' : DBManager fp} (hw : m.WellFormed) (hclose : m.bClose = true)
    {ord : HashOrder} {answer : Str → RecRef → Bool} {dt : fp.Flt} {trace : List CmdRun}
    (hs : m.update ord answer dt = .ok (m', trace)) {tname : Str} {t : DBTable fp}
    (ht : m.tableSet.lookup tname = some t) :
    ∃ t', m'.tableSet.lookup tname = some t' ∧ t'.fieldNameList = t.fieldNameList ∧
      t'.keyName = t.keyName ∧
      t'.sDBName = t.sDBName ∧
        ∀ k, t'.recordSet.lookup k = (t.recordSet.lookup k).map DBRecord.cleared := by
  obtain ⟨s, hok, inv⟩ := update_spec hw ord answer dt
  cases hok.symm.trans hs
  have hmem : tname ∈ ord.order m.tableSet.keys :=
    ord.mem_order.mpr (AList.mem_keys.mpr (UMap.mem_of_lookup ht))
  obtain ⟨t0, t', h0, h1, ⟨rs, hrest⟩, hrec⟩ := inv.after tname hmem
  cases h0.symm.trans ht
  refine ⟨t', h1, ?_, ?_, ?_, fun k => ?_⟩
  · rw [hrest]
  · rw [hrest]
    rfl
  · rw [hrest]
  · rw [hrec k]
    simp only [isDue_of_close hclose, if_true]

end DBManager

/-! ## Loading again -/

namespace System

open DBManager

variable {fp : FloatUnit} {E : Engine}

theorem selected_entered {m : DBManager fp} {dbname : Str} (hdb : dbname ≠ []) :
    (m.enterDB dbname true).1.pDBLink.selected = cstr dbname := by
  unfold enterDB changeDB DBMysql.runSqlCMD
  rw [if_pos hdb, if_neg hdb, useOperand_use]
  rfl

/-- A load that is told of a mirrored table goes through, and what it makes is mirrored too. -/
theorem loads_mirrored {D : Database} {m : DBManager fp} {dbname tname : Str} {reply : LoadReply}
    (hserv : reply.Servable) (huse : reply.useOk = true) (hselect : reply.select ≠ none)
    (hnew : tname ∉ m.tableSet) {T : Table}
    (hT : D (m.enterDB dbname reply.useOk).1.pDBLink.selected (cstr tname) = some T)
    (hempty : [] ∉ T.rows) (htells : m.Tells D dbname tname reply) :
    ∃ m' t', m.loadTable dbname tname reply = .ok (m', true) ∧ m'.tableSet.lookup tname = some t' ∧
      t'.Mirrors [] T ∧ t'.Clean := by
  obtain ⟨fields, hinfo⟩ := Option.ne_none_iff_exists'.mp hserv.reported
  obtain ⟨res, hres⟩ := Option.ne_none_iff_exists'.mp hselect
  obtain rfl := hserv.consistent fields hinfo res hres
  obtain ⟨T', hT', hcols, hkey, hkeyed, hperm⟩ := htells (Or.inr huse) _ hinfo res hres
  cases hT.symm.trans hT'
  have hlt : (checkFieldInfo res.fields).2.2.toNat < T.columns.length := by
    rw [hcols]
    exact (new_checkFieldInfo fp hkey).schema.keyHi
  obtain ⟨m', b, hload⟩ := loadTable_returns hserv m dbname tname
  rcases loadTable_exits hload with ⟨rfl, -⟩ | ⟨fields, res', t, rfl, -, -, hinfo', -, hselect',
    hrows, rfl⟩
  · obtain ⟨fields, hinfo', hnone⟩ := (loadTable_refused_iff hserv.consistent m dbname tname).mp
      (hload ▸ returns_ok.mpr rfl) hnew (Or.inr huse)
    cases hinfo.symm.trans hinfo'
    exact absurd (keyedRows_listing hperm hlt (hcols ▸ hkeyed.symm) hempty) (hnone hkey res hres)
  · cases hinfo.symm.trans hinfo'
    cases hres.symm.trans hselect'
    refine ⟨_, _, hload, ?_, mirrors_loaded hkey hrows hcols hkeyed hperm tname
      (m.enterDB dbname reply.useOk).1.sCurrentDB, ?_⟩
    · show (UMap.insertNew tname _ (m.enterDB dbname reply.useOk).1.tableSet).lookup tname = _
      rw [UMap.lookup_insertNew, if_pos ⟨rfl, by rw [enterDB_tableSet]; exact hnew⟩]
    · obtain ⟨o, ho, hloaded⟩ := checkToTable_new fp res hkey
      cases ho.symm.trans hrows
      exact (hloaded t rfl).2.2

/-- A table of nothing pending has the server's rows. -/
theorem rowsOf_written {s : System fp E} (h : s.Sound) {tname : Str} {t : DBTable fp}
    (ht : s.mgr.tableSet.lookup tname = some t)
    (hp : ∀ k, ∀ r ∈ t.recordSet.lookup k, r.pending = false) (k : Str) :
    t.rowsOf t.fieldNameList k =
      ((E.tables s.db).rowAt (cstr t.sDBName) tname k).map (rowTexts t.fieldNameList t.keyName k) := by
  obtain ⟨-, -, T, hT, hm⟩ := h.kept tname t ht
  obtain ⟨-, hkey, hfits⟩ := mirrors_nil.mp hm
  unfold Database.rowAt
  rw [hT, Option.bind_some, ← hkey]
  exact (hfits k).texts (hp k)

/-- A cached table is loaded with the rows that the server has of it. -/
theorem loads_server {s : System fp E} (h : s.Sound) {tname : Str} {t : DBTable fp}
    (ht : s.mgr.tableSet.lookup tname = some t) (hdb : t.sDBName ≠ []) (dbname : Str) {reply : LoadReply}
    (hserv : reply.Servable) (huse : reply.useOk = true) (hselect : reply.select ≠ none)
    (htells : (createLink dbname : DBManager fp).Tells (E.tables s.db) t.sDBName tname reply) :
    ∃ m' t', (createLink dbname : DBManager fp).loadTable t.sDBName tname reply = .ok (m', true) ∧
      m'.tableSet.lookup tname = some t' ∧ t'.fieldNameList = t.fieldNameList ∧ t'.keyName = t.keyName ∧
      ∀ k, t'.rowsOf t.fieldNameList k =
        ((E.tables s.db).rowAt (cstr t.sDBName) tname k).map (rowTexts t.fieldNameList t.keyName k) := by
  obtain ⟨-, hnul, T, hT, hm⟩ := h.kept tname t ht
  obtain ⟨hcols, hkey, hfits⟩ := mirrors_nil.mp hm
  have hempty : [] ∉ T.rows := by
    have hnone := hfits []
    rw [AList.lookup_eq_none.mpr (h.loaded ht).2.2] at hnone
    exact AList.lookup_eq_none.mp hnone
  obtain ⟨m', t', hload, hlook, hm', hclean⟩ :=
    loads_mirrored (m := (createLink dbname : DBManager fp)) hserv huse hselect
      (AList.notMem_empty tname)
      (by rw [huse, selected_entered hdb, cstr_eq_self.mpr hnul, hT]) hempty htells
  obtain ⟨hcols', hkey', hfits'⟩ := mirrors_nil.mp hm'
  refine ⟨m', t', hload, hlook, hcols'.symm.trans hcols, hkey'.symm.trans hkey, fun k => ?_⟩
  have hfit' := hfits' k
  rw [hcols'.symm.trans hcols] at hfit'
  unfold Database.rowAt
  rw [hT, Option.bind_some, ← hkey]
  refine hfit'.texts fun r hr => ?_
  obtain ⟨hi, hmod⟩ := hclean k r hr
  unfold DBRecord.pending
  rw [hi, hmod]
  rfl

theorem step_update {s s' : System fp E} {ord : HashOrder} {answer : Str → RecRef → Bool} {dt : fp.Flt}
    (h : step s (.update ord answer dt) = some s') :
    ∃ trace, s.mgr.update ord answer dt = .ok (s'.mgr, trace) := by
  unfold step at h
  dsimp only at h
  split at h
  · next hup =>
    cases h
    exact ⟨_, hup⟩
  · cases h

/-- **A restart restores.**  Take any run that ends with the closing and the last pass.  A manager
that is new, whatever database it starts in, and is told by the server of a table the old one had,
has the rows the old one had when it was closed. -/
theorem restart_restores (dbname : Str) (server : E.State) (calls : List (ManagerCall fp))
    (ord : HashOrder) (answer : Str → RecRef → Bool) (dt : fp.Flt)
    (hok : Within step Ready (⟨createLink dbname, server⟩ : System fp E)
      (calls ++ [.close, .update ord answer dt]) ) :
    ∃ s s' : System fp E, run step ⟨createLink dbname, server⟩ calls = some s ∧
      run step s [.close, .update ord answer dt] = some s' ∧
      ∀ tname t, s.mgr.tableSet.lookup tname = some t → t.sDBName ≠ [] → ∀ (dbname' : Str)
        (reply : LoadReply),
        reply.Servable → reply.useOk = true → reply.select ≠ none →
        (createLink dbname' : DBManager fp).Tells (E.tables s'.db) t.sDBName tname reply →
        ∃ m' t', (createLink dbname' : DBManager fp).loadTable t.sDBName tname reply = .ok (m', true) ∧
          m'.tableSet.lookup tname = some t' ∧ t'.fieldNameList = t.fieldNameList ∧
            t'.keyName = t.keyName ∧
          t'.rowsOf t.fieldNameList = t.rowsOf t.fieldNameList := by
  obtain ⟨hcalls, hlast⟩ := within_append.mp hok
  obtain ⟨s, hrun, hs⟩ := run_of_within (fun _ _ h hready => sound_step h hready) calls _
    (sound_createLink dbname server) hcalls
  obtain ⟨hclose, hpass⟩ := hlast s hrun
  obtain ⟨s1, hstep1, hs1⟩ := sound_step hs hclose
  obtain ⟨s', hstep2, hs'⟩ := sound_step hs1 (hpass s1 hstep1).1
  refine ⟨s, s', hrun, ?_, fun tname t ht hdb dbname' reply hserv huse hselect htells => ?_⟩
  · show (step s .close).bind _ = _
    rw [hstep1]
    show (step s1 (.update ord answer dt)).bind _ = _
    rw [hstep2]
    rfl
  · cases hstep1
    -- the last pass writes everything
    obtain ⟨trace, hup⟩ := step_update hstep2
    obtain ⟨S, hS⟩ := hs1.stores
    obtain ⟨t', ht', hnames, hkey, hsame, hrec⟩ := update_of_close hS.wellFormed rfl hup ht
    have hrows : t'.rowsOf t.fieldNameList = t.rowsOf t.fieldNameList := by
      funext k
      show (t'.recordSet.lookup k).map _ = (t.recordSet.lookup k).map _
      rw [hrec k, Option.map_map]
      rfl
    have hwritten : ∀ k, ∀ r ∈ t'.recordSet.lookup k, r.pending = false := by
      intro k r hr
      rw [hrec k] at hr
      obtain ⟨r0, -, rfl⟩ := Option.map_eq_some_iff.mp hr
      rfl
    rw [← hsame] at hdb htells ⊢
    obtain ⟨m2, t2, hload, hlook, hnames2, hkey2, hserver⟩ := loads_server hs' ht' hdb dbname' hserv huse
      hselect htells
    have hrows2 : t2.rowsOf t'.fieldNameList = t'.rowsOf t'.fieldNameList :=
      funext fun k => (hserver k).trans (rowsOf_written hs' ht' hwritten k).symm
    rw [hnames] at hnames2 hrows2
    exact ⟨m2, t2, hload, hlook, hnames2, hkey2.trans hkey, hrows2.trans hrows⟩

/-- What a select lists of the table once the rows of `writtenCalls` are written. -/
def rereadReply : LoadReply where
  useOk := true
  info := some [⟨lit "id", .long, true, false⟩, ⟨lit "name", .varString, false, false⟩]
  select := some
    { fields := [⟨lit "id", .long, true, false⟩, ⟨lit "name", .varString, false, false⟩]
      rows := [[some (lit "1"), some (lit "y")], [some (lit "2"), some (lit "x")],
        [some (lit "3"), some []]]
      width := by decide }

/-- The rows of `writtenCalls` are there after a restart. -/
theorem restart_restores_oneRow :
    ∃ s t m' t', run step oneRowSystem writtenCalls = some s ∧
      s.mgr.tableSet.lookup (lit "t") = some t ∧
      (createLink (lit "db") : DBManager .exactRational).loadTable (lit "db")
        (lit "t") rereadReply = .ok (m', true) ∧
      m'.tableSet.lookup (lit "t") = some t' ∧ t'.fieldNameList = t.fieldNameList ∧
        t'.keyName = t.keyName ∧
      t'.rowsOf t.fieldNameList = t.rowsOf t.fieldNameList := by
  have hok : Within step Ready oneRowSystem
      (writtenCalls ++ [.close, .update .plain (fun _ _ => true) (0 : ℚ)]) := by decide +kernel
  have htable : ∀ s ∈ run step oneRowSystem writtenCalls,
      ∃ t ∈ s.mgr.tableSet.lookup (lit "t"), t.sDBName = lit "db" := by decide +kernel
  have htells : ∀ s ∈ run step oneRowSystem writtenCalls,
      ∀ s' ∈ run step s [.close, .update .plain (fun _ _ => true) (0 : ℚ)],
        (createLink (lit "db") : DBManager .exactRational).Tells ((Engine.ofTables []).tables s'.db)
          (lit "db") (lit "t")
          rereadReply := by
    decide +kernel
  obtain ⟨s, s', hs, hs', hall⟩ :=
    restart_restores (E := .ofTables []) (lit "db") oneRowDatabase writtenCalls .plain
      (fun _ _ => true) (0 : ℚ) hok
  obtain ⟨t, ht, hdb⟩ := htable s hs
  obtain ⟨m', t', hload⟩ :=
    hall (lit "t") t ht (by rw [hdb]; decide) (lit "db") rereadReply (by decide +kernel) rfl
      (by decide +kernel) (by rw [hdb]; exact htells s hs s' hs')
  rw [hdb] at hload
  exact ⟨s, t, m', t', hs, ht, hload⟩

end System

end FuServer
