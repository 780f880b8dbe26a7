import FuServer.Backup.Commands

/-!
# One pass of Update

`st_backupCmdList` is shared by the tables of a pass and never emptied between
them, so the commands of a table run again with every due table that comes
after it.  `update_spec` says what a pass does in full: which commands it
runs, how often, on which database, and what it leaves behind.
-/

namespace FuServer

open Bytes Decimal Outcome

/-! ## Flags -/

/-- A record after `SetIsInsert(false)` and `SetIsModify(false)`. -/
def DBRecord.cleared (r : DBRecord) : DBRecord := (r.setIsInsert false).setIsModify false

theorem DBRecord.cleared_of_not_pending {r : DBRecord} (h : r.pending = false) : r.cleared = r := by
  obtain ⟨fields, i, m⟩ := r
  unfold DBRecord.pending at h
  obtain ⟨rfl, rfl⟩ : i = false ∧ m = false := by simpa using h
  rfl

@[simp] theorem DBRecord.pending_cleared (r : DBRecord) : r.cleared.pending = false := rfl

@[simp] theorem DBRecord.cleared_cleared (r : DBRecord) : r.cleared.cleared = r.cleared := rfl

namespace DBTable

variable {fp : FloatUnit}

/-- The table after the flags named by some commands of the pass are cleared. -/
def clearAll (tname : Str) (l : List (Σ _ : RecRef, Str)) (t : DBTable fp) : DBTable fp :=
  l.foldl (fun t c => if c.1.1 = tname then DBManager.clearRecord t c.1.2 else t) t

theorem clearAll_rest (tname : Str) (l : List (Σ _ : RecRef, Str)) (t : DBTable fp) :
    ∃ rs, clearAll tname l t = { t with recordSet := rs } := by
  induction l generalizing t with
  | nil => exact ⟨t.recordSet, rfl⟩
  | cons c l ih =>
    unfold clearAll
    rw [List.foldl_cons]
    by_cases hc : c.1.1 = tname
    · rw [if_pos hc]
      obtain ⟨rs, hrs⟩ := ih (DBManager.clearRecord t c.1.2)
      exact ⟨rs, hrs⟩
    · rw [if_neg hc]
      exact ih t

theorem lookup_clearAll (tname : Str) (l : List (Σ _ : RecRef, Str)) (t : DBTable fp) (k : Str) :
    (clearAll tname l t).recordSet.lookup k =
      (t.recordSet.lookup k).map fun r => if (tname, k) ∈ l.map (·.1) then r.cleared else r := by
  induction l generalizing t with
  | nil => simp [clearAll]
  | cons c l ih =>
    obtain ⟨⟨tn, k'⟩, text⟩ := c
    have hcons : clearAll tname (⟨(tn, k'), text⟩ :: l) t =
        clearAll tname l (if tn = tname then DBManager.clearRecord t k' else t) := rfl
    rw [hcons, ih, List.map_cons]
    by_cases hc : (tname, k) = (tn, k')
    · obtain ⟨rfl, rfl⟩ := Prod.mk.inj hc
      have hlook : (DBManager.clearRecord t k).recordSet.lookup k =
          (t.recordSet.lookup k).map DBRecord.cleared := UMap.lookup_adjust_self k _ t.recordSet
      rw [if_pos rfl, hlook, Option.map_map]
      congr 1
      funext r
      rw [if_pos List.mem_cons_self]
      show (if _ then r.cleared.cleared else r.cleared) = r.cleared
      rw [DBRecord.cleared_cleared, ite_self]
    · have hlook : (if tn = tname then DBManager.clearRecord t k' else t).recordSet.lookup k =
          t.recordSet.lookup k := by
        by_cases htn : tn = tname
        · rw [if_pos htn]
          exact UMap.lookup_adjust_ne (fun hk => hc (by rw [htn, hk])) _ t.recordSet
        · rw [if_neg htn]
      rw [hlook]
      congr 1
      funext r
      have hmem : ((tname, k) ∈ (tn, k') :: l.map (·.1)) ↔ (tname, k) ∈ l.map (·.1) := by
        rw [List.mem_cons, or_iff_right hc]
      simp only [hmem]

theorem clearAll_of_forall_ne {tname : Str} {l : List (Σ _ : RecRef, Str)}
    (h : ∀ c ∈ l, c.1.1 ≠ tname) (t : DBTable fp) : clearAll tname l t = t := by
  induction l generalizing t with
  | nil => rfl
  | cons c l ih =>
    unfold clearAll
    rw [List.foldl_cons, if_neg (h c List.mem_cons_self)]
    exact ih (fun c' hc' => h c' (List.mem_cons_of_mem c hc')) t

end DBTable

namespace DBManager

variable {fp : FloatUnit}

/-! ## Running the collection -/

theorem runSqlCMD_of_not_use {cmd : Str} (h : useOperand (cstr cmd) = none) (link : DBMysql)
    (answer : Bool) : link.runSqlCMD cmd answer = (link, answer) := by
  unfold DBMysql.runSqlCMD
  rw [h]

/-- The managers before and after the flags named by some commands are cleared. -/
def clearTables (m : DBManager fp) (l : List (Σ _ : RecRef, Str)) : DBManager fp :=
  l.foldl (fun m c => m.clearFlags c.1) m

theorem clearTables_rest (m : DBManager fp) (l : List (Σ _ : RecRef, Str)) :
    (m.clearTables l).pDBLink = m.pDBLink ∧ (m.clearTables l).sCurrentDB = m.sCurrentDB ∧
      (m.clearTables l).bClose = m.bClose := by
  induction l generalizing m with
  | nil => exact ⟨rfl, rfl, rfl⟩
  | cons c l ih => exact ih (m.clearFlags c.1)

theorem lookup_clearTables (m : DBManager fp) (l : List (Σ _ : RecRef, Str)) (tname : Str) :
    (m.clearTables l).tableSet.lookup tname =
      (m.tableSet.lookup tname).map (DBTable.clearAll tname l) := by
  induction l generalizing m with
  | nil =>
    show m.tableSet.lookup tname = (m.tableSet.lookup tname).map id
    rw [Option.map_id]
    rfl
  | cons c l ih =>
    have hcons : m.clearTables (c :: l) = (m.clearFlags c.1).clearTables l := rfl
    have hlook : (m.clearFlags c.1).tableSet.lookup tname =
        if tname = c.1.1 then (m.tableSet.lookup c.1.1).map fun t => clearRecord t c.1.2
        else m.tableSet.lookup tname := UMap.lookup_adjust c.1.1 tname _ m.tableSet
    rw [hcons, ih, hlook]
    by_cases hc : tname = c.1.1
    · rw [if_pos hc, ← hc, Option.map_map]
      congr 1
      funext t
      show DBTable.clearAll tname l (clearRecord t c.1.2) = DBTable.clearAll tname (c :: l) t
      unfold DBTable.clearAll
      rw [List.foldl_cons, if_pos hc.symm]
    · rw [if_neg hc]
      congr 1
      funext t
      unfold DBTable.clearAll
      rw [List.foldl_cons, if_neg fun h' => hc h'.symm]

/-- Running some commands none of which is a `use` statement. -/
theorem foldl_runCmd (answer : RecRef → Bool) (l : List (Σ _ : RecRef, Str)) (s : Pass fp)
    (h : ∀ c ∈ l, useOperand (cstr c.2) = none) :
    l.foldl (runCmd answer) s =
      { mgr := s.mgr.clearTables l
        cmdList := s.cmdList
        trace := s.trace ++ l.map fun c => ⟨c.1, c.2, s.mgr.pDBLink.selected, answer c.1⟩ } := by
  induction l generalizing s with
  | nil =>
    rw [List.map_nil, List.append_nil]
    rfl
  | cons c l ih =>
    have hrun : runCmd answer s c =
        { mgr := s.mgr.clearFlags c.1
          cmdList := s.cmdList
          trace := s.trace ++ [⟨c.1, c.2, s.mgr.pDBLink.selected, answer c.1⟩] } := by
      unfold runCmd
      rw [runSqlCMD_of_not_use (h c List.mem_cons_self)]
    rw [List.foldl_cons, ih _ (fun c' hc' => h c' (List.mem_cons_of_mem c hc')), hrun]
    rw [List.append_assoc, List.map_cons]
    rfl

/-! ## What a pass should run, and what it does run -/

/-- Table `tname` exists and is due. -/
def isDueName (m : DBManager fp) (dt : fp.Flt) (tname : Str) : Bool :=
  match m.tableSet.lookup tname with
  | some t => m.isDue t dt
  | none => false

/-- The command a pass owes the record `ref`: its table is due and it is pending. -/
def commandOf (m : DBManager fp) (dt : fp.Flt) (ref : RecRef) : Option Str :=
  if m.isDueName dt ref.1 then (m.tableSet.lookup ref.1).bind fun t => t.cmdAt ref.2 else none

/-- The due tables of a walk from table `tname` on. -/
def dueFrom (m : DBManager fp) (dt : fp.Flt) (tname : Str) (walk : List Str) : List Str :=
  (walk.dropWhile (· ≠ tname)).filter (m.isDueName dt)

/-- The texts and outcomes of the commands run for one record, in order. -/
def runsOf (trace : List CmdRun) (ref : RecRef) : List (Str × Bool) :=
  (trace.filter fun r => r.ref = ref).map fun r => (r.text, r.ok)

/-- A pass runs the command of a record once for each due table from the
record's own on; the outcomes are the server's answers. -/
def expectedRuns (m : DBManager fp) (answer : Str → RecRef → Bool) (dt : fp.Flt) (walk : List Str)
    (ref : RecRef) : List (Str × Bool) :=
  match m.commandOf dt ref with
  | some text => (m.dueFrom dt ref.1 walk).map fun tname => (text, answer tname ref)
  | none => []

/-- A table after its turn in a pass. -/
structure After (m : DBManager fp) (dt : fp.Flt) (t t' : DBTable fp) : Prop where
  rest : ∃ rs, t' = { t with
    recordSet := rs, fBackupTime := if m.isDue t dt then fp.fltOfNat 0 else backtime t dt }
  records : ∀ k, t'.recordSet.lookup k =
    (t.recordSet.lookup k).map fun r => if m.isDue t dt then r.cleared else r

/-- The state of a pass over the tables of `m` once those in `done` had their turn. -/
structure PassInv (m : DBManager fp) (answer : Str → RecRef → Bool) (dt : fp.Flt) (done : List Str)
    (s : Pass fp) : Prop where
  cmds : ∀ ref, s.cmdList.lookup ref = if ref.1 ∈ done then m.commandOf dt ref else none
  runs : ∀ ref, runsOf s.trace ref = m.expectedRuns answer dt done ref
  db : ∀ r ∈ s.trace, r.db = m.pDBLink.selected
  link : s.mgr.pDBLink = m.pDBLink
  current : s.mgr.sCurrentDB = m.sCurrentDB
  close : s.mgr.bClose = m.bClose
  before : ∀ tname, tname ∉ done → s.mgr.tableSet.lookup tname = m.tableSet.lookup tname
  after : ∀ tname ∈ done, ∃ t t', m.tableSet.lookup tname = some t ∧
    s.mgr.tableSet.lookup tname = some t' ∧ m.After dt t t'

theorem dueFrom_append (m : DBManager fp) (dt : fp.Flt) (tname' tname : Str) (done : List Str) :
    m.dueFrom dt tname' (done ++ [tname]) =
      m.dueFrom dt tname' done ++
        (if (tname' ∈ done ∨ tname' = tname) ∧ m.isDueName dt tname then [tname] else []) := by
  have hnil : done.dropWhile (· ≠ tname') = [] ↔ tname' ∉ done := by
    rw [List.dropWhile_eq_nil_iff]
    constructor
    · intro h hmem
      simpa using h tname' hmem
    · intro h x hx
      have : x ≠ tname' := by
        rintro rfl
        exact h hx
      simpa using this
  unfold dueFrom
  rw [List.dropWhile_append]
  by_cases hmem : tname' ∈ done
  · have hne : done.dropWhile (· ≠ tname') ≠ [] := fun h => hnil.mp h hmem
    rw [if_neg (by simpa using hne), List.filter_append]
    by_cases hd : m.isDueName dt tname = true
    · rw [if_pos ⟨Or.inl hmem, hd⟩, List.filter_cons_of_pos hd]
      rfl
    · rw [if_neg fun h => hd h.2, List.filter_cons_of_neg hd]
      rfl
  · rw [hnil.mpr hmem, List.isEmpty_nil, if_pos rfl, List.filter_nil, List.nil_append]
    by_cases he : tname' = tname
    · rw [List.dropWhile_cons_of_neg (by simpa using he.symm)]
      by_cases hd : m.isDueName dt tname = true
      · rw [if_pos ⟨Or.inr he, hd⟩, List.filter_cons_of_pos hd]
        rfl
      · rw [if_neg fun h => hd h.2, List.filter_cons_of_neg hd]
        rfl
    · rw [List.dropWhile_cons_of_pos (by simpa using Ne.symm he), if_neg]
      · rfl
      · rintro ⟨h | h, -⟩
        · exact hmem h
        · exact he h

theorem isDueName_of_lookup {m : DBManager fp} {tname : Str} {t : DBTable fp}
    (hm : m.tableSet.lookup tname = some t) (dt : fp.Flt) :
    m.isDueName dt tname = m.isDue t dt := by
  unfold isDueName
  rw [hm]

theorem commandOf_of_due {m : DBManager fp} {dt : fp.Flt} {tname : Str} {t : DBTable fp}
    (hm : m.tableSet.lookup tname = some t) (hd : m.isDue t dt = true) (k : Str) :
    m.commandOf dt (tname, k) = t.cmdAt k := by
  unfold commandOf
  rw [if_pos ((isDueName_of_lookup hm dt).trans hd), hm]
  rfl

theorem commandOf_of_pending {m : DBManager fp} {dt : fp.Flt} {tname k : Str} {t : DBTable fp}
    {r : DBRecord} (hm : m.tableSet.lookup tname = some t) (hd : m.isDue t dt = true)
    (hr : t.recordSet.lookup k = some r) (hp : r.pending = true) :
    m.commandOf dt (tname, k) = some (t.cmdText r) := by
  rw [commandOf_of_due hm hd, DBTable.cmdAt, hr, Option.bind_some, DBTable.cmdOf, if_pos hp]

theorem commandOf_of_not_due {m : DBManager fp} {dt : fp.Flt} {ref : RecRef}
    (hd : m.isDueName dt ref.1 = false) : m.commandOf dt ref = none := by
  unfold commandOf
  rw [if_neg (by rw [hd]; exact Bool.false_ne_true)]

/-- The texts of a pass are commands of records. -/
theorem text_of_commandOf {m : DBManager fp} {dt : fp.Flt} {ref : RecRef} {text : Str}
    (h : m.commandOf dt ref = some text) :
    ∃ t r, m.tableSet.lookup ref.1 = some t ∧ m.isDue t dt = true ∧
      t.recordSet.lookup ref.2 = some r ∧ r.pending = true ∧ text = t.cmdText r := by
  unfold commandOf isDueName at h
  cases hm : m.tableSet.lookup ref.1 with
  | none => rw [hm] at h; cases h
  | some t =>
    rw [hm] at h
    dsimp only at h
    split at h
    · next hd =>
      rw [Option.bind_some, DBTable.cmdAt] at h
      obtain ⟨r, hr, hcmd⟩ := Option.bind_eq_some_iff.mp h
      unfold DBTable.cmdOf at hcmd
      split at hcmd
      · next hp =>
        cases hcmd
        exact ⟨t, r, rfl, hd, hr, hp, rfl⟩
      · cases hcmd
    · cases h

theorem expectedRuns_append {m : DBManager fp} (answer : Str → RecRef → Bool) (dt : fp.Flt)
    (done : List Str) (tname : Str) (ref : RecRef) :
    m.expectedRuns answer dt (done ++ [tname]) ref =
      m.expectedRuns answer dt done ref ++
        (if m.isDueName dt tname then
          ((if ref.1 ∈ done ++ [tname] then m.commandOf dt ref else none).toList.map
            fun text => (text, answer tname ref)) else []) := by
  have hmem : ref.1 ∈ done ++ [tname] ↔ ref.1 ∈ done ∨ ref.1 = tname := by
    rw [List.mem_append, List.mem_singleton]
  unfold expectedRuns
  cases m.commandOf dt ref with
  | none => simp
  | some text =>
    dsimp only
    rw [dueFrom_append, List.map_append]
    congr 1
    by_cases hd : m.isDueName dt tname = true
    · by_cases hin : ref.1 ∈ done ++ [tname]
      · rw [if_pos ⟨hmem.mp hin, hd⟩, if_pos hd, if_pos hin]
        rfl
      · rw [if_neg fun h => hin (hmem.mpr h.1), if_pos hd, if_neg hin]
        rfl
    · rw [if_neg fun h => hd h.2, if_neg hd]
      rfl

theorem runsOf_append (trace trace' : List CmdRun) (ref : RecRef) :
    runsOf (trace ++ trace') ref = runsOf trace ref ++ runsOf trace' ref := by
  unfold runsOf
  rw [List.filter_append, List.map_append]

theorem mem_runsOf {trace : List CmdRun} {ref : RecRef} {text : Str} {ok : Bool} :
    (text, ok) ∈ runsOf trace ref ↔ ∃ run ∈ trace, run.ref = ref ∧ run.text = text ∧ run.ok = ok := by
  unfold runsOf
  rw [List.mem_map]
  constructor
  · rintro ⟨run, hrun, heq⟩
    obtain ⟨hrun, href⟩ := List.mem_filter.mp hrun
    obtain ⟨rfl, rfl⟩ := Prod.mk.inj heq
    exact ⟨run, hrun, by simpa using href, rfl, rfl⟩
  · rintro ⟨run, hrun, href, rfl, rfl⟩
    exact ⟨run, List.mem_filter.mpr ⟨hrun, by simpa using href⟩, rfl⟩

/-- The collection run once has each of its commands once. -/
theorem runsOf_collection {l : List (Σ _ : RecRef, Str)} (hl : l.NodupKeys) (db : Str)
    (answer : RecRef → Bool) (ref : RecRef) :
    runsOf (l.map fun c => ⟨c.1, c.2, db, answer c.1⟩) ref =
      (l.dlookup ref).toList.map fun text => (text, answer ref) := by
  unfold runsOf
  rw [List.filter_map, List.map_map]
  show (l.filter fun c => decide (c.1 = ref)).map _ = _
  rw [UMap.filter_key hl ref, List.map_map]
  rfl

/-! ## One table's turn -/

section Turn

variable {m : DBManager fp} {answer : Str → RecRef → Bool} {dt : fp.Flt} {done : List Str}
  {s : Pass fp} {tname : Str} {t : DBTable fp}

theorem PassInv.isDue_eq (inv : PassInv m answer dt done s) : s.mgr.isDue t dt = m.isDue t dt := by
  unfold isDue
  rw [inv.close]

theorem lookup_setBackupTime (m : DBManager fp) (tname tname' : Str) (time : fp.Flt) :
    (m.setBackupTime tname time).tableSet.lookup tname' =
      if tname' = tname then (m.tableSet.lookup tname).map fun t => { t with fBackupTime := time }
      else m.tableSet.lookup tname' :=
  UMap.lookup_adjust tname tname' _ m.tableSet

/-- The turn of a table that is not due: its time is advanced. -/
theorem PassInv.skip (inv : PassInv m answer dt done s) (hnew : tname ∉ done)
    (hm : m.tableSet.lookup tname = some t) (hd : m.isDue t dt = false) :
    PassInv m answer dt (done ++ [tname])
      { s with mgr := s.mgr.setBackupTime tname (backtime t dt) } := by
  have hdue : m.isDueName dt tname = false := (isDueName_of_lookup hm dt).trans hd
  have hs : s.mgr.tableSet.lookup tname = some t := by rw [inv.before tname hnew, hm]
  refine ⟨fun ref => ?_, fun ref => ?_, inv.db, inv.link, inv.current, inv.close,
    fun tname' hnot => ?_, fun tname' hmem => ?_⟩
  · show s.cmdList.lookup ref = _
    rw [inv.cmds ref]
    by_cases he : ref.1 = tname
    · rw [commandOf_of_not_due (he ▸ hdue), ite_self, ite_self]
    · have hiff : ref.1 ∈ done ++ [tname] ↔ ref.1 ∈ done := by
        rw [List.mem_append, List.mem_singleton, or_iff_left he]
      simp only [hiff]
  · show runsOf s.trace ref = _
    rw [expectedRuns_append, hdue, inv.runs ref, if_neg Bool.false_ne_true, List.append_nil]
  · rw [List.mem_append, List.mem_singleton, not_or] at hnot
    rw [lookup_setBackupTime, if_neg hnot.2]
    exact inv.before tname' hnot.1
  · rw [List.mem_append, List.mem_singleton] at hmem
    by_cases he : tname' = tname
    · subst he
      refine ⟨t, { t with fBackupTime := backtime t dt }, hm, ?_, ⟨t.recordSet, ?_⟩, fun k => ?_⟩
      · rw [lookup_setBackupTime, if_pos rfl, hs]
        rfl
      · rw [hd]
        rfl
      · simp [hd]
    · obtain ⟨t0, t1, h0, h1, hafter⟩ := inv.after tname' (hmem.resolve_right he)
      exact ⟨t0, t1, h0, by rw [lookup_setBackupTime, if_neg he]; exact h1, hafter⟩

/-- What is collected once a due table has added its commands. -/
theorem PassInv.collected (inv : PassInv m answer dt done s) (hnew : tname ∉ done)
    (hm : m.tableSet.lookup tname = some t) (hd : m.isDue t dt = true) {cmdList : UMap RecRef Str}
    (hcmds : ∀ ref, cmdList.lookup ref =
      (s.cmdList.lookup ref).or (if ref.1 = tname then t.cmdAt ref.2 else none)) (ref : RecRef) :
    cmdList.lookup ref = if ref.1 ∈ done ++ [tname] then m.commandOf dt ref else none := by
  obtain ⟨tn, k⟩ := ref
  rw [hcmds, inv.cmds]
  by_cases he : tn = tname
  · subst he
    rw [if_neg hnew, if_pos rfl, if_pos (List.mem_append_right done List.mem_cons_self),
      commandOf_of_due hm hd, Option.none_or]
  · have hiff : tn ∈ done ++ [tname] ↔ tn ∈ done := by
      rw [List.mem_append, List.mem_singleton, or_iff_left he]
    rw [if_neg he, Option.or_none]
    simp only [hiff]

/-- A due table whose pending records all have their flags cleared has had its turn. -/
theorem After.own (hd : m.isDue t dt = true) {l : List (Σ _ : RecRef, Str)}
    (hl : ∀ k r, t.recordSet.lookup k = some r → r.pending = true → (tname, k) ∈ l.map (·.1)) :
    m.After dt t { DBTable.clearAll tname l t with fBackupTime := fp.fltOfNat 0 } := by
  obtain ⟨rs, hrs⟩ := DBTable.clearAll_rest tname l t
  refine ⟨⟨rs, by rw [hrs, if_pos hd]⟩, fun k => ?_⟩
  show (DBTable.clearAll tname l t).recordSet.lookup k = _
  rw [DBTable.lookup_clearAll]
  cases hr : t.recordSet.lookup k with
  | none => rfl
  | some r =>
    rw [Option.map_some, Option.map_some, if_pos hd]
    cases hp : r.pending with
    | false => rw [DBRecord.cleared_of_not_pending hp, ite_self]
    | true => rw [if_pos (hl k r hr hp)]

/-- Clearing the flags of a due table once more changes nothing. -/
theorem After.again {t' : DBTable fp} (h : m.After dt t t') {l : List (Σ _ : RecRef, Str)}
    (hl : ∀ k, (tname, k) ∈ l.map (·.1) → m.isDue t dt = true) :
    m.After dt t (DBTable.clearAll tname l t') := by
  obtain ⟨⟨rs', hrest⟩, hrec⟩ := h
  obtain ⟨rs, hrs⟩ := DBTable.clearAll_rest tname l t'
  refine ⟨⟨rs, by rw [hrs, hrest]⟩, fun k => ?_⟩
  rw [DBTable.lookup_clearAll, hrec k, Option.map_map]
  congr 1
  funext r
  show (if (tname, k) ∈ l.map (·.1) then _ else _) = _
  split
  · next hin =>
    dsimp only
    rw [if_pos (hl k hin), DBRecord.cleared_cleared]
  · rfl

/-- The records with a collected command. -/
theorem mem_collected {cmdList : UMap RecRef Str} {l : List (Σ _ : RecRef, Str)}
    (hlook : ∀ ref, l.dlookup ref = cmdList.lookup ref)
    (hall : ∀ ref, cmdList.lookup ref = if ref.1 ∈ done then m.commandOf dt ref else none)
    (ref : RecRef) :
    ref ∈ l.map (·.1) ↔ ref.1 ∈ done ∧ m.commandOf dt ref ≠ none := by
  have hmem : ref ∈ l.map (·.1) ↔ (l.dlookup ref).isSome = true := List.dlookup_isSome.symm
  rw [hmem, hlook, hall]
  by_cases hin : ref.1 ∈ done
  · rw [if_pos hin, Option.isSome_iff_ne_none, and_iff_right hin]
  · rw [if_neg hin]
    exact iff_of_false Bool.false_ne_true fun h => hin h.1

/-- A record of a due table that waits for a write-back has a collected command. -/
theorem pending_collected {l : List (Σ _ : RecRef, Str)} (hm : m.tableSet.lookup tname = some t)
    (hd : m.isDue t dt = true)
    (hkeys : ∀ ref, ref ∈ l.map (·.1) ↔ ref.1 ∈ done ++ [tname] ∧ m.commandOf dt ref ≠ none) {k : Str}
    {r : DBRecord} (hr : t.recordSet.lookup k = some r) (hp : r.pending = true) :
    (tname, k) ∈ l.map (·.1) := by
  refine (hkeys _).mpr ⟨List.mem_append_right done List.mem_cons_self, ?_⟩
  rw [commandOf_of_pending hm hd hr hp]
  exact Option.some_ne_none _

/-- A collected command belongs to a due table. -/
theorem due_of_collected {l : List (Σ _ : RecRef, Str)} {tables : List Str}
    (hm : m.tableSet.lookup tname = some t)
    (hkeys : ∀ ref, ref ∈ l.map (·.1) ↔ ref.1 ∈ tables ∧ m.commandOf dt ref ≠ none) {k : Str}
    (hin : (tname, k) ∈ l.map (·.1)) : m.isDue t dt = true := by
  obtain ⟨text, htext⟩ := Option.ne_none_iff_exists'.mp ((hkeys _).mp hin).2
  obtain ⟨t', -, ht', hdue, -⟩ := text_of_commandOf htext
  obtain rfl : t = t' := Option.some.inj (hm.symm.trans ht')
  exact hdue

/-- The turn of a due table: everything collected so far runs, its own commands included. -/
theorem PassInv.flush (inv : PassInv m answer dt done s) (hnew : tname ∉ done)
    (hm : m.tableSet.lookup tname = some t) (hd : m.isDue t dt = true)
    {cmdList : UMap RecRef Str} {l : List (Σ _ : RecRef, Str)}
    (hcmds : ∀ ref, cmdList.lookup ref =
      (s.cmdList.lookup ref).or (if ref.1 = tname then t.cmdAt ref.2 else none))
    (hl : l.NodupKeys) (hlook : ∀ ref, l.dlookup ref = cmdList.lookup ref) :
    PassInv m answer dt (done ++ [tname])
      { mgr := (s.mgr.clearTables l).setBackupTime tname (fp.fltOfNat 0)
        cmdList := cmdList
        trace := s.trace ++ l.map fun c => ⟨c.1, c.2, s.mgr.pDBLink.selected, answer tname c.1⟩ } := by
  have hs : s.mgr.tableSet.lookup tname = some t := by rw [inv.before tname hnew, hm]
  have hall := inv.collected hnew hm hd hcmds
  have hkeys := mem_collected hlook hall
  obtain ⟨hlink, hcurrent, hclose⟩ := clearTables_rest s.mgr l
  refine ⟨hall, fun ref => ?_, fun r hr => ?_, hlink.trans inv.link, hcurrent.trans inv.current,
    hclose.trans inv.close, fun tname' hnot => ?_, fun tname' hmem => ?_⟩
  · rw [runsOf_append, runsOf_collection hl, inv.runs, expectedRuns_append, isDueName_of_lookup hm,
      if_pos hd, hlook, hall]
  · rcases List.mem_append.mp hr with hr | hr
    · exact inv.db r hr
    · obtain ⟨c, -, rfl⟩ := List.mem_map.mp hr
      show s.mgr.pDBLink.selected = _
      rw [inv.link]
  · have hnot' := hnot
    rw [List.mem_append, List.mem_singleton, not_or] at hnot'
    rw [lookup_setBackupTime, if_neg hnot'.2, lookup_clearTables, inv.before tname' hnot'.1]
    cases m.tableSet.lookup tname' with
    | none => rfl
    | some t' =>
      rw [Option.map_some, DBTable.clearAll_of_forall_ne]
      rintro c hc rfl
      exact hnot ((hkeys c.1).mp (List.mem_map_of_mem hc)).1
  · rw [List.mem_append, List.mem_singleton] at hmem
    by_cases he : tname' = tname
    · subst he
      refine ⟨t, _, hm, ?_, After.own hd fun k r hr hp => pending_collected hm hd hkeys hr hp⟩
      rw [lookup_setBackupTime, if_pos rfl, lookup_clearTables, hs]
      rfl
    · obtain ⟨t0, t1, h0, h1, hafter⟩ := inv.after tname' (hmem.resolve_right he)
      refine ⟨t0, _, h0, ?_, hafter.again fun k hin => due_of_collected h0 hkeys hin⟩
      rw [lookup_setBackupTime, if_neg he, lookup_clearTables, h1]
      rfl

/-- One table's turn. -/
theorem PassInv.turn (inv : PassInv m answer dt done s) (h : m.WellFormed) (ord : HashOrder)
    (hnew : tname ∉ done) (hm : m.tableSet.lookup tname = some t) :
    ∃ s', updateTable ord answer dt s tname = .ok s' ∧ PassInv m answer dt (done ++ [tname]) s' := by
  have hs : s.mgr.tableSet.lookup tname = some t := by rw [inv.before tname hnew, hm]
  unfold updateTable
  rw [hs]
  dsimp only
  rw [inv.isDue_eq]
  cases hd : m.isDue t dt with
  | false =>
    rw [if_neg Bool.false_ne_true]
    exact ⟨_, rfl, inv.skip hnew hm hd⟩
  | true =>
    obtain ⟨cmdList, hok, hcmds⟩ := DBTable.backupTableCmd_eq (h tname t hm) ord tname s.cmdList
    have hl := UMap.nodupKeys_order ord cmdList
    have hlook := UMap.dlookup_order ord cmdList
    have hinv := inv.flush hnew hm hd hcmds hl hlook
    have hplain : ∀ c ∈ ord.order cmdList.entries, useOperand (cstr c.2) = none := by
      intro c hc
      have hc' : cmdList.lookup c.1 = some c.2 := UMap.mem_entries.mp (ord.mem_order.mp hc)
      rw [hinv.cmds c.1] at hc'
      split at hc'
      · obtain ⟨t', r, -, -, -, -, htext⟩ := text_of_commandOf hc'
        rw [htext]
        exact DBTable.useOperand_cmdText t' r
      · cases hc'
    rw [if_pos rfl, hok, ok_bind, foldl_runCmd _ _ _ hplain]
    exact ⟨_, rfl, hinv⟩

end Turn

/-- **A pass in full.**  On well-formed tables `Update` never faults, and ends
with the pass invariant for the whole walk. -/
theorem update_spec {m : DBManager fp} (h : m.WellFormed) (ord : HashOrder)
    (answer : Str → RecRef → Bool) (dt : fp.Flt) :
    ∃ s, m.update ord answer dt = .ok (s.mgr, s.trace) ∧
      PassInv m answer dt (ord.order m.tableSet.keys) s := by
  have hstart : PassInv m answer dt [] { mgr := m, cmdList := ∅, trace := [] } := by
    refine ⟨fun ref => ?_, fun ref => ?_, fun r hr => ?_, rfl, rfl, rfl, fun _ _ => rfl,
      fun tn htn => ?_⟩
    · rw [if_neg List.not_mem_nil]
      exact AList.lookup_empty ref
    · unfold expectedRuns
      cases m.commandOf dt ref <;> rfl
    · cases hr
    · cases htn
  have hnodup : (ord.order m.tableSet.keys).Nodup :=
    (ord.perm m.tableSet.keys).nodup_iff.mpr (AList.keys_nodup m.tableSet)
  obtain ⟨s, hok, hinv⟩ := foldlM_ok (f := updateTable ord answer dt)
    (I := PassInv m answer dt) (ord.order m.tableSet.keys) _ hstart (by
      intro done tname rest s hwalk inv
      have hnew : tname ∉ done := by
        rw [hwalk] at hnodup
        intro hmem
        exact (List.nodup_append.mp hnodup).2.2 tname hmem tname List.mem_cons_self rfl
      have hmem : tname ∈ m.tableSet := by
        have : tname ∈ ord.order m.tableSet.keys := by
          rw [hwalk]
          exact List.mem_append_right done List.mem_cons_self
        exact ord.mem_order.mp this
      obtain ⟨t, hm⟩ := UMap.exists_lookup hmem
      exact inv.turn h ord hnew hm)
  unfold update
  by_cases he : m.tableSet.entries = []
  · have hkeys : m.tableSet.keys = [] := by
      show m.tableSet.entries.map Sigma.fst = []
      rw [he]
      rfl
    have hwalk : ord.order m.tableSet.keys = [] := by
      rw [hkeys]
      exact List.perm_nil.mp (ord.perm [])
    rw [if_pos he]
    refine ⟨{ mgr := m, cmdList := ∅, trace := [] }, rfl, ?_⟩
    rw [hwalk]
    exact hstart
  · rw [if_neg he, hok]
    exact ⟨s, rfl, hinv⟩

end DBManager

end FuServer
