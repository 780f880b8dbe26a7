import FuServer.Backup.Pending

/-!
# A pass beside the server thread

The pass on one due table in three kinds of steps: build the command texts,
run one command, clear the flags of its record.  Complete `ModifyDB` calls of
the server thread come between them in any order; all SQL succeeds.
`backed_iff` says which schedules lose no modification.
-/

namespace FuServer

open Bytes Decimal Outcome Runs DBManager

/-- One step of either thread; `ord` is the order in which the pass walks. -/
inductive BackupAction
  | modify (dataKey : Str) (dataList : UMap Str Str)
  | build (ord : HashOrder)
  | run
  | clear

/-- The pass on one table.  `snap` and `sent` are bookkeeping: the contents each
record had when the commands were built, and the contents in the last command
that ran for it. -/
structure Backup (fp : FloatUnit) where
  mgr : DBManager fp
  todo : List (Σ _ : RecRef, Str)
  /-- the record whose command has run and whose flags are still to be cleared -/
  ran : Option RecRef
  snap : RecRef → Option (List Str)
  sent : RecRef → Option (List Str)

namespace Backup

variable {fp : FloatUnit}

/-- The contents of a record at this moment. -/
def contents (s : Backup fp) (ref : RecRef) : Option (List Str) :=
  (s.mgr.recordAt ref).map (·.checkDataList)

def step (tname : Str) (s : Backup fp) : BackupAction → Option (Backup fp)
  | .modify k d =>
    match s.mgr.modifyDB tname k d with
    | .ok (m', _) => some { s with mgr := m' }
    | .error _ => none
  | .build ord =>
    -- a new pass starts once the last one is through
    if s.todo = [] ∧ s.ran = none then
      match s.mgr.tableSet.lookup tname with
      | some t =>
        match t.backupTableCmd ord tname ∅ with
        | .ok cmdList => some { s with todo := ord.order cmdList.entries, snap := s.contents }
        | .error _ => none
      | none => none
    else none
  | .run =>
    match s.ran, s.todo with
    | none, c :: rest =>
      some { s with
        mgr := { s.mgr with pDBLink := (s.mgr.pDBLink.runSqlCMD c.2 true).1 }
        todo := rest
        ran := some c.1
        sent := Function.update s.sent c.1 (s.snap c.1) }
    | _, _ => none
  | .clear =>
    match s.ran with
    | some ref => some { s with mgr := s.mgr.clearFlags ref, ran := none }
    | none => none

/-- A record whose contents differ from those in the last command run for it is
pending, or a collected command with its contents is still to run. -/
def Backed (s : Backup fp) : Prop :=
  ∀ ref r, s.mgr.recordAt ref = some r → s.sent ref ≠ some r.checkDataList →
    r.pending = true ∨ (∃ c ∈ s.todo, c.1 = ref ∧ s.snap ref = some r.checkDataList)

/-- When flags are cleared, the record has the contents its command was built from. -/
def Unchanged (s : Backup fp) : BackupAction → Prop
  | .clear => ∀ ref ∈ s.ran, s.snap ref = s.contents ref
  | _ => True

/-- Where a pass can be: every collected record is still pending, and so is the
one whose flags come next. -/
structure InPass (s : Backup fp) : Prop where
  wellFormed : s.mgr.WellFormed
  distinct : s.todo.NodupKeys
  waiting : ∀ c ∈ s.todo, s.mgr.pendingAt c.1 = true
  fresh : ∀ ref ∈ s.ran, ∀ c ∈ s.todo, c.1 ≠ ref
  last : ∀ ref ∈ s.ran, s.mgr.pendingAt ref = true ∧ s.sent ref = s.snap ref

/-! ## ModifyDB -/

theorem foldl_assignNamed_idle {t : DBTable fp} (l : List (Σ _ : Str, Str))
    (h : (l.any fun e => t.getFieldIndex e.1 != t.iPriKeyIndex) = false) (r : DBRecord) :
    l.foldl t.assignNamed r = r := by
  induction l generalizing r with
  | nil => rfl
  | cons e l ih =>
    rw [List.any_cons, Bool.or_eq_false_iff] at h
    have he : t.assignNamed r e = r := by
      unfold DBTable.assignNamed
      rw [if_neg (by simpa using h.1)]
    rw [List.foldl_cons, he]
    exact ih h.2 r

/-- A modification leaves a record as it is or makes it pending. -/
theorem recordAt_modifyDB {m m' : DBManager fp} (hw : m.WellFormed) {tname k : Str} {d : UMap Str Str}
    {ok : Bool} (h : m.modifyDB tname k d = .ok (m', ok)) (ref : RecRef) :
    m'.recordAt ref = m.recordAt ref ∨ m'.pendingAt ref = true := by
  rcases modifyDB_cases hw h with ⟨rfl, -⟩ | ⟨t, r, hm, hr, -, -, rfl⟩
  · exact Or.inl rfl
  · have hat := recordAt_putTable hm (t.putRecord k (d.entries.foldl t.assignNamed r)) ref
    by_cases h1 : ref.1 = tname
    · rw [if_pos h1, DBTable.lookup_putRecord] at hat
      have hm1 : m.tableSet.lookup ref.1 = some t := by rw [h1]; exact hm
      by_cases h2 : ref.2 = k
      · rw [if_pos h2, hr, Option.map_some] at hat
        cases hany : d.entries.any fun e => t.getFieldIndex e.1 != t.iPriKeyIndex with
        | false =>
          left
          rw [hat, foldl_assignNamed_idle d.entries hany, recordAt_of_lookup hm1, h2, hr]
        | true =>
          right
          unfold pendingAt
          rw [hat]
          show (d.entries.foldl t.assignNamed r).pending = true
          rw [DBTable.pending_foldl_assignNamed, hany, Bool.true_or]
      · rw [if_neg h2] at hat
        left
        rw [hat, recordAt_of_lookup hm1]
    · rw [if_neg h1] at hat
      exact Or.inl hat

theorem pendingAt_modifyDB {m m' : DBManager fp} (hw : m.WellFormed) {tname k : Str} {d : UMap Str Str}
    {ok : Bool} (h : m.modifyDB tname k d = .ok (m', ok)) {ref : RecRef}
    (hp : m.pendingAt ref = true) : m'.pendingAt ref = true := by
  rcases recordAt_modifyDB hw h ref with he | he
  · unfold pendingAt
    rw [he]
    exact hp
  · exact he

/-! ## Clearing -/

theorem recordAt_clearFlags (m : DBManager fp) (ref ref' : RecRef) :
    (m.clearFlags ref).recordAt ref' =
      if ref' = ref then (m.recordAt ref').map DBRecord.cleared else m.recordAt ref' := by
  have hset : (m.clearFlags ref).tableSet.lookup ref'.1 =
      if ref'.1 = ref.1 then (m.tableSet.lookup ref.1).map fun t => clearRecord t ref.2
      else m.tableSet.lookup ref'.1 := UMap.lookup_adjust ref.1 ref'.1 _ m.tableSet
  unfold recordAt
  rw [hset]
  by_cases h1 : ref'.1 = ref.1
  · rw [if_pos h1, h1]
    cases m.tableSet.lookup ref.1 with
    | none => simp
    | some t =>
      have hrec : (clearRecord t ref.2).recordSet.lookup ref'.2 =
          if ref'.2 = ref.2 then (t.recordSet.lookup ref.2).map DBRecord.cleared
          else t.recordSet.lookup ref'.2 := UMap.lookup_adjust ref.2 ref'.2 _ t.recordSet
      rw [Option.map_some, Option.bind_some, Option.bind_some, hrec]
      by_cases h2 : ref'.2 = ref.2
      · rw [if_pos h2, if_pos (Prod.ext h1 h2), h2]
      · rw [if_neg h2, if_neg fun h => h2 (congrArg Prod.snd h)]
  · rw [if_neg h1, if_neg fun h => h1 (congrArg Prod.fst h)]

theorem wellFormed_clearFlags {m : DBManager fp} (h : m.WellFormed) (ref : RecRef) :
    (m.clearFlags ref).WellFormed := by
  intro tname t hm
  have hset : (m.clearFlags ref).tableSet.lookup tname =
      if tname = ref.1 then (m.tableSet.lookup ref.1).map fun t => clearRecord t ref.2
      else m.tableSet.lookup tname := UMap.lookup_adjust ref.1 tname _ m.tableSet
  rw [hset] at hm
  split at hm
  · obtain ⟨t0, ht0, rfl⟩ := Option.map_eq_some_iff.mp hm
    obtain ⟨⟨htypes, hindex, hlo, hhi⟩, hagree⟩ := h ref.1 t0 ht0
    refine ⟨⟨htypes, hindex, hlo, hhi⟩, fun k r hr => ?_⟩
    have hrec : (clearRecord t0 ref.2).recordSet.lookup k =
        if k = ref.2 then (t0.recordSet.lookup ref.2).map DBRecord.cleared
        else t0.recordSet.lookup k := UMap.lookup_adjust ref.2 k _ t0.recordSet
    rw [hrec] at hr
    split at hr
    · next hk =>
      obtain ⟨r0, hr0, rfl⟩ := Option.map_eq_some_iff.mp hr
      exact hagree k r0 (by rw [hk]; exact hr0)
    · exact hagree k r hr
  · exact h tname t hm

/-! ## One step -/

section Step

variable {s s' : Backup fp} {tname : Str}

theorem step_modify {k : Str} {d : UMap Str Str} (h : s.step tname (.modify k d) = some s') :
    ∃ m' ok, s.mgr.modifyDB tname k d = .ok (m', ok) ∧ s' = { s with mgr := m' } := by
  unfold step at h
  cases hr : s.mgr.modifyDB tname k d with
  | error f => simp only [hr] at h; cases h
  | ok r =>
    simp only [hr] at h
    cases h
    exact ⟨r.1, r.2, rfl, rfl⟩

theorem step_build {ord : HashOrder} (h : s.step tname (.build ord) = some s') :
    s.todo = [] ∧ s.ran = none ∧ ∃ t cmdList, s.mgr.tableSet.lookup tname = some t ∧
      t.backupTableCmd ord tname ∅ = .ok cmdList ∧
      s' = { s with todo := ord.order cmdList.entries, snap := s.contents } := by
  unfold step at h
  dsimp only at h
  split at h
  · next hidle =>
    cases hm : s.mgr.tableSet.lookup tname with
    | none => simp only [hm] at h; cases h
    | some t =>
      cases hc : t.backupTableCmd ord tname ∅ with
      | error f => simp only [hm, hc] at h; cases h
      | ok cmdList =>
        simp only [hm, hc] at h
        cases h
        exact ⟨hidle.1, hidle.2, t, cmdList, rfl, hc, rfl⟩
  · cases h

theorem step_run (h : s.step tname .run = some s') :
    s.ran = none ∧ ∃ c rest, s.todo = c :: rest ∧ s' = { s with
      mgr := { s.mgr with pDBLink := (s.mgr.pDBLink.runSqlCMD c.2 true).1 }
      todo := rest, ran := some c.1, sent := Function.update s.sent c.1 (s.snap c.1) } := by
  unfold step at h
  cases hr : s.ran with
  | some ref => simp only [hr] at h; cases h
  | none =>
    cases ht : s.todo with
    | nil => simp only [hr, ht] at h; cases h
    | cons c rest =>
      simp only [hr, ht] at h
      cases h
      exact ⟨rfl, c, rest, rfl, rfl⟩

theorem step_clear (h : s.step tname .clear = some s') :
    ∃ ref, s.ran = some ref ∧ s' = { s with mgr := s.mgr.clearFlags ref, ran := none } := by
  unfold step at h
  cases hr : s.ran with
  | none => simp only [hr] at h; cases h
  | some ref =>
    simp only [hr] at h
    cases h
    exact ⟨ref, rfl, rfl⟩

/-- The commands a pass collects are those of the table's pending records. -/
theorem pendingAt_of_collected {m : DBManager fp} (hw : m.WellFormed) {t : DBTable fp}
    (hm : m.tableSet.lookup tname = some t) {ord : HashOrder} {cmdList : UMap RecRef Str}
    (hc : t.backupTableCmd ord tname ∅ = .ok cmdList) {c : Σ _ : RecRef, Str}
    (hmem : c ∈ ord.order cmdList.entries) : m.pendingAt c.1 = true := by
  obtain ⟨cmdList', hc', hlook⟩ := DBTable.backupTableCmd_eq (hw tname t hm) ord tname ∅
  obtain rfl : cmdList' = cmdList := Except.ok.inj (hc'.symm.trans hc)
  have hsome : cmdList'.lookup c.1 = some c.2 := UMap.mem_entries.mp (ord.mem_order.mp hmem)
  rw [hlook, AList.lookup_empty, Option.none_or] at hsome
  split at hsome
  · next h1 =>
    obtain ⟨r, hr, hcmd⟩ := Option.bind_eq_some_iff.mp hsome
    have hm1 : m.tableSet.lookup c.1.1 = some t := by rw [h1]; exact hm
    unfold pendingAt
    rw [recordAt_of_lookup hm1, hr]
    unfold DBTable.cmdOf at hcmd
    split at hcmd
    · next hp => exact hp
    · cases hcmd
  · cases hsome

theorem inPass_step (h : s.InPass) {a : BackupAction} (hs : s.step tname a = some s') :
    s'.InPass := by
  obtain ⟨hw, hdist, hwait, hfresh, hlast⟩ := h
  cases a with
  | modify k d =>
    obtain ⟨m', ok, hmod, rfl⟩ := step_modify hs
    exact ⟨wellFormed_modifyDB hw hmod, hdist, fun c hc => pendingAt_modifyDB hw hmod (hwait c hc),
      hfresh, fun ref href => ⟨pendingAt_modifyDB hw hmod (hlast ref href).1, (hlast ref href).2⟩⟩
  | build ord =>
    obtain ⟨-, hran, t, cmdList, hm, hc, rfl⟩ := step_build hs
    refine ⟨hw, UMap.nodupKeys_order ord cmdList, fun c hmem => pendingAt_of_collected hw hm hc hmem,
      fun ref href => ?_, fun ref href => ?_⟩
    · rw [hran] at href
      cases href
    · rw [hran] at href
      cases href
  | run =>
    obtain ⟨-, c, rest, htodo, rfl⟩ := step_run hs
    rw [htodo] at hdist hwait
    obtain ⟨hnot, hdist'⟩ := List.nodupKeys_cons.mp hdist
    refine ⟨hw, hdist', fun c' hc' => hwait c' (List.mem_cons_of_mem c hc'), fun ref href c' hc' => ?_,
      fun ref href => ?_⟩
    · cases href
      rintro he
      exact hnot (he ▸ List.mem_map_of_mem hc')
    · cases href
      exact ⟨hwait c List.mem_cons_self, Function.update_self _ _ _⟩
  | clear =>
    obtain ⟨ref, hran, rfl⟩ := step_clear hs
    refine ⟨wellFormed_clearFlags hw ref, hdist, fun c hc => ?_, fun ref' href' => (by cases href'),
      fun ref' href' => (by cases href')⟩
    have hne : c.1 ≠ ref := hfresh ref hran c hc
    show (s.mgr.clearFlags ref).pendingAt c.1 = true
    unfold pendingAt
    rw [recordAt_clearFlags, if_neg hne]
    exact hwait c hc

/-- Running a collected command: its record is pending still, whatever the command carries. -/
theorem backed_run (h : s.InPass) (hb : s.Backed) (hs : s.step tname .run = some s') : s'.Backed := by
  obtain ⟨-, c, rest, htodo, rfl⟩ := step_run hs
  intro ref r hr hsent
  change s.mgr.recordAt ref = some r at hr
  by_cases href : ref = c.1
  · left
    have hp := h.waiting c (by rw [htodo]; exact List.mem_cons_self)
    unfold pendingAt at hp
    rw [← href, hr] at hp
    exact hp
  · have hsent' : s.sent ref ≠ some r.checkDataList := by
      change Function.update s.sent c.1 (s.snap c.1) ref ≠ _ at hsent
      rw [Function.update_of_ne href] at hsent
      exact hsent
    rcases hb ref r hr hsent' with hp | ⟨c', hc', he, hsnap⟩
    · exact Or.inl hp
    · rw [htodo] at hc'
      rcases List.mem_cons.mp hc' with rfl | hc'
      · exact absurd he.symm href
      · exact Or.inr ⟨c', hc', he, hsnap⟩

/-- Clearing flags: the record's command is no longer waiting, so it has to have
carried the present contents. -/
theorem backed_clear_iff (h : s.InPass) (hb : s.Backed) (hs : s.step tname .clear = some s') :
    s'.Backed ↔ s.Unchanged .clear := by
  obtain ⟨ref, hran, rfl⟩ := step_clear hs
  obtain ⟨hp, hsent⟩ := h.last ref hran
  obtain ⟨r, hr, hrp⟩ := (Option.any_eq_true _ _).mp hp
  have hcont : s.contents ref = some r.checkDataList := by
    unfold contents
    rw [hr]
    rfl
  constructor
  · intro hb' ref' href'
    obtain rfl : ref = ref' := Option.some.inj (hran.symm.trans href')
    rw [hcont]
    by_contra hne
    have hr' : (s.mgr.clearFlags ref).recordAt ref = some r.cleared := by
      rw [recordAt_clearFlags, if_pos rfl, hr]
      rfl
    rcases hb' ref r.cleared hr' (by rw [hsent]; exact hne) with hp' | ⟨c, hc, he, -⟩
    · cases hp'
    · exact h.fresh ref hran c hc he
  · intro hun ref' r' hr' hsent'
    change (s.mgr.clearFlags ref).recordAt ref' = some r' at hr'
    rw [recordAt_clearFlags] at hr'
    split at hr'
    · next he =>
      rw [he, hr] at hr'
      cases hr'
      exact absurd (by rw [he, hsent, hun ref hran, hcont]; rfl) hsent'
    · exact hb ref' r' hr' hsent'

/-- A step keeps every record backed exactly when it clears no flags of a
record that has changed since its command was built. -/
theorem backed_step_iff (h : s.InPass) (hb : s.Backed) {a : BackupAction}
    (hs : s.step tname a = some s') : s'.Backed ↔ s.Unchanged a := by
  cases a with
  | modify k d =>
    obtain ⟨m', ok, hmod, rfl⟩ := step_modify hs
    refine iff_of_true (fun ref r hr hsent => ?_) trivial
    rcases recordAt_modifyDB h.wellFormed hmod ref with he | he
    · exact hb ref r (he ▸ hr) hsent
    · left
      change m'.recordAt ref = some r at hr
      unfold pendingAt at he
      rw [hr] at he
      exact he
  | build ord =>
    obtain ⟨htodo, -, t, cmdList, -, -, rfl⟩ := step_build hs
    refine iff_of_true (fun ref r hr hsent => ?_) trivial
    rcases hb ref r hr hsent with hp | ⟨c, hc, -⟩
    · exact Or.inl hp
    · rw [htodo] at hc
      cases hc
  | run => exact iff_of_true (backed_run h hb hs) trivial
  | clear => exact backed_clear_iff h hb hs

end Step

/-- **Modifications beside a pass.**  From a state between passes in which every
record is backed, every schedule keeps every record backed exactly when no
flags are cleared of a record that has changed since its command was built. -/
theorem backed_iff {s : Backup fp} {tname : Str} (hw : s.mgr.WellFormed) (htodo : s.todo = [])
    (hran : s.ran = none) (hb : s.Backed) (schedule : List BackupAction) :
    Always (step tname) Backed s schedule ↔ EachStep (step tname) Unchanged s schedule := by
  apply always_iff_eachStep (J := InPass) (D := fun _ _ => True)
  · intro s a s' h _ hs
    exact inPass_step h hs
  · intro s a s' h hb _ hs
    exact backed_step_iff h hb hs
  · refine ⟨hw, ?_, fun c hc => ?_, fun ref href => ?_, fun ref href => ?_⟩
    · rw [htodo]
      exact List.nodupKeys_nil
    · rw [htodo] at hc
      cases hc
    · rw [hran] at href
      cases href
    · rw [hran] at href
      cases href
  · exact hb
  · exact eachStep_of_forall schedule _ fun _ _ _ => trivial

/-- Between passes: one table with one new row. -/
def idle : Backup .exactRational where
  mgr :=
    { tableSet := UMap.insertNew (lit "a") (oneNewRow (lit "a") (lit "1") (lit "x")) ∅
      pDBLink := { selected := lit "db" }
      sCurrentDB := lit "db"
      bClose := false }
  todo := []
  ran := none
  snap := fun _ => none
  sent := fun _ => none

/-- The row is modified after its command is built and before its flags are cleared. -/
def lateModify : List BackupAction :=
  [.build .plain, .modify (lit "1") (UMap.insertNew (lit "name") (lit "y") ∅), .run, .clear]

theorem backed_broken : ¬ Always (step (lit "a")) Backed idle lateModify := by
  apply not_always_of_any (b := fun s => (s.mgr.recordAt (lit "a", lit "1")).any fun r =>
    s.sent (lit "a", lit "1") != some r.checkDataList && !r.pending && s.todo.isEmpty)
  · intro s hbad hb
    cases hr : s.mgr.recordAt (lit "a", lit "1") with
    | none => simp [hr] at hbad
    | some r =>
      simp only [hr, Option.any_some, Bool.and_eq_true, bne_iff_ne, Bool.not_eq_true',
        List.isEmpty_iff] at hbad
      obtain ⟨⟨hsent, hp⟩, htodo⟩ := hbad
      rcases hb _ r hr hsent with hp' | ⟨c, hc, -⟩
      · rw [hp] at hp'
        cases hp'
      · rw [htodo] at hc
        cases hc
  · decide +kernel

theorem idle_wellFormed : idle.mgr.WellFormed := by
  intro tname t hm
  have hset : idle.mgr.tableSet =
      UMap.insertNew (lit "a") (oneNewRow (lit "a") (lit "1") (lit "x")) ∅ := rfl
  rw [hset, UMap.lookup_insertNew] at hm
  split at hm
  · cases hm
    exact oneNewRow_wellFormed (lit "a") (lit "1") (lit "x")
  · cases hm

theorem idle_backed : idle.Backed := by
  intro ref r hr _
  left
  obtain ⟨t, hm, ht⟩ := Option.bind_eq_some_iff.mp hr
  have hset : idle.mgr.tableSet =
      UMap.insertNew (lit "a") (oneNewRow (lit "a") (lit "1") (lit "x")) ∅ := rfl
  rw [hset, UMap.lookup_insertNew] at hm
  split at hm
  · cases hm
    have hrec : (oneNewRow (lit "a") (lit "1") (lit "x")).recordSet =
        UMap.insertNew (lit "1") (newRow (lit "1") (lit "x")) ∅ := rfl
    rw [hrec, UMap.lookup_insertNew] at ht
    split at ht
    · cases ht
      rfl
    · cases ht
  · cases hm

theorem backed_iff_lateModify :
    Always (step (lit "a")) Backed idle lateModify ↔
      EachStep (step (lit "a")) Unchanged idle lateModify :=
  backed_iff idle_wellFormed rfl rfl idle_backed lateModify

end Backup

end FuServer
