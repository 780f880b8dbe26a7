import FuServer.Backup.Actions

/-!
# Writes the database has not taken yet

A ledger lists the records written since a command with their contents last
succeeded.  Such a record should still be pending, so that a later pass emits
it again.  `Update` clears the flags whatever the server answered;
`kept_iff` says which answers make that harmless.
-/

namespace FuServer

open Bytes Decimal Outcome Runs

namespace DBTable

variable {fp : FloatUnit}

theorem pending_foldl_assignNamed (t : DBTable fp) (l : List (Σ _ : Str, Str)) (r : DBRecord) :
    (l.foldl t.assignNamed r).pending =
      (l.any (fun e => t.getFieldIndex e.1 != t.iPriKeyIndex) || r.pending) := by
  induction l generalizing r with
  | nil => rfl
  | cons e l ih =>
    rw [List.foldl_cons, ih, List.any_cons]
    unfold assignNamed
    by_cases he : t.getFieldIndex e.1 = t.iPriKeyIndex
    · rw [if_neg (by simpa using he)]
      simp [he]
    · have hp : ((assignAt r (t.getFieldIndex e.1).toNat e.2).setIsModify true).pending = true :=
        Bool.or_true _
      rw [if_pos he, hp]
      simp [he]

end DBTable

namespace DBManager

variable {fp : FloatUnit}

/-! ## Pending records -/

def pendingAt (m : DBManager fp) (ref : RecRef) : Bool := (m.recordAt ref).any (·.pending)

theorem recordAt_putTable {m : DBManager fp} {tname : Str} {t0 : DBTable fp}
    (hm : m.tableSet.lookup tname = some t0) (t : DBTable fp) (ref : RecRef) :
    (m.putTable tname t).recordAt ref =
      if ref.1 = tname then t.recordSet.lookup ref.2 else m.recordAt ref := by
  unfold recordAt
  rw [lookup_putTable]
  by_cases he : ref.1 = tname
  · rw [if_pos he, if_pos he, hm]
    rfl
  · rw [if_neg he, if_neg he]

theorem recordAt_of_lookup {m : DBManager fp} {ref : RecRef} {t : DBTable fp}
    (hm : m.tableSet.lookup ref.1 = some t) : m.recordAt ref = t.recordSet.lookup ref.2 := by
  unfold recordAt
  rw [hm]
  rfl

/-- A load makes nothing pending. -/
theorem pendingAt_load {m m' : DBManager fp} {dbname tname : Str} {reply : LoadReply} {b : Bool}
    (hc : reply.Consistent) (hs : m.loadTable dbname tname reply = .ok (m', b)) (ref : RecRef) :
    m'.pendingAt ref = m.pendingAt ref := by
  have hset := enterDB_tableSet m dbname reply.useOk
  rcases loadTable_cases hc hs with (rfl | rfl) | ⟨t, hnot, -, rfl, -, -, hclean, -⟩
  · rfl
  · unfold pendingAt recordAt
    rw [hset]
  · unfold pendingAt recordAt
    rw [UMap.lookup_insertNew, hset]
    by_cases he : ref.1 = tname
    · rw [if_pos ⟨he, hnot⟩, he, AList.lookup_eq_none.mpr hnot]
      cases hr : t.recordSet.lookup ref.2 with
      | none => simp [hr]
      | some r =>
        obtain ⟨h1, h2⟩ := hclean ref.2 r hr
        simp [hr, DBRecord.pending, h1, h2]
    · rw [if_neg fun h => he h.1]

/-- An insertion makes the record it adds pending, and no other. -/
theorem pendingAt_insert {m : DBManager fp} (hw : m.WellFormed) {tname : Str} {d : UMap Str Str}
    {e : Effect fp} (hs : m.act (.insert tname d) = some e) (ref : RecRef) :
    e.mgr.pendingAt ref = true ↔ e.written = some ref ∨ m.pendingAt ref = true := by
  obtain ⟨k, hins, -, hwritten⟩ := act_insert hs
  rcases insertDB_cases hw hins with ⟨hm', -⟩ | ⟨t, hm, hr, hk, hm'⟩
  · have hnone : e.written = none := by
      rw [hwritten, hm', if_neg]
      cases m.recordAt (tname, k) <;> simp
    rw [hm', hnone]
    simp
  · have hnew : t.newKey d ∉ t.recordSet := fun h => hr (Or.inl h)
    have hat : ∀ ref : RecRef, e.mgr.recordAt ref =
        if ref = (tname, k) then some ((t.newRecord d).setIsInsert true) else m.recordAt ref := by
      intro ref
      rw [hm', recordAt_putTable hm, DBTable.addRecord_recordSet, UMap.lookup_insertNew]
      by_cases h1 : ref.1 = tname
      · rw [if_pos h1]
        by_cases h2 : ref.2 = t.newKey d
        · rw [if_pos ⟨h2, hnew⟩, if_pos (Prod.ext h1 (h2.trans hk.symm))]
        · have hm1 : m.tableSet.lookup ref.1 = some t := by rw [h1]; exact hm
          rw [if_neg fun h => h2 h.1, if_neg, recordAt_of_lookup hm1]
          rintro rfl
          exact h2 hk
      · rw [if_neg h1, if_neg]
        rintro rfl
        exact h1 rfl
    have hbefore : m.recordAt (tname, k) = none := by
      rw [recordAt_of_lookup hm, hk]
      exact AList.lookup_eq_none.mpr hnew
    have hw' : e.written = some (tname, k) := by
      rw [hwritten, hbefore, hat, if_pos rfl]
      rfl
    unfold pendingAt
    rw [hat, hw']
    by_cases he : ref = (tname, k)
    · rw [if_pos he, he]
      simp [DBRecord.pending, DBRecord.setIsInsert]
    · rw [if_neg he]
      simp [Ne.symm he]

/-- A modification makes the record it assigns to pending, and no other. -/
theorem pendingAt_modify {m : DBManager fp} (hw : m.WellFormed) {tname k : Str} {d : UMap Str Str}
    {e : Effect fp} (hs : m.act (.modify tname k d) = some e) (ref : RecRef) :
    e.mgr.pendingAt ref = true ↔ e.written = some ref ∨ m.pendingAt ref = true := by
  obtain ⟨ok, hmod, -, hwritten⟩ := act_modify hs
  rcases modifyDB_cases hw hmod with ⟨hm', rfl⟩ | ⟨t, r, hm, hr, -, rfl, hm'⟩
  · have hnone : e.written = none := by
      rw [hwritten]
      rfl
    rw [hm', hnone]
    simp
  · have hassigns : m.assigns tname d =
        d.entries.any fun e => t.getFieldIndex e.1 != t.iPriKeyIndex := by
      unfold assigns
      rw [hm]
    have hpending := DBTable.pending_foldl_assignNamed t d.entries r
    rw [← hassigns] at hpending
    have hbefore : m.recordAt (tname, k) = some r := by
      rw [recordAt_of_lookup hm]
      exact hr
    have hat : e.mgr.recordAt ref =
        if ref = (tname, k) then some (d.entries.foldl t.assignNamed r) else m.recordAt ref := by
      rw [hm', recordAt_putTable hm, DBTable.lookup_putRecord]
      by_cases h1 : ref.1 = tname
      · rw [if_pos h1]
        by_cases h2 : ref.2 = k
        · rw [if_pos h2, if_pos (Prod.ext h1 h2), hr]
          rfl
        · have hm1 : m.tableSet.lookup ref.1 = some t := by rw [h1]; exact hm
          rw [if_neg h2, if_neg, recordAt_of_lookup hm1]
          rintro rfl
          exact h2 rfl
      · rw [if_neg h1, if_neg]
        rintro rfl
        exact h1 rfl
    unfold pendingAt
    rw [hat, hwritten]
    by_cases he : ref = (tname, k)
    · rw [if_pos he, he, hbefore]
      show (d.entries.foldl t.assignNamed r).pending = true ↔ _
      rw [hpending]
      cases m.assigns tname d <;> simp
    · rw [if_neg he]
      cases m.assigns tname d <;> simp [Ne.symm he]

/-- A pass clears the flags of every record of a due table. -/
theorem pendingAt_update {m : DBManager fp} {ord : HashOrder} {answer : Str → RecRef → Bool}
    {dt : fp.Flt} {s : Pass fp} (inv : PassInv m answer dt (ord.order m.tableSet.keys) s)
    (ref : RecRef) : s.mgr.pendingAt ref = (m.pendingAt ref && !m.isDueName dt ref.1) := by
  unfold pendingAt
  by_cases hmem : ref.1 ∈ m.tableSet
  · obtain ⟨t, t', hm, hm', -, hrec⟩ := inv.after ref.1 (ord.mem_order.mpr hmem)
    rw [recordAt_of_lookup hm, recordAt_of_lookup hm', hrec, isDueName_of_lookup hm]
    cases m.isDue t dt with
    | true => cases t.recordSet.lookup ref.2 <;> simp
    | false => simp
  · have hnot : ref.1 ∉ ord.order m.tableSet.keys := fun h => hmem (ord.mem_order.mp h)
    have hnone := AList.lookup_eq_none.mpr hmem
    unfold recordAt
    rw [inv.before ref.1 hnot, hnone]
    rfl

/-! ## The ledger -/

/-- The command text a record's contents make at this moment. -/
def textAt (m : DBManager fp) (ref : RecRef) : Option Str :=
  (m.tableSet.lookup ref.1).bind fun t => (t.recordSet.lookup ref.2).map t.cmdText

/-- Some command with the record's contents succeeded. -/
def savedBy (m : DBManager fp) (runs : List CmdRun) (ref : RecRef) : Bool :=
  runs.any fun run => run.ref == ref && run.ok && m.textAt ref == some run.text

end DBManager

/-- A manager, and the records written since a command with their contents last succeeded. -/
structure Ledger (fp : FloatUnit) where
  mgr : DBManager fp
  unsaved : List RecRef

namespace Ledger

open DBManager

variable {fp : FloatUnit}

def step (s : Ledger fp) (a : Action fp) : Option (Ledger fp) :=
  (s.mgr.act a).map fun e =>
    ⟨e.mgr, (e.written.toList ++ s.unsaved).filter fun ref => !s.mgr.savedBy e.runs ref⟩

/-- Every record the database has not taken is pending. -/
def Kept (s : Ledger fp) : Prop := ∀ ref ∈ s.unsaved, s.mgr.pendingAt ref = true

/-- In a pass, the server accepts at least one of the commands run for each
pending record of a due table. -/
def Accepted (s : Ledger fp) : Action fp → Prop
  | .update ord answer dt => ∀ ref, s.mgr.pendingAt ref = true → s.mgr.isDueName dt ref.1 = true →
      ∃ tname ∈ s.mgr.dueFrom dt ref.1 (ord.order s.mgr.tableSet.keys), answer tname ref = true
  | _ => True

/-- The tables are well formed and the ledger lists every pending record. -/
def Covers (s : Ledger fp) : Prop :=
  s.mgr.WellFormed ∧ ∀ ref, s.mgr.pendingAt ref = true → ref ∈ s.unsaved

theorem step_idle {s s' : Ledger fp} {a : Action fp} {e : Effect fp} (he : s.mgr.act a = some e)
    (hruns : e.runs = []) (hs : s.step a = some s') :
    s' = ⟨e.mgr, e.written.toList ++ s.unsaved⟩ := by
  unfold step at hs
  rw [he] at hs
  rw [← Option.some.inj hs]
  dsimp only
  rw [hruns]
  congr 1
  exact List.filter_eq_self.mpr fun ref _ => rfl

/-- A step that is no pass: the ledger grows by the record it made pending. -/
theorem step_client {s s' : Ledger fp} (hw : s.mgr.WellFormed) {a : Action fp} (hc : Consistent a)
    (ha : ∀ ord answer dt, a ≠ .update ord answer dt) (hs : s.step a = some s') :
    ∃ written : Option RecRef, s'.unsaved = written.toList ++ s.unsaved ∧
      ∀ ref, s'.mgr.pendingAt ref = true ↔ written = some ref ∨ s.mgr.pendingAt ref = true := by
  obtain ⟨e, he, -⟩ := Option.map_eq_some_iff.mp hs
  cases a with
  | load dbname tname reply =>
    obtain ⟨b, hr, hruns, hwritten⟩ := act_load he
    obtain rfl := step_idle he hruns hs
    refine ⟨e.written, rfl, fun ref => ?_⟩
    rw [pendingAt_load hc hr, hwritten]
    simp
  | insert tname d =>
    obtain ⟨k, -, hruns, -⟩ := act_insert he
    obtain rfl := step_idle he hruns hs
    exact ⟨e.written, rfl, pendingAt_insert hw he⟩
  | modify tname k d =>
    obtain ⟨ok, -, hruns, -⟩ := act_modify he
    obtain rfl := step_idle he hruns hs
    exact ⟨e.written, rfl, pendingAt_modify hw he⟩
  | update ord answer dt => exact absurd rfl (ha ord answer dt)

/-- A record is saved by the accepted runs of a command with its present text. -/
theorem savedBy_iff {m : DBManager fp} {trace : List CmdRun} {ref : RecRef} :
    m.savedBy trace ref = true ↔
      ∃ text, m.textAt ref = some text ∧ (text, true) ∈ runsOf trace ref := by
  unfold savedBy
  rw [List.any_eq_true]
  constructor
  · rintro ⟨run, hrun, h⟩
    simp only [Bool.and_eq_true, beq_iff_eq] at h
    exact ⟨run.text, h.2, mem_runsOf.mpr ⟨run, hrun, h.1.1, rfl, h.1.2⟩⟩
  · rintro ⟨text, htext, hin⟩
    obtain ⟨run, hrun, href, rfl, hok⟩ := mem_runsOf.mp hin
    refine ⟨run, hrun, ?_⟩
    simp only [Bool.and_eq_true, beq_iff_eq]
    exact ⟨⟨href, hok⟩, htext⟩

/-- In a pass, a pending record is saved exactly when its table is due and one
of the commands run for it is accepted. -/
theorem savedBy_update {m : DBManager fp} {ord : HashOrder} {answer : Str → RecRef → Bool}
    {dt : fp.Flt} {s : Pass fp} (inv : PassInv m answer dt (ord.order m.tableSet.keys) s)
    {ref : RecRef} (hp : m.pendingAt ref = true) :
    m.savedBy s.trace ref = true ↔ m.isDueName dt ref.1 = true ∧
      ∃ tname ∈ m.dueFrom dt ref.1 (ord.order m.tableSet.keys), answer tname ref = true := by
  obtain ⟨r, hr, hrp⟩ := (Option.any_eq_true _ _).mp hp
  obtain ⟨t, hm, hrt⟩ := Option.bind_eq_some_iff.mp hr
  have htext : m.textAt ref = some (t.cmdText r) := by
    unfold textAt
    rw [hm, Option.bind_some, hrt]
    rfl
  have hdue : m.isDueName dt ref.1 = m.isDue t dt := isDueName_of_lookup hm dt
  rw [savedBy_iff, inv.runs ref]
  unfold expectedRuns
  rw [htext, hdue]
  cases hd : m.isDue t dt with
  | false =>
    rw [commandOf_of_not_due (hdue.trans hd)]
    simp
  | true =>
    have hcmd : m.commandOf dt ref = some (t.cmdText r) := commandOf_of_pending hm hd hrt hrp
    rw [hcmd]
    constructor
    · rintro ⟨text, -, hin⟩
      obtain ⟨tname, hmemt, heq⟩ := List.mem_map.mp hin
      exact ⟨rfl, tname, hmemt, (Prod.mk.inj heq).2⟩
    · rintro ⟨-, tname, hmemt, hans⟩
      exact ⟨_, rfl, List.mem_map.mpr ⟨tname, hmemt, by rw [hans]⟩⟩

/-- The state a pass leads to. -/
theorem step_update {s s' : Ledger fp} (hw : s.mgr.WellFormed) {ord : HashOrder}
    {answer : Str → RecRef → Bool} {dt : fp.Flt} (hs : s.step (.update ord answer dt) = some s') :
    ∃ p, PassInv s.mgr answer dt (ord.order s.mgr.tableSet.keys) p ∧ s'.mgr = p.mgr ∧
      s'.unsaved = s.unsaved.filter fun ref => !s.mgr.savedBy p.trace ref := by
  obtain ⟨e, he, rfl⟩ := Option.map_eq_some_iff.mp hs
  obtain ⟨p, hok, inv⟩ := update_spec hw ord answer dt
  obtain ⟨hr, hwritten⟩ := act_update he
  rw [hok] at hr
  obtain ⟨hmgr, hruns⟩ := Prod.mk.inj (Except.ok.inj hr)
  refine ⟨p, inv, hmgr.symm, ?_⟩
  rw [hwritten, ← hruns]
  rfl

theorem covers_step {s s' : Ledger fp} (h : s.Covers) {a : Action fp} (hc : Consistent a)
    (hs : s.step a = some s') : s'.Covers := by
  obtain ⟨hw, hcov⟩ := h
  obtain ⟨e, he, hs'⟩ := Option.map_eq_some_iff.mp hs
  have hw' : s'.mgr.WellFormed := by
    rw [← hs']
    exact wellFormed_act hw hc he
  by_cases ha : ∀ ord answer dt, a ≠ .update ord answer dt
  · obtain ⟨written, hun, hpend⟩ := step_client hw hc ha hs
    refine ⟨hw', fun ref hp => ?_⟩
    rw [hun, List.mem_append, Option.mem_toList]
    exact ((hpend ref).mp hp).imp_right (hcov ref)
  · push Not at ha
    obtain ⟨ord, answer, dt, rfl⟩ := ha
    obtain ⟨p, inv, hmgr, hun⟩ := step_update hw hs
    refine ⟨hw', fun ref hp => ?_⟩
    rw [hmgr, pendingAt_update inv, Bool.and_eq_true, Bool.not_eq_true'] at hp
    obtain ⟨hp, hnot⟩ := hp
    have hunsaved : s.mgr.savedBy p.trace ref = false := by
      rw [Bool.eq_false_iff]
      intro hsave
      have hd := ((savedBy_update inv hp).mp hsave).1
      rw [hnot] at hd
      cases hd
    rw [hun]
    exact List.mem_filter.mpr ⟨hcov ref hp, by rw [hunsaved]; rfl⟩

/-- One step keeps the writes exactly when it is accepted. -/
theorem kept_step_iff {s s' : Ledger fp} (h : s.Covers) (hk : s.Kept) {a : Action fp}
    (hc : Consistent a) (hs : s.step a = some s') : s'.Kept ↔ s.Accepted a := by
  obtain ⟨hw, hcov⟩ := h
  by_cases ha : ∀ ord answer dt, a ≠ .update ord answer dt
  · obtain ⟨written, hun, hpend⟩ := step_client hw hc ha hs
    refine iff_of_true (fun ref href => ?_) ?_
    · rw [hun, List.mem_append, Option.mem_toList] at href
      exact (hpend ref).mpr (href.imp_right (hk ref))
    · cases a with
      | update ord answer dt => exact absurd rfl (ha ord answer dt)
      | load | insert | modify => trivial
  · push Not at ha
    obtain ⟨ord, answer, dt, rfl⟩ := ha
    obtain ⟨p, inv, hmgr, hun⟩ := step_update hw hs
    constructor
    · intro hk' ref hp hd
      -- the record is no longer pending, so it must be off the ledger
      have hsave : s.mgr.savedBy p.trace ref = true := by
        by_contra hnot
        have hmem : ref ∈ s'.unsaved := by
          rw [hun]
          exact List.mem_filter.mpr ⟨hcov ref hp, by simpa using hnot⟩
        have hstill := hk' ref hmem
        rw [hmgr, pendingAt_update inv, hd] at hstill
        simp at hstill
      exact ((savedBy_update inv hp).mp hsave).2
    · intro hacc ref hmem
      rw [hun] at hmem
      obtain ⟨hmem, hnot⟩ := List.mem_filter.mp hmem
      have hp := hk ref hmem
      have hd : s.mgr.isDueName dt ref.1 = false := by
        rw [Bool.eq_false_iff]
        intro hd
        have hsave := (savedBy_update inv hp).mpr ⟨hd, hacc ref hp hd⟩
        rw [hsave] at hnot
        cases hnot
      rw [hmgr, pendingAt_update inv, hp, hd]
      rfl

/-- **Rejected writes.**  From a state whose ledger lists exactly the pending
records, every record the database has not taken stays pending throughout a
run exactly when in each pass the server accepts, for each pending record of a
due table, one of the commands run for it. -/
theorem kept_iff {s : Ledger fp} (hw : s.mgr.WellFormed)
    (hexact : ∀ ref, s.mgr.pendingAt ref = true ↔ ref ∈ s.unsaved) (actions : List (Action fp))
    (hc : ∀ a ∈ actions, Consistent a) :
    Always step Kept s actions ↔ EachStep step Accepted s actions := by
  apply always_iff_eachStep (J := Covers) (D := fun _ a => Consistent a)
  · intro s a s' hcov hc hs
    exact covers_step hcov hc hs
  · intro s a s' hcov hk hc hs
    exact kept_step_iff hcov hk hc hs
  · exact ⟨hw, fun ref => (hexact ref).mp⟩
  · exact fun ref => (hexact ref).mpr
  · exact eachStep_of_forall actions _ fun _ a ha => hc a ha

/-- An insertion and a pass that is refused. -/
def refusedRun : List (Action .exactRational) :=
  [.insert (lit "t") (UMap.insertNew (lit "name") (lit "x") ∅),
    .update .plain (fun _ _ => false) (10 : ℚ)]

/-- After a refused pass the new row is neither in the database nor pending. -/
theorem kept_broken : ¬ Always step Kept (⟨oneTable, []⟩ : Ledger .exactRational) refusedRun := by
  apply not_always_of_any (b := fun s => s.unsaved.any fun ref => !s.mgr.pendingAt ref)
  · intro s hbad hk
    obtain ⟨ref, hmem, hnot⟩ := List.any_eq_true.mp hbad
    rw [hk ref hmem] at hnot
    cases hnot
  · decide +kernel

theorem kept_iff_refusedRun :
    Always step Kept (⟨oneTable, []⟩ : Ledger .exactRational) refusedRun ↔
      EachStep step Accepted (⟨oneTable, []⟩ : Ledger .exactRational) refusedRun := by
  refine kept_iff oneTable_wellFormed (fun ref => ?_) refusedRun (by decide)
  have hnone : oneTable.pendingAt ref = false := by
    unfold pendingAt recordAt
    have hset : oneTable.tableSet = UMap.insertNew (lit "t") _ ∅ := rfl
    rw [hset, UMap.lookup_insertNew]
    split
    · rfl
    · rfl
  rw [hnone]
  simp

end Ledger

end FuServer
