import FuServer.Backup.ExactlyOnce
import FuServer.Lib.Runs

/-!
# Runs of the manager

The calls a running manager sees, in one step function: loads, insertions,
modifications and passes of `Update`.  A step also says which commands it ran
and which record it wrote.
-/

namespace FuServer

open Bytes Decimal Outcome

/-- A call on the manager, with the server's answers to the statements it sends. -/
inductive Action (fp : FloatUnit)
  | load (dbname tname : Str) (reply : LoadReply)
  | insert (tname : Str) (dataList : UMap Str Str)
  | modify (tname dataKey : Str) (dataList : UMap Str Str)
  | update (ord : HashOrder) (answer : Str → RecRef → Bool) (dt : fp.Flt)

/-- What a step leaves: the manager, the commands it ran, the record it inserted or modified. -/
structure Effect (fp : FloatUnit) where
  mgr : DBManager fp
  runs : List DBManager.CmdRun
  written : Option RecRef

namespace DBManager

variable {fp : FloatUnit}

/-- `ModifyDB` with these data assigns some column of the table. -/
def assigns (m : DBManager fp) (tname : Str) (dataList : UMap Str Str) : Bool :=
  match m.tableSet.lookup tname with
  | some t => dataList.entries.any fun e => t.getFieldIndex e.1 != t.iPriKeyIndex
  | none => false

/-- The record an owner names. -/
def recordAt (m : DBManager fp) (ref : RecRef) : Option DBRecord :=
  (m.tableSet.lookup ref.1).bind fun t => t.recordSet.lookup ref.2

/-- One call; no effect when it faults. -/
def act (m : DBManager fp) : Action fp → Option (Effect fp)
  | .load dbname tname reply =>
    match m.loadTable dbname tname reply with
    | .ok (m', _) => some ⟨m', [], none⟩
    | .error _ => none
  | .insert tname d =>
    match m.insertDB tname d with
    | .ok (m', k) =>
      let added := (m.recordAt (tname, k)).isNone && (m'.recordAt (tname, k)).isSome
      some ⟨m', [], if added then some (tname, k) else none⟩
    | .error _ => none
  | .modify tname k d =>
    match m.modifyDB tname k d with
    | .ok (m', ok) => some ⟨m', [], if ok && m.assigns tname d then some (tname, k) else none⟩
    | .error _ => none
  | .update ord answer dt =>
    match m.update ord answer dt with
    | .ok (m', trace) => some ⟨m', trace, none⟩
    | .error _ => none

section Inversion

variable {m : DBManager fp} {e : Effect fp}

theorem act_load {dbname tname : Str} {reply : LoadReply}
    (h : m.act (.load dbname tname reply) = some e) :
    ∃ b, m.loadTable dbname tname reply = .ok (e.mgr, b) ∧ e.runs = [] ∧ e.written = none := by
  unfold act at h
  cases hr : m.loadTable dbname tname reply with
  | error f => simp only [hr] at h; cases h
  | ok r =>
    simp only [hr] at h
    cases h
    exact ⟨r.2, rfl, rfl, rfl⟩

theorem act_insert {tname : Str} {d : UMap Str Str} (h : m.act (.insert tname d) = some e) :
    ∃ k, m.insertDB tname d = .ok (e.mgr, k) ∧ e.runs = [] ∧
      e.written = if (m.recordAt (tname, k)).isNone && (e.mgr.recordAt (tname, k)).isSome then
        some (tname, k) else none := by
  unfold act at h
  cases hr : m.insertDB tname d with
  | error f => simp only [hr] at h; cases h
  | ok r =>
    simp only [hr] at h
    cases h
    exact ⟨r.2, rfl, rfl, rfl⟩

theorem act_modify {tname k : Str} {d : UMap Str Str} (h : m.act (.modify tname k d) = some e) :
    ∃ ok, m.modifyDB tname k d = .ok (e.mgr, ok) ∧ e.runs = [] ∧
      e.written = if ok && m.assigns tname d then some (tname, k) else none := by
  unfold act at h
  cases hr : m.modifyDB tname k d with
  | error f => simp only [hr] at h; cases h
  | ok r =>
    simp only [hr] at h
    cases h
    exact ⟨r.2, rfl, rfl, rfl⟩

theorem act_update {ord : HashOrder} {answer : Str → RecRef → Bool} {dt : fp.Flt}
    (h : m.act (.update ord answer dt) = some e) :
    m.update ord answer dt = .ok (e.mgr, e.runs) ∧ e.written = none := by
  unfold act at h
  cases hr : m.update ord answer dt with
  | error f => simp only [hr] at h; cases h
  | ok r =>
    simp only [hr] at h
    cases h
    exact ⟨rfl, rfl⟩

end Inversion

/-- The loads considered: `mysql_list_fields` and `select *` tell of the same columns. -/
def Consistent : Action fp → Prop
  | .load _ _ reply => reply.Consistent
  | _ => True

instance (a : Action fp) : Decidable (Consistent a) :=
  match a with
  | .load _ _ reply =>
    inferInstanceAs (Decidable (∀ fields ∈ reply.info, ∀ res ∈ reply.select, res.fields = fields))
  | .insert _ _ => isTrue trivial
  | .modify _ _ _ => isTrue trivial
  | .update _ _ _ => isTrue trivial

/-! ## Well-formedness along a run -/

theorem After.wellFormed {m : DBManager fp} {dt : fp.Flt} {t t' : DBTable fp} (h : m.After dt t t')
    (ht : t.WellFormed) : t'.WellFormed := by
  obtain ⟨⟨rs, hrest⟩, hrec⟩ := h
  obtain ⟨⟨htypes, hindex, hlo, hhi⟩, hagree⟩ := ht
  subst hrest
  refine ⟨⟨htypes, hindex, hlo, hhi⟩, fun k r hr => ?_⟩
  rw [hrec k] at hr
  obtain ⟨r0, hr0, rfl⟩ := Option.map_eq_some_iff.mp hr
  have hkeyed := hagree k r0 hr0
  split
  · exact hkeyed
  · exact hkeyed

theorem wellFormed_update {m m' : DBManager fp} (h : m.WellFormed) {ord : HashOrder}
    {answer : Str → RecRef → Bool} {dt : fp.Flt} {trace : List CmdRun}
    (hs : m.update ord answer dt = .ok (m', trace)) : m'.WellFormed := by
  obtain ⟨s, hok, inv⟩ := update_spec h ord answer dt
  rw [hok] at hs
  cases hs
  intro tname t hm
  by_cases hmem : tname ∈ ord.order m.tableSet.keys
  · obtain ⟨t0, t1, h0, h1, hafter⟩ := inv.after tname hmem
    obtain rfl : t1 = t := Option.some.inj (h1.symm.trans hm)
    exact hafter.wellFormed (h tname t0 h0)
  · rw [inv.before tname hmem] at hm
    exact h tname t hm

theorem wellFormed_act {m : DBManager fp} (h : m.WellFormed) {a : Action fp} (hc : Consistent a)
    {e : Effect fp} (hs : m.act a = some e) : e.mgr.WellFormed := by
  cases a with
  | load dbname tname reply =>
    obtain ⟨b, hr, -⟩ := act_load hs
    exact wellFormed_loadTable h hc hr
  | insert tname d =>
    obtain ⟨k, hr, -⟩ := act_insert hs
    exact wellFormed_insertDB h hr
  | modify tname k d =>
    obtain ⟨ok, hr, -⟩ := act_modify hs
    exact wellFormed_modifyDB h hr
  | update ord answer dt =>
    obtain ⟨hr, -⟩ := act_update hs
    exact wellFormed_update h hr

end DBManager

end FuServer
