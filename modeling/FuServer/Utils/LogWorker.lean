import FuServer.Lib.Outcome
import FuServer.Lib.Runs
import FuServer.Model.Log

/-!
# What the log worker writes

Messages come out in the order they were pushed, under every interleaving.
The last of them are lost under one: the worker finds the list empty, a message
and then `Exit` come, and the worker's next look is at the flag.
-/

namespace FuServer

open Bytes Outcome Runs

namespace UtilsLog

variable {s s' : UtilsLog}

/-- The output of the message. -/
def line (s : UtilsLog) (logInfo : CLogInfo) : LogSink × Str := checkLogInfoFunc s.logWriteToFile logInfo

/-- The output is that of the messages pushed, in their order, up to some point;
once the worker has stopped, all those pushed before `Exit` are in it. -/
def Faithful (s : UtilsLog) : Prop :=
  s.output <+: s.pushed.map s.line ∧ (s.place = .stopped → s.beforeExit.map s.line <+: s.output)

instance (s : UtilsLog) : Decidable s.Faithful := inferInstanceAs (Decidable (_ ∧ (_ → _)))

structure Inv (s : UtilsLog) : Prop where
  /-- a pushed message is output or is in the list -/
  whole : s.pushed.map s.line = s.output ++ s.logInfoList.map s.line
  /-- only the worker takes from the list -/
  pop : s.place = .pop → s.logInfoList ≠ []
  early : s.logExit = true → s.beforeExit <+: s.pushed
  /-- the list was empty when it was tested -/
  since : s.place = .exitTest → s.logExit = false → s.logInfoList.length = s.came
  /-- what is not output at the exit test came between the two tests -/
  late : s.place = .exitTest → s.logExit = true → (s.beforeExit.length ≤ s.output.length ↔ s.came = 0)
  stopped : s.place = .stopped → s.logExit = true

theorem Inv.beforeExit_prefix_iff (h : Inv s) (hexit : s.logExit = true) :
    s.beforeExit.map s.line <+: s.output ↔ s.beforeExit.length ≤ s.output.length := by
  constructor
  · intro hpre
    have hlen := hpre.length_le
    rwa [List.length_map] at hlen
  · intro hlen
    have hout : s.output <+: s.pushed.map s.line := ⟨_, h.whole.symm⟩
    have hearly := (h.early hexit).map s.line
    apply List.prefix_of_prefix_length_le hearly hout
    rwa [List.length_map]

/-! ## The steps -/

theorem Inv.pushBack (h : Inv s) (logInfo : CLogInfo) : Inv (s.pushBack logInfo) := by
  constructor
  · show (s.pushed ++ [logInfo]).map s.line = s.output ++ (s.logInfoList ++ [logInfo]).map s.line
    rw [List.map_append, List.map_append, h.whole, List.append_assoc]
  · intro _
    exact List.append_ne_nil_of_right_ne_nil _ (List.cons_ne_nil _ _)
  · intro hexit
    exact (h.early hexit).trans (List.prefix_append _ _)
  · intro hplace hexit
    change s.logExit = false at hexit
    show (s.logInfoList ++ [logInfo]).length = if s.logExit then s.came else s.came + 1
    rw [hexit, List.length_append, h.since hplace hexit]
    rfl
  · intro hplace hexit
    change s.logExit = true at hexit
    show _ ↔ (if s.logExit then s.came else s.came + 1) = 0
    rw [hexit]
    exact h.late hplace hexit
  · exact h.stopped

theorem Inv.exit (h : Inv s) (hexit : s.logExit = false) : Inv s.exit := by
  constructor
  · exact h.whole
  · exact h.pop
  · intro _
    exact List.prefix_rfl
  · intro _ hset
    cases hset
  · intro hplace _
    show s.pushed.length ≤ s.output.length ↔ s.came = 0
    have hlen := congrArg List.length h.whole
    rw [List.length_map, List.length_append, List.length_map, h.since hplace hexit] at hlen
    omega
  · intro _
    rfl

theorem Inv.test (h : Inv s) (hplace : s.place = .test) :
    ∃ s', s.stWorkerThreadProc = .ok s' ∧ Inv s' ∧ s'.place ≠ .stopped := by
  unfold stWorkerThreadProc
  rw [hplace]
  dsimp only
  by_cases hlist : s.logInfoList = []
  · rw [if_neg (not_not.mpr hlist)]
    refine ⟨_, rfl, ?_, nofun⟩
    constructor
    · exact h.whole
    · nofun
    · exact h.early
    · intro _ _
      exact List.length_eq_zero_iff.mpr hlist
    · intro _ hexit
      refine iff_of_true ?_ rfl
      show s.beforeExit.length ≤ s.output.length
      have hlen := congrArg List.length h.whole
      rw [List.length_map, List.length_append, List.length_map, hlist] at hlen
      have hearly := (h.early hexit).length_le
      rw [List.length_nil] at hlen
      omega
    · nofun
  · rw [if_pos hlist]
    refine ⟨_, rfl, ?_, nofun⟩
    constructor
    · exact h.whole
    · exact fun _ => hlist
    · exact h.early
    · nofun
    · nofun
    · nofun

theorem Inv.take (h : Inv s) (hplace : s.place = .pop) :
    ∃ s', s.stWorkerThreadProc = .ok s' ∧ Inv s' ∧ s'.place ≠ .stopped := by
  unfold stWorkerThreadProc
  rw [hplace]
  dsimp only
  cases hlist : s.logInfoList with
  | nil => exact absurd hlist (h.pop hplace)
  | cons logInfo rest =>
    refine ⟨_, rfl, ?_, nofun⟩
    constructor
    · show s.pushed.map s.line = (s.output ++ [s.line logInfo]) ++ rest.map s.line
      rw [h.whole, hlist, List.append_assoc]
      rfl
    · nofun
    · exact h.early
    · nofun
    · nofun
    · nofun

theorem Inv.exitTest (h : Inv s) (hplace : s.place = .exitTest) :
    ∃ s', s.stWorkerThreadProc = .ok s' ∧ Inv s' ∧
      (s'.Faithful ↔ (s.logExit = true → s.came = 0)) := by
  unfold stWorkerThreadProc
  rw [hplace]
  dsimp only
  have hout : s.output <+: s.pushed.map s.line := ⟨_, h.whole.symm⟩
  by_cases hexit : s.logExit = true
  · rw [if_pos hexit]
    refine ⟨_, rfl, ⟨h.whole, nofun, h.early, nofun, nofun, fun _ => hexit⟩, ?_⟩
    show _ ∧ (WorkerPlace.stopped = .stopped → s.beforeExit.map s.line <+: s.output) ↔ _
    rw [h.beforeExit_prefix_iff hexit, h.late hplace hexit]
    constructor
    · exact fun hf _ => hf.2 rfl
    · exact fun hcame => ⟨hout, fun _ => hcame hexit⟩
  · rw [if_neg hexit]
    refine ⟨_, rfl, ?_, iff_of_true ⟨hout, nofun⟩ fun hset => absurd hset hexit⟩
    exact ⟨h.whole, nofun, h.early, nofun, nofun, nofun⟩

end UtilsLog

namespace LogStep

open UtilsLog

/-- The worker does not stop on a list that messages have entered, before
`Exit`, since it found it empty. -/
def Watched (s : UtilsLog) : LogStep → Prop
  | log _ _ => True
  | logFile _ _ => True
  | exit => True
  | worker => s.place = .exitTest → s.logExit = true → s.came = 0

theorem faithful_pushBack {s : UtilsLog} (h : Inv s) (hf : s.Faithful) (logInfo : CLogInfo) :
    (s.pushBack logInfo).Faithful :=
  ⟨⟨_, (h.pushBack logInfo).whole.symm⟩, hf.2⟩

/-- **One step.** -/
theorem step_spec {s : UtilsLog} (h : Inv s) {a : LogStep} {r : Res UtilsLog}
    (hs : step (.ok s) a = some r) :
    ∃ s', r = .ok s' ∧ Inv s' ∧ (s.Faithful → (s'.Faithful ↔ a.Watched s)) := by
  cases a with
  | log level toStr =>
    cases hs
    exact ⟨_, rfl, h.pushBack _, fun hf => iff_of_true (faithful_pushBack h hf _) trivial⟩
  | logFile pstr fileName =>
    cases hs
    exact ⟨_, rfl, h.pushBack _, fun hf => iff_of_true (faithful_pushBack h hf _) trivial⟩
  | exit =>
    rw [step] at hs
    split at hs
    · cases hs
    · next hexit =>
      cases hs
      refine ⟨_, rfl, h.exit (Bool.eq_false_iff.mpr hexit), fun hf => iff_of_true ⟨hf.1, ?_⟩ trivial⟩
      intro hstopped
      exact absurd (h.stopped hstopped) hexit
  | worker =>
    rw [step] at hs
    split at hs
    · cases hs
    · next hplace =>
      cases hs
      -- where the worker does not stop there is nothing to watch
      have goes : ∀ s' : UtilsLog, s'.Inv → s'.place ≠ .stopped → s.place ≠ .exitTest →
          (s.Faithful → (s'.Faithful ↔ worker.Watched s)) := by
        intro s' hinv hgo hhere _
        refine iff_of_true ⟨⟨_, hinv.whole.symm⟩, fun hstop => absurd hstop hgo⟩ ?_
        exact fun hexit => absurd hexit hhere
      cases hat : s.place with
      | test =>
        obtain ⟨s', hs', hinv, hgo⟩ := h.test hat
        exact ⟨s', hs', hinv, goes s' hinv hgo (by rw [hat]; decide)⟩
      | pop =>
        obtain ⟨s', hs', hinv, hgo⟩ := h.take hat
        exact ⟨s', hs', hinv, goes s' hinv hgo (by rw [hat]; decide)⟩
      | exitTest =>
        obtain ⟨s', hs', hinv, hfaithful⟩ := h.exitTest hat
        refine ⟨s', hs', hinv, fun _ => hfaithful.trans ?_⟩
        exact ⟨fun hcame _ => hcame, fun hcame => hcame hat⟩
      | stopped => exact absurd hat hplace

/-- **The log worker.**  Over every interleaving of pushes, one `Exit` and the
worker's steps, the output stays faithful exactly when the worker never stops on
a list that messages have entered, before `Exit`, since it found it empty. -/
theorem log_faithful_iff (logWriteToFile : Bool) (as : List LogStep) :
    Always step (fun r => Returns r Faithful) (.ok { logWriteToFile := logWriteToFile }) as ↔
      EachStep step (fun r a => ∀ s, r = .ok s → a.Watched s)
          (.ok { logWriteToFile := logWriteToFile }) as := by
  have hnew : Inv { logWriteToFile := logWriteToFile } := ⟨rfl, nofun, nofun, nofun, nofun, nofun⟩
  exact always_returns_iff (fun _ _ _ h hs => step_spec h hs) as _ hnew ⟨List.prefix_rfl, nofun⟩

/-- The worker has found the list empty when the message comes; it stops, and the message stays. -/
theorem last_message_lost :
    ¬ Always step (fun r => Returns r Faithful) (.ok { logWriteToFile := false })
      [.worker, .log 3 (lit "stop"), .exit, .worker] := by
  apply not_always_of_any (b := fun r => r.toOption.any fun s => !decide s.Faithful)
  · intro r hr hf
    obtain ⟨s, rfl, h⟩ := hf
    simp [Except.toOption, h] at hr
  · decide

end LogStep

end FuServer
