import Mathlib.Data.List.Chain
import FuServer.Client.Calls

/-!
# Calls complete on their own answers

Only `SendQueryDB` takes back the error code of an earlier call.  A
modification, insertion or load that follows a failed call finds that code
still set and returns at once; `ownAnswers_iff` says that nothing else makes a
call return on another call's outcome.
-/

namespace FuServer

open Runs

namespace DBClient

theorem checkWhileReturn_eq_none {c : DBClient} {kind : RequestKind} :
    c.checkWhileReturn kind = none ↔ c.slotProtId kind ≠ kind.toProtId ∧ ¬ 0 < c.iErrorCode := by
  unfold checkWhileReturn
  by_cases hid : c.slotProtId kind = kind.toProtId
  · simp [hid]
  · by_cases hcode : 0 < c.iErrorCode
    · simp [hid, hcode]
    · simp [hid, hcode]

theorem checkWhileReturn_errorCode {c : DBClient} {kind : RequestKind}
    (h : c.checkWhileReturn kind = some .errorCode) : 0 < c.iErrorCode := by
  unfold checkWhileReturn at h
  split at h
  · cases h
  · split at h
    · next hcode => exact hcode
    · cases h

/-- With an error code left over, a call that is no query returns at once. -/
theorem checkWhileReturn_stale {c : DBClient} {kind : RequestKind} (hcode : 0 < c.iErrorCode)
    (h : kind ≠ .query) : (c.resetSlot kind).checkWhileReturn kind = some .errorCode := by
  unfold checkWhileReturn
  rw [if_neg (c.slotProtId_resetSlot kind), c.iErrorCode_resetSlot h, if_pos hcode]

/-- Its answer makes a call return. -/
theorem checkWhileReturn_take {kind : RequestKind} {r : Reply} (h : AnswerTo kind r) (c : DBClient) :
    ∃ exit, (c.take r).checkWhileReturn kind = some exit := by
  unfold checkWhileReturn
  cases h with
  | query names rows => exact ⟨.reply, rfl⟩
  | modify => exact ⟨.reply, rfl⟩
  | insert dataKey => exact ⟨.reply, rfl⟩
  | loadtable => exact ⟨.reply, rfl⟩
  | @error kind d hcode =>
    have hset : 0 < (c.take (.error d)).iErrorCode := hcode
    by_cases hid : (c.take (.error d)).slotProtId kind = kind.toProtId
    · exact ⟨.reply, if_pos hid⟩
    · exact ⟨.errorCode, by rw [if_neg hid, if_pos hset]⟩

end DBClient

namespace Session

/-- Every call that came back did so after its answer, and by the error code
only if that answer was an error. -/
def OwnAnswers (s : Session) : Prop :=
  ∀ r ∈ s.returned, r.answered = true ∧ (r.exit = .errorCode → r.call.Fails)

/-- A failed call is followed by a query, or by none. -/
def QueryAfterError (calls : List DbCall) : Prop :=
  calls.IsChain fun call next => call.Fails → next.kind = .query

/-! ## Nothing stale is left -/

/-- What holds at each phase of the call under way when nothing stale is left. -/
def Fresh (s : Session) : Prop :=
  match s.phase with
  | .idle =>
    s.outstanding = [] ∧ (0 < s.client.iErrorCode → ∀ call ∈ s.todo.head?, call.kind = .query)
  | .sent =>
    ∃ call ∈ s.todo.head?,
      s.outstanding = [call] ∧ (call.kind ≠ .query → ¬ 0 < s.client.iErrorCode) ∨
      s.outstanding = [] ∧ (call.kind ≠ .query → 0 < s.client.iErrorCode → call.Fails)
  | .polling =>
    ∃ call ∈ s.todo.head?,
      s.outstanding = [call] ∧ s.client.checkWhileReturn call.kind = none ∨
      s.outstanding = [] ∧ (0 < s.client.iErrorCode → call.Fails)

/-- An answer leaves an error code only if it is an error. -/
theorem fails_of_take {call : DbCall} {c : DBClient} (h : ¬ 0 < c.iErrorCode)
    (hcode : 0 < (c.take call.reply).iErrorCode) : call.Fails := by
  rcases call.answers.iErrorCode c with hd | hsame
  · exact hd
  · rw [hsame] at hcode
    exact absurd hcode h

theorem fresh_send {s s' : Session} (h : s.Fresh) (hs : s.step .send = some s') : s'.Fresh := by
  obtain ⟨call, todo, hphase, htodo, rfl⟩ := step_send hs
  unfold Fresh at h
  rw [hphase] at h
  obtain ⟨hnone, hquery⟩ := h
  refine ⟨call, by rw [htodo]; rfl, Or.inl ⟨by rw [hnone]; rfl, fun hkind hcode => hkind ?_⟩⟩
  exact hquery hcode call (by rw [htodo]; rfl)

theorem fresh_reset {s s' : Session} (h : s.Fresh) (hs : s.step .reset = some s') : s'.Fresh := by
  obtain ⟨call, todo, hphase, htodo, rfl⟩ := step_reset hs
  unfold Fresh at h
  rw [hphase, htodo] at h
  obtain ⟨_, hcall, h⟩ := h
  cases hcall
  refine ⟨call, by rw [htodo]; rfl, ?_⟩
  have hcode : (call.kind ≠ .query → ¬ 0 < s.client.iErrorCode) →
      ¬ 0 < (s.client.resetSlot call.kind).iErrorCode := by
    intro hkind
    by_cases hq : call.kind = .query
    · rw [hq]
      show ¬ (0 : Int32) < -1
      decide
    · rw [DBClient.iErrorCode_resetSlot _ hq]
      exact hkind hq
  rcases h with ⟨hone, hkind⟩ | ⟨hnone, hkind⟩
  · exact Or.inl ⟨hone, DBClient.checkWhileReturn_eq_none.mpr
      ⟨DBClient.slotProtId_resetSlot _ _, hcode hkind⟩⟩
  · refine Or.inr ⟨hnone, fun hset => ?_⟩
    by_contra hno
    exact hcode (fun hq hset' => hno (hkind hq hset')) hset

theorem fresh_recv {s s' : Session} (h : s.Fresh) (hs : s.step .recv = some s') : s'.Fresh := by
  obtain ⟨answered, outstanding, hout, rfl⟩ := step_recv hs
  unfold Fresh at h ⊢
  dsimp only
  cases hphase : s.phase with
  | idle =>
    rw [hphase, hout] at h
    exact absurd h.1 (by simp)
  | sent =>
    rw [hphase, hout] at h
    obtain ⟨call, hcall, h⟩ := h
    rcases h with ⟨hone, hkind⟩ | ⟨hnone, -⟩
    · obtain ⟨rfl, rfl⟩ := List.cons.inj hone
      exact ⟨answered, hcall, Or.inr ⟨rfl, fun hq => fails_of_take (hkind hq)⟩⟩
    · cases hnone
  | polling =>
    rw [hphase, hout] at h
    obtain ⟨call, hcall, h⟩ := h
    rcases h with ⟨hone, hcheck⟩ | ⟨hnone, -⟩
    · obtain ⟨rfl, rfl⟩ := List.cons.inj hone
      exact ⟨answered, hcall, Or.inr ⟨rfl,
        fails_of_take (DBClient.checkWhileReturn_eq_none.mp hcheck).2⟩⟩
    · cases hnone

/-- What is true of a run whose calls leave nothing stale. -/
structure Sound (s : Session) : Prop where
  order : QueryAfterError s.todo
  fresh : s.Fresh
  own : s.OwnAnswers

/-- The call that returns does so on its answer, and the next one finds nothing stale. -/
theorem sound_poll {s s' : Session} (h : s.Sound) (hs : s.step .poll = some s') : s'.Sound := by
  obtain ⟨call, todo, hphase, htodo, rfl | ⟨exit, hexit, rfl⟩⟩ := step_poll hs
  · exact h
  · have hfresh := h.fresh
    unfold Fresh at hfresh
    rw [hphase, htodo] at hfresh
    obtain ⟨_, hcall, hfresh⟩ := hfresh
    cases hcall
    have horder := h.order
    rw [htodo] at horder
    rcases hfresh with ⟨-, hcheck⟩ | ⟨hnone, hfails⟩
    · rw [hcheck] at hexit
      cases hexit
    · refine ⟨List.IsChain.of_cons horder, ⟨hnone, fun hcode next hnext => ?_⟩, fun r hr => ?_⟩
      · obtain ⟨rest, rfl⟩ := List.head?_eq_some_iff.mp hnext
        exact (List.isChain_cons_cons.mp horder).1 (hfails hcode)
      · rcases List.mem_append.mp hr with hr | hr
        · exact h.own r hr
        · obtain rfl := List.mem_singleton.mp hr
          refine ⟨by rw [hnone]; rfl, fun he => ?_⟩
          dsimp only at he
          subst he
          exact hfails (DBClient.checkWhileReturn_errorCode hexit)

theorem sound_step {s s' : Session} (h : s.Sound) {a : CallStep} (hs : s.step a = some s') :
    s'.Sound := by
  cases a with
  | send =>
    obtain ⟨_, _, -, -, rfl⟩ := step_send hs
    exact ⟨h.order, fresh_send h.fresh hs, h.own⟩
  | reset =>
    obtain ⟨_, _, -, -, rfl⟩ := step_reset hs
    exact ⟨h.order, fresh_reset h.fresh hs, h.own⟩
  | poll => exact sound_poll h hs
  | recv =>
    obtain ⟨_, _, -, rfl⟩ := step_recv hs
    exact ⟨h.order, fresh_recv h.fresh hs, h.own⟩

/-! ## A stale error code -/

/-- A client between two calls, with no answer outstanding. -/
def between (client : DBClient) (todo : List DbCall) (returned : List Returned) : Session :=
  { client := client, todo := todo, returned := returned }

/-- A call whose answer comes after its reset and before its poll. -/
theorem run_call (c : DBClient) (call : DbCall) (todo : List DbCall) (returned : List Returned) :
    ∃ exit, run step (between c (call :: todo) returned) [.send, .reset, .recv, .poll] =
      some (between ((c.resetSlot call.kind).take call.reply) todo
        (returned ++ [⟨call, exit, true⟩])) := by
  obtain ⟨exit, hexit⟩ := DBClient.checkWhileReturn_take call.answers (c.resetSlot call.kind)
  have hrecv : step ⟨c.resetSlot call.kind, call :: todo, .polling, [call], returned⟩ .recv =
      some ⟨(c.resetSlot call.kind).take call.reply, call :: todo, .polling, [], returned⟩ :=
    recv_cons rfl
  have hpoll : step ⟨(c.resetSlot call.kind).take call.reply, call :: todo, .polling, [], returned⟩
      .poll = some (between ((c.resetSlot call.kind).take call.reply) todo
        (returned ++ [⟨call, exit, true⟩])) := by
    unfold step
    dsimp only
    rw [hexit]
    rfl
  refine ⟨exit, ?_⟩
  show (step ⟨c.resetSlot call.kind, call :: todo, .polling, [call], returned⟩ .recv).bind _ = _
  rw [hrecv]
  show (step ⟨(c.resetSlot call.kind).take call.reply, call :: todo, .polling, [], returned⟩
    .poll).bind _ = _
  rw [hpoll]
  rfl

/-- A call that returns before its answer. -/
theorem run_stale {c : DBClient} {call : DbCall} (hcode : 0 < c.iErrorCode)
    (hkind : call.kind ≠ .query) (todo : List DbCall) (returned : List Returned) :
    ¬ Always step OwnAnswers (between c (call :: todo) returned) [.send, .reset, .poll] := by
  have hexit := DBClient.checkWhileReturn_stale hcode hkind
  have hrun : run step (between c (call :: todo) returned) [.send, .reset, .poll] =
      some { client := c.resetSlot call.kind, todo := todo, outstanding := [call]
             returned := returned ++ [⟨call, .errorCode, false⟩] } := by
    show (step ⟨c.resetSlot call.kind, call :: todo, .polling, [call], returned⟩ .poll).bind _ = _
    unfold step
    dsimp only
    rw [hexit]
    rfl
  have hlast : ¬ OwnAnswers { client := c.resetSlot call.kind, todo := todo, outstanding := [call]
                              returned := returned ++ [⟨call, .errorCode, false⟩] } := by
    intro h
    have hfalse := (h ⟨call, .errorCode, false⟩ (by simp)).1
    cases hfalse
  exact not_always_append hrun hlast

/-- By induction on the calls: they complete one after the other until one
that is no query finds an error code. -/
theorem breaks (calls : List DbCall) : ∀ (c : DBClient) (returned : List Returned),
    (¬ QueryAfterError calls ∨ 0 < c.iErrorCode ∧ ∃ call ∈ calls.head?, call.kind ≠ .query) →
    ∃ steps, ¬ Always step OwnAnswers (between c calls returned) steps := by
  induction calls with
  | nil =>
    rintro c returned (h | ⟨-, call, hcall, -⟩)
    · exact absurd List.IsChain.nil h
    · cases hcall
  | cons call todo ih =>
    intro c returned h
    by_cases hstale : 0 < c.iErrorCode ∧ call.kind ≠ .query
    · exact ⟨_, run_stale hstale.1 hstale.2 todo returned⟩
    · have hchain : ¬ QueryAfterError (call :: todo) := by
        rcases h with h | ⟨hcode, _, hcall, hkind⟩
        · exact h
        · cases hcall
          exact absurd ⟨hcode, hkind⟩ hstale
      obtain ⟨exit, hrun⟩ := run_call c call todo returned
      have hnext : ¬ QueryAfterError todo ∨
          0 < ((c.resetSlot call.kind).take call.reply).iErrorCode ∧
            ∃ next ∈ todo.head?, next.kind ≠ .query := by
        cases todo with
        | nil => exact absurd (List.IsChain.singleton call) hchain
        | cons next todo =>
          by_cases hpair : call.Fails → next.kind = .query
          · exact Or.inl fun hrest => hchain (List.isChain_cons_cons.mpr ⟨hpair, hrest⟩)
          · obtain ⟨⟨d, hd⟩, hkind⟩ := Classical.not_imp.mp hpair
            refine Or.inr ⟨?_, next, rfl, hkind⟩
            have hcode := call.answers.code_pos hd
            rw [hd]
            exact hcode
      obtain ⟨steps, hsteps⟩ := ih _ _ hnext
      exact ⟨_, not_always_append hrun hsteps⟩

/-- **Calls that complete on their own answers.**  Whatever the delays, every
call of a new client returns after its own answer, and by the error code only
on an error, exactly when each failed call is followed by a query. -/
theorem ownAnswers_iff (junk : RequestKind → Int32) (calls : List DbCall) :
    (∀ steps, Always step OwnAnswers (start (DBClient.new junk) calls) steps) ↔
      QueryAfterError calls := by
  constructor
  · intro h
    by_contra hchain
    obtain ⟨steps, hsteps⟩ := breaks calls (DBClient.new junk) [] (Or.inl hchain)
    exact hsteps (h steps)
  · intro h steps
    have hstart : (start (DBClient.new junk) calls).Sound := by
      refine ⟨h, ⟨rfl, fun hcode => ?_⟩, fun r hr => absurd hr List.not_mem_nil⟩
      exact absurd (show (0 : Int32) < -1 from hcode) (by decide)
    exact always_of_invariant (fun _ _ _ hj hs => sound_step hj hs) (fun _ hj => hj.own) steps _ hstart

/-- After a refused modification the next one returns before its answer. -/
theorem ownAnswers_broken :
    ¬ ∀ steps, Always step OwnAnswers
      (start (DBClient.new fun _ => 0) [DbCall.refused, DbCall.modified]) steps := by
  intro h
  have hrun := h [.send, .reset, .recv, .poll, .send, .reset, .poll]
  revert hrun
  apply not_always_of_any (b := fun s => s.returned.any fun r => !r.answered)
  · intro s hs hown
    obtain ⟨r, hr, hnot⟩ := List.any_eq_true.mp hs
    rw [(hown r hr).1] at hnot
    cases hnot
  · decide +kernel

end Session

end FuServer
