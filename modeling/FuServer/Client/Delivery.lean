import FuServer.Client.Calls

/-!
# Replies stay where they were put

A call sends before it resets its slot, so its answer may be processed in
between and then wiped.  `keepsReplies_iff` names the orders of steps in which
every processed answer is still there when the call polls.
-/

namespace FuServer

open Runs

/-- The answer is where the call looks for it. -/
def DbCall.DeliveredTo (call : DbCall) (c : DBClient) : Prop :=
  match call.reply with
  | .query d => c.queryRef = d
  | .modify d => c.modifyRef = d
  | .insert d => c.insertRef = d
  | .loadtable d => c.loadTableRef = d
  | .error d => c.iErrorCode = d.code
  | .other _ => False

namespace DbCall

/-- A delivered reply is under the id that the call waits for. -/
theorem slotProtId_of_delivered {call : DbCall} {c : DBClient} (h : call.DeliveredTo c)
    (hreply : ¬ call.Fails) : c.slotProtId call.kind = call.kind.toProtId := by
  obtain ⟨kind, answer, reply, read, answers⟩ := call
  cases answers with
  | query names rows => exact congrArg DbScQuery.protId h
  | modify => exact congrArg DbScModify.protId h
  | insert dataKey => exact congrArg DbScInsert.protId h
  | loadtable => exact congrArg DbScLoadtable.protId h
  | @error kind d hcode => exact absurd ⟨d, rfl⟩ hreply

theorem delivered_error_iff {call : DbCall} {d : DbProtError} (hd : call.reply = .error d)
    (c : DBClient) : call.DeliveredTo c ↔ c.iErrorCode = d.code := by
  unfold DeliveredTo
  rw [hd]

/-- A delivered answer ends the spinning. -/
theorem returns_of_delivered {call : DbCall} {c : DBClient} (h : call.DeliveredTo c) :
    ∃ exit, c.checkWhileReturn call.kind = some exit := by
  unfold DBClient.checkWhileReturn
  by_cases hid : c.slotProtId call.kind = call.kind.toProtId
  · exact ⟨.reply, if_pos hid⟩
  · by_cases hfails : call.Fails
    · obtain ⟨d, hd⟩ := hfails
      have hcode := call.answers.code_pos hd
      rw [← (delivered_error_iff hd c).mp h] at hcode
      exact ⟨.errorCode, by rw [if_neg hid, if_pos hcode]⟩
    · exact absurd (slotProtId_of_delivered h hfails) hid

/-- Only a query's lists can get in the way of its reply. -/
theorem delivered_take_iff (call : DbCall) (c : DBClient) :
    call.DeliveredTo (c.take call.reply) ↔
      ∀ d, call.reply = .query d → c.queryRef.fieldNameList = [] ∧ c.queryRef.recordList = [] := by
  obtain ⟨kind, answer, reply, read, answers⟩ := call
  cases answers with
  | query names rows =>
    constructor
    · intro h d hd
      have hslot : DbScQuery.mk protocolDbSToCQuery (c.queryRef.fieldNameList ++ names)
        (c.queryRef.recordList ++ rows) = ⟨protocolDbSToCQuery, names, rows⟩ := h
      injection hslot with _ hnames hrows
      exact ⟨List.append_left_eq_self.mp hnames, List.append_left_eq_self.mp hrows⟩
    · intro h
      obtain ⟨hnames, hrows⟩ := h _ rfl
      show DbScQuery.mk protocolDbSToCQuery (c.queryRef.fieldNameList ++ names)
        (c.queryRef.recordList ++ rows) = ⟨protocolDbSToCQuery, names, rows⟩
      rw [hnames, hrows]
      rfl
  | modify => exact iff_of_true rfl fun d hd => by cases hd
  | insert dataKey => exact iff_of_true rfl fun d hd => by cases hd
  | loadtable => exact iff_of_true rfl fun d hd => by cases hd
  | error hcode => exact iff_of_true rfl fun d hd => by cases hd

/-- A reset takes away every answer but an error of a call that is no query. -/
theorem delivered_reset_iff {call : DbCall} {c : DBClient} (h : call.DeliveredTo c) :
    call.DeliveredTo (c.resetSlot call.kind) ↔ call.kind ≠ .query ∧ call.Fails := by
  by_cases hfails : call.Fails
  · obtain ⟨d, hd⟩ := id hfails
    have hcode := call.answers.code_pos hd
    rw [delivered_error_iff hd] at h ⊢
    by_cases hkind : call.kind = .query
    · refine iff_of_false (fun h' => ?_) fun h' => h'.1 hkind
      rw [hkind] at h'
      have hset : (-1 : Int32) = d.code := h'
      rw [← hset] at hcode
      exact absurd hcode (by decide)
    · rw [c.iErrorCode_resetSlot hkind]
      exact iff_of_true h ⟨hkind, hfails⟩
  · refine iff_of_false (fun h' => ?_) fun h' => hfails h'.2
    exact c.slotProtId_resetSlot call.kind (slotProtId_of_delivered h' hfails)

end DbCall

namespace Session

/-- While a call is under way and its answer has been processed, the answer is
where the call looks for it. -/
def KeepsReply (s : Session) : Prop :=
  s.phase ≠ .idle → s.outstanding = [] → ∀ call ∈ s.todo.head?, call.DeliveredTo s.client

/-- The step does no harm to an answer: a call is not reset once its answer has
been processed, unless it is no query and has failed; and a query's reply comes
to a slot with empty lists. -/
def Harmless (s : Session) : CallStep → Prop
  | .send => True
  | .reset => s.outstanding = [] → ∀ call ∈ s.todo.head?, call.kind ≠ .query ∧ call.Fails
  | .poll => True
  | .recv => s.phase ≠ .idle → ∀ call, s.outstanding = [call] → ∀ d, call.reply = .query d →
      s.client.queryRef.fieldNameList = [] ∧ s.client.queryRef.recordList = []

/-- The call under way is the last one whose answer can be outstanding. -/
def LastIsCurrent (s : Session) : Prop :=
  s.phase ≠ .idle → ∃ call ∈ s.todo.head?, s.outstanding = [] ∨ ∃ pre, s.outstanding = pre ++ [call]

theorem lastIsCurrent_step {s s' : Session} {a : CallStep} (h : s.LastIsCurrent)
    (hs : s.step a = some s') : s'.LastIsCurrent := by
  intro hphase'
  cases a with
  | send =>
    obtain ⟨call, todo, -, htodo, rfl⟩ := step_send hs
    exact ⟨call, by rw [htodo]; rfl, Or.inr ⟨s.outstanding, rfl⟩⟩
  | reset =>
    obtain ⟨call, todo, hphase, -, rfl⟩ := step_reset hs
    exact h (by rw [hphase]; decide)
  | poll =>
    obtain ⟨call, todo, -, -, rfl | ⟨exit, -, rfl⟩⟩ := step_poll hs
    · exact h hphase'
    · exact absurd rfl hphase'
  | recv =>
    obtain ⟨answered, outstanding, hout, rfl⟩ := step_recv hs
    obtain ⟨call, hcall, hnone | ⟨pre, hpre⟩⟩ := h hphase'
    · rw [hout] at hnone
      cases hnone
    · refine ⟨call, hcall, ?_⟩
      rw [hout] at hpre
      cases pre with
      | nil => exact Or.inl (List.cons.inj hpre).2
      | cons first pre => exact Or.inr ⟨pre, (List.cons.inj hpre).2⟩

theorem keepsReply_reset_iff {s s' : Session} (h : s.KeepsReply) (hs : s.step .reset = some s') :
    s'.KeepsReply ↔ s.Harmless .reset := by
  obtain ⟨call, todo, hphase, htodo, rfl⟩ := step_reset hs
  have hnow : s.phase ≠ .idle := by rw [hphase]; decide
  have hpolling : Phase.polling ≠ .idle := by decide
  have hcall : call ∈ s.todo.head? := by rw [htodo]; rfl
  have honly : ∀ other ∈ s.todo.head?, other = call := by
    intro other hother
    rw [htodo] at hother
    cases hother
    rfl
  constructor
  · intro h' hnone other hother
    obtain rfl := honly other hother
    exact (DbCall.delivered_reset_iff (h hnow hnone other hother)).mp (h' hpolling hnone other hother)
  · intro h' _ hnone other hother
    obtain rfl := honly other hother
    exact (DbCall.delivered_reset_iff (h hnow hnone other hother)).mpr (h' hnone other hother)

theorem keepsReply_recv_iff {s s' : Session} (hlast : s.LastIsCurrent)
    (hs : s.step .recv = some s') : s'.KeepsReply ↔ s.Harmless .recv := by
  obtain ⟨answered, outstanding, hout, rfl⟩ := step_recv hs
  by_cases hphase : s.phase = .idle
  · exact iff_of_true (fun h' => absurd hphase h') fun h' => absurd hphase h'
  · obtain ⟨call, hcall, hnone | ⟨pre, hpre⟩⟩ := hlast hphase
    · rw [hout] at hnone
      cases hnone
    · rw [hout] at hpre
      cases hrest : outstanding with
      | cons next rest =>
        refine iff_of_true (fun _ h' => by cases h') fun _ other hother => ?_
        rw [hout, hrest] at hother
        cases hother
      | nil =>
        have hcurrent : answered = call := by
          have hlen := congrArg List.getLast? hpre
          rw [hrest] at hlen
          simpa using hlen
        subst hcurrent
        have honly : ∀ other ∈ s.todo.head?, other = answered := fun other hother =>
          Option.mem_unique hother hcall
        constructor
        · intro h' _ other hother d hd
          rw [hout, hrest] at hother
          cases hother
          exact (answered.delivered_take_iff s.client).mp (h' hphase rfl answered hcall) d hd
        · intro h' _ _ other hother
          obtain rfl := honly other hother
          refine (other.delivered_take_iff s.client).mpr fun d hd => ?_
          exact h' hphase other (by rw [hout, hrest]) d hd

theorem keepsReply_step_iff {s s' : Session} {a : CallStep} (hlast : s.LastIsCurrent)
    (h : s.KeepsReply) (hs : s.step a = some s') : s'.KeepsReply ↔ s.Harmless a := by
  cases a with
  | send =>
    obtain ⟨call, todo, -, -, rfl⟩ := step_send hs
    refine iff_of_true (fun _ hnone => ?_) trivial
    exact absurd hnone (List.append_ne_nil_of_right_ne_nil _ (List.cons_ne_nil _ _))
  | reset => exact keepsReply_reset_iff h hs
  | poll =>
    obtain ⟨call, todo, -, -, rfl | ⟨exit, -, rfl⟩⟩ := step_poll hs
    · exact iff_of_true h trivial
    · exact iff_of_true (fun h' => absurd rfl h') trivial
  | recv => exact keepsReply_recv_iff hlast hs

/-- **When no delivered reply is discarded.**  Along any run of any calls, an
answer that has been processed stays where its call looks for it exactly when
every step is harmless. -/
theorem keepsReplies_iff (c : DBClient) (calls : List DbCall) (steps : List CallStep) :
    Always step KeepsReply (start c calls) steps ↔ EachStep step Harmless (start c calls) steps :=
  always_iff_eachStep (D := fun _ _ => True)
    (fun _ _ _ hlast _ hs => lastIsCurrent_step hlast hs)
    (fun _ _ _ hlast h _ hs => keepsReply_step_iff hlast h hs) steps _
    (fun h => absurd rfl h) (fun h => absurd rfl h) (eachStep_of_forall steps _ fun _ _ _ => trivial)

/-- The reply to a modification comes before the reset and is gone after it. -/
theorem keepsReplies_broken :
    ¬ Always step KeepsReply (start (DBClient.new fun _ => 0) [DbCall.modified])
      [.send, .recv, .reset] := by
  apply not_always_of_any (b := fun s => s.phase == .polling && s.outstanding.isEmpty &&
    s.todo.head?.any fun call => (s.client.checkWhileReturn call.kind).isNone)
  · intro s hs h
    simp only [Bool.and_eq_true, beq_iff_eq, List.isEmpty_iff, Option.any_eq_true] at hs
    obtain ⟨⟨hphase, hnone⟩, call, hcall, hspins⟩ := hs
    obtain ⟨exit, hexit⟩ := DbCall.returns_of_delivered
      (h (by rw [hphase]; decide) hnone call hcall)
    rw [hexit] at hspins
    cases hspins
  · decide +kernel

end Session

end FuServer
