import FuServer.Lib.Runs
import FuServer.Wire.QueryReply

/-!
# The calls of one client

A call sends, resets its slot and polls; the thread that receives puts the
answers into the slots, in the order of the requests, at any time after these.
-/

namespace FuServer

open Bytes Outcome

/-! ## Answers -/

/-- The server's answers to a request: the reply of its kind, or an error. -/
inductive AnswerTo : RequestKind → Reply → Prop
  | query (names : List Str) (rows : List (List Str)) :
      AnswerTo .query (.query ⟨protocolDbSToCQuery, names, rows⟩)
  | modify : AnswerTo .modify (.modify ⟨protocolDbSToCModify⟩)
  | insert (dataKey : Str) : AnswerTo .insert (.insert ⟨protocolDbSToCInsert, dataKey⟩)
  | loadtable : AnswerTo .loadtable (.loadtable ⟨protocolDbSToCLoadtable⟩)
  | error {kind : RequestKind} {d : DbProtError} (h : 0 < d.code) : AnswerTo kind (.error d)

theorem AnswerTo.code_pos {kind : RequestKind} {r : Reply} {d : DbProtError} (h : AnswerTo kind r)
    (hr : r = .error d) : 0 < d.code := by
  cases h with
  | error h =>
    cases hr
    exact h
  | query names rows => cases hr
  | modify => cases hr
  | insert dataKey => cases hr
  | loadtable => cases hr

/-- A call with the text of its answer. -/
structure DbCall where
  kind : RequestKind
  answer : Str
  reply : Reply
  read : ∃ s, readReply ⟨answer, 0⟩ = .ok (reply, s)
  answers : AnswerTo kind reply

namespace DbCall

/-- The call is answered with an error. -/
def Fails (call : DbCall) : Prop := ∃ d, call.reply = .error d

theorem notifyRecvText_answer (call : DbCall) (c : DBClient) :
    c.notifyRecvText call.answer = .ok (c.take call.reply) := by
  obtain ⟨s, hs⟩ := call.read
  rw [DBClient.notifyRecvText_eq, hs]
  rfl

/-- A modification that the server refuses. -/
def refused : DbCall where
  kind := .modify
  answer := DBServer.errorText errorCodeModify
  reply := .error ⟨protocolDbSToCError, errorCodeModify⟩
  read := ⟨_, rfl⟩
  answers := .error (by decide)

/-- A modification that succeeds. -/
def modified : DbCall where
  kind := .modify
  answer := (serializeProtScModify ⟨protocolDbSToCModify⟩ {}).dataString
  reply := .modify ⟨protocolDbSToCModify⟩
  read := ⟨_, rfl⟩
  answers := .modify

end DbCall

/-! ## The server's answers -/

/-- The kind of a request. -/
def DbRequest.kind : DbRequest → Option RequestKind
  | .query _ => some .query
  | .modify _ => some .modify
  | .insert _ => some .insert
  | .loadtable _ => some .loadtable
  | .other _ => none

section Server

variable {fp : FloatUnit} {m m' : DBManager fp} {ord : HashOrder} {reply : LoadReply}

theorem exists_error (kind : RequestKind) (errorcode : Int32) (h : 0 < errorcode) :
    ∃ call : DbCall, call.kind = kind ∧ call.answer = DBServer.errorText errorcode :=
  ⟨⟨kind, _, _, readReply_errorText errorcode, .error h⟩, rfl, rfl⟩

/-- **What the server sends is an answer to the request**: the reply of its
kind or an error, if the wire can carry the rows of a query. -/
theorem answer_of_serveRequest {req : DbRequest} {text : Str}
    (h : DBServer.serveRequest m ord reply req = .ok (m', some text))
    (hfits : ∀ q, req = .query q → ∀ t, m.tableSet.lookup q.tname = some t → AnswerFits t ord q) :
    ∃ call : DbCall, req.kind = some call.kind ∧ call.answer = text := by
  cases req with
  | query q =>
    obtain ⟨⟨temp, rows, names⟩, hfound, hret⟩ := bind_eq_ok.mp h
    cases temp with
    | false =>
      cases hret
      obtain ⟨call, hkind, hanswer⟩ := exists_error .query errorCodeQuery (by decide)
      exact ⟨call, by rw [hkind]; rfl, hanswer⟩
    | true =>
      cases hret
      obtain ⟨t, hm, rfl, l, hperm, rfl⟩ := queryDB_found (q := q) hfound
      have hreply := (fitsReply_iff hperm).mpr (hfits q rfl t hm)
      exact ⟨⟨.query, _, _, readReply_queryText hreply, .query _ _⟩, rfl, rfl⟩
  | modify d =>
    obtain ⟨⟨m1, temp⟩, -, hret⟩ := bind_eq_ok.mp h
    cases temp with
    | false =>
      cases hret
      obtain ⟨call, hkind, hanswer⟩ := exists_error .modify errorCodeModify (by decide)
      exact ⟨call, by rw [hkind]; rfl, hanswer⟩
    | true =>
      cases hret
      exact ⟨⟨.modify, _, _, ⟨_, rfl⟩, .modify⟩, rfl, rfl⟩
  | insert d =>
    obtain ⟨⟨m1, dataKey⟩, -, hret⟩ := bind_eq_ok.mp h
    dsimp only at hret
    split at hret
    · cases hret
      exact ⟨⟨.insert, _, _, readReply_insert dataKey, .insert _⟩, rfl, rfl⟩
    · cases hret
      obtain ⟨call, hkind, hanswer⟩ := exists_error .insert errorCodeInsert (by decide)
      exact ⟨call, by rw [hkind]; rfl, hanswer⟩
  | loadtable d =>
    obtain ⟨⟨m1, temp⟩, -, hret⟩ := bind_eq_ok.mp h
    cases temp with
    | false =>
      cases hret
      obtain ⟨call, hkind, hanswer⟩ :=
        exists_error .loadtable errorCodeLoaddb (by decide)
      exact ⟨call, by rw [hkind]; rfl, hanswer⟩
    | true =>
      cases hret
      exact ⟨⟨.loadtable, _, _, ⟨_, rfl⟩, .loadtable⟩, rfl, rfl⟩
  | other protId => cases h

end Server

/-! ## A client at work -/

/-- Where the first call of the list stands. -/
inductive Phase
  | idle | sent | polling
deriving DecidableEq, Repr

/-- How a call came back: by which exit, and whether its answer had been processed. -/
structure Returned where
  call : DbCall
  exit : DBClient.Exit
  answered : Bool

structure Session where
  client : DBClient
  /-- the calls to be made, the one under way first -/
  todo : List DbCall
  phase : Phase := .idle
  /-- the calls whose answers are still to be processed, in the order sent -/
  outstanding : List DbCall := []
  returned : List Returned := []

inductive CallStep
  | send | reset | poll | recv
deriving DecidableEq, Repr

namespace Session

def start (client : DBClient) (calls : List DbCall) : Session := { client := client, todo := calls }

/-- One step of the caller or of the receiving thread.  The call under way is
the last one sent, so its answer has been processed once none is outstanding.
`NotifyRecvText` is one step: between its writes, of which the `protId` comes
before the lists and the key, the caller does not look. -/
def step (s : Session) : CallStep → Option Session
  | .send =>
    match s.phase, s.todo with
    | .idle, call :: _ => some { s with phase := .sent, outstanding := s.outstanding ++ [call] }
    | _, _ => none
  | .reset =>
    match s.phase, s.todo with
    | .sent, call :: _ => some { s with phase := .polling, client := s.client.resetSlot call.kind }
    | _, _ => none
  | .poll =>
    match s.phase, s.todo with
    | .polling, call :: todo =>
      match s.client.checkWhileReturn call.kind with
      | some exit =>
        some { s with
          phase := .idle
          todo := todo
          returned := s.returned ++ [⟨call, exit, s.outstanding.isEmpty⟩] }
      | none => some s
    | _, _ => none
  | .recv =>
    match s.outstanding with
    | call :: outstanding =>
      match s.client.notifyRecvText call.answer with
      | .ok client => some { s with client := client, outstanding := outstanding }
      | .error _ => none
    | [] => none

/-! ## What a step does -/

theorem step_send {s s' : Session} (h : s.step .send = some s') :
    ∃ call todo, s.phase = .idle ∧ s.todo = call :: todo ∧
      s' = { s with phase := .sent, outstanding := s.outstanding ++ [call] } := by
  obtain ⟨client, todo, phase, outstanding, returned⟩ := s
  cases phase <;> cases todo <;> cases h
  exact ⟨_, _, rfl, rfl, rfl⟩

theorem step_reset {s s' : Session} (h : s.step .reset = some s') :
    ∃ call todo, s.phase = .sent ∧ s.todo = call :: todo ∧
      s' = { s with phase := .polling, client := s.client.resetSlot call.kind } := by
  obtain ⟨client, todo, phase, outstanding, returned⟩ := s
  cases phase <;> cases todo <;> cases h
  exact ⟨_, _, rfl, rfl, rfl⟩

theorem step_poll {s s' : Session} (h : s.step .poll = some s') :
    ∃ call todo, s.phase = .polling ∧ s.todo = call :: todo ∧
      (s' = s ∨ ∃ exit, s.client.checkWhileReturn call.kind = some exit ∧
        s' = { s with
          phase := .idle
          todo := todo
          returned := s.returned ++ [⟨call, exit, s.outstanding.isEmpty⟩] }) := by
  obtain ⟨client, todo, phase, outstanding, returned⟩ := s
  unfold step at h
  cases phase with
  | idle => cases todo <;> cases h
  | sent => cases todo <;> cases h
  | polling =>
    cases todo with
    | nil => cases h
    | cons call todo =>
      refine ⟨call, todo, rfl, rfl, ?_⟩
      dsimp only at h ⊢
      cases hc : client.checkWhileReturn call.kind with
      | none =>
        rw [hc] at h
        cases h
        exact Or.inl rfl
      | some exit =>
        rw [hc] at h
        cases h
        exact Or.inr ⟨exit, rfl, rfl⟩

theorem step_recv {s s' : Session} (h : s.step .recv = some s') :
    ∃ call outstanding, s.outstanding = call :: outstanding ∧
      s' = { s with client := s.client.take call.reply, outstanding := outstanding } := by
  obtain ⟨client, todo, phase, outstanding, returned⟩ := s
  cases outstanding with
  | nil => cases h
  | cons call outstanding =>
    unfold step at h
    dsimp only at h
    rw [call.notifyRecvText_answer] at h
    cases h
    exact ⟨call, outstanding, rfl, rfl⟩

theorem recv_cons {s : Session} {call : DbCall} {outstanding : List DbCall}
    (h : s.outstanding = call :: outstanding) :
    s.step .recv =
      some { s with client := s.client.take call.reply, outstanding := outstanding } := by
  unfold step
  rw [h]
  dsimp only
  rw [call.notifyRecvText_answer]

end Session

/-! ## Slots -/

namespace DBClient

theorem slotProtId_resetSlot (c : DBClient) (kind : RequestKind) :
    (c.resetSlot kind).slotProtId kind ≠ kind.toProtId := by
  have hreset : (c.resetSlot kind).slotProtId kind = -1 := by cases kind <;> rfl
  have hid : (-1 : Int32) ≠ kind.toProtId := by cases kind <;> decide
  rw [hreset]
  exact hid

theorem iErrorCode_resetSlot (c : DBClient) {kind : RequestKind} (h : kind ≠ .query) :
    (c.resetSlot kind).iErrorCode = c.iErrorCode := by
  cases kind with
  | query => exact absurd rfl h
  | modify => rfl
  | insert => rfl
  | loadtable => rfl

end DBClient

/-- An answer that is no error leaves the error code alone. -/
theorem AnswerTo.iErrorCode {kind : RequestKind} {r : Reply} (h : AnswerTo kind r) (c : DBClient) :
    (∃ d, r = .error d) ∨ (c.take r).iErrorCode = c.iErrorCode := by
  cases h with
  | error h => exact Or.inl ⟨_, rfl⟩
  | query names rows => exact Or.inr rfl
  | modify => exact Or.inr rfl
  | insert dataKey => exact Or.inr rfl
  | loadtable => exact Or.inr rfl

end FuServer
