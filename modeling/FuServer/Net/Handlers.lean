import FuServer.Model.NetWin32
import FuServer.Utils.PoolSafety

/-!
# What the handlers do with blocks and sockets

`Owns s lost`: every block that is out of the pool is the block of one pending
request, but for those in `lost`.  One lemma for each primitive, then one for
each kind of step with the block it loses, if any, and the events it emits.
-/

namespace FuServer

open Alloc Bytes Outcome

/-! ## What a receive brings -/

namespace Completion

/-- What the receive has brought is less than a buffer, and is all there is. -/
def Short (c : Completion) : Prop := 0 < c.trans.length ∧ c.trans.length < netBufferMaxsize

/-- The first `recv` fails. -/
def RecvFails (c : Completion) : Prop := ¬ c.Short ∧ c.chunks = [] ∧ c.ending = .failed

/-- The peer has closed; or the one chunk there is has filled the buffer, and is gone. -/
def ReadsNothing (c : Completion) : Prop :=
  ¬ c.Short ∧ match c.chunks with
    | [] => c.ending = .closed
    | buf :: chunks =>
      buf = [] ∨ (netBufferMaxsize ≤ buf.length ∧ c.trans = [] ∧ chunks.takeWhile (· ≠ []) = [])

instance (c : Completion) : Decidable c.Short := inferInstanceAs (Decidable (_ ∧ _))

instance (c : Completion) : Decidable c.RecvFails := inferInstanceAs (Decidable (_ ∧ _))

instance (c : Completion) : Decidable c.ReadsNothing := by
  unfold ReadsNothing
  cases c.chunks with
  | nil => exact inferInstanceAs (Decidable (_ ∧ c.ending = .closed))
  | cons buf chunks => exact inferInstanceAs (Decidable (_ ∧ (_ ∨ _)))

theorem recv_neg (c : Completion) : (fuSocketRecv c.trans c.chunks c.ending).1 < 0 ↔ c.RecvFails := by
  unfold RecvFails
  by_cases hshort : c.Short
  · have hrecv : fuSocketRecv c.trans c.chunks c.ending = _ := if_pos hshort
    rw [hrecv]
    simp only [hshort, not_true_eq_false, false_and, iff_false]
    omega
  · have hrecv : fuSocketRecv c.trans c.chunks c.ending = _ := if_neg hshort
    rw [hrecv]
    cases hchunks : c.chunks with
    | nil =>
      cases hending : c.ending with
      | closed => simp [RecvEnd.code]
      | failed => simp [RecvEnd.code, hshort]
    | cons buf chunks =>
      have hlen : ∀ n : Nat, ¬ (n : Int) < 0 := fun n => by omega
      dsimp only
      split
      · simp
      · split
        · simp [hlen, -List.length_append]
        · simp [hlen, -List.length_append]

theorem recv_zero (c : Completion) :
    (fuSocketRecv c.trans c.chunks c.ending).1 = 0 ↔ c.ReadsNothing := by
  unfold ReadsNothing
  by_cases hshort : c.Short
  · have hrecv : fuSocketRecv c.trans c.chunks c.ending = _ := if_pos hshort
    rw [hrecv]
    simp only [hshort, not_true_eq_false, false_and, iff_false]
    unfold Short at hshort
    omega
  · have hrecv : fuSocketRecv c.trans c.chunks c.ending = _ := if_neg hshort
    rw [hrecv]
    cases hchunks : c.chunks with
    | nil =>
      cases hending : c.ending with
      | closed => simp [RecvEnd.code, hshort]
      | failed => simp [RecvEnd.code]
    | cons buf chunks =>
      dsimp only
      by_cases hbuf : buf = []
      · simp [hbuf, hshort]
      · rw [if_neg hbuf]
        by_cases hlt : buf.length < netBufferMaxsize
        · rw [if_pos hlt]
          have hlen : 0 < buf.length := List.length_pos_iff.mpr hbuf
          simp only [hbuf, false_or, not_le.mpr hlt, false_and, and_false, iff_false, List.length_append]
          omega
        · rw [if_neg hlt]
          have hfull : (chunks.takeWhile (· ≠ [])).flatten = [] ↔ chunks.takeWhile (· ≠ []) = [] := by
            constructor
            · intro hnil
              cases htake : chunks.takeWhile (· ≠ []) with
              | nil => rfl
              | cons d rest =>
                have hmem : d ∈ chunks.takeWhile (· ≠ []) := by
                  rw [htake]
                  exact List.mem_cons_self
                have hd := List.mem_takeWhile_imp hmem
                exact absurd (List.flatten_eq_nil_iff.mp hnil d hmem) (by simpa using hd)
            · intro hnil
              rw [hnil]
              rfl
          rw [Int.natCast_eq_zero, List.length_eq_zero_iff, List.append_eq_nil_iff, hfull]
          simp [hbuf, hshort, not_lt.mp hlt]

end Completion

namespace NetServerWin32

variable {s : NetServerWin32} {lost : List Ptr} {p : Ptr}

structure Owns (s : NetServerWin32) (lost : List Ptr) : Prop where
  inv : s.pool.Inv s.handed
  split : s.handed.Perm (lost ++ s.pending)
  /-- a block that has left the pool is still out or is back -/
  back : ∀ b ∈ s.obtained, b ∈ s.handed ∨ b ∈ s.pool.blocks
  known : ∀ b ∈ s.handed, b ∈ s.obtained

/-! ## The primitives -/

theorem Owns.create (h : Owns s lost) (A : Malloc) :
    ∃ b s', s.createMsg A = .ok (b, s') ∧ Owns s' (b :: lost) ∧ s'.msgs = s.msgs ∧ s'.events = s.events ∧
      s'.pending = s.pending := by
  obtain ⟨b, p', n, hcreate, hblocks, hinv⟩ := UtilsMemPool.create_spec h.inv A
  unfold createMsg
  rw [hcreate, ok_bind]
  refine ⟨b, _, rfl, ?_, rfl, rfl, rfl⟩
  constructor
  · exact hinv
  · exact h.split.cons b
  · intro c hc
    rcases List.mem_cons.mp hc with rfl | hc
    · exact Or.inl List.mem_cons_self
    · rcases h.back c hc with hin | hin
      · exact Or.inl (List.mem_cons_of_mem b hin)
      · have hmem : c ∈ p'.blocks ++ [b] := by
          rw [hblocks]
          exact List.mem_append_left _ hin
        rcases List.mem_append.mp hmem with hmem | hmem
        · exact Or.inr hmem
        · rw [List.mem_singleton.mp hmem]
          exact Or.inl List.mem_cons_self
  · intro c hc
    rcases List.mem_cons.mp hc with rfl | hc
    · exact List.mem_cons_self
    · exact List.mem_cons_of_mem b (h.known c hc)

theorem Owns.free (h : Owns s (p :: lost)) (junk : Nat → Ptr) :
    ∃ s', s.freeMsg junk p = .ok s' ∧ Owns s' lost ∧ s'.events = s.events := by
  have hp : p ∈ s.handed := h.split.mem_iff.mpr List.mem_cons_self
  obtain ⟨p', hfree, hblocks, hinv⟩ := UtilsMemPool.free_spec h.inv junk hp
  unfold freeMsg
  rw [hfree, ok_bind]
  refine ⟨_, rfl, ?_, rfl⟩
  constructor
  · exact hinv
  · exact (List.perm_cons p).mp ((List.perm_cons_erase hp).symm.trans h.split)
  · intro b hb
    show b ∈ s.handed.erase p ∨ b ∈ p'.blocks
    rw [hblocks]
    by_cases hbp : b = p
    · rw [hbp]
      exact Or.inr (List.mem_append_right _ List.mem_cons_self)
    · rcases h.back b hb with hin | hin
      · exact Or.inl ((List.mem_erase_of_ne hbp).mpr hin)
      · exact Or.inr (List.mem_append_left _ hin)
  · exact fun b hb => h.known b (List.mem_of_mem_erase hb)

theorem Owns.perm {lost' : List Ptr} (h : Owns s lost) (hperm : lost.Perm lost') : Owns s lost' :=
  ⟨h.inv, h.split.trans (hperm.append_right _), h.back, h.known⟩

/-- A request that is taken makes its block a pending one; one that is refused loses it. -/
theorem Owns.post (h : Owns s (p :: lost)) (posted : Bool) :
    ∃ more, Owns (s.post p posted) (more ++ lost) ∧ (more = [] ↔ posted = true) := by
  cases posted with
  | false => exact ⟨[p], h, iff_of_false (List.cons_ne_nil _ _) Bool.false_ne_true⟩
  | true =>
    obtain ⟨hinv, hsplit, hback, hknown⟩ := h
    exact ⟨[], ⟨hinv, hsplit.trans List.perm_middle.symm, hback, hknown⟩, iff_of_true rfl rfl⟩

/-- The block of a request that completes. -/
theorem Owns.take (h : Owns s lost) (hp : p ∈ s.pending) :
    Owns { s with pending := s.pending.erase p } (p :: lost) := by
  obtain ⟨hinv, hsplit, hback, hknown⟩ := h
  refine ⟨hinv, hsplit.trans ?_, hback, hknown⟩
  exact (List.Perm.append_left lost (List.perm_cons_erase hp)).trans List.perm_middle

theorem Owns.setMsg (h : Owns s lost) (msg : NetOperationMsg) : Owns (s.setMsg p msg) lost :=
  ⟨h.inv, h.split, h.back, h.known⟩

theorem Owns.emit (h : Owns s lost) (event : NetEvent) : Owns (s.emit event) lost :=
  ⟨h.inv, h.split, h.back, h.known⟩

@[simp] theorem post_events (posted : Bool) : (s.post p posted).events = s.events := by
  cases posted <;> rfl

@[simp] theorem setMsg_events (msg : NetOperationMsg) : (s.setMsg p msg).events = s.events := rfl

@[simp] theorem setMsg_self (msg : NetOperationMsg) : (s.setMsg p msg).msgs p = msg :=
  Function.update_self ..

@[simp] theorem emit_events (event : NetEvent) : (s.emit event).events = s.events ++ [event] := rfl

@[simp] theorem emit_msgs (event : NetEvent) : (s.emit event).msgs = s.msgs := rfl

/-! ## The parts of the handlers -/

/-- `closesocket`, unless the block has no socket. -/
def closing (sock : Int) : List NetEvent := if sock ≠ invalidSocket then [.closesocket sock] else []

theorem Owns.close (h : Owns s lost) (p : Ptr) :
    Owns (s.freeOperationMsgFunc p) lost ∧
      (s.freeOperationMsgFunc p).events = s.events ++ closing (s.msgs p).soket := by
  unfold freeOperationMsgFunc closing
  dsimp only
  split
  · exact ⟨(h.emit _).setMsg _, rfl⟩
  · exact ⟨h, (List.append_nil _).symm⟩

/-- `NotifyCloseLink`, then `closesocket`. -/
def dropping (sock nError : Int) : List NetEvent := .closeLink sock nError :: closing sock

theorem Owns.drop (h : Owns s (p :: lost)) (nError : Int) (junk : Nat → Ptr) :
    ∃ s', s.dropLink p nError junk = .ok s' ∧ Owns s' lost ∧
      s'.events = s.events ++ dropping (s.msgs p).soket nError := by
  have hemit := h.emit (.closeLink (s.msgs p).soket nError)
  obtain ⟨hclose, hevents⟩ := hemit.close p
  obtain ⟨s', hfree, howns, hev⟩ := hclose.free junk
  refine ⟨s', hfree, howns, ?_⟩
  rw [hev, hevents, emit_events, emit_msgs, List.append_assoc]
  rfl

theorem Owns.recvOn (h : Owns s (p :: lost)) (A : Malloc) (sock : Int) (posted : Bool) :
    ∃ s' more, s.deliverRecv A sock (some p) posted = .ok (s', posted) ∧ Owns s' (more ++ lost) ∧
      (more = [] ↔ posted = true) ∧ s'.events = s.events := by
  obtain ⟨more, howns, hmore⟩ := (h.setMsg { s.msgs p with
    soket := sock, optype := .opRecv, iBufferLen := netBufferMaxsize, pSendBuf := none }
      (p := p)).post posted
  refine ⟨_, more, rfl, howns, hmore, ?_⟩
  rw [post_events, setMsg_events]

theorem Owns.recvNew (h : Owns s lost) (A : Malloc) (sock : Int) (posted : Bool) :
    ∃ s' more, s.deliverRecv A sock none posted = .ok (s', posted) ∧ Owns s' (more ++ lost) ∧
      (more = [] ↔ posted = true) ∧ s'.events = s.events := by
  obtain ⟨b, s1, hcreate, howns, -, hevents, -⟩ := h.create A
  obtain ⟨s', more, hrecv, howns', hmore, hev⟩ := howns.recvOn A sock posted
  refine ⟨s', more, ?_, howns', hmore, hev.trans hevents⟩
  unfold deliverRecv
  dsimp only
  rw [hcreate, ok_bind]
  exact hrecv

/-- The end of the handler of an accept: its block goes back, and one more accept is asked for. -/
theorem Owns.repost (h : Owns s (p :: lost)) (junk : Nat → Ptr) :
    ∃ s', (do
      let s ← s.freeMsg junk p
      return { s with iRepostCount := s.iRepostCount + 1 }) = (.ok s' : Res NetServerWin32) ∧
      Owns s' lost ∧ s'.events = s.events := by
  obtain ⟨s1, hfree, howns, hevents⟩ := h.free junk
  rw [hfree]
  exact ⟨_, rfl, ⟨howns.inv, howns.split, howns.back, howns.known⟩, hevents⟩

/-! ## The completions -/

/-- The completion ends its link: an error, a failed `recv`, a send of nothing. -/
def Fails (s : NetServerWin32) (p : Ptr) (c : Completion) : Prop :=
  c.nError ≠ 0 ∨ match (s.msgs p).optype with
    | .opAccept => False
    | .opRecv => c.RecvFails
    | .opSend => c.trans = []

/-- An accepted socket is closed because its heartbeat cannot be set up. -/
def Refuses (s : NetServerWin32) (p : Ptr) (c : Completion) : Prop :=
  c.nError = 0 ∧ (s.msgs p).optype = .opAccept ∧ (s.bHeartBeat = true ∧ c.heartbeat = false)

instance (s : NetServerWin32) (p : Ptr) (c : Completion) : Decidable (s.Fails p c) := by
  unfold Fails
  cases (s.msgs p).optype with
  | opAccept => exact inferInstanceAs (Decidable (c.nError ≠ 0 ∨ False))
  | opRecv => exact inferInstanceAs (Decidable (c.nError ≠ 0 ∨ c.RecvFails))
  | opSend => exact inferInstanceAs (Decidable (c.nError ≠ 0 ∨ c.trans = []))

instance (s : NetServerWin32) (p : Ptr) (c : Completion) : Decidable (s.Refuses p c) :=
  inferInstanceAs (Decidable (_ ∧ _))

/-- What a completion that ends nothing reports. -/
def report (s : NetServerWin32) (p : Ptr) (c : Completion) : List NetEvent :=
  match (s.msgs p).optype with
  | .opAccept => [.establishLink (s.msgs p).soket c.ip]
  | .opRecv =>
    if c.ReadsNothing then []
    else [.recvFinish (s.msgs p).soket (fuSocketRecv c.trans c.chunks c.ending).2]
  | .opSend => [.sendFinish (s.msgs p).soket]

/-- The events of a completion. -/
def emitted (s : NetServerWin32) (p : Ptr) (c : Completion) : List NetEvent :=
  if s.Fails p c then dropping (s.msgs p).soket c.nError
  else if s.Refuses p c then closing (s.msgs p).soket
  else s.report p c

/-- The completion keeps its block: the receive that follows it is accepted,
and a receive has brought something or has failed. -/
def Keeps (s : NetServerWin32) (p : Ptr) (c : Completion) : Prop :=
  s.Fails p c ∨ s.Refuses p c ∨ (c.posted = true ∧ ((s.msgs p).optype = .opRecv → ¬ c.ReadsNothing))

instance (s : NetServerWin32) (p : Ptr) (c : Completion) : Decidable (s.Keeps p c) :=
  inferInstanceAs (Decidable (_ ∨ _ ∨ _))

/-- The handler does not fault; it loses a block unless it keeps it. -/
def Disposes (s : NetServerWin32) (lost : List Ptr) (p : Ptr) (c : Completion) : Prop :=
  ∃ s' more, s.disposeIOMsg p c = .ok s' ∧ Owns s' (more ++ lost) ∧ (more = [] ↔ s.Keeps p c) ∧
    s'.events = s.events ++ s.emitted p c

/-- A completion that fails, in each of the places where the handler finds out. -/
theorem disposes_of_fails {t : NetServerWin32} (h : Owns t (p :: lost)) {c : Completion}
    (hfails : s.Fails p c) (hsoket : (t.msgs p).soket = (s.msgs p).soket) (hevents : t.events = s.events)
    (hdrop : s.disposeIOMsg p c = t.dropLink p c.nError c.junk) : Disposes s lost p c := by
  obtain ⟨s', hs', howns, hev⟩ := h.drop c.nError c.junk
  refine ⟨s', [], hdrop.trans hs', howns, iff_of_true rfl (Or.inl hfails), ?_⟩
  rw [hev, hsoket, hevents, emitted, if_pos hfails]

theorem Owns.disposes_accept (h : Owns s (p :: lost)) {c : Completion} (herr : c.nError = 0)
    (hop : (s.msgs p).optype = .opAccept) : Disposes s lost p c := by
  have hfails : ¬ s.Fails p c := by
    unfold Fails
    rw [hop]
    simpa using herr
  have hgo : s.disposeIOMsg p c = _ := if_neg (not_not.mpr herr)
  unfold Disposes
  rw [hgo, hop]
  dsimp only
  by_cases hheart : !s.bHeartBeat || c.heartbeat
  · have hrefuses : ¬ s.Refuses p c := by
      rintro ⟨-, -, hbeat, hset⟩
      rw [hbeat, hset] at hheart
      cases hheart
    obtain ⟨s1, more, hrecv, howns, hmore, hevents⟩ :=
      (h.emit (.establishLink (s.msgs p).soket c.ip)).recvNew c.A (s.msgs p).soket c.posted
    -- the block of the accept comes first, to be freed
    obtain ⟨s2, hrepost, howns', hev⟩ := (howns.perm List.perm_middle).repost c.junk
    refine ⟨s2, more, ?_, howns', ?_, ?_⟩
    · rw [if_pos hheart, hrecv, ok_bind, pure_eq_ok, ok_bind]
      exact hrepost
    · unfold Keeps
      rw [hmore, hop]
      simp [hfails, hrefuses]
    · rw [hev, hevents, emitted, if_neg hfails, if_neg hrefuses, report, hop]
      rfl
  · have hrefuses : s.Refuses p c := by
      refine ⟨herr, hop, ?_⟩
      simpa using hheart
    obtain ⟨hclose, hcev⟩ := h.close p
    obtain ⟨s2, hrepost, howns', hev⟩ := hclose.repost c.junk
    refine ⟨s2, [], ?_, howns', iff_of_true rfl (Or.inr (Or.inl hrefuses)), ?_⟩
    · rw [if_neg hheart, pure_eq_ok, ok_bind]
      exact hrepost
    · rw [hev, hcev, emitted, if_neg hfails, if_pos hrefuses]

/-- A receive and a send report, and post their block again. -/
theorem Owns.disposes_again (h : Owns s (p :: lost)) {c : Completion} (hfails : ¬ s.Fails p c)
    (hop : (s.msgs p).optype ≠ .opAccept)
    (hzero : (s.msgs p).optype = .opRecv → ¬ c.ReadsNothing)
    {msg : NetOperationMsg} {event : NetEvent} (hreport : s.report p c = [event])
    (hgo : s.disposeIOMsg p c = do
      let delivered ← ((s.setMsg p msg).emit event).deliverRecv c.A (s.msgs p).soket (some p) c.posted
      return delivered.1) : Disposes s lost p c := by
  have hrefuses : ¬ s.Refuses p c := fun hr => hop hr.2.1
  obtain ⟨s', more, hrecv, howns, hmore, hevents⟩ :=
    ((h.setMsg msg (p := p)).emit event).recvOn c.A (s.msgs p).soket c.posted
  refine ⟨s', more, ?_, howns, ?_, ?_⟩
  · rw [hgo, hrecv]
    rfl
  · unfold Keeps
    rw [hmore]
    simpa [hfails, hrefuses] using fun _ => hzero
  · rw [hevents, emit_events, setMsg_events, emitted, if_neg hfails, if_neg hrefuses, hreport]

theorem Owns.disposes_recv (h : Owns s (p :: lost)) {c : Completion} (herr : c.nError = 0)
    (hop : (s.msgs p).optype = .opRecv) : Disposes s lost p c := by
  have hgo : s.disposeIOMsg p c = _ := if_neg (not_not.mpr herr)
  rw [hop] at hgo
  dsimp only at hgo
  have hfails : s.Fails p c ↔ c.RecvFails := by
    unfold Fails
    rw [hop]
    simp [herr]
  by_cases hzero : (fuSocketRecv c.trans c.chunks c.ending).1 = 0
  · -- "already taken": the handler returns with the block
    have hnothing := c.recv_zero.mp hzero
    have hnot : ¬ s.Fails p c := by
      rw [hfails, ← c.recv_neg]
      omega
    have hrefuses : ¬ s.Refuses p c := by
      rintro ⟨-, hacc, -⟩
      rw [hop] at hacc
      cases hacc
    rw [if_pos hzero] at hgo
    refine ⟨_, [p], hgo, h.setMsg _, ?_, ?_⟩
    · unfold Keeps
      simp [hnot, hrefuses, hop, hnothing]
    · rw [setMsg_events, emitted, if_neg hnot, if_neg hrefuses, report, hop]
      simp [hnothing]
  · have hsome := mt c.recv_zero.mpr hzero
    rw [if_neg hzero] at hgo
    by_cases hneg : (fuSocketRecv c.trans c.chunks c.ending).1 < 0
    · rw [if_pos hneg] at hgo
      refine disposes_of_fails (h.setMsg _) (hfails.mpr (c.recv_neg.mp hneg)) ?_ rfl hgo
      rw [setMsg_self]
    · rw [if_neg hneg] at hgo
      refine h.disposes_again (mt (c.recv_neg.mpr ∘ hfails.mp) hneg) (by rw [hop]; decide)
        (fun _ => hsome) ?_ hgo
      rw [report, hop]
      exact if_neg hsome

theorem Owns.disposes_send (h : Owns s (p :: lost)) {c : Completion} (herr : c.nError = 0)
    (hop : (s.msgs p).optype = .opSend) : Disposes s lost p c := by
  have hgo : s.disposeIOMsg p c = _ := if_neg (not_not.mpr herr)
  rw [hop] at hgo
  dsimp only at hgo
  have hfails : s.Fails p c ↔ c.trans = [] := by
    unfold Fails
    rw [hop]
    simp [herr]
  by_cases hnil : c.trans = []
  · rw [if_pos hnil] at hgo
    exact disposes_of_fails h (hfails.mpr hnil) rfl rfl hgo
  · rw [if_neg hnil] at hgo
    refine h.disposes_again (mt hfails.mp hnil) (by rw [hop]; decide) ?_ ?_ hgo
    · intro hrecv
      rw [hop] at hrecv
      cases hrecv
    · rw [report, hop]

/-- One case for each kind of request. -/
theorem Owns.dispose (h : Owns s (p :: lost)) (c : Completion) : Disposes s lost p c := by
  by_cases herr : c.nError = 0
  · cases hop : (s.msgs p).optype with
    | opAccept => exact h.disposes_accept herr hop
    | opRecv => exact h.disposes_recv herr hop
    | opSend => exact h.disposes_send herr hop
  · exact disposes_of_fails h (Or.inl herr) rfl rfl (if_pos herr)

theorem Owns.accept (h : Owns s (p :: lost)) (sock : Int) (posted : Bool) :
    ∃ more, Owns (s.deliverAccept p sock posted).1 (more ++ lost) ∧ (more = [] ↔ posted = true) ∧
      (s.deliverAccept p sock posted).1.events = s.events ++ [.accept sock] := by
  obtain ⟨more, howns, hmore⟩ := ((h.emit (.accept sock)).setMsg { s.msgs p with
    iBufferLen := netBufferMaxsize, optype := .opAccept, soket := sock } (p := p)).post posted
  refine ⟨more, howns, hmore, ?_⟩
  unfold deliverAccept
  rw [post_events, setMsg_events, emit_events]

theorem Owns.send (h : Owns s lost) (A : Malloc) (sock : Int) {buf : Str} (hbuf : buf ≠ [])
    (posted : Bool) :
    ∃ s' more, s.sendText A sock buf posted = .ok (s', posted) ∧ Owns s' (more ++ lost) ∧
      (more = [] ↔ posted = true) ∧ s'.events = s.events := by
  obtain ⟨b, s1, hcreate, howns, -, hevents, -⟩ := h.create A
  obtain ⟨more, howns', hmore⟩ := (howns.setMsg
    { soket := sock, optype := .opSend, iBufferLen := buf.length, pSendBuf := some buf }
      (p := b)).post posted
  unfold sendText
  rw [if_neg hbuf, hcreate, ok_bind]
  refine ⟨_, more, rfl, howns', hmore, ?_⟩
  rw [post_events, setMsg_events, hevents]

theorem new_owns (bHeartBeat : Bool) (msgs : Ptr → NetOperationMsg) (A : Malloc) (junk : Nat → Ptr) :
    ∃ s, new bHeartBeat msgs A junk = .ok s ∧ Owns s [] ∧ s.events = [] := by
  obtain ⟨p, hnew, hinv⟩ := UtilsMemPool.new_spec A junk
  unfold new
  rw [hnew]
  refine ⟨_, rfl, ?_, rfl⟩
  constructor
  · exact hinv
  · exact List.Perm.nil
  · intro b hb
    cases hb
  · intro b hb
    cases hb

end NetServerWin32

/-! ## The steps -/

namespace NetStep

open NetServerWin32

variable {s : NetServerWin32} {lost : List Ptr}

/-- The step loses no block. -/
def Keeps (s : NetServerWin32) : NetStep → Prop
  | accept _ _ posted => posted = true
  | sendText _ _ buf posted => buf ≠ [] → posted = true
  | complete p c => s.Keeps p c

instance (s : NetServerWin32) : (a : NetStep) → Decidable (a.Keeps s)
  | accept _ _ posted => inferInstanceAs (Decidable (posted = true))
  | sendText _ _ buf posted => inferInstanceAs (Decidable (buf ≠ [] → posted = true))
  | complete p c => inferInstanceAs (Decidable (s.Keeps p c))

def emitted (s : NetServerWin32) : NetStep → List NetEvent
  | accept _ sock _ => [.accept sock]
  | sendText _ _ _ _ => []
  | complete p c => s.emitted p c

/-- **One step.**  It does not fault, emits its events, and loses a block
unless it keeps it. -/
theorem step_spec (h : Owns s lost) {a : NetStep} {r : Res NetServerWin32}
    (hs : step (.ok s) a = some r) :
    ∃ s' more, r = .ok s' ∧ Owns s' (more ++ lost) ∧ (more = [] ↔ a.Keeps s) ∧
      s'.events = s.events ++ a.emitted s := by
  cases a with
  | accept A sock posted =>
    obtain ⟨b, s1, hcreate, howns, -, hevents, -⟩ := h.create A
    obtain ⟨more, howns', hkeeps, hev⟩ := howns.accept sock posted
    cases hs
    refine ⟨_, more, ?_, howns', hkeeps, ?_⟩
    · rw [hcreate]
      rfl
    · rw [hev, hevents]
      rfl
  | sendText A sock buf posted =>
    cases hs
    by_cases hbuf : buf = []
    · refine ⟨s, [], ?_, h, iff_of_true rfl fun hne => absurd hbuf hne, (List.append_nil _).symm⟩
      unfold NetServerWin32.sendText
      rw [if_pos hbuf]
      rfl
    · obtain ⟨s', more, hsend, howns, hkeeps, hevents⟩ := h.send A sock hbuf posted
      refine ⟨s', more, ?_, howns, hkeeps.trans ⟨fun hp _ => hp, fun hp => hp hbuf⟩, ?_⟩
      · rw [hsend]
        rfl
      · rw [hevents]
        exact (List.append_nil _).symm
  | complete p c =>
    by_cases hp : p ∈ s.pending
    · obtain ⟨s', more, hdispose, howns, hkeeps, hevents⟩ := (h.take hp).dispose c
      have hr : step (.ok s) (complete p c) = _ := if_pos hp
      cases hr.symm.trans hs
      exact ⟨s', more, hdispose, howns, hkeeps, hevents⟩
    · have hr : step (.ok s) (complete p c) = _ := if_neg hp
      cases hr.symm.trans hs

end NetStep

end FuServer
