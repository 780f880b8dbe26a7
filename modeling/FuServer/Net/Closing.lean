import FuServer.Lib.Runs
import FuServer.Net.Handlers

/-!
# Closing a connection

A connection lasts from the `NotifyEstablishLink` of its socket to the next
accept that yields the same handle.  Every finished send posts one more receive
on the socket, so several requests of one connection can fail, and each of them
closes it.
-/

namespace FuServer

open Alloc Outcome Runs

/-- How often a connection has been reported closed, and its socket closed. -/
structure Link where
  notified : Nat
  closed : Nat
deriving DecidableEq, Repr

def Link.Once (l : Link) : Prop := l.notified ≤ 1 ∧ l.closed ≤ 1

instance (l : Link) : Decidable l.Once := inferInstanceAs (Decidable (_ ∧ _))

/-- What an event does to the connection of the socket `x`. -/
def NetEvent.track (x : Int) (l : Option Link) : NetEvent → Option Link
  | .accept sock => if sock = x then none else l
  | .establishLink sock _ => if sock = x then some ⟨0, 0⟩ else l
  | .closeLink sock _ => if sock = x then l.map fun l => { l with notified := l.notified + 1 } else l
  | .closesocket sock => if sock = x then l.map fun l => { l with closed := l.closed + 1 } else l
  | .recvFinish _ _ => l
  | .sendFinish _ => l

namespace NetServerWin32

variable {s : NetServerWin32} {p : Ptr} {c : Completion}

/-- The connection of the socket `x`. -/
def link (s : NetServerWin32) (x : Int) : Option Link := s.events.foldl (NetEvent.track x) none

/-- No connection has been reported closed twice, and no socket closed twice. -/
def ClosedOnce (s : NetServerWin32) : Prop := ∀ x, ∀ l ∈ s.link x, l.Once

/-! ## The events that close -/

theorem track_closing_of_ne {sock x : Int} (h : sock ≠ x) (l : Option Link) :
    (closing sock).foldl (NetEvent.track x) l = l := by
  unfold closing
  split
  · show NetEvent.track x l (.closesocket sock) = l
    rw [NetEvent.track, if_neg h]
  · rfl

theorem track_closing_self (x : Int) (l : Option Link) :
    (closing x).foldl (NetEvent.track x) l =
      if x ≠ invalidSocket then l.map fun l => { l with closed := l.closed + 1 } else l := by
  unfold closing
  split
  · show NetEvent.track x l (.closesocket x) = _
    rw [NetEvent.track, if_pos rfl]
  · rfl

theorem track_dropping_of_ne {sock x : Int} (h : sock ≠ x) (nError : Int) (l : Option Link) :
    (dropping sock nError).foldl (NetEvent.track x) l = l := by
  show (closing sock).foldl (NetEvent.track x) (NetEvent.track x l (.closeLink sock nError)) = l
  rw [NetEvent.track, if_neg h, track_closing_of_ne h]

theorem track_dropping_self (x nError : Int) (l : Option Link) :
    (dropping x nError).foldl (NetEvent.track x) l =
      if x ≠ invalidSocket then l.map fun l => ⟨l.notified + 1, l.closed + 1⟩
      else l.map fun l => { l with notified := l.notified + 1 } := by
  show (closing x).foldl (NetEvent.track x) (NetEvent.track x l (.closeLink x nError)) = _
  rw [NetEvent.track, if_pos rfl, track_closing_self, Option.map_map]
  rfl

/-- A report closes nothing. -/
theorem once_of_report {x : Int} {l : Option Link} (h : ∀ k ∈ l, k.Once) :
    ∀ k ∈ (s.report p c).foldl (NetEvent.track x) l, k.Once := by
  unfold report
  cases (s.msgs p).optype with
  | opAccept =>
    show ∀ k ∈ NetEvent.track x l (.establishLink (s.msgs p).soket c.ip), k.Once
    rw [NetEvent.track]
    split
    · intro k hk
      cases hk
      exact ⟨Nat.zero_le 1, Nat.zero_le 1⟩
    · exact h
  | opRecv =>
    dsimp only
    split
    · exact h
    · exact h
  | opSend => exact h

end NetServerWin32

namespace NetStep

open NetServerWin32

/-- A completion that ends a connection is the first of the connection's requests that does. -/
def FirstToEnd (s : NetServerWin32) : NetStep → Prop
  | accept _ _ _ => True
  | sendText _ _ _ _ => True
  | complete p c =>
    ∀ l ∈ s.link (s.msgs p).soket,
      (s.Fails p c → l.notified = 0) ∧
      (s.Fails p c ∨ s.Refuses p c → (s.msgs p).soket ≠ invalidSocket → l.closed = 0)

variable {s s' : NetServerWin32}

theorem link_of_events {a : NetStep} (h : s'.events = s.events ++ a.emitted s) (x : Int) :
    s'.link x = (a.emitted s).foldl (NetEvent.track x) (s.link x) := by
  unfold link
  rw [h, List.foldl_append]

/-- Events that end the connection of `x` and touch no other. -/
theorem closedOnce_iff_of_self {a : NetStep} {x : Int} (hclosed : s.ClosedOnce)
    (hevents : s'.events = s.events ++ a.emitted s)
    (hother : ∀ y l, x ≠ y → (a.emitted s).foldl (NetEvent.track y) l = l) :
    s'.ClosedOnce ↔ ∀ l ∈ (a.emitted s).foldl (NetEvent.track x) (s.link x), l.Once := by
  constructor
  · intro h l hl
    apply h x l
    rw [link_of_events hevents]
    exact hl
  · intro h y l hl
    rw [link_of_events hevents] at hl
    by_cases hy : x = y
    · rw [hy] at h
      exact h l hl
    · rw [hother y _ hy] at hl
      exact hclosed y l hl

theorem closedOnce_fails {p : Ptr} {c : Completion} (hclosed : s.ClosedOnce)
    (hevents : s'.events = s.events ++ (complete p c).emitted s) (hfails : s.Fails p c) :
    s'.ClosedOnce ↔ (complete p c).FirstToEnd s := by
  have hemitted : NetStep.emitted s (complete p c) = dropping (s.msgs p).soket c.nError := if_pos hfails
  rw [closedOnce_iff_of_self (x := (s.msgs p).soket) hclosed hevents]
  · rw [hemitted, track_dropping_self]
    unfold FirstToEnd
    cases hlink : s.link (s.msgs p).soket with
    | none => simp [hlink]
    | some l =>
      obtain ⟨hnotified, honce⟩ := hclosed _ l hlink
      by_cases hsock : (s.msgs p).soket ≠ invalidSocket
      · simp [hlink, hsock, hfails, Link.Once]
      · simp [hlink, hsock, hfails, Link.Once, honce]
  · intro y l hy
    rw [hemitted]
    exact track_dropping_of_ne hy c.nError l

theorem closedOnce_refuses {p : Ptr} {c : Completion} (hclosed : s.ClosedOnce)
    (hevents : s'.events = s.events ++ (complete p c).emitted s) (hfails : ¬ s.Fails p c)
    (hrefuses : s.Refuses p c) : s'.ClosedOnce ↔ (complete p c).FirstToEnd s := by
  have hemitted : NetStep.emitted s (complete p c) = closing (s.msgs p).soket :=
    (if_neg hfails).trans (if_pos hrefuses)
  rw [closedOnce_iff_of_self (x := (s.msgs p).soket) hclosed hevents]
  · rw [hemitted, track_closing_self]
    unfold FirstToEnd
    cases hlink : s.link (s.msgs p).soket with
    | none => simp [hlink]
    | some l =>
      obtain ⟨hnotified, honce⟩ := hclosed _ l hlink
      by_cases hsock : (s.msgs p).soket ≠ invalidSocket
      · simp [hlink, hsock, hfails, hrefuses, Link.Once, hnotified]
      · simp [hlink, hsock, hfails, Link.Once, hnotified, honce]
  · intro y l hy
    rw [hemitted]
    exact track_closing_of_ne hy l

/-- **One step.**  A closing one is that of a request that fails or of a socket that is refused. -/
theorem closedOnce_step {a : NetStep} (hclosed : s.ClosedOnce)
    (hevents : s'.events = s.events ++ a.emitted s) :
    s'.ClosedOnce ↔ a.FirstToEnd s := by
  cases a with
  | accept A sock posted =>
    refine iff_of_true ?_ trivial
    intro x l hl
    rw [link_of_events hevents] at hl
    change l ∈ NetEvent.track x (s.link x) (.accept sock) at hl
    rw [NetEvent.track] at hl
    split at hl
    · cases hl
    · exact hclosed x l hl
  | sendText A sock buf posted =>
    refine iff_of_true ?_ trivial
    intro x l hl
    rw [link_of_events hevents] at hl
    exact hclosed x l hl
  | complete p c =>
    by_cases hfails : s.Fails p c
    · exact closedOnce_fails hclosed hevents hfails
    · by_cases hrefuses : s.Refuses p c
      · exact closedOnce_refuses hclosed hevents hfails hrefuses
      · have hemitted : NetStep.emitted s (complete p c) = s.report p c :=
          (if_neg hfails).trans (if_neg hrefuses)
        refine iff_of_true ?_ ?_
        · intro x l hl
          rw [link_of_events hevents, hemitted] at hl
          exact once_of_report (hclosed x) l hl
        · intro l _
          exact ⟨fun h => absurd h hfails, fun h => absurd h (not_or.mpr ⟨hfails, hrefuses⟩)⟩

/-- **Closing a connection.**  Over a whole run of accepts, sends and
completions on a new server, no connection is reported closed or closed twice
exactly when every completion that ends a connection is its first. -/
theorem closed_once_iff (bHeartBeat : Bool) (msgs : Ptr → NetOperationMsg) (A : Malloc)
    (junk : Nat → Ptr) (as : List NetStep) :
    Always step (fun r => Returns r ClosedOnce) (NetServerWin32.new bHeartBeat msgs A junk) as ↔
      EachStep step (fun r a => ∀ s, r = .ok s → a.FirstToEnd s)
        (NetServerWin32.new bHeartBeat msgs A junk) as := by
  obtain ⟨s0, hnew, howns0, hevents0⟩ := new_owns bHeartBeat msgs A junk
  rw [hnew]
  have hclosed0 : s0.ClosedOnce := by
    intro x l hl
    rw [link, hevents0] at hl
    cases hl
  refine always_returns_iff (J := fun s => ∃ lost, Owns s lost) ?_ as s0 ⟨[], howns0⟩ hclosed0
  rintro s a r ⟨lost, howns⟩ hs
  obtain ⟨s', more, rfl, howns', -, hevents⟩ := step_spec howns hs
  exact ⟨s', rfl, ⟨more ++ lost, howns'⟩, fun hclosed => closedOnce_step hclosed hevents⟩

/-- A text has been sent, so two receives are pending when the peer resets the connection. -/
theorem reset_closes_twice :
    ¬ Always step (fun r => Returns r ClosedOnce)
      (NetServerWin32.new false (fun _ => ⟨0, .opAccept, 0, none⟩) bump fun _ => 0)
      [.accept bump 5 true, .complete 30 { A := bump, junk := fun _ => 0 },
        .sendText bump 5 [0x68] true, .complete 30 { trans := [0x68], A := bump, junk := fun _ => 0 },
        .complete 29 { nError := 10054, A := bump, junk := fun _ => 0 },
        .complete 30 { nError := 10054, A := bump, junk := fun _ => 0 }] := by
  apply not_always_of_any (b := fun r => r.toOption.any fun s => (s.link 5).any fun l => !decide l.Once)
  · intro r hr hclosed
    obtain ⟨s, rfl, h⟩ := hclosed
    change (s.link 5).any _ = true at hr
    obtain ⟨l, hl, hbad⟩ := (Option.any_eq_true _ _).mp hr
    simp [h 5 l hl] at hbad
  · decide +kernel

end NetStep

end FuServer
