import FuServer.Model.Workers

/-!
# The tables of the workers

Both tables have twenty entries and the events take two of theirs, so there is room
for eighteen workers, those of nine processors.
-/

namespace FuServer

open Outcome

/-! ## One table -/

/-- The handles stored so far, from the front of the array. -/
structure HandleTable.Holds (t : HandleTable) (handles : List Handle) : Prop where
  slots : ∃ free, t.slots = handles ++ free
  size : t.size = handles.length
  length : t.slots.length = 20

namespace HandleTable.Holds

variable {t : HandleTable} {handles : List Handle}

theorem length_le (h : t.Holds handles) : handles.length ≤ 20 := by
  obtain ⟨free, hslots⟩ := h.slots
  rw [← h.length, hslots, List.length_append]
  omega

theorem waited (h : t.Holds handles) : t.waited = handles := by
  obtain ⟨free, hslots⟩ := h.slots
  unfold HandleTable.waited
  rw [hslots, h.size, Int.toNat_natCast, List.take_left]

/-- There is room for twenty. -/
theorem store (h : t.Holds handles) (handle : Handle) (hroom : handles.length < 20) :
    ∃ t', t.store handle = .ok t' ∧ t'.Holds (handles ++ [handle]) := by
  obtain ⟨free, hslots⟩ := h.slots
  have hlen := h.length
  have hlt : handles.length < t.slots.length := by omega
  have hmodify := vecModify_natCast (fun _ => handle) hlt
  rw [← h.size] at hmodify
  refine ⟨⟨t.slots.modify handles.length fun _ => handle, t.size + 1⟩, ?_, ?_, ?_, ?_⟩
  · unfold HandleTable.store
    rw [hmodify]
    rfl
  · cases free with
    | nil =>
      rw [hslots, List.append_nil] at hlt
      omega
    | cons slot free =>
      refine ⟨free, ?_⟩
      dsimp only
      rw [hslots, List.modify_eq_take_cons_drop (by simp)]
      simp
  · dsimp only
    rw [h.size, List.length_append]
    rfl
  · dsimp only
    rw [List.length_modify, hlen]

theorem store_full (h : t.Holds handles) (handle : Handle) (hfull : handles.length = 20) :
    t.store handle = .error .outOfRange := by
  unfold HandleTable.store vecModify
  rw [if_neg (by rw [h.size, h.length, Int.toNat_natCast]; omega)]
  rfl

end HandleTable.Holds

/-! ## The loop -/

/-- What a start with `n` workers comes to: it stays inside the arrays, and the waits are made on
the handles of the workers, behind those of the two events. -/
def WaitsOn (hAcceptEvent hPostEvent : Handle) (createThread : Nat → Handle) (n : Nat)
    (t : HandleTables) : Prop :=
  t.thread.waited = (List.range n).map createThread ∧
    t.event.waited = hAcceptEvent :: hPostEvent :: (List.range n).map createThread

instance (hAcceptEvent hPostEvent : Handle) (createThread : Nat → Handle) (n : Nat) (t : HandleTables) :
    Decidable (WaitsOn hAcceptEvent hPostEvent createThread n t) := inferInstanceAs (Decidable (_ ∧ _))

variable (hAcceptEvent hPostEvent : Handle) (createThread : Nat → Handle)

theorem map_range_succ (i : Nat) :
    (List.range (i + 1)).map createThread = (List.range i).map createThread ++ [createThread i] := by
  rw [List.range_succ, List.map_append]
  rfl

/-- Each round stores one handle in both tables; the table of the events is full first. -/
theorem startWorkers_spec (rounds i : Nat) {t : HandleTables}
    (hthread : t.thread.Holds ((List.range i).map createThread))
    (hevent : t.event.Holds (hAcceptEvent :: hPostEvent :: (List.range i).map createThread)) :
    if i + rounds ≤ 18 then
      Returns (startWorkers createThread rounds i t)
        (WaitsOn hAcceptEvent hPostEvent createThread (i + rounds))
    else startWorkers createThread rounds i t = .error .outOfRange := by
  have hi := hevent.length_le
  simp only [List.length_cons, List.length_map, List.length_range] at hi
  induction rounds generalizing i t with
  | zero =>
    rw [if_pos (by omega)]
    exact ⟨t, rfl, hthread.waited, hevent.waited⟩
  | succ rounds ih =>
    unfold startWorkers
    dsimp only
    rcases Nat.lt_or_ge i 18 with hlt | hge
    · obtain ⟨event, hstore, hevent'⟩ := hevent.store (createThread i) (by simp; omega)
      obtain ⟨thread, hstore', hthread'⟩ := hthread.store (createThread i) (by simp; omega)
      rw [hstore, ok_bind, hstore', ok_bind]
      rw [← map_range_succ] at hthread'
      rw [List.cons_append, List.cons_append, ← map_range_succ] at hevent'
      have hrest := ih (i + 1) (t := ⟨event, thread⟩) hthread' hevent' (by omega)
      rw [show i + 1 + rounds = i + (rounds + 1) by omega] at hrest
      exact hrest
    · have hfull := hevent.store_full (createThread i) (by simp; omega)
      rw [if_neg (by omega), hfull]
      rfl

/-- The whole start, for any number of workers. -/
theorem waitEventThreadStart_spec (dwNumberOfProcessors : UInt32) :
    if (nEventCount dwNumberOfProcessors).toNatClampNeg ≤ 18 then
      Returns (waitEventThreadStart dwNumberOfProcessors hAcceptEvent hPostEvent createThread {})
        (WaitsOn hAcceptEvent hPostEvent createThread (nEventCount dwNumberOfProcessors).toNatClampNeg)
    else waitEventThreadStart dwNumberOfProcessors hAcceptEvent hPostEvent createThread {} =
      .error .outOfRange := by
  have hempty : ({} : HandleTable).Holds [] := ⟨⟨_, rfl⟩, rfl, rfl⟩
  obtain ⟨event, hstore, hevent⟩ := hempty.store hAcceptEvent (by decide)
  obtain ⟨event', hstore', hevent'⟩ := hevent.store hPostEvent (by simp)
  have hloop := startWorkers_spec hAcceptEvent hPostEvent createThread
    (nEventCount dwNumberOfProcessors).toNatClampNeg 0 (t := ⟨event', {}⟩) hempty hevent'
  rw [Nat.zero_add] at hloop
  unfold waitEventThreadStart
  rw [hstore, ok_bind, hstore', ok_bind]
  exact hloop

/-- Twice the number of processors as an `int`. -/
theorem nEventCount_eq (dwNumberOfProcessors : UInt32) :
    (nEventCount dwNumberOfProcessors).toNatClampNeg =
      if dwNumberOfProcessors.toNat % 2 ^ 31 < 2 ^ 30 then
        2 * (dwNumberOfProcessors.toNat % 2 ^ 31) else 0 := by
  have htwo : (2 : UInt32).toNat = 2 := rfl
  show ((dwNumberOfProcessors * 2).toBitVec.toInt).toNat = _
  rw [BitVec.toInt_eq_toNat_cond, UInt32.toNat_toBitVec, UInt32.toNat_mul, htwo]
  split <;> split <;> omega

/-- **The tables of the workers.**  The start stays inside the arrays and waits on the handles it has
stored exactly when twice the number of processors is at most 18 as an `int`; and it does so with
two workers for each processor exactly when there are at most nine. -/
theorem waitEventThreadStart_iff (dwNumberOfProcessors : UInt32) (hAcceptEvent hPostEvent : Handle)
    (createThread : Nat → Handle) :
    (Returns (waitEventThreadStart dwNumberOfProcessors hAcceptEvent hPostEvent createThread {})
        (WaitsOn hAcceptEvent hPostEvent createThread (nEventCount dwNumberOfProcessors).toNatClampNeg) ↔
      dwNumberOfProcessors.toNat % 2 ^ 31 ≤ 9 ∨ 2 ^ 30 ≤ dwNumberOfProcessors.toNat % 2 ^ 31) ∧
    (Returns (waitEventThreadStart dwNumberOfProcessors hAcceptEvent hPostEvent createThread {})
        (WaitsOn hAcceptEvent hPostEvent createThread (2 * dwNumberOfProcessors.toNat)) ↔
      dwNumberOfProcessors.toNat ≤ 9) := by
  have hspec := waitEventThreadStart_spec hAcceptEvent hPostEvent createThread dwNumberOfProcessors
  have hcount := nEventCount_eq dwNumberOfProcessors
  have hmax := dwNumberOfProcessors.toNat_lt
  by_cases hroom : (nEventCount dwNumberOfProcessors).toNatClampNeg ≤ 18
  · rw [if_pos hroom] at hspec
    constructor
    · refine iff_of_true hspec ?_
      split at hcount <;> omega
    · constructor
      · -- as many workers as have been counted
        rintro ⟨t, ht, hthread, -⟩
        obtain ⟨t', ht', hthread', -⟩ := hspec
        rw [ht] at ht'
        cases ht'
        have hlen := congrArg List.length (hthread.symm.trans hthread')
        simp only [List.length_map, List.length_range] at hlen
        omega
      · intro hfew
        rw [if_pos (by omega)] at hcount
        have htwice : (nEventCount dwNumberOfProcessors).toNatClampNeg =
            2 * dwNumberOfProcessors.toNat := by
          omega
        rw [htwice] at hspec
        exact hspec
  · rw [if_neg hroom] at hspec
    rw [hspec]
    constructor
    · refine iff_of_false not_returns_error ?_
      split at hcount <;> omega
    · refine iff_of_false not_returns_error ?_
      split at hcount <;> omega

/-- Ten processors: two events and twenty workers in a table of twenty. -/
theorem waitEventThreadStart_ten :
    waitEventThreadStart 10 1 2 (fun i => i + 3) {} = .error .outOfRange := by
  decide

end FuServer
