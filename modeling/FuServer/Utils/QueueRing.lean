import Mathlib.Data.Nat.ModEq
import FuServer.Lib.Outcome
import FuServer.Model.Queue

/-!
# The ring, its growth and its end

What a queue holds is read off the ring from the oldest pointer on.  A push
that finds room puts one behind the last.  A push that grows copies between two
indices that are equal then, which is nothing, and the pointers are lost; and
`Clear` waits for a count that `PopFront` leaves alone.
-/

namespace FuServer

open Alloc Outcome

namespace UtilsQueue

/-- A ring: the index it begins at is in the array, and there are no more pointers than slots. -/
structure Valid (q : UtilsQueue) : Prop where
  capacity : 1 ≤ q.iMaxSize
  beginLo : 0 ≤ q.ibegin
  beginHi : q.ibegin < q.iMaxSize
  countLo : 0 ≤ q.iDataSize
  countHi : q.iDataSize ≤ q.iMaxSize
  slots : (q.queueArray.length : Int) = q.iMaxSize

/-- The slot of the `i`-th pointer. -/
def slotOf (q : UtilsQueue) (i : Nat) : Nat := (q.ibegin.toNat + i) % q.iMaxSize.toNat

/-- The pointers in the queue, the oldest first. -/
def contents (q : UtilsQueue) : List Ptr :=
  (List.range q.iDataSize.toNat).map fun i => q.queueArray.getD (q.slotOf i) 0

@[simp] theorem length_contents (q : UtilsQueue) :
    q.contents.length = q.iDataSize.toNat := by simp [contents]

variable {q : UtilsQueue}

theorem headD_contents (h : 0 < q.iDataSize) :
    q.contents.headD 0 = q.queueArray.getD (q.slotOf 0) 0 := by
  have hpos : q.iDataSize.toNat ≠ 0 := Nat.ne_of_gt (Int.lt_toNat.mpr h)
  obtain ⟨n, hn⟩ := Nat.exists_eq_add_one_of_ne_zero hpos
  unfold contents
  rw [hn, List.range_succ_eq_map]
  rfl

theorem Valid.slotOf_lt (h : Valid q) (i : Nat) : q.slotOf i < q.queueArray.length := by
  have hcap := h.capacity
  have hslots := h.slots
  have hlt : q.slotOf i < q.iMaxSize.toNat := Nat.mod_lt _ (by omega)
  omega

/-- Within one round no slot comes twice. -/
theorem slotOf_ne {i j : Nat} (hij : i < j) (hj : (j : Int) < q.iMaxSize) :
    q.slotOf j ≠ q.slotOf i := by
  intro heq
  have hmod : j % q.iMaxSize.toNat = i % q.iMaxSize.toNat := Nat.ModEq.add_left_cancel' _ heq
  rw [Nat.mod_eq_of_lt (by omega), Nat.mod_eq_of_lt (by omega)] at hmod
  omega

/-! ## A push -/

/-- Where the push writes. -/
theorem Valid.toIndex (h : Valid q) :
    (q.iDataSize + q.ibegin).tmod q.iMaxSize = (q.slotOf q.iDataSize.toNat : Nat) := by
  have hcap := h.capacity
  have hlo := h.beginLo
  have hcount := h.countLo
  rw [Int.tmod_eq_emod_of_nonneg (by omega)]
  unfold slotOf
  push_cast
  rw [Int.toNat_of_nonneg hlo, Int.toNat_of_nonneg hcount, Int.toNat_of_nonneg (by omega), Int.add_comm]

/-- The queue after a push that found room. -/
def pushed (q : UtilsQueue) (x : Ptr) : UtilsQueue :=
  { q with
    queueArray := q.queueArray.modify (q.slotOf q.iDataSize.toNat) fun _ => x
    iDataSize := q.iDataSize + 1 }

theorem Valid.pushBack_room (h : Valid q) (hroom : q.iDataSize < q.iMaxSize) (junk : Nat → Ptr)
    (x : Ptr) :
    q.pushBack junk x true = .ok (q.pushed x, true) := by
  have hno : ¬ q.iDataSize ≥ q.iMaxSize := by omega
  have hslot := h.slotOf_lt q.iDataSize.toNat
  unfold pushBack
  rw [if_neg (fun hfull => hno hfull.1), if_neg hno, pure_eq_ok, ok_bind]
  dsimp only
  rw [h.toIndex, vecModify_natCast _ hslot, ok_bind]
  rfl

theorem Valid.pushed_valid (h : Valid q) (hroom : q.iDataSize < q.iMaxSize) (x : Ptr) :
    Valid (q.pushed x) := by
  have hcount := h.countLo
  refine ⟨h.capacity, h.beginLo, h.beginHi, ?_, ?_, ?_⟩
  · show 0 ≤ q.iDataSize + 1
    omega
  · show q.iDataSize + 1 ≤ q.iMaxSize
    omega
  · show (((q.queueArray.modify _ _).length : Nat) : Int) = q.iMaxSize
    rw [List.length_modify]
    exact h.slots

/-- The pointer pushed comes behind the others. -/
theorem Valid.contents_pushed (h : Valid q) (hroom : q.iDataSize < q.iMaxSize) (x : Ptr) :
    (q.pushed x).contents = q.contents ++ [x] := by
  have hcount := h.countLo
  have hsucc : (q.iDataSize + 1).toNat = q.iDataSize.toNat + 1 := by omega
  have hlast : (q.queueArray.modify (q.slotOf q.iDataSize.toNat) fun _ => x).getD
      (q.slotOf q.iDataSize.toNat) 0 = x := by
    rw [List.getD_eq_getElem?_getD, List.getElem?_modify_eq, List.getElem?_eq_getElem (h.slotOf_lt _)]
    rfl
  show ((List.range (q.iDataSize + 1).toNat).map fun i =>
    (q.queueArray.modify (q.slotOf q.iDataSize.toNat) fun _ => x).getD (q.slotOf i) 0) = _
  rw [hsucc, List.range_succ, List.map_append, List.map_singleton, hlast]
  congr 1
  apply List.map_congr_left
  intro i hi
  have hlt := List.mem_range.mp hi
  have hne : q.slotOf q.iDataSize.toNat ≠ q.slotOf i := slotOf_ne hlt (by omega)
  rw [List.getD_eq_getElem?_getD, List.getElem?_modify_ne _ _ hne, List.getD_eq_getElem?_getD]

/-! ## A push that grows -/

/-- In a full ring the end is where the beginning is. -/
theorem Valid.endindex_full (h : Valid q) (hfull : q.iDataSize = q.iMaxSize) :
    (q.ibegin + q.iDataSize).tmod q.iMaxSize = q.ibegin := by
  have hcap := h.capacity
  have hlo := h.beginLo
  rw [hfull, Int.tmod_eq_emod_of_nonneg (by omega), Int.add_emod_right, Int.emod_eq_of_lt hlo h.beginHi]

/-- So `Reset` copies nothing. -/
theorem Valid.reset_full (h : Valid q) (hfull : q.iDataSize = q.iMaxSize) (junk : Nat → Ptr) {size : Int}
    (hsize : q.iMaxSize ≤ size) :
    q.reset junk size =
      .ok { q with ibegin := 0, queueArray := (List.range size.toNat).map junk, iMaxSize := size } := by
  unfold reset
  rw [if_neg (Int.not_lt.mpr hsize), h.endindex_full hfull]
  dsimp only
  rw [if_neg (Int.lt_irrefl _), if_neg (Int.lt_irrefl _)]
  rfl

/-- The push returns a valid queue with one pointer more behind those there were. -/
def PushKeeps (q : UtilsQueue) (x : Ptr) : Prop :=
  ∀ junk : Nat → Ptr, Returns (q.pushBack junk x true) fun r =>
    r.2 = true ∧ Valid r.1 ∧ r.1.contents = q.contents ++ [x]

/-- A ring that does not grow has a pointer too many after the push. -/
theorem Valid.count_of_not_grown (h : Valid q) (hfull : q.iDataSize = q.iMaxSize)
    (hsize : grownSize q.iMaxSize ≤ q.iMaxSize) {junk : Nat → Ptr} {x : Ptr} {r : UtilsQueue × Bool}
    (hpush : q.pushBack junk x true = .ok r) : r.1.iMaxSize < r.1.iDataSize := by
  have hno : ¬ (q.iDataSize ≥ q.iMaxSize ∧ (!true) = true) := fun h => absurd h.2 (by decide)
  have hreset : ∀ {q1}, q.reset junk (grownSize q.iMaxSize) = .ok q1 →
      q1.iMaxSize = q.iMaxSize ∧ q1.iDataSize = q.iDataSize := by
    intro q1 hq1
    by_cases hlt : grownSize q.iMaxSize < q.iMaxSize
    · unfold reset at hq1
      rw [if_pos hlt] at hq1
      cases hq1
      exact ⟨rfl, rfl⟩
    · rw [h.reset_full hfull _ (Int.not_lt.mp hlt)] at hq1
      cases hq1
      exact ⟨by dsimp only; omega, rfl⟩
  unfold pushBack at hpush
  rw [if_neg hno, if_pos (Int.le_of_eq hfull.symm)] at hpush
  obtain ⟨q1, hq1, hpush⟩ := bind_eq_ok.mp hpush
  obtain ⟨queueArray, -, hpush⟩ := bind_eq_ok.mp hpush
  cases hpush
  obtain ⟨hmax, hcount⟩ := hreset hq1
  show q1.iMaxSize < q1.iDataSize + 1
  omega

/-- A ring that grows is fresh memory, with the new pointer behind as much of it as there were
pointers. -/
theorem Valid.pushBack_grown (h : Valid q) (hfull : q.iDataSize = q.iMaxSize)
    (hgrown : q.iMaxSize < grownSize q.iMaxSize) (junk : Nat → Ptr) (x : Ptr) :
    q.pushBack junk x true =
      .ok ({ q with
        ibegin := 0
        iMaxSize := grownSize q.iMaxSize
        iDataSize := q.iDataSize + 1
        queueArray :=
          ((List.range (grownSize q.iMaxSize).toNat).map junk).modify q.iMaxSize.toNat fun _ => x },
              true) := by
  have hcap := h.capacity
  have hno : ¬ (q.iDataSize ≥ q.iMaxSize ∧ (!true) = true) := fun h => absurd h.2 (by decide)
  have hindex : (q.iDataSize + 0).tmod (grownSize q.iMaxSize) = (q.iMaxSize.toNat : Nat) := by
    rw [Int.add_zero, hfull, Int.tmod_eq_emod_of_nonneg (by omega), Int.emod_eq_of_lt (by omega) hgrown]
    omega
  have hsize : q.iMaxSize.toNat < ((List.range (grownSize q.iMaxSize).toNat).map junk).length := by
    rw [List.length_map, List.length_range]
    omega
  unfold pushBack
  rw [if_neg hno, if_pos (Int.le_of_eq hfull.symm), h.reset_full hfull _ (Int.le_of_lt hgrown), ok_bind]
  dsimp only
  rw [hindex, vecModify_natCast _ hsize, ok_bind]
  rfl

/-- A full ring keeps nothing: either it does not grow, and has a pointer too many, or it begins with
memory that nobody has written. -/
theorem Valid.not_pushKeeps_full (h : Valid q) (hfull : q.iDataSize = q.iMaxSize) (x : Ptr) :
    ¬ PushKeeps q x := by
  have hcap := h.capacity
  intro hkeeps
  -- memory that differs from the oldest pointer
  obtain ⟨r, hpush, -, hvalid, hcontents⟩ := hkeeps fun _ => q.contents.headD 0 + 1
  by_cases hgrown : q.iMaxSize < grownSize q.iMaxSize
  · rw [h.pushBack_grown hfull hgrown] at hpush
    cases hpush
    -- the first pointer read is the one of the memory
    have hhead := congrArg (fun l => l.headD 0) hcontents
    have hne : q.iMaxSize.toNat ≠ 0 := by omega
    have hfirst : 0 < (grownSize q.iMaxSize).toNat := by omega
    have hkept : (q.contents ++ [x]).headD 0 = q.contents.headD 0 := by
      cases hc : q.contents with
      | nil =>
        have hnone := congrArg List.length hc
        rw [length_contents, List.length_nil] at hnone
        omega
      | cons p l => rfl
    rw [headD_contents (by dsimp only; omega), hkept] at hhead
    simp only [slotOf, Int.toNat_zero, Nat.zero_add, Nat.zero_mod, List.getD_eq_getElem?_getD,
      List.getElem?_modify_ne _ _ hne] at hhead
    simp [hfirst] at hhead
  · have hlost := h.count_of_not_grown hfull (Int.not_lt.mp hgrown) hpush
    have hcount := hvalid.countHi
    omega

/-- **A growing push.**  It keeps the pointers in their order and puts the new one behind them
exactly when there is room for it; a full ring loses them all. -/
theorem pushBack_keeps_iff (h : Valid q) (x : Ptr) : PushKeeps q x ↔ q.iDataSize < q.iMaxSize := by
  have hcount := h.countHi
  constructor
  · intro hkeeps
    by_contra hno
    exact h.not_pushKeeps_full (by omega) x hkeeps
  · intro hroom junk
    rw [h.pushBack_room hroom, returns_ok]
    exact ⟨rfl, h.pushed_valid hroom x, h.contents_pushed hroom x⟩

/-- Two pointers in a ring of three slots, the second of them wrapped round. -/
def wrapped : UtilsQueue where
  ibegin := 2
  iMaxSize := 3
  iDataSize := 2
  queueArray := [6, 0, 5]

theorem wrapped_valid : Valid wrapped :=
  ⟨by decide, by decide, by decide, by decide, by decide, by decide⟩

theorem pushBack_keeps_iff_wrapped : PushKeeps wrapped 7 ↔ wrapped.iDataSize < wrapped.iMaxSize :=
  pushBack_keeps_iff wrapped_valid 7

/-- Three pointers in it, and a fourth is pushed: where the three were is fresh memory. -/
theorem pushBack_loses :
    ¬ PushKeeps (wrapped.pushed 7) 8 ∧ (wrapped.pushed 7).contents = [5, 6, 7] ∧
      Returns ((wrapped.pushed 7).pushBack (fun _ => 0) 8 true) fun r =>
        r.2 = true ∧ r.1.iMaxSize = 4 ∧ r.1.contents = [0, 0, 0, 8] := by
  have hvalid : Valid (wrapped.pushed 7) := wrapped_valid.pushed_valid (by decide) 7
  exact ⟨hvalid.not_pushKeeps_full rfl 8, by decide, by decide⟩

/-! ## Clear -/

/-- The loop ends, after one round for each pointer in the queue; each of them is deleted, none
twice, and the queue is empty then. -/
def ClearsOnce (q : UtilsQueue) : Prop :=
  ∃ fuel c, q.clear fuel = .ok (some c) ∧ c.rounds = q.contents.length ∧
    c.deleted = q.contents.filter (· ≠ 0) ∧ c.queue.contents = []

/-- A round pops a pointer, and leaves the count and the ring's shape as they are. -/
theorem Valid.popFront_eq (h : Valid q) (hsome : 0 < q.iDataSize) :
    ∃ p, q.popFront = .ok ({ q with ibegin := (q.ibegin + 1).tmod q.iMaxSize }, p) ∧
      Valid { q with ibegin := (q.ibegin + 1).tmod q.iMaxSize } := by
  have hlo := h.beginLo
  have hhi := h.beginHi
  have hslots := h.slots
  have hlt : q.ibegin.toNat < q.queueArray.length := by omega
  have hnext : (q.ibegin + 1).tmod q.iMaxSize = (q.ibegin + 1) % q.iMaxSize :=
    Int.tmod_eq_emod_of_nonneg (by omega)
  refine ⟨q.queueArray[q.ibegin.toNat], ?_, h.capacity, ?_, ?_, h.countLo, h.countHi, hslots⟩
  · unfold popFront
    rw [if_neg (by omega), vecAt_of_lt hlo hlt]
    rfl
  · rw [hnext]
    exact Int.emod_nonneg _ (by omega)
  · rw [hnext]
    exact Int.emod_lt_of_pos _ (by omega)

/-- A loop over a ring with pointers in it goes on. -/
theorem clearLoop_goes_on (fuel : Nat) {c : Cleared} (h : Valid c.queue)
    (hsome : 0 < c.queue.iDataSize) :
    clearLoop fuel c = .ok none := by
  induction fuel generalizing c with
  | zero =>
    unfold clearLoop
    rw [if_pos hsome]
  | succ fuel ih =>
    obtain ⟨p, hpop, hvalid⟩ := h.popFront_eq hsome
    unfold clearLoop
    rw [if_pos hsome, hpop, ok_bind]
    exact ih hvalid hsome

/-- **Clear.**  It ends, and has then deleted each pointer once, only on an empty queue; on any
other it goes round the ring for ever. -/
theorem clear_iff (h : Valid q) : ClearsOnce q ↔ q.iDataSize = 0 := by
  have hlo := h.countLo
  constructor
  · rintro ⟨fuel, c, hclear, -⟩
    by_contra hne
    have hloop := clearLoop_goes_on fuel (c := { queue := q }) h (by show 0 < q.iDataSize; omega)
    unfold clear at hclear
    rw [hloop] at hclear
    cases hclear
  · intro hzero
    have hnone : ¬ ({ queue := q } : Cleared).queue.iDataSize > 0 := by
      show ¬ q.iDataSize > 0
      omega
    have hempty : q.contents = [] := List.length_eq_zero_iff.mp (by rw [length_contents, hzero]; rfl)
    refine ⟨0, { queue := { q with ibegin := 0, iDataSize := 0 } }, ?_, ?_, ?_, rfl⟩
    · unfold clear clearLoop
      rw [if_neg hnone]
      rfl
    · rw [hempty]
      rfl
    · rw [hempty]
      rfl

theorem clear_iff_wrapped : ClearsOnce wrapped ↔ wrapped.iDataSize = 0 := clear_iff wrapped_valid

/-- The one pointer of a queue is popped and deleted in every round. -/
theorem clear_for_ever :
    let q : UtilsQueue := { ibegin := 0, iMaxSize := 1, iDataSize := 1, queueArray := [5] }
    ¬ ClearsOnce q ∧ ∀ fuel, q.clear fuel = .ok none := by
  intro q
  have hvalid : Valid q := ⟨by decide, by decide, by decide, by decide, by decide, by decide⟩
  have hloop : ∀ fuel, q.clear fuel = .ok none := by
    intro fuel
    unfold clear
    rw [clearLoop_goes_on fuel hvalid (by decide)]
    rfl
  refine ⟨?_, hloop⟩
  rintro ⟨fuel, c, hclear, -⟩
  rw [hloop] at hclear
  cases hclear

end UtilsQueue

end FuServer
