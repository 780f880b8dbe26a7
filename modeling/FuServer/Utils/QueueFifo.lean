import FuServer.Lib.Outcome
import FuServer.Lib.Runs
import FuServer.Model.Queue

/-!
# How far the queue is a FIFO

`PopFront` moves the index the ring begins at and leaves the count alone, so
the count is that of all the pushes that have been accepted.  Up to the first
pointer popped nothing tells the difference.  From then on a push goes as many
slots too far as there have been pops, and the ring is full or empty too early
or too late.
-/

namespace FuServer

open Alloc Outcome Runs

/-! ## The calls, and the FIFO they should be -/

inductive QueueOp
  | pushBack (x : Ptr)
  | popFront
  | front
  | empty
deriving DecidableEq, Repr

inductive QueueOut
  | pushed (accepted : Bool)
  | pointer (p : Ptr)
  | isEmpty (b : Bool)
deriving DecidableEq, Repr

namespace QueueOp

def run (junk : Nat → Ptr) (q : UtilsQueue) : QueueOp → Res (UtilsQueue × QueueOut)
  | pushBack x => do
    let r ← q.pushBack junk x false
    return (r.1, .pushed r.2)
  | popFront => do
    let r ← q.popFront
    return (r.1, .pointer r.2)
  | front => do
    let p ← q.front
    return (q, .pointer p)
  | empty => .ok (q, .isEmpty q.empty)

/-- The same call on a list that holds at most `n` pointers, oldest first. -/
def fifo (n : Nat) (l : List Ptr) : QueueOp → List Ptr × QueueOut
  | pushBack x => if l.length < n then (l ++ [x], .pushed true) else (l, .pushed false)
  | popFront => (l.tail, .pointer (l.head?.getD 0))
  | front => (l, .pointer (l.head?.getD 0))
  | empty => (l, .isEmpty (l = []))

/-- Every call returns what it returns on the list. -/
def Agrees (junk : Nat → Ptr) (n : Nat) : UtilsQueue → List Ptr → List QueueOp → Prop
  | _, _, [] => True
  | q, l, op :: ops =>
    Returns (op.run junk q) fun r => r.2 = (op.fifo n l).2 ∧ Agrees junk n r.1 (op.fifo n l).1 ops

/-- A new queue of `n` slots agrees with an empty list over the calls. -/
def IsFifo (junk : Nat → Ptr) (n : Nat) (ops : List QueueOp) : Prop :=
  Returns (UtilsQueue.new junk n) fun q => Agrees junk n q [] ops

instance decidableAgrees (junk : Nat → Ptr) (n : Nat) :
    (q : UtilsQueue) → (l : List Ptr) → (ops : List QueueOp) → Decidable (Agrees junk n q l ops)
  | _, _, [] => isTrue trivial
  | _, l, op :: ops =>
    haveI : DecidablePred fun r : UtilsQueue × QueueOut =>
        r.2 = (op.fifo n l).2 ∧ Agrees junk n r.1 (op.fifo n l).1 ops := fun r =>
      haveI := decidableAgrees junk n r.1 (op.fifo n l).1 ops
      inferInstanceAs (Decidable (_ ∧ _))
    inferInstanceAs (Decidable (Returns _ _))

instance (junk : Nat → Ptr) (n : Nat) (ops : List QueueOp) : Decidable (IsFifo junk n ops) :=
  inferInstanceAs (Decidable (Returns _ _))

end QueueOp

/-! ## Counting the calls -/

/-- A call, whatever it pushes. -/
inductive QueueCall
  | pushBack
  | popFront
  | front
  | empty
deriving DecidableEq, Repr

def QueueOp.call : QueueOp → QueueCall
  | .pushBack _ => .pushBack
  | .popFront => .popFront
  | .front => .front
  | .empty => .empty

/-- The pushes that have been accepted, those of them before the first pointer
was popped, and the pointers popped. -/
structure QueueCount where
  before : Nat := 0
  pushes : Nat := 0
  pops : Nat := 0
deriving DecidableEq, Repr

namespace QueueCall

def count (n : Nat) (c : QueueCount) : QueueCall → QueueCount
  | pushBack =>
    if c.pushes < n then
      { c with pushes := c.pushes + 1, before := if c.pops = 0 then c.before + 1 else c.before }
    else c
  | popFront => if c.pops < c.before then { c with pops := c.pops + 1 } else c
  | front => c
  | empty => c

/-- Nothing has been popped; or the pushes so far have not used up the slots,
the oldest pointer was there before the first pop, some pointer is left. -/
def Safe (n : Nat) (c : QueueCount) : QueueCall → Prop
  | pushBack => c.pops = 0 ∨ c.pushes < n
  | popFront => c.pops = 0 ∨ c.pops < c.before
  | front => c.pops = 0 ∨ c.pops < c.before
  | empty => c.pops = 0 ∨ c.pops < c.pushes

instance (n : Nat) (c : QueueCount) : (call : QueueCall) → Decidable (call.Safe n c)
  | pushBack => inferInstanceAs (Decidable (_ ∨ _))
  | popFront => inferInstanceAs (Decidable (_ ∨ _))
  | front => inferInstanceAs (Decidable (_ ∨ _))
  | empty => inferInstanceAs (Decidable (_ ∨ _))

end QueueCall

namespace UtilsQueue

variable {n : Nat} {c : QueueCount} {q : UtilsQueue} {l : List Ptr} {junk : Nat → Ptr}

/-- The ring beside the list it should be. -/
structure Holds (n : Nat) (c : QueueCount) (q : UtilsQueue) (l : List Ptr) : Prop where
  maxSize : q.iMaxSize = n
  dataSize : q.iDataSize = c.pushes
  start : q.ibegin = (c.pops % n : Nat)
  slots : q.queueArray.length = n
  early : c.pops = 0 → c.before = c.pushes
  popped : c.pops ≤ c.before
  before : c.before ≤ c.pushes
  room : c.pushes ≤ n
  length : l.length + c.pops = c.pushes
  /-- the pointers pushed before the first pop are where they are looked for -/
  kept : ∀ i, c.pops ≤ i → i < c.before → q.queueArray[i]? = l[i - c.pops]?

theorem new_holds (n : Nat) (junk : Nat → Ptr) :
    ∃ q, new junk n = .ok q ∧ Holds n {} q [] ∧ q.queueArray = (List.range n).map junk := by
  unfold new reset
  rw [if_neg (lt_irrefl _)]
  dsimp only
  rw [Int.zero_add, Int.zero_tmod, if_neg (lt_irrefl _), if_neg (lt_irrefl _), pure_eq_ok, ok_bind]
  refine ⟨_, rfl, ?_, rfl⟩
  constructor
  · rfl
  · rfl
  · show (0 : Int) = (0 % n : Nat)
    rw [Nat.zero_mod]
    rfl
  · show ((List.range n).map junk).length = n
    rw [List.length_map, List.length_range]
  · exact fun _ => rfl
  · exact Nat.le_refl 0
  · exact Nat.le_refl 0
  · exact Nat.zero_le n
  · rfl
  · intro i _ hi
    exact absurd hi (Nat.not_lt_zero i)

/-! ## One call -/

/-- The slot of the next push. -/
theorem Holds.toIndex (h : Holds n c q l) :
    (q.iDataSize + q.ibegin).tmod q.iMaxSize = ((c.pushes + c.pops) % n : Nat) := by
  rw [h.dataSize, h.start, h.maxSize, Int.tmod_eq_emod_of_nonneg (by omega)]
  push_cast
  rw [Int.add_emod_emod]

theorem Holds.pushBack_eq (h : Holds n c q l) (hn : 1 ≤ n) (hlt : c.pushes < n) (x : Ptr) :
    q.pushBack junk x false = .ok ({ q with
      queueArray := q.queueArray.modify ((c.pushes + c.pops) % n) fun _ => x
      iDataSize := q.iDataSize + 1 }, true) := by
  have hroom : ¬ q.iDataSize ≥ q.iMaxSize := by
    rw [h.dataSize, h.maxSize]
    omega
  have hslot : (c.pushes + c.pops) % n < q.queueArray.length := by
    rw [h.slots]
    exact Nat.mod_lt _ hn
  unfold pushBack
  rw [if_neg (fun hfull => hroom hfull.1), if_neg hroom, pure_eq_ok, ok_bind]
  dsimp only
  rw [h.toIndex, vecModify_natCast _ hslot, ok_bind]
  rfl

theorem Holds.pushBack_full (h : Holds n c q l) (hfull : ¬ c.pushes < n) (x : Ptr) :
    q.pushBack junk x false = .ok (q, false) := by
  have hno : q.iDataSize ≥ q.iMaxSize ∧ !false := by
    refine ⟨?_, rfl⟩
    rw [h.dataSize, h.maxSize]
    omega
  unfold pushBack
  rw [if_pos hno]
  rfl

/-- What `Front` and `PopFront` read, and where. -/
theorem Holds.slot (h : Holds n c q l) (hn : 1 ≤ n) :
    ∃ p, vecAt q.queueArray q.ibegin = .ok p ∧ q.queueArray[c.pops % n]? = some p := by
  have hslot : c.pops % n < q.queueArray.length := by
    rw [h.slots]
    exact Nat.mod_lt _ hn
  refine ⟨q.queueArray[c.pops % n], ?_, List.getElem?_eq_getElem hslot⟩
  rw [h.start, vecAt_natCast hslot]

theorem Holds.front_eq (h : Holds n c q l) (hpos : 0 < c.pushes) :
    q.front = vecAt q.queueArray q.ibegin := by
  unfold front
  rw [if_neg]
  rw [h.dataSize]
  omega

theorem Holds.popFront_eq (h : Holds n c q l) (hpos : 0 < c.pushes) {p : Ptr}
    (hp : vecAt q.queueArray q.ibegin = .ok p) :
    q.popFront = .ok ({ q with ibegin := (q.ibegin + 1).tmod q.iMaxSize }, p) := by
  have hsome : ¬ q.iDataSize ≤ 0 := by
    rw [h.dataSize]
    omega
  unfold popFront
  rw [if_neg hsome, hp]
  rfl

/-- Nothing has been pushed yet. -/
theorem Holds.nothing (h : Holds n c q l) (hzero : c.pushes = 0) :
    q.popFront = .ok (q, 0) ∧ q.front = .ok 0 ∧ l = [] ∧ c.pops = 0 ∧ c.before = 0 := by
  have hlength := h.length
  have hbefore := h.before
  have hnone : q.iDataSize ≤ 0 := by
    rw [h.dataSize]
    omega
  refine ⟨if_pos hnone, if_pos hnone, List.length_eq_zero_iff.mp (by omega), by omega, by omega⟩

/-- Up to the first pop every pointer that was pushed counts as an old one. -/
theorem Holds.oldest (h : Holds n c q l) (hpos : 0 < c.pushes) (hsafe : c.pops = 0 ∨ c.pops < c.before) :
    c.pops < c.before := by
  rcases hsafe with hpops | hlt
  · rw [h.early hpops, hpops]
    exact hpos
  · exact hlt

/-- The slot of the next push is none of those between the oldest pointer and
the one where it will be looked for, nor that one after a pop. -/
theorem Holds.slot_ne (h : Holds n c q l) (hlt : c.pushes < n) {i : Nat} (hlo : c.pops ≤ i)
    (hi : i ≤ c.pushes)
    (hpops : i = c.pushes → c.pops ≠ 0) : (c.pushes + c.pops) % n ≠ i := by
  have hbefore := h.before
  by_cases hwrap : c.pushes + c.pops < n
  · rw [Nat.mod_eq_of_lt hwrap]
    omega
  · -- wrapped round, the new pointer stays below the pointers popped
    rw [Nat.mod_eq_sub_mod (by omega), Nat.mod_eq_of_lt (by omega)]
    omega

/-! ## The state after it -/

/-- The pointers pushed before the first pop stay where they are looked for. -/
theorem Holds.kept_push (h : Holds n c q l) (hlt : c.pushes < n) (x : Ptr) {i : Nat} (hlo : c.pops ≤ i)
    (hi : i < if c.pops = 0 then c.before + 1 else c.before) :
    (q.queueArray.modify ((c.pushes + c.pops) % n) fun _ => x)[i]? = (l ++ [x])[i - c.pops]? := by
  have hearly := h.early
  have hbefore := h.before
  have hlength := h.length
  by_cases hnew : i = c.pushes
  · -- before the first pop the slot is the pointer's own
    have hpops : c.pops = 0 := by
      by_contra hne
      rw [if_neg hne] at hi
      omega
    have hself : (c.pushes + c.pops) % n = i := by
      rw [hpops, Nat.add_zero, Nat.mod_eq_of_lt hlt, hnew]
    have hin : i < q.queueArray.length := by
      rw [h.slots]
      omega
    rw [hself, List.getElem?_modify_eq, List.getElem?_eq_getElem hin, hpops,
      List.getElem?_append_right (by omega)]
    have hlast : i - 0 - l.length = 0 := by omega
    rw [hlast]
    rfl
  · have hin : i < c.before := by
      by_cases hpops : c.pops = 0
      · rw [if_pos hpops, hearly hpops] at hi
        rw [hearly hpops]
        omega
      · rw [if_neg hpops] at hi
        exact hi
    have hother := h.slot_ne hlt hlo (by omega) (absurd · hnew)
    rw [List.getElem?_modify_ne _ _ hother, List.getElem?_append_left (by omega)]
    exact h.kept i hlo hin

theorem Holds.push (h : Holds n c q l) (hlt : c.pushes < n) (x : Ptr) :
    Holds n (QueueCall.pushBack.count n c)
      { q with
        queueArray := q.queueArray.modify ((c.pushes + c.pops) % n) fun _ => x
        iDataSize := q.iDataSize + 1 } (l ++ [x]) := by
  have hearly := h.early
  have hpopped := h.popped
  have hbefore := h.before
  have hlength := h.length
  rw [QueueCall.count, if_pos hlt]
  constructor
  · exact h.maxSize
  · show q.iDataSize + 1 = ((c.pushes + 1 : Nat) : Int)
    rw [h.dataSize]
    rfl
  · exact h.start
  · show (q.queueArray.modify _ _).length = n
    rw [List.length_modify]
    exact h.slots
  · intro hpops
    change c.pops = 0 at hpops
    show (if c.pops = 0 then c.before + 1 else c.before) = c.pushes + 1
    rw [if_pos hpops, hearly hpops]
  · show c.pops ≤ if c.pops = 0 then c.before + 1 else c.before
    split <;> omega
  · show (if c.pops = 0 then c.before + 1 else c.before) ≤ c.pushes + 1
    split <;> omega
  · show c.pushes + 1 ≤ n
    omega
  · show (l ++ [x]).length + c.pops = c.pushes + 1
    rw [List.length_append, List.length_singleton]
    omega
  · exact fun i hlo hi => h.kept_push hlt x hlo hi

theorem Holds.pop (h : Holds n c q l) (hlt : c.pops < c.before) :
    Holds n (QueueCall.popFront.count n c)
      { q with ibegin := (q.ibegin + 1).tmod q.iMaxSize } l.tail := by
  have hbefore := h.before
  have hlength := h.length
  have hroom := h.room
  rw [QueueCall.count, if_pos hlt]
  constructor
  · exact h.maxSize
  · exact h.dataSize
  · show (q.ibegin + 1).tmod q.iMaxSize = ((c.pops + 1) % n : Nat)
    rw [h.start, h.maxSize, Int.tmod_eq_emod_of_nonneg (by omega)]
    push_cast
    rw [Int.emod_add_emod]
  · exact h.slots
  · intro hpops
    exact absurd hpops (Nat.succ_ne_zero _)
  · exact hlt
  · exact hbefore
  · exact hroom
  · show l.tail.length + (c.pops + 1) = c.pushes
    rw [List.length_tail]
    omega
  · intro i hlo hi
    change c.pops + 1 ≤ i at hlo
    show q.queueArray[i]? = l.tail[i - (c.pops + 1)]?
    rw [List.getElem?_tail, h.kept i (by omega) hi]
    congr 1
    omega

/-- The oldest pointer is where it is looked for. -/
theorem Holds.top (h : Holds n c q l) (hn : 1 ≤ n) (hlt : c.pops < c.before) :
    vecAt q.queueArray q.ibegin = .ok (l.head?.getD 0) := by
  have hbefore := h.before
  have hroom := h.room
  obtain ⟨p, hp, hslot⟩ := h.slot hn
  rw [Nat.mod_eq_of_lt (by omega), h.kept c.pops (Nat.le_refl _) hlt, Nat.sub_self,
    ← List.head?_eq_getElem?] at hslot
  rw [hp, hslot]
  rfl

end UtilsQueue

namespace QueueOp

open UtilsQueue

variable {n : Nat} {c : QueueCount} {q : UtilsQueue} {l : List Ptr} {junk : Nat → Ptr}

/-- **A safe call** returns what it returns on the list. -/
theorem run_of_safe (junk : Nat → Ptr) (h : Holds n c q l) (hn : 1 ≤ n) (op : QueueOp)
    (hsafe : op.call.Safe n c) :
    ∃ q', op.run junk q = .ok (q', (op.fifo n l).2) ∧
      Holds n (op.call.count n c) q' (op.fifo n l).1 := by
  have hlength := h.length
  cases op with
  | pushBack x =>
    by_cases hlt : c.pushes < n
    · have hfifo : (pushBack x).fifo n l = (l ++ [x], .pushed true) := if_pos (by omega)
      rw [run, h.pushBack_eq hn hlt, hfifo]
      exact ⟨_, rfl, h.push hlt x⟩
    · have hpops : c.pops = 0 := hsafe.resolve_right hlt
      have hfifo : (pushBack x).fifo n l = (l, .pushed false) := if_neg (by omega)
      have hcount : QueueCall.pushBack.count n c = c := if_neg hlt
      rw [run, h.pushBack_full hlt, hfifo]
      refine ⟨q, rfl, ?_⟩
      rw [call, hcount]
      exact h
  | popFront =>
    by_cases hzero : c.pushes = 0
    · obtain ⟨hpop, -, rfl, hpops, hnone⟩ := h.nothing hzero
      have hcount : QueueCall.popFront.count n c = c := if_neg (by omega)
      rw [run, hpop]
      refine ⟨q, rfl, ?_⟩
      rw [call, hcount]
      exact h
    · have hlt := h.oldest (Nat.pos_of_ne_zero hzero) hsafe
      rw [run, h.popFront_eq (Nat.pos_of_ne_zero hzero) (h.top hn hlt)]
      exact ⟨_, rfl, h.pop hlt⟩
  | front =>
    by_cases hzero : c.pushes = 0
    · obtain ⟨-, hfront, rfl, -, -⟩ := h.nothing hzero
      rw [run, hfront]
      exact ⟨q, rfl, h⟩
    · have hlt := h.oldest (Nat.pos_of_ne_zero hzero) hsafe
      rw [run, h.front_eq (Nat.pos_of_ne_zero hzero), h.top hn hlt]
      exact ⟨q, rfl, h⟩
  | empty =>
    have hsame : q.empty = decide (l = []) := by
      unfold UtilsQueue.empty
      rw [h.dataSize, decide_eq_decide, ← List.length_eq_zero_iff]
      rcases hsafe with hpops | hlt
      · omega
      · omega
    rw [run, hsame]
    exact ⟨q, rfl, h⟩

theorem agrees_of_safe (h : Holds n c q l) (hn : 1 ≤ n) (ops : List QueueOp)
    (hsafe : EachStep (fun c call => some (QueueCall.count n c call)) (fun c call => call.Safe n c) c
      (ops.map call)) : Agrees junk n q l ops := by
  induction ops generalizing c q l with
  | nil => trivial
  | cons op ops ih =>
    obtain ⟨hop, hrest⟩ := hsafe _ rfl
    obtain ⟨q', hrun, h'⟩ := run_of_safe junk h hn op hop
    exact ⟨_, hrun, rfl, ih h' hrest⟩

/-! ## Pointers that are all different -/

/-- The ring when no pointer is null, none has been pushed twice and memory held
none of them: the slots the later pointers are looked for in hold others. -/
structure Marked (c : QueueCount) (q : UtilsQueue) (l : List Ptr) (m : Ptr) : Prop where
  notNull : ∀ a ∈ q.queueArray, a ≠ 0
  slotsBelow : ∀ a ∈ q.queueArray, a ≤ m
  listBelow : ∀ a ∈ l, a ≤ m
  wrong : ∀ j, c.before ≤ j → j < c.pushes → q.queueArray[j]? ≠ l[j - c.pops]?

/-- From the second kind of pointers on, a read finds another pointer. -/
theorem Marked.reads_other {m : Ptr} (hm : Marked c q l m) (h : Holds n c q l) {p : Ptr}
    (hp : q.queueArray[c.pops % n]? = some p) (hle : c.before ≤ c.pops) : p ≠ l.head?.getD 0 := by
  have hroom := h.room
  have hlength := h.length
  cases l with
  | nil => exact hm.notNull p (List.mem_of_getElem? hp)
  | cons a l =>
    rw [List.length_cons] at hlength
    have hwrong := hm.wrong c.pops hle (by omega)
    rw [Nat.mod_eq_of_lt (by omega)] at hp
    rw [hp, Nat.sub_self] at hwrong
    exact fun hpa => hwrong (congrArg some hpa)

theorem Marked.safe_of_run {m : Ptr} (hm : Marked c q l m) (h : Holds n c q l) (hn : 1 ≤ n)
    {op : QueueOp}
    (hrun : Returns (op.run junk q) fun r => r.2 = (op.fifo n l).2) : op.call.Safe n c := by
  have hroom := h.room
  have hlength := h.length
  obtain ⟨r, hrun, hout⟩ := hrun
  obtain ⟨p, hp, hslot⟩ := h.slot hn
  cases op with
  | pushBack x =>
    by_contra hsafe
    obtain ⟨hpops, hfull⟩ := not_or.mp hsafe
    have hfifo : (pushBack x).fifo n l = (l ++ [x], .pushed true) := if_pos (by omega)
    rw [run, h.pushBack_full hfull] at hrun
    cases hrun
    rw [hfifo] at hout
    cases hout
  | popFront =>
    by_contra hsafe
    obtain ⟨hpops, hnot⟩ := not_or.mp hsafe
    rw [run, h.popFront_eq (by omega) hp] at hrun
    cases hrun
    exact hm.reads_other h hslot (by omega) (QueueOut.pointer.inj hout)
  | front =>
    by_contra hsafe
    obtain ⟨hpops, hnot⟩ := not_or.mp hsafe
    rw [run, h.front_eq (by omega), hp] at hrun
    cases hrun
    exact hm.reads_other h hslot (by omega) (QueueOut.pointer.inj hout)
  | empty =>
    by_contra hsafe
    obtain ⟨hpops, hnot⟩ := not_or.mp hsafe
    cases hrun
    have hnil : l = [] := List.length_eq_zero_iff.mp (by omega)
    have hcount : ¬ q.iDataSize ≤ 0 := by
      rw [h.dataSize]
      omega
    have hsame := QueueOut.isEmpty.inj hout
    rw [UtilsQueue.empty, decide_eq_decide] at hsame
    exact hcount (hsame.mpr hnil)

theorem Marked.mono {m : Ptr} (hm : Marked c q l m) : Marked c q l (m + 1) :=
  ⟨hm.notNull, fun a ha => Nat.le_succ_of_le (hm.slotsBelow a ha),
    fun a ha => Nat.le_succ_of_le (hm.listBelow a ha),
    hm.wrong⟩

theorem mem_of_mem_modify {v : List Ptr} {i : Nat} {x a : Ptr} (h : a ∈ v.modify i fun _ => x) :
    a = x ∨ a ∈ v := by
  obtain ⟨j, hj⟩ := List.mem_iff_getElem?.mp h
  by_cases hij : i = j
  · rw [hij, List.getElem?_modify_eq] at hj
    obtain ⟨b, -, hb⟩ := Option.map_eq_some_iff.mp hj
    exact Or.inl hb.symm
  · rw [List.getElem?_modify_ne _ _ hij] at hj
    exact Or.inr (List.mem_of_getElem? hj)

/-- A push after the first pop goes into another slot than the one its pointer
will be looked for in. -/
theorem Marked.wrong_push {m : Ptr} (hm : Marked c q l m) (h : Holds n c q l) (hlt : c.pushes < n)
    {j : Nat} (hlo : (if c.pops = 0 then c.before + 1 else c.before) ≤ j) (hj : j < c.pushes + 1) :
    (q.queueArray.modify ((c.pushes + c.pops) % n) fun _ => m + 1)[j]? ≠ (l ++
      [m + 1])[j - c.pops]? := by
  have hearly := h.early
  have hpopped := h.popped
  have hlength := h.length
  have hpops : c.pops ≠ 0 := by
    intro hzero
    rw [if_pos hzero, hearly hzero] at hlo
    omega
  rw [if_neg hpops] at hlo
  -- a pointer below the new one, or none
  have old : ∀ o : Option Ptr, (∀ a ∈ o, a ≤ m) → o ≠ some (m + 1) := by
    intro o ho heq
    exact absurd (ho _ heq) (Nat.not_succ_le_self m)
  by_cases hnew : j = c.pushes
  · have hother := h.slot_ne hlt (i := j) (by omega) (by omega) fun _ => hpops
    have hlast : (l ++ [m + 1])[j - c.pops]? = some (m + 1) := by
      have hat : j - c.pops = l.length := by omega
      rw [hat, List.getElem?_append_right (Nat.le_refl _), Nat.sub_self]
      rfl
    rw [List.getElem?_modify_ne _ _ hother, hlast]
    exact old _ fun a ha => hm.slotsBelow a (List.mem_of_getElem? ha)
  · have hleft : (l ++ [m + 1])[j - c.pops]? = l[j - c.pops]? := List.getElem?_append_left (by omega)
    rw [hleft]
    by_cases hself : (c.pushes + c.pops) % n = j
    · have hin : j < q.queueArray.length := by
        rw [h.slots]
        omega
      rw [hself, List.getElem?_modify_eq, List.getElem?_eq_getElem hin]
      exact (old _ fun a ha => hm.listBelow a (List.mem_of_getElem? ha)).symm
    · rw [List.getElem?_modify_ne _ _ hself]
      exact hm.wrong j hlo (by omega)

theorem Marked.push {m : Ptr} (hm : Marked c q l m) (h : Holds n c q l) (hlt : c.pushes < n) :
    Marked (QueueCall.pushBack.count n c)
      { q with
        queueArray := q.queueArray.modify ((c.pushes + c.pops) % n) fun _ => m + 1
        iDataSize := q.iDataSize + 1 } (l ++ [m + 1]) (m + 1) := by
  rw [QueueCall.count, if_pos hlt]
  constructor
  · intro a ha
    rcases mem_of_mem_modify ha with rfl | ha
    · exact Nat.succ_ne_zero m
    · exact hm.notNull a ha
  · intro a ha
    rcases mem_of_mem_modify ha with rfl | ha
    · exact Nat.le_refl _
    · exact hm.mono.slotsBelow a ha
  · intro a ha
    rcases List.mem_append.mp ha with ha | ha
    · exact hm.mono.listBelow a ha
    · rw [List.mem_singleton.mp ha]
  · exact fun j hlo hj => hm.wrong_push h hlt hlo hj

theorem Marked.pop {m : Ptr} (hm : Marked c q l m) (hlt : c.pops < c.before) :
    Marked (QueueCall.popFront.count n c)
      { q with ibegin := (q.ibegin + 1).tmod q.iMaxSize } l.tail (m + 1) := by
  rw [QueueCall.count, if_pos hlt]
  refine ⟨hm.notNull, hm.mono.slotsBelow, fun a ha => hm.mono.listBelow a (List.mem_of_mem_tail ha), ?_⟩
  intro j hlo hj
  change c.before ≤ j at hlo
  show q.queueArray[j]? ≠ l.tail[j - (c.pops + 1)]?
  have hnext : j - (c.pops + 1) + 1 = j - c.pops := by omega
  rw [List.getElem?_tail, hnext]
  exact hm.wrong j hlo hj

/-- The call, with the pointer that a push takes. -/
def of (x : Ptr) : QueueCall → QueueOp
  | .pushBack => pushBack x
  | .popFront => popFront
  | .front => front
  | .empty => empty

theorem call_of (x : Ptr) (a : QueueCall) : (of x a).call = a := by
  cases a <;> rfl

theorem Marked.run {m : Ptr} (hm : Marked c q l m) (h : Holds n c q l) (hn : 1 ≤ n) {a : QueueCall}
    (hsafe : a.Safe n c) {r : UtilsQueue × QueueOut} (hrun : (of (m + 1) a).run junk q = .ok r) :
    Marked (a.count n c) r.1 ((of (m + 1) a).fifo n l).1 (m + 1) := by
  have hlength := h.length
  cases a with
  | pushBack =>
    by_cases hlt : c.pushes < n
    · have hfifo : (pushBack (m + 1)).fifo n l = (l ++ [m + 1], .pushed true) := if_pos (by omega)
      rw [of, QueueOp.run, h.pushBack_eq hn hlt] at hrun
      cases hrun
      rw [of, hfifo]
      exact hm.push h hlt
    · have hpops : c.pops = 0 := hsafe.resolve_right hlt
      have hroom := h.room
      have hfifo : (pushBack (m + 1)).fifo n l = (l, .pushed false) := if_neg (by omega)
      have hcount : QueueCall.pushBack.count n c = c := if_neg hlt
      rw [of, QueueOp.run, h.pushBack_full hlt] at hrun
      cases hrun
      rw [of, hfifo, hcount]
      exact hm.mono
  | popFront =>
    by_cases hzero : c.pushes = 0
    · obtain ⟨hpop, -, rfl, hpops, hnone⟩ := h.nothing hzero
      have hcount : QueueCall.popFront.count n c = c := if_neg (by omega)
      rw [of, QueueOp.run, hpop] at hrun
      cases hrun
      rw [hcount]
      exact hm.mono
    · have hlt := h.oldest (Nat.pos_of_ne_zero hzero) hsafe
      rw [of, QueueOp.run, h.popFront_eq (Nat.pos_of_ne_zero hzero) (h.top hn hlt)] at hrun
      cases hrun
      exact hm.pop hlt
  | front =>
    obtain ⟨p, -, hr⟩ := bind_eq_ok.mp hrun
    cases hr
    exact hm.mono
  | empty =>
    cases hrun
    exact hm.mono

/-- The calls, each push with a pointer that has not been seen. -/
def mark (m : Ptr) : List QueueCall → List QueueOp
  | [] => []
  | a :: calls => of (m + 1) a :: mark (m + 1) calls

theorem map_call_mark (m : Ptr) (calls : List QueueCall) : (mark m calls).map call = calls := by
  induction calls generalizing m with
  | nil => rfl
  | cons a calls ih => rw [mark, List.map_cons, call_of, ih]

theorem safe_of_agrees {m : Ptr} (hm : Marked c q l m) (h : Holds n c q l) (hn : 1 ≤ n)
    (calls : List QueueCall) (hagrees : Agrees junk n q l (mark m calls)) :
    EachStep (fun c call => some (QueueCall.count n c call)) (fun c call => call.Safe n c) c calls := by
  induction calls generalizing c q l m with
  | nil => trivial
  | cons a calls ih =>
    obtain ⟨r, hrun, hout, hrest⟩ := hagrees
    have hsafe := hm.safe_of_run h hn ⟨r, hrun, hout⟩
    obtain ⟨q', hrun', h'⟩ := run_of_safe junk h hn (of (m + 1) a) hsafe
    rw [call_of] at hsafe h'
    have hm' := hm.run h hn hsafe hrun
    cases hrun.symm.trans hrun'
    rintro c' hc'
    cases hc'
    exact ⟨hsafe, ih hm' h' hrest⟩

/-- **The queue as a FIFO.**  A sequence of calls on a new queue of `n` slots
returns what it returns on a list, whatever is pushed and whatever memory held,
exactly when after the first pop each push still finds a slot that has never
been used, each read is of a pointer pushed before that pop, and `Empty` is
asked while there are pointers left. -/
theorem isFifo_iff {n : Nat} (hn : 1 ≤ n) (calls : List QueueCall) :
    (∀ junk ops, ops.map call = calls → IsFifo junk n ops) ↔
      EachStep (fun c a => some (QueueCall.count n c a)) (fun c a => a.Safe n c) {} calls := by
  constructor
  · intro hall
    obtain ⟨q, hnew, hagrees⟩ := hall (fun _ => 1) (mark 1 calls) (map_call_mark 1 calls)
    obtain ⟨q', hnew', hholds, harray⟩ := new_holds n fun _ => 1
    cases hnew.symm.trans hnew'
    have hone : ∀ a ∈ q.queueArray, a = 1 := by
      intro a ha
      rw [harray] at ha
      obtain ⟨i, -, hi⟩ := List.mem_map.mp ha
      exact hi.symm
    refine safe_of_agrees (m := 1) ?_ hholds hn calls hagrees
    constructor
    · intro a ha
      rw [hone a ha]
      decide
    · intro a ha
      rw [hone a ha]
    · nofun
    · intro j _ hj
      exact absurd hj (Nat.not_lt_zero j)
  · rintro hsafe junk ops rfl
    obtain ⟨q, hnew, hholds, -⟩ := new_holds n junk
    exact ⟨q, hnew, agrees_of_safe hholds hn ops hsafe⟩

theorem isFifo_iff_three :
    1 ≤ 3 ∧ ((∀ junk ops, ops.map call = [.pushBack, .pushBack, .popFront, .front] → IsFifo junk 3 ops) ↔
      EachStep (fun c a => some (QueueCall.count 3 c a)) (fun c a => a.Safe 3 c) {}
        [.pushBack, .pushBack, .popFront, .front]) :=
  ⟨by decide, isFifo_iff (by decide) _⟩

/-- One pointer in, one out: the queue says it is not empty, and the second push is refused. -/
theorem not_isFifo_one :
    ¬ IsFifo (fun _ => 0) 1 [.pushBack 7, .popFront, .empty] ∧
      ¬ IsFifo (fun _ => 0) 1 [.pushBack 7, .popFront, .pushBack 8] := by
  decide

end QueueOp

end FuServer
