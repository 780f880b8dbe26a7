import FuServer.Lib.Outcome
import FuServer.Lib.Runs
import FuServer.Model.MemPool

/-!
# The pool never hands out a live block

Any sequence of `Create`, `Free` of a block that is handed out, and `Extern`
with a positive factor, over any allocator.  `Inv` carries the two size bounds
together with the distinctness of the free and the handed out blocks.
-/

namespace FuServer

open Alloc Outcome Runs

namespace UtilsMemPool

variable {p : UtilsMemPool} {handed : List Ptr}

/-- The pool beside the blocks it has handed out. -/
structure Inv (p : UtilsMemPool) (handed : List Ptr) : Prop where
  length : (p.pPoolArray.length : Int) = p.iBufferSize
  /-- half of the size is at least one block -/
  room : 2 ≤ p.iBufferSize
  lo : 0 ≤ p.iPoolSize
  hi : p.iPoolSize ≤ p.iBufferSize
  nodup : (p.blocks ++ handed).Nodup
  notNull : 0 ∉ p.blocks ++ handed

/-! ## The slot array -/

theorem length_realloc (junk : Nat → Ptr) (pPoolArray : List Ptr) (size : Int) :
    (realloc junk pPoolArray size).length = size.toNat := by
  simp [realloc]

theorem take_realloc (junk : Nat → Ptr) {pPoolArray : List Ptr} {size : Int} {n : Nat}
    (hn : n ≤ pPoolArray.length) (hsize : n ≤ size.toNat) :
    (realloc junk pPoolArray size).take n = pPoolArray.take n := by
  apply List.ext_getElem
  · rw [List.length_take, List.length_take, length_realloc]
    omega
  · intro i hi hi'
    rw [List.length_take] at hi'
    have hlt : i < pPoolArray.length := by omega
    rw [List.getElem_take, List.getElem_take]
    simp [realloc, hlt]

theorem fill_eq {pPoolArray blocks : List Ptr} {i : Nat} (h : i + blocks.length ≤ pPoolArray.length) :
    fill pPoolArray i blocks =
      .ok (pPoolArray.take i ++ blocks ++ pPoolArray.drop (i + blocks.length)) := by
  induction blocks generalizing pPoolArray i with
  | nil => simp [fill]
  | cons b blocks ih =>
    rw [List.length_cons] at h
    have hi : i < pPoolArray.length := by omega
    have hset : pPoolArray.modify i (fun _ => b) = pPoolArray.take i ++
        b :: pPoolArray.drop (i + 1) := by
      rw [List.modify_eq_take_cons_drop hi]
    have hlen : (pPoolArray.take i ++ [b]).length = i + 1 := by
      rw [List.length_append, List.length_take, List.length_singleton]
      omega
    have hsplit : pPoolArray.take i ++ b :: pPoolArray.drop (i + 1) =
        (pPoolArray.take i ++ [b]) ++ pPoolArray.drop (i + 1) := by simp
    rw [fill, vecModify_natCast _ hi, ok_bind, hset, hsplit, ih (by simp; omega)]
    have hrest : ((pPoolArray.take i ++ [b]) ++ pPoolArray.drop (i + 1)).drop (i + 1 + blocks.length) =
        pPoolArray.drop (i + (blocks.length + 1)) := by
      rw [List.drop_append, List.drop_eq_nil_of_le (by rw [hlen]; omega), List.nil_append, hlen,
        List.drop_drop]
      congr 1
      omega
    rw [List.take_left' hlen, hrest]
    simp

/-! ## One call -/

theorem half_bounds {n : Int} (h : 2 ≤ n) : 0 < n.tdiv 2 ∧ n.tdiv 2 ≤ n := by
  rw [Int.tdiv_eq_ediv_of_nonneg (by omega)]
  omega

/-- `Create` from a pool with blocks takes the top one. -/
theorem create_of_pos (A : Malloc) (live : List Ptr) (h : 0 < p.iPoolSize)
    (hle : p.iPoolSize ≤ p.pPoolArray.length) :
    ∃ b p', create A live p = .ok (b, p') ∧ p.blocks = p'.blocks ++ [b] ∧
      p'.iPoolSize = p.iPoolSize - 1 ∧ p'.iBufferSize = p.iBufferSize ∧
      p'.pPoolArray.length = p.pPoolArray.length := by
  have h0 : 0 ≤ p.iPoolSize - 1 := by omega
  have hlt : (p.iPoolSize - 1).toNat < p.pPoolArray.length := by omega
  have hnext : p.iPoolSize.toNat = (p.iPoolSize - 1).toNat + 1 := by omega
  unfold create
  rw [if_neg (by omega), pure_eq_ok, ok_bind]
  dsimp only
  rw [vecAt_of_lt h0 hlt, ok_bind, vecModify_of_lt _ h0 hlt, ok_bind]
  refine ⟨_, _, rfl, ?_, rfl, rfl, List.length_modify _ _ _⟩
  have htake : (p.pPoolArray.modify (p.iPoolSize - 1).toNat fun _ => 0).take (p.iPoolSize - 1).toNat =
      p.pPoolArray.take (p.iPoolSize - 1).toNat := by
    rw [List.modify_eq_take_cons_drop hlt, List.take_left' (by rw [List.length_take]; omega)]
  show p.pPoolArray.take p.iPoolSize.toNat = _ ++ [_]
  rw [hnext, List.take_succ_eq_append_getElem hlt]
  exact congrArg (· ++ _) htake.symm

/-- The pool after an empty one has been refilled. -/
def refilled (A : Malloc) (live : List Ptr) (p : UtilsMemPool) : UtilsMemPool where
  pPoolArray := A.blocks (p.iBufferSize.tdiv 2).toNat live ++
    p.pPoolArray.drop (p.iBufferSize.tdiv 2).toNat
  iPoolSize := p.iBufferSize.tdiv 2
  iBufferSize := p.iBufferSize

theorem create_of_empty {A : Malloc} {live : List Ptr} (h : p.iPoolSize ≤ 0) (hroom : 2 ≤ p.iBufferSize)
    (hlen : (p.pPoolArray.length : Int) = p.iBufferSize) :
    create A live p = create A live (refilled A live p) := by
  obtain ⟨hhalf, hle⟩ := half_bounds hroom
  have hfill : fill p.pPoolArray 0 (A.blocks (p.iBufferSize.tdiv 2).toNat live) =
      .ok (refilled A live p).pPoolArray := by
    rw [fill_eq (by rw [Malloc.length_blocks]; omega), Malloc.length_blocks, List.take_zero,
      Nat.zero_add]
    rfl
  have hpos : ¬ (refilled A live p).iPoolSize ≤ 0 := by
    show ¬ p.iBufferSize.tdiv 2 ≤ 0
    omega
  unfold create
  rw [if_pos h, if_neg hpos]
  dsimp only
  rw [hfill]
  rfl

/-- The top block of a pool that has some. -/
theorem Inv.pop (h : Inv p handed) (A : Malloc) (live : List Ptr) (hpos : 0 < p.iPoolSize) :
    ∃ b p', create A live p = .ok (b, p') ∧ p'.blocks ++ [b] = p.blocks ∧ Inv p' (b :: handed) := by
  have hhi := h.hi
  have hroom := h.room
  have hlen := h.length
  obtain ⟨b, p', hcreate, hblocks, hsize, hbuffer, hlength⟩ := create_of_pos A live hpos (by omega)
  have hmove : p.blocks ++ handed = p'.blocks ++ b :: handed := by
    rw [hblocks, List.append_assoc]
    rfl
  refine ⟨b, p', hcreate, hblocks.symm, ?_⟩
  constructor
  · omega
  · omega
  · omega
  · omega
  · rw [← hmove]
    exact h.nodup
  · rw [← hmove]
    exact h.notNull

theorem Inv.blocks_nil (h : Inv p handed) (hpos : ¬ 0 < p.iPoolSize) : p.blocks = [] := by
  have hlo := h.lo
  have hsize : p.iPoolSize = 0 := by omega
  unfold blocks
  rw [hsize]
  rfl

theorem blocks_refilled (A : Malloc) (live : List Ptr) (p : UtilsMemPool) :
    (refilled A live p).blocks = A.blocks (p.iBufferSize.tdiv 2).toNat live :=
  List.take_left' (Malloc.length_blocks _ _ _)

/-- New blocks are none of those handed out. -/
theorem Inv.refilled (h : Inv p handed) (A : Malloc) (hpos : ¬ 0 < p.iPoolSize) :
    Inv (refilled A (p.blocks ++ handed) p) handed := by
  have hroom := h.room
  have hlength := h.length
  obtain ⟨hhalf, hle⟩ := half_bounds hroom
  constructor
  · show ((A.blocks _ _ ++ p.pPoolArray.drop _).length : Int) = p.iBufferSize
    rw [List.length_append, Malloc.length_blocks, List.length_drop]
    omega
  · exact hroom
  · exact hhalf.le
  · exact hle
  · rw [blocks_refilled, h.blocks_nil hpos]
    have hnodup := A.nodup_blocks (n := (p.iBufferSize.tdiv 2).toNat) h.nodup
    rwa [h.blocks_nil hpos, List.nil_append] at hnodup
  · rw [blocks_refilled]
    intro h0
    rcases List.mem_append.mp h0 with h0 | h0
    · exact A.ne_null_of_mem h0 rfl
    · exact h.notNull (List.mem_append_right _ h0)

/-- **Create.**  It returns the top block, of the pool or of the new ones; the
others stay in the pool. -/
theorem create_spec (h : Inv p handed) (A : Malloc) :
    ∃ b p' n, create A (p.blocks ++ handed) p = .ok (b, p') ∧
      p'.blocks ++ [b] = p.blocks ++ A.blocks n (p.blocks ++ handed) ∧ Inv p' (b :: handed) := by
  by_cases hpos : 0 < p.iPoolSize
  · obtain ⟨b, p', hcreate, hblocks, hinv⟩ := h.pop A (p.blocks ++ handed) hpos
    refine ⟨b, p', 0, hcreate, ?_, hinv⟩
    rw [hblocks, Malloc.blocks, List.append_nil]
  · obtain ⟨b, p', hcreate, hblocks, hinv⟩ :=
      (h.refilled A hpos).pop A (p.blocks ++ handed) (half_bounds h.room).1
    refine ⟨b, p', (p.iBufferSize.tdiv 2).toNat, ?_, ?_, hinv⟩
    · rw [create_of_empty (not_lt.mp hpos) h.room h.length]
      exact hcreate
    · rw [hblocks, blocks_refilled, h.blocks_nil hpos, List.nil_append, List.nil_append]

theorem externBuffer_inv (h : Inv p handed) (junk : Nat → Ptr) {t : Int} (ht : 1 ≤ t) :
    Inv (p.externBuffer junk t) handed ∧ (p.externBuffer junk t).blocks = p.blocks := by
  have hroom := h.room
  have hlo := h.lo
  have hhi := h.hi
  have hlen := h.length
  have hgrow : p.iBufferSize ≤ p.iBufferSize * t := le_mul_of_one_le_right (by omega) ht
  have hblocks : (p.externBuffer junk t).blocks = p.blocks :=
    take_realloc junk (n := p.iPoolSize.toNat) (by omega) (by omega)
  refine ⟨?_, hblocks⟩
  constructor
  · show ((realloc junk p.pPoolArray (p.iBufferSize * t)).length : Int) = p.iBufferSize * t
    rw [length_realloc]
    omega
  · show 2 ≤ p.iBufferSize * t
    omega
  · exact hlo
  · show p.iPoolSize ≤ p.iBufferSize * t
    omega
  · rw [hblocks]
    exact h.nodup
  · rw [hblocks]
    exact h.notNull

/-- **The constructor.** -/
theorem new_spec (A : Malloc) (junk : Nat → Ptr) : ∃ p, new A [] junk = .ok p ∧ Inv p [] := by
  have hroom : 0 + (A.blocks 30 []).length ≤ (realloc junk [] 100).length := by
    rw [length_realloc, Malloc.length_blocks]
    decide
  have hfill := fill_eq hroom
  have hblocks : (A.blocks 30 [] ++ (realloc junk [] 100).drop 30).take 30 = A.blocks 30 [] :=
    List.take_left' (Malloc.length_blocks _ _ _)
  have hnodup := A.nodup_blocks (n := 30) List.nodup_nil
  unfold new
  rw [hfill, ok_bind, Malloc.length_blocks]
  refine ⟨_, rfl, ?_⟩
  constructor
  · show ((List.take 0 _ ++ A.blocks 30 [] ++ List.drop (0 + 30) _).length : Int) = 100
    rw [List.length_append, List.length_append, List.length_drop, length_realloc, Malloc.length_blocks]
    rfl
  · show (2 : Int) ≤ 100
    decide
  · show (0 : Int) ≤ 30
    decide
  · show (30 : Int) ≤ 100
    decide
  · show (List.take 30 (A.blocks 30 [] ++ _) ++ []).Nodup
    rw [hblocks]
    exact hnodup
  · show 0 ∉ List.take 30 (A.blocks 30 [] ++ _) ++ []
    rw [hblocks, List.append_nil]
    exact fun h0 => A.ne_null_of_mem h0 rfl

/-- A block that comes back goes on top, where there is room for it. -/
theorem Inv.push (h : Inv p handed) {pData : Ptr} (hd : pData ∈ handed)
    (hlt : p.iPoolSize < p.iBufferSize) :
    ∃ p', (do
      let pPoolArray ← vecModify p.pPoolArray p.iPoolSize fun _ => pData
      return { p with pPoolArray := pPoolArray, iPoolSize := p.iPoolSize + 1 }) = (.ok p' :
    Res UtilsMemPool) ∧
      p'.blocks = p.blocks ++ [pData] ∧ Inv p' (handed.erase pData) := by
  have hlo := h.lo
  have hlen := h.length
  have hslot : p.iPoolSize.toNat < p.pPoolArray.length := by omega
  have htake : (p.pPoolArray.take p.iPoolSize.toNat ++ [pData]).length = (p.iPoolSize + 1).toNat := by
    rw [List.length_append, List.length_take, List.length_singleton]
    omega
  have hbelow : (p.pPoolArray.modify p.iPoolSize.toNat fun _ => pData).take (p.iPoolSize + 1).toNat =
      p.blocks ++ [pData] := by
    rw [List.modify_eq_take_cons_drop hslot, List.append_cons, List.take_left' htake]
    rfl
  have hperm : (p.blocks ++ [pData] ++ handed.erase pData).Perm (p.blocks ++ handed) := by
    rw [List.append_assoc]
    exact List.Perm.append_left _ (List.perm_cons_erase hd).symm
  rw [vecModify_of_lt _ hlo hslot, ok_bind]
  refine ⟨_, rfl, hbelow, ?_⟩
  constructor
  · show ((p.pPoolArray.modify _ _).length : Int) = p.iBufferSize
    rw [List.length_modify]
    exact hlen
  · exact h.room
  · show 0 ≤ p.iPoolSize + 1
    omega
  · show p.iPoolSize + 1 ≤ p.iBufferSize
    omega
  · show (List.take _ _ ++ _).Nodup
    rw [hbelow]
    exact hperm.nodup_iff.mpr h.nodup
  · show 0 ∉ List.take _ _ ++ _
    rw [hbelow]
    exact fun h0 => h.notNull (hperm.mem_iff.mp h0)

/-- **Free.**  The block goes on top, of twice as many slots if all are taken. -/
theorem free_spec (h : Inv p handed) (junk : Nat → Ptr) {pData : Ptr} (hd : pData ∈ handed) :
    ∃ p', free junk p pData = .ok p' ∧ p'.blocks = p.blocks ++ [pData] ∧
      Inv p' (handed.erase pData) := by
  unfold free
  dsimp only
  by_cases hfull : p.iPoolSize ≥ p.iBufferSize
  · have hroom := h.room
    have hhi := h.hi
    obtain ⟨hinv, hblocks⟩ := externBuffer_inv h junk (t := 2) (by omega)
    have hlt : p.iPoolSize < p.iBufferSize * 2 := by omega
    rw [if_pos hfull, ← hblocks]
    exact hinv.push hd hlt
  · rw [if_neg hfull]
    exact h.push hd (not_le.mp hfull)

end UtilsMemPool

/-! ## Sequences of calls -/

/-- The pool and the blocks that are handed out. -/
structure PoolUse where
  pool : UtilsMemPool
  handed : List Ptr
deriving DecidableEq, Repr

inductive PoolOp
  | create (A : Malloc)
  | free (pData : Ptr) (junk : Nat → Ptr)
  | externTimes (t : Int) (junk : Nat → Ptr)

namespace PoolUse

def new (A : Malloc) (junk : Nat → Ptr) : Res PoolUse := do
  let pool ← UtilsMemPool.new A [] junk
  return { pool := pool, handed := [] }

/-- The use after a call, if it is one of those the pool is meant for. -/
def step : Res PoolUse → PoolOp → Option (Res PoolUse)
  | .ok u, .create A => some do
    let r ← u.pool.create A (u.pool.blocks ++ u.handed)
    return { pool := r.2, handed := r.1 :: u.handed }
  | .ok u, .free pData junk =>
    if pData ∈ u.handed then some do
      let pool ← u.pool.free junk pData
      return { pool := pool, handed := u.handed.erase pData }
    else none
  | .ok u, .externTimes t junk =>
    if 1 ≤ t then some (.ok { u with pool := u.pool.externBuffer junk t }) else none
  | .error _, _ => none

/-- No access outside the slots so far, the sizes in bounds, and the blocks in
the pool distinct, not null and none of those handed out, which are distinct too. -/
def Safe (s : Res PoolUse) : Prop :=
  Returns s fun u =>
    (0 ≤ u.pool.iPoolSize ∧ u.pool.iPoolSize ≤ u.pool.iBufferSize) ∧
    (u.pool.pPoolArray.length : Int) = u.pool.iBufferSize ∧
    u.pool.blocks.Nodup ∧ (∀ b ∈ u.pool.blocks, b ≠ 0 ∧ b ∉ u.handed) ∧ u.handed.Nodup

theorem safe_of_inv {s : Res PoolUse} (h : Returns s fun u => u.pool.Inv u.handed) : Safe s := by
  obtain ⟨u, rfl, hinv⟩ := h
  obtain ⟨hblocks, hhanded, hdisj⟩ := List.nodup_append.mp hinv.nodup
  refine ⟨u, rfl, ⟨hinv.lo, hinv.hi⟩, hinv.length, hblocks, fun b hb => ⟨?_, fun hm => ?_⟩, hhanded⟩
  · rintro rfl
    exact hinv.notNull (List.mem_append_left _ hb)
  · exact hdisj b hb b hm rfl

theorem new_inv (A : Malloc) (junk : Nat → Ptr) : Returns (new A junk) fun u => u.pool.Inv u.handed := by
  obtain ⟨p, hnew, hinv⟩ := UtilsMemPool.new_spec A junk
  unfold new
  rw [hnew]
  exact ⟨_, rfl, hinv⟩

theorem step_inv {s s' : Res PoolUse} {op : PoolOp} (h : Returns s fun u => u.pool.Inv u.handed)
    (hs : step s op = some s') : Returns s' fun u => u.pool.Inv u.handed := by
  obtain ⟨u, rfl, hinv⟩ := h
  cases op with
  | create A =>
    obtain ⟨b, p', n, hcreate, -, hinv'⟩ := UtilsMemPool.create_spec hinv A
    cases hs
    rw [hcreate]
    exact ⟨_, rfl, hinv'⟩
  | free pData junk =>
    rw [step] at hs
    split at hs
    · next hd =>
      obtain ⟨p', hfree, -, hinv'⟩ := UtilsMemPool.free_spec hinv junk hd
      cases hs
      rw [hfree]
      exact ⟨_, rfl, hinv'⟩
    · cases hs
  | externTimes t junk =>
    rw [step] at hs
    split at hs
    · next ht =>
      cases hs
      exact ⟨_, rfl, (UtilsMemPool.externBuffer_inv hinv junk ht).1⟩
    · cases hs

/-- **The memory pool.**  Over any sequence of calls on a new pool, whatever
blocks `malloc` finds, no access leaves the slots, the sizes stay in bounds,
and no block is handed out twice or handed out while it is in the pool. -/
theorem poolSafe (A : Malloc) (junk : Nat → Ptr) (ops : List PoolOp) :
    Always step Safe (new A junk) ops :=
  always_of_invariant (fun _ _ _ => step_inv) (fun _ => safe_of_inv) ops _ (new_inv A junk)

end PoolUse

end FuServer
