import Mathlib.Data.List.Nodup

/-!
# Memory blocks

An address is a natural number, 0 the null pointer.  `Malloc` is any allocator
that returns blocks distinct from all live ones; `blocks` are the results of
calls one after the other, each block live from its call on.
-/

namespace Alloc

abbrev Ptr := Nat

/-- What an allocator returns when the blocks in `live` are in use. -/
structure Malloc where
  block : List Ptr → Ptr
  ne_null : ∀ live, block live ≠ 0
  fresh : ∀ live, block live ∉ live

namespace Malloc

variable (A : Malloc)

/-- The results of `n` calls. -/
def blocks : Nat → List Ptr → List Ptr
  | 0, _ => []
  | n + 1, live => A.block live :: blocks n (A.block live :: live)

@[simp] theorem length_blocks (n : Nat) (live : List Ptr) : (A.blocks n live).length = n := by
  induction n generalizing live with
  | zero => rfl
  | succ n ih => rw [blocks, List.length_cons, ih]

theorem ne_null_of_mem {n : Nat} {live : List Ptr} {b : Ptr} (h : b ∈ A.blocks n live) : b ≠ 0 := by
  induction n generalizing live with
  | zero => cases h
  | succ n ih =>
    rcases List.mem_cons.mp h with rfl | h
    · exact A.ne_null live
    · exact ih h

/-- New blocks are distinct from each other and from the live ones. -/
theorem nodup_blocks {n : Nat} {live : List Ptr} (h : live.Nodup) : (A.blocks n live ++ live).Nodup := by
  induction n generalizing live with
  | zero => exact h
  | succ n ih =>
    have hcons : (A.block live :: live).Nodup := List.nodup_cons.mpr ⟨A.fresh live, h⟩
    have hrest := ih hcons
    rw [blocks, List.cons_append]
    exact (List.perm_middle.nodup_iff).mp hrest

end Malloc

/-- The allocator that goes one beyond the largest live address. -/
def bump : Malloc where
  block live := live.foldr max 0 + 1
  ne_null _ := Nat.succ_ne_zero _
  fresh live := by
    have hle : ∀ b ∈ live, b ≤ live.foldr max 0 := by
      induction live with
      | nil => intro b hb; cases hb
      | cons a live ih =>
        intro b hb
        rw [List.foldr_cons]
        rcases List.mem_cons.mp hb with rfl | hb
        · exact Nat.le_max_left _ _
        · exact Nat.le_trans (ih b hb) (Nat.le_max_right _ _)
    intro hmem
    exact absurd (hle _ hmem) (Nat.not_succ_le_self _)

end Alloc
