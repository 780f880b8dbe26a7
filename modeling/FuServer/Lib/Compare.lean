import Mathlib.Algebra.Order.Group.Abs
import Mathlib.Data.Set.Insert
import FuServer.Lib.Bytes

/-!
# Three-way comparisons

A comparison answers with the sign of a difference.  `byMeasure` compares in a
linear order, `withTolerance` takes values that are near each other as equal;
the first is a total preorder, the second is one except for two ties in a row.
`Extremes` are what a running minimum and maximum keep of a set.
-/

namespace Compare

variable {α β : Type*}

/-- Opposite signs, or both zero. -/
def Opposite (i j : Int) : Prop := 0 < i ∧ j < 0 ∨ i < 0 ∧ 0 < j ∨ i = 0 ∧ j = 0

instance (i j : Int) : Decidable (Opposite i j) := inferInstanceAs (Decidable (_ ∨ _ ∨ _))

/-- A comparison that is a total preorder. -/
structure IsPreorder (cmp : α → α → Int) : Prop where
  opposite : ∀ x y, Opposite (cmp x y) (cmp y x)
  trans : ∀ x y z, cmp x y ≤ 0 → cmp y z ≤ 0 → cmp x z ≤ 0

namespace IsPreorder

variable {cmp : α → α → Int}

theorem self (h : IsPreorder cmp) (x : α) : cmp x x = 0 := by
  have hx := h.opposite x x
  unfold Opposite at hx
  omega

theorem nonneg_iff (h : IsPreorder cmp) (x y : α) : 0 ≤ cmp x y ↔ cmp y x ≤ 0 := by
  have hxy := h.opposite x y
  unfold Opposite at hxy
  omega

end IsPreorder

/-! ## In a linear order -/

section Measure

variable [LinearOrder β] (f : α → β)

/-- The comparison of the values of `f`. -/
def byMeasure (x y : α) : Int := if f x = f y then 0 else if f x > f y then 1 else -1

variable {f} {x y : α}

theorem byMeasure_pos : 0 < byMeasure f x y ↔ f y < f x := by
  unfold byMeasure
  by_cases h : f x = f y
  · simp [h]
  · by_cases hlt : f y < f x <;> simp [h, hlt]

theorem byMeasure_neg : byMeasure f x y < 0 ↔ f x < f y := by
  unfold byMeasure
  by_cases h : f x = f y
  · simp [h]
  · by_cases hlt : f y < f x
    · simp [h, hlt, not_lt_of_gt hlt]
    · simp [h, hlt, lt_of_le_of_ne (not_lt.mp hlt) h]

theorem byMeasure_zero : byMeasure f x y = 0 ↔ f x = f y := by
  unfold byMeasure
  by_cases h : f x = f y
  · simp [h]
  · by_cases hlt : f y < f x <;> simp [h, hlt]

theorem byMeasure_nonpos : byMeasure f x y ≤ 0 ↔ f x ≤ f y := by
  rw [← not_lt, byMeasure_pos, not_lt]

theorem isPreorder_byMeasure (f : α → β) : IsPreorder (byMeasure f) := by
  constructor
  · intro x y
    unfold Opposite
    rw [byMeasure_pos, byMeasure_neg, byMeasure_neg, byMeasure_pos, byMeasure_zero, byMeasure_zero]
    rcases lt_trichotomy (f x) (f y) with h | h | h
    · exact Or.inr (Or.inl ⟨h, h⟩)
    · exact Or.inr (Or.inr ⟨h, h.symm⟩)
    · exact Or.inl ⟨h, h⟩
  · intro x y z hxy hyz
    rw [byMeasure_nonpos] at *
    exact le_trans hxy hyz

/-- Two comparisons in linear orders agree where they order the values alike. -/
theorem byMeasure_eq_iff {γ : Type*} [LinearOrder γ] {g : α → γ} :
    byMeasure f x y = byMeasure g x y ↔ (f y < f x ↔ g y < g x) ∧ (f x < f y ↔ g x < g y) := by
  constructor
  · intro h
    rw [← byMeasure_pos (f := f), ← byMeasure_pos (f := g), ← byMeasure_neg (f := f),
      ← byMeasure_neg (f := g), h]
    exact ⟨Iff.rfl, Iff.rfl⟩
  · rintro ⟨hgt, hlt⟩
    rcases lt_trichotomy (f x) (f y) with h | h | h
    · have hg := hlt.mp h
      simp [byMeasure, h.ne, hg.ne, not_lt_of_gt h, not_lt_of_gt hg]
    · have hg : g x = g y := by
        rw [h] at hgt hlt
        exact le_antisymm (not_lt.mp (hgt.not.mp (lt_irrefl _))) (not_lt.mp (hlt.not.mp (lt_irrefl _)))
      simp [byMeasure, h, hg]
    · have hg := hgt.mp h
      simp [byMeasure, h.ne', hg.ne', h, hg]

end Measure

/-! ## With a tolerance -/

section Tolerance

variable [AddCommGroup β] [LinearOrder β] [IsOrderedAddMonoid β] (eps : β) (f : α → β)

/-- The comparison of the values of `f`, those less than `eps` apart being equal. -/
def withTolerance (x y : α) : Int := if |f x - f y| < eps then 0 else if f y < f x then 1 else -1

variable {eps f} {x y z : α}

theorem withTolerance_nonpos (heps : 0 < eps) : withTolerance eps f x y ≤ 0 ↔ f x - f y < eps := by
  unfold withTolerance
  by_cases hnear : |f x - f y| < eps
  · rw [if_pos hnear]
    exact iff_of_true (le_refl 0) (abs_lt.mp hnear).2
  · rw [if_neg hnear]
    by_cases hlt : f y < f x
    · rw [if_pos hlt]
      have habs : |f x - f y| = f x - f y := abs_of_pos (sub_pos.mpr hlt)
      exact iff_of_false (by decide) (habs ▸ hnear)
    · rw [if_neg hlt]
      have hle : f x - f y ≤ 0 := sub_nonpos.mpr (not_lt.mp hlt)
      exact iff_of_true (by decide) (lt_of_le_of_lt hle heps)

theorem withTolerance_neg (heps : 0 < eps) : withTolerance eps f x y < 0 ↔ eps ≤ f y - f x := by
  unfold withTolerance
  by_cases hnear : |f x - f y| < eps
  · rw [if_pos hnear]
    have hlow := (abs_lt.mp hnear).1
    exact iff_of_false (by decide) (not_le.mpr (by rw [← neg_sub]; exact neg_lt.mp hlow))
  · rw [if_neg hnear]
    by_cases hlt : f y < f x
    · rw [if_pos hlt]
      have hneg : f y - f x < 0 := sub_neg.mpr hlt
      exact iff_of_false (by decide) (not_le.mpr (lt_trans hneg heps))
    · rw [if_neg hlt]
      have habs : |f x - f y| = f y - f x := by
        rw [abs_sub_comm]
        exact abs_of_nonneg (sub_nonneg.mpr (not_lt.mp hlt))
      exact iff_of_true (by decide) (habs ▸ not_lt.mp hnear)

theorem withTolerance_opposite (heps : 0 < eps) (x y : α) :
    Opposite (withTolerance eps f x y) (withTolerance eps f y x) := by
  have hxy := withTolerance_nonpos (f := f) (x := x) (y := y) heps
  have hyx := withTolerance_nonpos (f := f) (x := y) (y := x) heps
  have hxy' := withTolerance_neg (f := f) (x := x) (y := y) heps
  have hyx' := withTolerance_neg (f := f) (x := y) (y := x) heps
  have h := not_lt.trans hyx'.symm
  have h' := not_lt.trans hxy'.symm
  rw [← hxy] at h
  rw [← hyx] at h'
  unfold Opposite
  omega

/-- A chain in which one of two steps is strict stays a chain. -/
theorem withTolerance_trans (heps : 0 < eps) (hxy : withTolerance eps f x y ≤ 0)
    (hyz : withTolerance eps f y z ≤ 0)
    (hstrict : withTolerance eps f x y < 0 ∨ withTolerance eps f y z < 0) :
    withTolerance eps f x z ≤ 0 := by
  rw [withTolerance_nonpos heps] at *
  rw [withTolerance_neg heps, withTolerance_neg heps] at hstrict
  have hsum : f x - f z = (f x - f y) + (f y - f z) := (sub_add_sub_cancel _ _ _).symm
  have hle : f x - f z ≤ 0 := by
    rw [hsum]
    rcases hstrict with h | h
    · have hneg : f x - f y ≤ -eps := by rw [← neg_sub]; exact neg_le_neg h
      calc (f x - f y) + (f y - f z)
        _ ≤ -eps + eps := add_le_add hneg hyz.le
        _ = 0 := neg_add_cancel eps
    · have hneg : f y - f z ≤ -eps := by rw [← neg_sub]; exact neg_le_neg h
      calc (f x - f y) + (f y - f z)
        _ ≤ eps + -eps := add_le_add hxy.le hneg
        _ = 0 := add_neg_cancel eps
  exact lt_of_le_of_lt hle heps

end Tolerance

/-! ## Running minimum and maximum -/

/-- `lo` and `hi` are in `S`, and all of `S` lies between them. -/
structure Extremes (cmp : α → α → Int) (S : Set α) (lo hi : α) : Prop where
  lo_mem : lo ∈ S
  hi_mem : hi ∈ S
  least : ∀ k ∈ S, cmp lo k ≤ 0
  greatest : ∀ k ∈ S, 0 ≤ cmp hi k

theorem Extremes.singleton {cmp : α → α → Int} (h : IsPreorder cmp) (x : α) : Extremes cmp {x} x x := by
  have hself := h.self x
  constructor
  · exact rfl
  · exact rfl
  · rintro k rfl
    exact hself.le
  · rintro k rfl
    exact hself.ge

/-- One more element, and a bound moves to it when it lies outside. -/
theorem Extremes.insert {cmp : α → α → Int} (h : IsPreorder cmp) {S : Set α} {lo hi : α}
    (he : Extremes cmp S lo hi) (x : α) :
    Extremes cmp (Insert.insert x S) (if cmp x lo < 0 then x else lo)
      (if cmp x hi > 0 then x else hi) := by
  have hself := h.self x
  have hlo := h.nonneg_iff x lo
  have hhi := h.nonneg_iff hi x
  constructor
  · by_cases hx : cmp x lo < 0
    · rw [if_pos hx]
      exact Set.mem_insert x S
    · rw [if_neg hx]
      exact Set.mem_insert_of_mem x he.lo_mem
  · by_cases hx : cmp x hi > 0
    · rw [if_pos hx]
      exact Set.mem_insert x S
    · rw [if_neg hx]
      exact Set.mem_insert_of_mem x he.hi_mem
  · intro k hk
    by_cases hx : cmp x lo < 0
    · rw [if_pos hx]
      rcases Set.mem_insert_iff.mp hk with rfl | hk
      · exact hself.le
      · exact h.trans x lo k hx.le (he.least k hk)
    · rw [if_neg hx]
      rcases Set.mem_insert_iff.mp hk with rfl | hk
      · omega
      · exact he.least k hk
  · intro k hk
    by_cases hx : cmp x hi > 0
    · rw [if_pos hx]
      rcases Set.mem_insert_iff.mp hk with rfl | hk
      · exact hself.ge
      · have hk' := (h.nonneg_iff hi k).mp (he.greatest k hk)
        have hxhi := (h.nonneg_iff x hi).mp hx.le
        exact (h.nonneg_iff x k).mpr (h.trans k hi x hk' hxhi)
    · rw [if_neg hx]
      rcases Set.mem_insert_iff.mp hk with rfl | hk
      · omega
      · exact he.greatest k hk

/-! ## Byte order -/

open Bytes

theorem strCompare_append (s t u : Str) : strCompare (s ++ t) (s ++ u) = strCompare t u := by
  induction s with
  | nil => rfl
  | cons c s ih =>
    rw [List.cons_append, List.cons_append, strCompare, if_neg (UInt8.lt_irrefl c),
      if_neg (UInt8.lt_irrefl c), ih]

theorem strCompare_nil_nonpos (s : Str) : strCompare [] s ≤ 0 := by
  cases s with
  | nil => exact Int.le_refl 0
  | cons c s => exact (by decide : (-1 : Int) ≤ 0)

theorem strCompare_opposite (s t : Str) : Opposite (strCompare s t) (strCompare t s) := by
  induction s generalizing t with
  | nil =>
    cases t with
    | nil => exact Or.inr (Or.inr ⟨rfl, rfl⟩)
    | cons b t => exact Or.inr (Or.inl (by decide : (-1 : Int) < 0 ∧ (0 : Int) < 1))
  | cons a s ih =>
    cases t with
    | nil => exact Or.inl (by decide : (0 : Int) < 1 ∧ (-1 : Int) < 0)
    | cons b t =>
      have hrest := ih t
      rw [strCompare, strCompare]
      by_cases hab : a < b
      · have hba : ¬ b < a := fun h => UInt8.lt_irrefl a (UInt8.lt_trans hab h)
        rw [if_pos hab, if_neg hba, if_pos hab]
        exact Or.inr (Or.inl (by decide))
      · by_cases hba : b < a
        · rw [if_neg hab, if_pos hba, if_pos hba]
          exact Or.inl (by decide)
        · rw [if_neg hab, if_neg hba, if_neg hba, if_neg hab]
          exact hrest

theorem strCompare_cons_nonpos {a b : UInt8} {s t : Str} :
    strCompare (a :: s) (b :: t) ≤ 0 ↔ a < b ∨ a = b ∧ strCompare s t ≤ 0 := by
  rw [strCompare]
  by_cases hab : a < b
  · rw [if_pos hab]
    exact iff_of_true (by decide) (Or.inl hab)
  · rw [if_neg hab, or_iff_right hab]
    by_cases hba : b < a
    · have hne : a ≠ b := fun h => UInt8.lt_irrefl b (h ▸ hba)
      rw [if_pos hba]
      exact iff_of_false (by decide) fun h => hne h.1
    · have heq : a = b := UInt8.le_antisymm (UInt8.not_lt.mp hba) (UInt8.not_lt.mp hab)
      rw [if_neg hba, and_iff_right heq]

theorem isPreorder_strCompare : IsPreorder strCompare := by
  refine ⟨strCompare_opposite, fun s t u hst htu => ?_⟩
  induction s generalizing t u with
  | nil =>
    exact strCompare_nil_nonpos u
  | cons a s ih =>
    cases t with
    | nil => exact absurd hst (by decide : ¬ (1 : Int) ≤ 0)
    | cons b t =>
      cases u with
      | nil => exact absurd htu (by decide : ¬ (1 : Int) ≤ 0)
      | cons c u =>
        rw [strCompare_cons_nonpos] at *
        rcases hst with hab | ⟨rfl, hst⟩
        · rcases htu with hbc | ⟨rfl, -⟩
          · exact Or.inl (UInt8.lt_trans hab hbc)
          · exact Or.inl hab
        · rcases htu with hbc | ⟨rfl, htu⟩
          · exact Or.inl hbc
          · exact Or.inr ⟨rfl, ih t u hst htu⟩

end Compare
