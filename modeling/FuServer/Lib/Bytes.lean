import Mathlib.Algebra.Group.Nat.Defs
import Mathlib.Data.List.TakeWhile

/-!
# Byte strings

A `std::string` is its list of bytes.  `cstr` is the part a C reader of the
buffer sees; `strCompare` is byte order with the shorter string first.
-/

namespace Bytes

abbrev Str := List UInt8

/-- The bytes of a source literal. -/
def lit (s : String) : Str := s.toList.map fun c => c.toUInt8

/-! ## NUL-terminated views -/

/-- The bytes before the first NUL. -/
def cstr (s : Str) : Str := s.takeWhile fun c => c != 0

/-- Free of NUL bytes. -/
def NoNul (s : Str) : Prop := ∀ c ∈ s, c ≠ 0

instance (s : Str) : Decidable (NoNul s) := List.decidableBAll _ s

theorem noNul_cstr (s : Str) : NoNul (cstr s) := by
  intro c hc
  have := List.mem_takeWhile_imp hc
  simpa using this

theorem cstr_eq_self {s : Str} : cstr s = s ↔ NoNul s := by
  constructor
  · intro h
    rw [← h]
    exact noNul_cstr s
  · intro h
    exact List.takeWhile_eq_self_iff.mpr fun c hc => by simpa using h c hc

@[simp] theorem cstr_cstr (s : Str) : cstr (cstr s) = cstr s :=
  cstr_eq_self.mpr (noNul_cstr s)

/-- A C reader stops at the NUL that ends a string. -/
theorem cstr_append_nul {s : Str} (h : NoNul s) (rest : Str) : cstr (s ++ 0 :: rest) = s := by
  unfold cstr
  rw [List.takeWhile_append_of_pos fun c hc => by simpa using h c hc]
  simp

/-- A C reader sees nothing behind a NUL. -/
theorem cstr_append_zero (s rest : Str) : cstr (s ++ 0 :: rest) = cstr s := by
  unfold cstr
  induction s with
  | nil => rfl
  | cons c s ih =>
    rw [List.cons_append, List.takeWhile_cons, List.takeWhile_cons, ih]

/-- What a C reader sees of a string is followed by a NUL. -/
theorem cstr_split (s : Str) : ∃ rest, s ++ [0] = cstr s ++ 0 :: rest := by
  induction s with
  | nil => exact ⟨[], rfl⟩
  | cons c s ih =>
    by_cases hc : c = 0
    · refine ⟨s ++ [0], ?_⟩
      rw [hc]
      rfl
    · obtain ⟨rest, hrest⟩ := ih
      have hcons : cstr (c :: s) = c :: cstr s := List.takeWhile_cons_of_pos (by simpa using hc)
      exact ⟨rest, by rw [hcons, List.cons_append, hrest]; rfl⟩

theorem noNul_append {s t : Str} : NoNul (s ++ t) ↔ NoNul s ∧ NoNul t := by
  simp only [NoNul, List.mem_append]
  constructor
  · intro h
    exact ⟨fun c hc => h c (Or.inl hc), fun c hc => h c (Or.inr hc)⟩
  · rintro ⟨hs, ht⟩ c (hc | hc)
    · exact hs c hc
    · exact ht c hc

/-! ## Byte order -/

/-- `std::string::compare`: the sign of the first difference, else of the lengths. -/
def strCompare : Str → Str → Int
  | [], [] => 0
  | [], _ :: _ => -1
  | _ :: _, [] => 1
  | a :: as, b :: bs => if a < b then -1 else if b < a then 1 else strCompare as bs

theorem strCompare_eq_zero {s t : Str} : strCompare s t = 0 ↔ s = t := by
  fun_induction strCompare s t with
  | case1 => simp
  | case2 => simp
  | case3 => simp
  | case4 a as b bs hlt =>
    have hne : a ≠ b := fun h => by
      rw [h] at hlt
      exact UInt8.lt_irrefl b hlt
    simp [hne]
  | case5 a as b bs _ hlt =>
    have hne : a ≠ b := fun h => by
      rw [h] at hlt
      exact UInt8.lt_irrefl b hlt
    simp [hne]
  | case6 a as b bs hle hge ih =>
    have heq : a = b := UInt8.le_antisymm (UInt8.not_lt.mp hge) (UInt8.not_lt.mp hle)
    rw [ih, heq, List.cons_inj_right]

/-! ## Numbers -/

/-- The low `size` bytes of a number, the lowest first. -/
def lowBytes : Nat → Nat → Str
  | 0, _ => []
  | size + 1, n => UInt8.ofNat n :: lowBytes size (n / 256)

def ofLowBytes : Str → Nat
  | [] => 0
  | b :: bytes => b.toNat + 256 * ofLowBytes bytes

@[simp] theorem length_lowBytes (size n : Nat) : (lowBytes size n).length = size := by
  induction size generalizing n with
  | zero => rfl
  | succ size ih => rw [lowBytes, List.length_cons, ih]

/-- A number that fits comes back. -/
theorem ofLowBytes_lowBytes {size n : Nat} (h : n < 256 ^ size) : ofLowBytes (lowBytes size n) = n := by
  induction size generalizing n with
  | zero =>
    rw [Nat.pow_zero] at h
    exact (Nat.lt_one_iff.mp h).symm
  | succ size ih =>
    have hhigh : n / 256 < 256 ^ size := by
      rw [Nat.pow_succ] at h
      omega
    rw [lowBytes, ofLowBytes, ih hhigh, UInt8.toNat_ofNat']
    omega

/-! ## Separators -/

theorem intercalate_cons_cons (sep x y : Str) (l : List Str) :
    sep.intercalate (x :: y :: l) = x ++ (sep ++ sep.intercalate (y :: l)) := by
  simp [List.intercalate]

end Bytes
