import Mathlib.Data.List.Induction
import Mathlib.Data.Nat.Digits.Defs
import Mathlib.Tactic.Ring
import FuServer.Lib.Bytes

/-!
# Decimal numerals as byte strings

`numeral n` is the canonical numeral of `n`, `value` reads a digit string back.
`padded w n` is `n` in `w` digits, with zeros in front or without its high digits.
-/

namespace Decimal

open Bytes

def isDigit (c : UInt8) : Bool := 48 ≤ c && c ≤ 57

def digitVal (c : UInt8) : Nat := c.toNat - 48

def digitByte (d : Nat) : UInt8 := UInt8.ofNat (48 + d)

/-- The numeral of `n`: most significant digit first, no leading zero. -/
def numeral (n : Nat) : Str :=
  if n = 0 then [48] else (Nat.digits 10 n).reverse.map digitByte

/-- The number a digit string denotes. -/
def value (s : Str) : Nat := s.foldl (fun acc c => acc * 10 + digitVal c) 0

/-- The text is a numeral: digits only, no leading zero. -/
def Canonical (s : Str) : Prop := s = numeral (value s)

instance (s : Str) : Decidable (Canonical s) := inferInstanceAs (Decidable (_ = _))

theorem digitVal_digitByte {d : Nat} (h : d < 10) : digitVal (digitByte d) = d := by
  have : (48 + d) % 256 = 48 + d := Nat.mod_eq_of_lt (by omega)
  simp [digitVal, digitByte, this]

theorem isDigit_iff (c : UInt8) : isDigit c = true ↔ 48 ≤ c.toNat ∧ c.toNat ≤ 57 := by
  simp [isDigit, UInt8.le_iff_toNat_le]

theorem isDigit_digitByte {d : Nat} (h : d < 10) : isDigit (digitByte d) = true := by
  have : (48 + d) % 256 = 48 + d := Nat.mod_eq_of_lt (by omega)
  rw [isDigit_iff]
  simp only [digitByte, UInt8.toNat_ofNat', this]
  omega

theorem numeral_of_lt {n : Nat} (h : n < 10) : numeral n = [digitByte n] := by
  unfold numeral
  split
  · next h0 => subst h0; rfl
  · next h0 =>
    rw [Nat.digits_of_lt 10 n h0 h]
    rfl

/-- The numeral of `n` is that of `n / 10` with one more digit. -/
theorem numeral_of_le {n : Nat} (h : 10 ≤ n) : numeral n = numeral (n / 10) ++ [digitByte (n % 10)] := by
  have h0 : n ≠ 0 := by omega
  have h1 : n / 10 ≠ 0 := by omega
  simp only [numeral, if_neg h0, if_neg h1]
  rw [Nat.digits_def' (by omega) (Nat.pos_of_ne_zero h0)]
  simp

theorem value_append (s t : Str) : value (s ++ t) = value s * 10 ^ t.length + value t := by
  have fold : ∀ (t : Str) (a : Nat), t.foldl (fun acc c => acc * 10 + digitVal c) a =
      a * 10 ^ t.length + value t := by
    intro t
    induction t with
    | nil => intro a; simp [value]
    | cons c t ih =>
      intro a
      have h0 := ih (0 * 10 + digitVal c)
      simp only [value, List.foldl_cons, List.length_cons] at ih h0 ⊢
      rw [ih, h0]
      ring
  rw [value, List.foldl_append, fold]
  rfl

theorem value_singleton (c : UInt8) : value [c] = digitVal c := by simp [value]

theorem value_numeral (n : Nat) : value (numeral n) = n := by
  induction n using Nat.strongRecOn with
  | ind n ih =>
    by_cases h : n < 10
    · rw [numeral_of_lt h, value_singleton, digitVal_digitByte h]
    · have h10 : 10 ≤ n := by omega
      rw [numeral_of_le h10, value_append, ih (n / 10) (by omega), value_singleton,
        digitVal_digitByte (Nat.mod_lt n (by omega))]
      simp only [List.length_singleton, pow_one]
      omega

theorem canonical_numeral (n : Nat) : Canonical (numeral n) := by
  unfold Canonical
  rw [value_numeral]

theorem numeral_ne_nil (n : Nat) : numeral n ≠ [] := by
  by_cases h : n < 10
  · simp [numeral_of_lt h]
  · simp [numeral_of_le (by omega : 10 ≤ n)]

theorem isDigit_of_mem_numeral (n : Nat) : ∀ c ∈ numeral n, isDigit c = true := by
  induction n using Nat.strongRecOn with
  | ind n ih =>
    intro c hc
    by_cases h : n < 10
    · rw [numeral_of_lt h, List.mem_singleton] at hc
      rw [hc]
      exact isDigit_digitByte h
    · have h10 : 10 ≤ n := by omega
      rw [numeral_of_le h10, List.mem_append, List.mem_singleton] at hc
      rcases hc with hc | rfl
      · exact ih (n / 10) (by omega) c hc
      · exact isDigit_digitByte (Nat.mod_lt n (by omega))

/-- How many digits a number needs. -/
theorem length_numeral_le_iff {w : Nat} (hw : 1 ≤ w) (n : Nat) :
    (numeral n).length ≤ w ↔ n < 10 ^ w := by
  induction w, hw using Nat.le_induction generalizing n with
  | base =>
    by_cases h : n < 10
    · rw [numeral_of_lt h]
      simpa using h
    · have hpos := List.length_pos_iff.mpr (numeral_ne_nil (n / 10))
      rw [numeral_of_le (by omega), List.length_append, List.length_singleton]
      omega
  | succ w hw ih =>
    have hpow : 10 ^ (w + 1) = 10 * 10 ^ w := Nat.pow_succ'
    by_cases h : n < 10
    · have hpos : 1 ≤ 10 ^ w := Nat.one_le_pow _ _ (by omega)
      rw [numeral_of_lt h, List.length_singleton]
      omega
    · have hdiv := ih (n / 10)
      rw [numeral_of_le (by omega), List.length_append, List.length_singleton, hpow]
      omega

theorem length_numeral_pos (n : Nat) : 1 ≤ (numeral n).length :=
  List.length_pos_iff.mpr (numeral_ne_nil n)

theorem lt_pow_length_numeral (n : Nat) : n < 10 ^ (numeral n).length :=
  (length_numeral_le_iff (length_numeral_pos n) n).mp (Nat.le_refl _)

theorem length_numeral_mono {m n : Nat} (h : m ≤ n) : (numeral m).length ≤ (numeral n).length :=
  (length_numeral_le_iff (length_numeral_pos n) m).mpr (Nat.lt_of_le_of_lt h (lt_pow_length_numeral n))

/-- A sum with no carry out of the low `m` digits needs no more digits. -/
theorem add_lt_pow {D a m n : Nat} (hm : m ≤ n) (hD : D < 10 ^ n) (h : D % 10 ^ m + a < 10 ^ m) :
    D + a < 10 ^ n := by
  have hpow : 10 ^ n = 10 ^ m * 10 ^ (n - m) := by rw [← Nat.pow_add, Nat.add_sub_cancel' hm]
  have hhigh : D / 10 ^ m < 10 ^ (n - m) := Nat.div_lt_of_lt_mul (by rw [← hpow]; exact hD)
  calc D + a
    _ = 10 ^ m * (D / 10 ^ m) + (D % 10 ^ m + a) := by rw [← Nat.add_assoc, Nat.div_add_mod]
    _ < 10 ^ m * (D / 10 ^ m) + 10 ^ m := Nat.add_lt_add_left h _
    _ = 10 ^ m * (D / 10 ^ m + 1) := by ring
    _ ≤ 10 ^ m * 10 ^ (n - m) := Nat.mul_le_mul_left _ hhigh
    _ = 10 ^ n := hpow.symm

/-! ## Digit strings of a given width -/

/-- The last `w` digits of `n`. -/
def padded : Nat → Nat → Str
  | 0, _ => []
  | w + 1, n => padded w (n / 10) ++ [digitByte (n % 10)]

theorem padded_succ (w n : Nat) : padded (w + 1) n = padded w (n / 10) ++ [digitByte (n % 10)] := rfl

/-- One digit more at the end. -/
theorem padded_snoc (w n : Nat) {d : Nat} (h : d < 10) :
    padded w n ++ [digitByte d] = padded (w + 1) (10 * n + d) := by
  rw [padded_succ, show (10 * n + d) / 10 = n by omega, show (10 * n + d) % 10 = d by omega]

@[simp] theorem length_padded (w n : Nat) : (padded w n).length = w := by
  induction w generalizing n with
  | zero => rfl
  | succ w ih => rw [padded_succ, List.length_append, ih, List.length_singleton]

theorem isDigit_of_mem_padded {w n : Nat} : ∀ c ∈ padded w n, isDigit c = true := by
  induction w generalizing n with
  | zero =>
    intro c hc
    cases hc
  | succ w ih =>
    intro c hc
    rw [padded_succ, List.mem_append, List.mem_singleton] at hc
    rcases hc with hc | rfl
    · exact ih c hc
    · exact isDigit_digitByte (Nat.mod_lt n (by omega))

theorem value_padded (w n : Nat) : value (padded w n) = n % 10 ^ w := by
  induction w generalizing n with
  | zero => simp [padded, value, Nat.mod_one]
  | succ w ih =>
    rw [padded_succ, value_append, ih, value_singleton, digitVal_digitByte (Nat.mod_lt n (by omega)),
      Nat.pow_succ', Nat.mod_mul, List.length_singleton, pow_one]
    ring

theorem digitByte_digitVal {c : UInt8} (h : isDigit c = true) : digitByte (digitVal c) = c := by
  have hc := (isDigit_iff c).mp h
  have hsum : 48 + (c.toNat - 48) = c.toNat := by omega
  simp [digitByte, digitVal, hsum]

theorem digitVal_lt {c : UInt8} (h : isDigit c = true) : digitVal c < 10 := by
  have hc := (isDigit_iff c).mp h
  unfold digitVal
  omega

theorem value_lt {s : Str} (h : ∀ c ∈ s, isDigit c = true) : value s < 10 ^ s.length := by
  induction s using List.reverseRecOn with
  | nil => simp [value]
  | append_singleton s c ih =>
    have hs := ih fun b hb => h b (List.mem_append_left _ hb)
    have hc := digitVal_lt (h c (by simp))
    rw [value_append, value_singleton, List.length_append, List.length_singleton, pow_one, Nat.pow_succ]
    omega

/-- A digit string is its value in as many digits. -/
theorem padded_value {s : Str} (h : ∀ c ∈ s, isDigit c = true) : padded s.length (value s) = s := by
  induction s using List.reverseRecOn with
  | nil => rfl
  | append_singleton s c ih =>
    have hs := ih fun b hb => h b (List.mem_append_left _ hb)
    have hc := h c (by simp)
    have hval : value (s ++ [c]) = 10 * value s + digitVal c := by
      rw [value_append, value_singleton, List.length_singleton, pow_one, Nat.mul_comm]
    rw [List.length_append, List.length_singleton, hval, ← padded_snoc _ _ (digitVal_lt hc), hs,
      digitByte_digitVal hc]

end Decimal
