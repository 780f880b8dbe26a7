import FuServer.Utils.CipherInverse

/-!
# Where the key is defined

The seed is divided by three for a shift count and shifted for the divisor; the
other shift count is the length over the divisor.  The callers' seed gives the
divisor seven, so the count leaves its range with a message of 224 bytes.
-/

namespace FuServer

open Bytes Outcome Words

/-- The divisor before the length is looked at. -/
def seedDivisor (seed : Int32) : Int32 := ((~~~seed >>> 2) + 1) >>> (seed / 3) &&& 7

/-- Seeds and lengths for which no shift count is out of range and the divisor is not 0. -/
def KeyDefined (seed : Int32) (n : Nat) : Prop :=
  (seed = -2 ∨ seed = -1) ∧ n ≤ 31 ∨ (4 ≤ seed.toInt ∧ seed.toInt ≤ 95) ∧ n ≤ 223

instance (seed : Int32) (n : Nat) : Decidable (KeyDefined seed n) := inferInstanceAs (Decidable (_ ∨ _))

theorem count_checked {n : Int32} :
    ShiftRule.checked.count n = if 0 ≤ n.toInt ∧ n.toInt < 32 then .ok n else .error .shiftCount := by
  have hiff : (0 ≤ n ∧ n < 32) ↔ (0 ≤ n.toInt ∧ n.toInt < 32) := by
    rw [Int32.le_iff_toInt_le, Int32.lt_iff_toInt_lt]
    rfl
  unfold ShiftRule.count
  simp only [hiff]

/-- Of the seeds whose third is a shift count, the first two have the divisor 1, the next four 0 and
all others 7. -/
theorem seedDivisor_eq (i : Fin 98) :
    seedDivisor (Int32.ofInt (i - 2)) = if i.val < 2 then 1 else if i.val < 6 then 0 else 7 := by
  revert i
  decide

theorem toInt_ofNat_div {n d : Nat} (hn : n < 2 ^ 31) (hd : d < 2 ^ 31) :
    (Int32.ofNat n / Int32.ofNat d).toInt = (n / d : Nat) := by
  have hdint := Int32.toInt_ofNat_of_lt hd
  have hne : Int32.ofNat d ≠ -1 := by
    intro h
    rw [h] at hdint
    have hneg : (-1 : Int32).toInt = -1 := rfl
    omega
  rw [Int32.toInt_div_of_ne_right _ _ hne, Int32.toInt_ofNat_of_lt hn, hdint]
  exact (Int.ofNat_tdiv n d).symm

/-- The seeds whose third is a shift count. -/
theorem third_in_range (seed : Int32) :
    (0 ≤ (seed / 3).toInt ∧ (seed / 3).toInt < 32) ↔ -2 ≤ seed.toInt ∧ seed.toInt ≤ 95 := by
  have hthree : (3 : Int32).toInt = 3 := rfl
  rw [Int32.toInt_div_of_ne_right _ _ (by decide), hthree, Int.tdiv_eq_ediv]
  have hsign : Int.sign 3 = 1 := rfl
  rw [hsign]
  split <;> omega

theorem seedDivisor_of_range {seed : Int32} (h : -2 ≤ seed.toInt ∧ seed.toInt ≤ 95) :
    seedDivisor seed = if seed.toInt < 0 then 1 else if seed.toInt < 4 then 0 else 7 := by
  have hi : (seed.toInt + 2).toNat < 98 := by omega
  have hat := seedDivisor_eq ⟨(seed.toInt + 2).toNat, hi⟩
  have hback : ((seed.toInt + 2).toNat : Int) - 2 = seed.toInt := by omega
  dsimp only at hat
  rw [hback, Int32.ofInt_toInt] at hat
  rw [hat]
  rcases lt_or_ge seed.toInt 0 with hneg | hpos
  · rw [if_pos (by omega), if_pos hneg]
  · rw [if_neg (show ¬ (seed.toInt + 2).toNat < 2 by omega), if_neg (show ¬ seed.toInt < 0 by omega)]
    rcases lt_or_ge seed.toInt 4 with hlow | hhigh
    · rw [if_pos (by omega), if_pos hlow]
    · rw [if_neg (by omega), if_neg (by omega)]

/-! ## The key -/

/-- A third out of range faults at once. -/
theorem encryKey_of_seed {seed : Int32} (h : ¬ (-2 ≤ seed.toInt ∧ seed.toInt ≤ 95)) (len : Int32) :
    encryKey .checked seed len = .error .shiftCount := by
  unfold encryKey
  rw [count_checked, if_neg fun hin => h ((third_in_range seed).mp hin)]
  rfl

/-- The length, where a divisor of more than it is two. -/
theorem toDoData_eq {seed : Int32} {d n : Nat} (hseed : seedDivisor seed = Int32.ofNat d)
    (hd : d < 2 ^ 31)
    (hn : n < 2 ^ 31) : toDoData seed (seed / 3)
      (Int32.ofNat n) = Int32.ofNat (if n < d then 2 else d) := by
  have hiff : seedDivisor seed > Int32.ofNat n ↔ n < d := by
    show Int32.ofNat n < seedDivisor seed ↔ _
    rw [hseed, Int32.lt_iff_toInt_lt, Int32.toInt_ofNat_of_lt hd, Int32.toInt_ofNat_of_lt hn]
    exact Int.ofNat_lt
  show (if seedDivisor seed > Int32.ofNat n then 2 else seedDivisor seed) = _
  by_cases hlt : n < d
  · rw [if_pos (hiff.mpr hlt), if_pos hlt]
    rfl
  · rw [if_neg fun h => hlt (hiff.mp h), if_neg hlt, hseed]

/-- With a third in range there is a key if the divisor is not 0 and the length over it is in range,
or the length over two if it is below the divisor. -/
theorem encryKey_of_divisor {seed : Int32} (h : -2 ≤ seed.toInt ∧ seed.toInt ≤ 95) {d n : Nat}
    (hseed : seedDivisor seed = Int32.ofNat d) (hd : d < 2 ^ 31) (hn : n < 2 ^ 31) :
    (∃ key, encryKey .checked seed (Int32.ofNat n) = .ok key) ↔
      d ≠ 0 ∧ n / (if n < d then 2 else d) < 32 := by
  have hlt : (if n < d then 2 else d) < 2 ^ 31 := by
    split <;> omega
  unfold encryKey
  rw [count_checked, if_pos ((third_in_range seed).mpr h), ok_bind]
  dsimp only
  rw [toDoData_eq hseed hd hn]
  by_cases hzero : d = 0
  · subst hzero
    rw [if_neg (Nat.not_lt_zero n)]
    refine iff_of_false ?_ fun hno => hno.1 rfl
    rintro ⟨key, hkey⟩
    cases hkey
  · have hne : Int32.ofNat (if n < d then 2 else d) ≠ 0 := by
      intro heq
      have hint := congrArg Int32.toInt heq
      rw [Int32.toInt_ofNat_of_lt hlt] at hint
      have hzero' : (0 : Int32).toInt = 0 := rfl
      split at hint <;> omega
    rw [if_neg hne, count_checked, toInt_ofNat_div hn hlt]
    by_cases hrange : n / (if n < d then 2 else d) < 32
    · rw [if_pos ⟨Int.natCast_nonneg _, by omega⟩]
      exact iff_of_true ⟨_, rfl⟩ ⟨hzero, hrange⟩
    · rw [if_neg fun hin => hrange (by omega)]
      refine iff_of_false ?_ fun hno => hrange hno.2
      rintro ⟨key, hkey⟩
      cases hkey

theorem encryKey_checked_iff (seed : Int32) {n : Nat} (hn : n < 2 ^ 31) :
    (∃ key, encryKey .checked seed (Int32.ofNat n) = .ok key) ↔ KeyDefined seed n := by
  have hm2 : (-2 : Int32).toInt = -2 := rfl
  have hm1 : (-1 : Int32).toInt = -1 := rfl
  unfold KeyDefined
  rw [← Int32.toInt_inj, ← Int32.toInt_inj, hm2, hm1]
  by_cases hthird : -2 ≤ seed.toInt ∧ seed.toInt ≤ 95
  · have hseed := seedDivisor_of_range hthird
    rcases lt_or_ge seed.toInt 0 with hneg | hpos
    · rw [if_pos hneg] at hseed
      rw [encryKey_of_divisor (d := 1) hthird hseed (by omega) hn]
      split <;> omega
    · rw [if_neg (by omega)] at hseed
      rcases lt_or_ge seed.toInt 4 with hlow | hhigh
      · rw [if_pos hlow] at hseed
        rw [encryKey_of_divisor (d := 0) hthird hseed (by omega) hn]
        omega
      · rw [if_neg (by omega)] at hseed
        rw [encryKey_of_divisor (d := 7) hthird hseed (by omega) hn]
        split <;> omega
  · refine iff_of_false ?_ (by omega)
    rw [encryKey_of_seed hthird]
    rintro ⟨key, hkey⟩
    cases hkey

theorem KeyDefined.length_le {seed : Int32} {n : Nat} (h : KeyDefined seed n) : n ≤ 223 := by
  unfold KeyDefined at h
  omega

/-! ## Both functions -/

theorem map_returns_iff {ε α β : Type} {x : Except ε α} {f : α → β} :
    (∃ r, x.map f = .ok r) ↔ ∃ a, x = .ok a := by
  cases x with
  | error e => exact iff_of_false (fun ⟨_, h⟩ => by cases h) fun ⟨_, h⟩ => by cases h
  | ok a => exact iff_of_true ⟨f a, rfl⟩ ⟨a, rfl⟩

theorem fuEncryptStream_defined (seed : Int32) (data rest : Str) (h : data.length < 2 ^ 31) :
    (∃ r, fuEncryptStream .checked (data ++ rest) (Int32.ofNat data.length) seed = .ok r) ↔
      KeyDefined seed data.length := by
  by_cases hroom : data.length + 8 < 2 ^ 31
  · rw [fuEncryptStream_eq .checked seed hroom rest, map_returns_iff]
    exact encryKey_checked_iff seed h
  · refine iff_of_false ?_ fun hkey => ?_
    · rw [fuEncryptStream_long .checked seed h (by omega)]
      rintro ⟨r, hr⟩
      cases hr
    · have hle := hkey.length_le
      omega

theorem fuUnencryptStream_defined (seed : Int32) (data rest : Str) (h : data.length < 2 ^ 31) :
    (∃ r, fuUnencryptStream .checked (header seed data.length ++ data ++ rest) = .ok r) ↔
      KeyDefined seed data.length := by
  by_cases hroom : data.length + 1 < 2 ^ 31
  · rw [fuUnencryptStream_eq .checked seed hroom rest, map_returns_iff]
    exact encryKey_checked_iff seed h
  · have hdatalen := (intAt_header seed data.length (data ++ rest)).2
    have hsucc : Int32.ofNat data.length + 1 = Int32.ofNat (data.length + 1) :=
      (Int32.ofNat_add _ 1).symm
    have hneg := length_neg (show 2 ^ 31 ≤ data.length + 1 by omega) (by omega)
    refine iff_of_false ?_ fun hkey => ?_
    · unfold fuUnencryptStream
      rw [List.append_assoc, (intAt_header seed data.length (data ++ rest)).1, ok_bind, hdatalen,
        ok_bind, hsucc,
        if_pos (Int32.le_of_lt hneg)]
      rintro ⟨r, hr⟩
      cases hr
    · have hle := hkey.length_le
      omega

/-- **The key.**  Encryption of `data`, and decryption of a stream with this seed and length, divide by
nothing but numbers other than 0 and shift by nothing but counts of 0 to 31 exactly when the seed is
-2 or -1 and the length at most 31, or the seed is one of 4 to 95 and the length at most 223. -/
theorem cipher_defined_iff (seed : Int32) (data rest : Str) (h : data.length < 2 ^ 31) :
    ((∃ r, fuEncryptStream .checked (data ++ rest) (Int32.ofNat data.length) seed = .ok r) ↔
      KeyDefined seed data.length) ∧
    ((∃ r, fuUnencryptStream .checked (header seed data.length ++ data ++ rest) = .ok r) ↔
      KeyDefined seed data.length) :=
  ⟨fuEncryptStream_defined seed data rest h, fuUnencryptStream_defined seed data rest h⟩

theorem cipher_defined_iff_text :
    ((∃ r, fuEncryptStream .checked (lit "hello" ++ []) (Int32.ofNat (lit "hello").length) 64 = .ok r) ↔
      KeyDefined 64 (lit "hello").length) ∧
    ((∃ r, fuUnencryptStream .checked (header 64 (lit "hello").length ++ lit "hello" ++ []) = .ok r) ↔
      KeyDefined 64 (lit "hello").length) :=
  cipher_defined_iff 64 (lit "hello") [] (by decide)

/-- The callers' seed with a message of 224 bytes, both ways, and a seed whose divisor is 0. -/
theorem cipher_undefined :
    fuEncryptStream .checked (List.replicate 224 0) 224 64 = .error .shiftCount ∧
      fuUnencryptStream .checked (header 64 224 ++ List.replicate 224 0) = .error .shiftCount ∧
      fuEncryptStream .checked (lit "hello") 5 0 = .error .dividedByZero := by
  have hkey : encryKey .checked 64 224 = .error .shiftCount := by decide
  have hlen : (List.replicate 224 (0 : UInt8)).length = 224 := List.length_replicate
  refine ⟨by decide, ?_, by decide⟩
  have hshort : (List.replicate 224 (0 : UInt8)).length + 1 < 2 ^ 31 := by omega
  have hdecrypt := fuUnencryptStream_eq .checked 64 hshort []
  rw [List.append_nil, hlen] at hdecrypt
  rw [hdecrypt]
  exact congrArg (Except.map _) hkey

end FuServer
