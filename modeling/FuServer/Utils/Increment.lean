import Mathlib.Data.List.Induction
import FuServer.Model.Convert

/-!
# Adding to the number at the end of a text (fu_str_increment)

The loop goes back over the digits of the addend and makes one round more for
a carry.  What that round carries is dropped, so the sum is right unless the
digit in front of the addend's is a nine that a carry reaches
(`fuStrIncrement_adds_iff`).
-/

namespace FuServer

open Bytes Decimal

/-! ## One round -/

theorem incrementSlot_digit (s : Str) {c : UInt8} (hc : isDigit c = true) (t : Str) :
    incrementSlot (s ++ c :: t) s.length = (s ++ c :: t, s.length, digitVal c) := by
  unfold incrementSlot
  rw [if_pos (Int.natCast_nonneg _)]
  simp [hc]

/-- Behind a text that does not end in a digit a zero is put in. -/
theorem incrementSlot_front {p : Str} (hp : ∀ c ∈ p.getLast?, isDigit c = false) (t : Str) :
    incrementSlot (p ++ t) (p.length - 1) = (p ++ 48 :: t, p.length, 0) := by
  cases p using List.reverseRecOn with
  | nil => rfl
  | append_singleton p c =>
    have hc : isDigit c = false := hp c (by simp)
    have hidx : (((p ++ [c]).length : Nat) : Int) - 1 = (p.length : Nat) := by
      rw [List.length_append, List.length_singleton]
      omega
    have hins : ∀ q : Str, (q ++ c :: t).insertIdx (q.length + 1) 48 = q ++ c :: 48 :: t := by
      intro q
      induction q with
      | nil => rfl
      | cons b q ih => rw [List.cons_append, List.length_cons, List.insertIdx_succ_cons, ih,
        List.cons_append]
    unfold incrementSlot
    rw [hidx, if_pos (Int.natCast_nonneg _)]
    simp [hc, hins]

theorem putDigit_eq (s : Str) (c : UInt8) (t : Str) (d : Nat) :
    putDigit (s ++ c :: t) s.length d = s ++ digitByte (d % 10) :: t := by
  have hd : ((d : Int).tmod 10 + 48) % 256 = ((48 + d % 10 : Nat) : Int) := by
    rw [Int.tmod_eq_emod_of_nonneg (Int.natCast_nonneg d)]
    omega
  unfold putDigit
  rw [hd, Int.toNat_natCast, List.set_append_right _ _ (Nat.le_refl _), Nat.sub_self]
  rfl

/-- One round of the loop on a slot that holds `d`. -/
theorem incrementLoop_slot (addKey : Str) {j : Nat} {a : UInt8} (ha : addKey.getD j 48 = a)
    (hd : isDigit a = true) {toKey s : Str} {toKeyIndex : Int} {c : UInt8} {t : Str} {d : Nat}
    (hslot : incrementSlot toKey toKeyIndex = (s ++ c :: t, s.length, d)) (carry : Nat) :
    incrementLoop addKey (j + 1) toKey toKeyIndex carry =
      incrementLoop addKey j (s ++ digitByte ((d + digitVal a + carry) % 10) :: t)
        (s.length - 1) ((d + digitVal a + carry) / 10 : Nat) := by
  have h48 : 48 ≤ a.toNat := ((isDigit_iff a).mp hd).1
  have hadd : ((d : Int) + (((a.toNat : Nat) : Int) - 48 + carry)) =
      ((d + digitVal a + carry : Nat) : Int) := by
    unfold digitVal
    omega
  rw [incrementLoop]
  simp only [hslot, ha, hadd, putDigit_eq]
  rfl

/-- The last round, with a carry, on a slot that holds `d`. -/
theorem incrementLoop_last (addKey : Str) {toKey s : Str} {toKeyIndex : Int} {c : UInt8} {t : Str}
    {d : Nat} (hslot : incrementSlot toKey toKeyIndex = (s ++ c :: t, s.length, d)) :
    incrementLoop addKey 0 toKey toKeyIndex 1 = s ++ digitByte ((d + 1) % 10) :: t := by
  rw [incrementLoop, if_neg (by decide)]
  simp only [hslot]
  exact putDigit_eq s c t (d + 1)

/-! ## The loop -/

/-- The width of the sum when `A` is added to `D`, `n` digits wide, in `k` rounds and one for the
carry. -/
def sumWidth (n k D A : Nat) : Nat := if D % 10 ^ k + A < 10 ^ k then max n k else max n (k + 1)

/-- The sum, less the carry out of the last round. -/
def sumValue (k D A : Nat) : Nat :=
  if D % 10 ^ (k + 1) + A < 10 ^ (k + 1) then D + A else D + A - 10 ^ (k + 1)

theorem sumWidth_succ (n k : Nat) {D A A' r : Nat} (h : 10 * A' + r = D % 10 + A) (hr : r < 10) :
    sumWidth n (k + 1) D A = sumWidth (n - 1) k (D / 10) A' + 1 := by
  have hmod : D % 10 ^ (k + 1) = D % 10 + 10 * (D / 10 % 10 ^ k) := by rw [Nat.pow_succ', Nat.mod_mul]
  have hpow : 10 ^ (k + 1) = 10 * 10 ^ k := Nat.pow_succ'
  unfold sumWidth
  rw [hmod, hpow]
  by_cases hlt : D / 10 % 10 ^ k + A' < 10 ^ k
  · rw [if_pos hlt, if_pos (by omega)]
    omega
  · rw [if_neg hlt, if_neg (by omega)]
    omega

theorem sumValue_succ (k : Nat) {D A A' r : Nat} (h : 10 * A' + r = D % 10 + A) (hr : r < 10) :
    sumValue (k + 1) D A = 10 * sumValue k (D / 10) A' + r := by
  have hmod : D % 10 ^ (k + 1 + 1) = D % 10 + 10 * (D / 10 % 10 ^ (k + 1)) := by
    rw [Nat.pow_succ', Nat.mod_mul]
  have hpow : 10 ^ (k + 1 + 1) = 10 * 10 ^ (k + 1) := Nat.pow_succ'
  have hle : D / 10 % 10 ^ (k + 1) ≤ D / 10 := Nat.mod_le _ _
  unfold sumValue
  rw [hmod, hpow]
  by_cases hlt : D / 10 % 10 ^ (k + 1) + A' < 10 ^ (k + 1)
  · rw [if_pos hlt, if_pos (by omega)]
    omega
  · rw [if_neg hlt, if_neg (by omega)]
    omega

/-- The slot of the next round: the last of the digits left, or a zero put in. -/
theorem incrementSlot_padded {p : Str} (hp : ∀ c ∈ p.getLast?, isDigit c = false) {n D : Nat}
    (hD : D < 10 ^ n) (t : Str) :
    ∃ c, incrementSlot (p ++ padded n D ++ t) ((p.length + n : Nat) - 1) =
      (p ++ padded (n - 1) (D / 10) ++ c :: t, (p ++ padded (n - 1) (D / 10)).length, D % 10) := by
  cases n with
  | zero =>
    obtain rfl : D = 0 := by simpa using hD
    refine ⟨48, ?_⟩
    have hfront := incrementSlot_front hp t
    simpa [padded] using hfront
  | succ n =>
    have hidx : ((p.length + (n + 1) : Nat) : Int) - 1 = ((p ++ padded n (D / 10)).length : Nat) := by
      rw [List.length_append, length_padded]
      omega
    refine ⟨digitByte (D % 10), ?_⟩
    rw [hidx, padded_succ, ← List.append_assoc, List.append_assoc _ [_] t, List.singleton_append,
      incrementSlot_digit _ (isDigit_digitByte (Nat.mod_lt D (by omega))),
      digitVal_digitByte (Nat.mod_lt D (by omega))]
    rfl

/-- Without its last digit a number has one digit less. -/
theorem div_ten_lt {n D : Nat} (hD : D < 10 ^ n) : D / 10 < 10 ^ (n - 1) := by
  cases n with
  | zero =>
    obtain rfl : D = 0 := by simpa using hD
    exact Nat.pow_pos (by omega)
  | succ n =>
    have hpow : 10 ^ (n + 1) = 10 * 10 ^ n := Nat.pow_succ'
    show D / 10 < 10 ^ n
    omega

/-- From the digit before `j` on: the digits left, the addend's digits left and the carry are
added up. -/
theorem incrementLoop_eq {p : Str} (hp : ∀ c ∈ p.getLast?, isDigit c = false) {addKey : Str}
    (hd : ∀ c ∈ addKey, isDigit c = true) (j : Nat) (hj : j ≤ addKey.length) {n D carry : Nat}
    (hD : D < 10 ^ n) (hcarry : carry ≤ 1) (t : Str) :
    incrementLoop addKey j (p ++ padded n D ++ t) ((p.length + n : Nat) - 1) carry =
      p ++ padded (sumWidth n j D (value (addKey.take j) + carry))
        (sumValue j D (value (addKey.take j) + carry)) ++
        t := by
  induction j generalizing n D carry t with
  | zero =>
    have hmod : D % 10 < 10 := Nat.mod_lt D (by omega)
    obtain rfl | rfl : carry = 0 ∨ carry = 1 := by omega
    · -- no carry: the digits left stay
      have hwidth : sumWidth n 0 D 0 = n := by simp [sumWidth, Nat.mod_one]
      have hvalue : sumValue 0 D 0 = D := by
        unfold sumValue
        rw [if_pos (by simpa using hmod), Nat.add_zero]
      rw [List.take_zero, show value [] + 0 = 0 from rfl, hwidth, hvalue, incrementLoop,
        if_pos (by decide)]
    · obtain ⟨c, hslot⟩ := incrementSlot_padded hp hD t
      have hwidth : sumWidth n 0 D 1 = n - 1 + 1 := by
        unfold sumWidth
        rw [if_neg (by omega)]
        omega
      have hvalue : sumValue 0 D 1 = 10 * (D / 10) + (D % 10 + 1) % 10 := by
        unfold sumValue
        split <;> omega
      rw [List.take_zero, show value [] + 1 = 1 from rfl, hwidth, hvalue,
        show ((1 : Nat) : Int) = 1 from rfl]
      rw [incrementLoop_last addKey hslot, ← padded_snoc _ _ (Nat.mod_lt _ (by omega))]
      simp only [List.append_assoc, List.singleton_append]
  | succ j ih =>
    obtain ⟨c, hslot⟩ := incrementSlot_padded hp hD t
    have hlt : j < addKey.length := hj
    have ha : isDigit addKey[j] = true := hd _ (List.getElem_mem hlt)
    have hget : addKey.getD j 48 = addKey[j] := by simp [List.getD, hlt]
    have htake : value (addKey.take (j + 1)) = value (addKey.take j) * 10 + digitVal addKey[j] := by
      rw [List.take_succ_eq_append_getElem hlt, value_append, value_singleton, List.length_singleton,
        pow_one]
    have hdig := digitVal_lt ha
    have hD' := div_ten_lt hD
    have hidx : (((p ++ padded (n - 1) (D / 10)).length : Nat) : Int) =
        ((p.length + (n - 1) : Nat) : Int) := by
      rw [List.length_append, length_padded]
    rw [incrementLoop_slot addKey hget ha hslot, hidx]
    rw [ih (Nat.le_of_lt hlt) hD' (by omega)]
    -- the digit written is the last one of the sum
    have hsum : 10 * (value (addKey.take j) + (D % 10 + digitVal addKey[j] + carry) / 10) +
        (D % 10 + digitVal addKey[j] + carry) % 10 = D % 10 + (value (addKey.take (j + 1)) + carry) := by
      rw [htake]
      omega
    rw [sumWidth_succ n j hsum (Nat.mod_lt _ (by omega)), sumValue_succ j hsum (Nat.mod_lt _ (by omega)),
      ← padded_snoc _ _ (Nat.mod_lt _ (by omega))]
    simp only [List.append_assoc, List.singleton_append]

/-! ## No text is emptied -/

theorem incrementSlot_ne_nil {toKey : Str} (h : toKey ≠ []) (toKeyIndex : Int) :
    (incrementSlot toKey toKeyIndex).1 ≠ [] := by
  unfold incrementSlot
  split
  · dsimp only
    split
    · exact h
    · intro h0
      have hlen := congrArg List.length h0
      have hpos := List.length_pos_iff.mpr h
      dsimp only at hlen
      rw [List.length_insertIdx, List.length_nil] at hlen
      split at hlen <;> omega
  · simp

theorem putDigit_ne_nil {toKey : Str} (h : toKey ≠ []) (i : Nat) (toAddData : Int) :
    putDigit toKey i toAddData ≠ [] := by
  unfold putDigit
  rw [ne_eq, List.set_eq_nil_iff]
  exact h

theorem incrementLoop_ne_nil (addKey : Str) (j : Nat) {toKey : Str} (h : toKey ≠ [])
    (toKeyIndex carry : Int) : incrementLoop addKey j toKey toKeyIndex carry ≠ [] := by
  induction j generalizing toKey toKeyIndex carry with
  | zero =>
    rw [incrementLoop]
    split
    · exact h
    · exact putDigit_ne_nil (incrementSlot_ne_nil h toKeyIndex) _ _
  | succ j ih => exact ih (putDigit_ne_nil (incrementSlot_ne_nil h toKeyIndex) _ _) _ _

theorem fuStrIncrement_ne_nil (pData : Str) : fuStrIncrement 1 pData ≠ [] := by
  have hone : fuIntToStr 1 ≠ [] := by decide
  unfold fuStrIncrement
  dsimp only
  split
  · exact List.append_ne_nil_of_right_ne_nil _ hone
  · next c hc =>
    have hne : pData ≠ [] := by
      rintro rfl
      cases hc
    split
    · exact List.append_ne_nil_of_right_ne_nil _ hone
    · exact incrementLoop_ne_nil _ _ hne _ _

/-! ## The sum -/

theorem fuIntToStr_natCast (a : Nat) : fuIntToStr a = numeral a := by
  unfold fuIntToStr
  rw [if_neg (by omega), Int.natAbs_natCast]

/-- A text that does not end in a digit: the numeral is put behind it. -/
theorem fuStrIncrement_text (a : Nat) {p : Str} (hp : ∀ c ∈ p.getLast?, isDigit c = false) :
    fuStrIncrement a p = p ++ numeral a := by
  unfold fuStrIncrement
  rw [fuIntToStr_natCast]
  cases hlast : p.getLast? with
  | none => rfl
  | some c =>
    have hc := hp c hlast
    simp [hc]

/-- A text that ends in the digits `d`: their value and the addend are added up. -/
theorem fuStrIncrement_number (a : Nat) {p d : Str} (hp : ∀ c ∈ p.getLast?, isDigit c = false)
    (hd : ∀ c ∈ d, isDigit c = true) (hne : d ≠ []) :
    fuStrIncrement a (p ++ d) =
      p ++ padded (sumWidth d.length (numeral a).length (value d) a)
        (sumValue (numeral a).length (value d) a) := by
  have hlast : (p ++ d).getLast? = some (d.getLast hne) := by
    rw [List.getLast?_append_of_ne_nil p hne, List.getLast?_eq_some_getLast hne]
  have hdig : isDigit (d.getLast hne) = true := hd _ (List.getLast_mem hne)
  have hloop := incrementLoop_eq hp (isDigit_of_mem_numeral a) (numeral a).length (Nat.le_refl _)
    (value_lt hd)
    (Nat.zero_le 1) []
  rw [padded_value hd, List.take_length, value_numeral, List.append_nil, List.append_nil,
    Nat.add_zero] at hloop
  unfold fuStrIncrement
  rw [fuIntToStr_natCast, hlast]
  simp only [hdig, Bool.not_true, Bool.false_eq_true, if_false, List.length_append]
  exact hloop

/-- What adding `a` to the number `d` behind `p` comes to: zeros in front stay, and digits are
added where the sum needs them. -/
def AddsTo (a : Nat) (p d result : Str) : Prop :=
  if d = [] then result = p ++ numeral a
  else ∃ d', result = p ++ d' ∧ (∀ c ∈ d', isDigit c = true) ∧ value d' = value d + a ∧
    d'.length = max d.length (numeral (value d + a)).length

/-- No carry goes out of the round behind the addend's digits. -/
def CarryFits (a : Nat) (d : Str) : Prop :=
  value d % 10 ^ ((numeral a).length + 1) + a < 10 ^ ((numeral a).length + 1)

instance (a : Nat) (d : Str) : Decidable (CarryFits a d) := inferInstanceAs (Decidable (_ < _))

/-- A sum whose carry fits is as wide as what is written. -/
theorem width_of_fits {a : Nat} {d : Str} (hd : ∀ c ∈ d, isDigit c = true) (hfit : CarryFits a d) :
    sumWidth d.length (numeral a).length (value d) a = max d.length (numeral (value d + a)).length := by
  have hD : value d < 10 ^ d.length := value_lt hd
  have hk := length_numeral_pos a
  have hmono : (numeral a).length ≤ (numeral (value d + a)).length := length_numeral_mono (by omega)
  have hneeds := length_numeral_le_iff (w := d.length)
  unfold CarryFits at hfit
  unfold sumWidth
  generalize (numeral a).length = k at *
  by_cases hlow : value d % 10 ^ k + a < 10 ^ k
  · rw [if_pos hlow]
    by_cases hkn : k ≤ d.length
    · have hle := (hneeds (by omega) _).mpr (add_lt_pow hkn hD hlow)
      omega
    · -- the addend has more digits, and so has the sum
      have hDk : value d < 10 ^ k := Nat.lt_of_lt_of_le hD (Nat.pow_le_pow_right (by omega) (by omega))
      rw [Nat.mod_eq_of_lt hDk] at hlow
      have hle := (length_numeral_le_iff hk _).mpr hlow
      omega
  · rw [if_neg hlow]
    by_cases hkn : k + 1 ≤ d.length
    · have hle := (hneeds (by omega) _).mpr (add_lt_pow hkn hD hfit)
      omega
    · -- the carry is a digit of its own
      have hDk : value d < 10 ^ k := Nat.lt_of_lt_of_le hD (Nat.pow_le_pow_right (by omega) (by omega))
      have hDk' : value d < 10 ^ (k + 1) :=
        Nat.lt_of_lt_of_le hDk (Nat.pow_le_pow_right (by omega) (by omega))
      rw [Nat.mod_eq_of_lt hDk] at hlow
      rw [Nat.mod_eq_of_lt hDk'] at hfit
      have hle := (length_numeral_le_iff (by omega) _).mpr hfit
      have hgt := (length_numeral_le_iff hk (value d + a)).not.mpr hlow
      omega

/-- **Adding to the trailing number.**  The number at the end of the text goes up by the addend
exactly when no carry goes out of the round behind the addend's digits. -/
theorem fuStrIncrement_adds_iff (a : Nat) {p d : Str} (hp : ∀ c ∈ p.getLast?, isDigit c = false)
    (hd : ∀ c ∈ d, isDigit c = true) :
    AddsTo a p d (fuStrIncrement a (p ++ d)) ↔ d = [] ∨ CarryFits a d := by
  unfold AddsTo
  by_cases hne : d = []
  · rw [if_pos hne, hne, List.append_nil]
    exact iff_of_true (fuStrIncrement_text a hp) (Or.inl rfl)
  · rw [if_neg hne, fuStrIncrement_number a hp hd hne, or_iff_right hne]
    constructor
    · rintro ⟨d', hd', -, hval, -⟩
      by_contra hfit
      have hlow : value d % 10 ^ ((numeral a).length + 1) ≤ value d := Nat.mod_le _ _
      have hpos : 0 < 10 ^ ((numeral a).length + 1) := Nat.pow_pos (by omega)
      have hsum : sumValue (numeral a).length (value d) a =
          value d + a - 10 ^ ((numeral a).length + 1) := if_neg hfit
      rw [← List.append_cancel_left hd', value_padded] at hval
      have hle := Nat.mod_le (sumValue (numeral a).length (value d) a)
        (10 ^ sumWidth d.length (numeral a).length (value d) a)
      unfold CarryFits at hfit
      omega
    · intro hfit
      have hsum : sumValue (numeral a).length (value d) a = value d + a := if_pos hfit
      have hwidth := width_of_fits hd hfit
      refine ⟨_, rfl, isDigit_of_mem_padded, ?_, by rw [length_padded, hwidth]⟩
      rw [value_padded, hsum, hwidth, Nat.mod_eq_of_lt]
      exact Nat.lt_of_lt_of_le (lt_pow_length_numeral _)
        (Nat.pow_le_pow_right (by omega) (Nat.le_max_right _ _))

/-- The carry of 5 + 7 makes the tens digit. -/
theorem fuStrIncrement_adds_iff_tens :
    AddsTo 7 (lit "no") (lit "05") (fuStrIncrement 7 (lit "no" ++ lit "05")) ↔
      lit "05" = [] ∨ CarryFits 7 (lit "05") :=
  fuStrIncrement_adds_iff 7 (p := lit "no") (d := lit "05") (by decide +kernel) (by decide +kernel)

/-- 199 and 1: the carry out of the tens digit is dropped, and 100 is left. -/
theorem fuStrIncrement_drops_carry :
    fuStrIncrement 1 (lit "199") = lit "100" ∧ ¬ AddsTo 1 [] (lit "199")
      (fuStrIncrement 1 ([] ++ lit "199")) := by
  have hrun : fuStrIncrement 1 (lit "199") = lit "100" := by decide
  refine ⟨hrun, ?_⟩
  rw [List.nil_append, hrun]
  unfold AddsTo
  rw [if_neg (by decide)]
  rintro ⟨d', hd', -, hval, -⟩
  rw [List.nil_append] at hd'
  rw [← hd'] at hval
  exact absurd hval (by decide)

end FuServer
