import FuServer.Lib.Compare
import FuServer.Model.Convert

/-!
# The order of keys (DB_CompareDataKey)

Integer columns compare by what `fu_str_to_integer` reads, strings and bools
byte by byte, floats and doubles by what `fu_str_to_double` reads, within a
tolerance.  The reader skips a sign like any other byte it does not know, and a
tolerance is no equality: two ties in a row need not make a third.
-/

namespace FuServer

open Bytes Decimal Compare

/-! ## What is read -/

theorem wrap64_eq {x : Int} (h0 : 0 ≤ x) (h : x < 2 ^ 63) : wrap64 x = x := by
  unfold wrap64
  exact Int.bmod_eq_of_le (by omega) (by omega)

/-- Sums and products may be wrapped early. -/
theorem wrap64_mul_add (x y z : Int) : wrap64 (wrap64 x * y + z) = wrap64 (x * y + z) := by
  unfold wrap64
  rw [Int.add_bmod, Int.bmod_mul_bmod, ← Int.add_bmod]

/-- Digits are read as their value, wrapped. -/
theorem fuStrToIntegerLoop_digits {s : Str} (hd : ∀ c ∈ s, isDigit c = true) (x : Int) :
    fuStrToIntegerLoop (wrap64 x) s = wrap64 (x * 10 ^ s.length + value s) := by
  induction s generalizing x with
  | nil => simp [fuStrToIntegerLoop, value]
  | cons c s ih =>
    have hsplit : value (c :: s) = digitVal c * 10 ^ s.length + value s := by
      rw [← List.singleton_append, value_append, value_singleton]
    have hsum : x * 10 ^ (c :: s).length + value (c :: s) =
        (x * 10 + digitVal c) * 10 ^ s.length + value s := by
      rw [hsplit, List.length_cons]
      push_cast
      ring
    rw [fuStrToIntegerLoop, if_pos (hd c List.mem_cons_self), wrap64_mul_add, hsum]
    exact ih (fun b hb => hd b (List.mem_cons_of_mem c hb)) (x * 10 + digitVal c)

theorem fuStrToInteger_numeral_wrap (n : Nat) : fuStrToInteger (numeral n) = wrap64 n := by
  have hloop := fuStrToIntegerLoop_digits (isDigit_of_mem_numeral n) 0
  rw [value_numeral, Int.zero_mul, Int.zero_add] at hloop
  exact hloop

/-- A numeral below `2 ^ 63` is read as its number. -/
theorem fuStrToInteger_numeral {n : Nat} (h : n < 2 ^ 63) : fuStrToInteger (numeral n) = n := by
  rw [fuStrToInteger_numeral_wrap, wrap64_eq (by omega) (by omega)]

/-- A sign is passed over, so a rendering is read as the absolute value. -/
theorem fuStrToInteger_rendering (a : Int) : fuStrToInteger (fuLonglongToStr a) = wrap64 a.natAbs := by
  rw [← fuStrToInteger_numeral_wrap]
  unfold fuLonglongToStr fuIntToStr
  by_cases h : a < 0
  · rw [if_pos h]
    rfl
  · rw [if_neg h]

/-- The least `long long` has an absolute value that wraps around to itself. -/
theorem fuStrToInteger_longlong {a : Int} (hlo : -2 ^ 63 ≤ a) (hhi : a < 2 ^ 63) :
    fuStrToInteger (fuLonglongToStr a) = if a = -2 ^ 63 then a else a.natAbs := by
  rw [fuStrToInteger_rendering]
  by_cases h : a = -2 ^ 63
  · rw [if_pos h, h]
    decide
  · rw [if_neg h, wrap64_eq (by omega) (by omega)]

/-! ## The three regimes -/

/-- The type codes compared within a tolerance. -/
def isFloatType (iType : UInt16) : Bool := iType == dbFloatT || iType == dbDoubleT

theorem isIntegerType_of_float {iType : UInt16} (hf : isFloatType iType = true) :
    isIntegerType iType = false := by
  unfold isFloatType at hf
  rcases Bool.or_eq_true_iff.mp hf with h | h
  · rw [beq_iff_eq.mp h]
    rfl
  · rw [beq_iff_eq.mp h]
    rfl

theorem dbCompareDataKey_integer (fp : FloatUnit) {iType : UInt16} (hi : isIntegerType iType = true) :
    (fun x y => dbCompareDataKey fp x y iType) = byMeasure fuStrToInteger := by
  funext x y
  unfold dbCompareDataKey
  rw [if_pos hi]
  rfl

theorem dbCompareDataKey_bytes (fp : FloatUnit) {iType : UInt16} (hi : isIntegerType iType = false)
    (hf : isFloatType iType = false) : (fun x y => dbCompareDataKey fp x y iType) = strCompare := by
  funext x y
  unfold isFloatType at hf
  unfold dbCompareDataKey
  rw [hi, hf]
  rfl

/-- Doubles read as exact rationals. -/
abbrev readDouble (s : Str) : ℚ := fuStrToDouble .exactRational s

/-- The constant `0.00001f`. -/
abbrev keyTolerance : ℚ := FloatUnit.exactRational.dblEps

theorem keyTolerance_pos : 0 < keyTolerance := by
  show (0 : ℚ) < 2748779 / 274877906944
  norm_num

theorem dbCompareDataKey_float {iType : UInt16} (hf : isFloatType iType = true) :
    (fun x y => dbCompareDataKey .exactRational x y iType) = withTolerance keyTolerance readDouble := by
  have hi := isIntegerType_of_float hf
  funext x y
  unfold isFloatType at hf
  unfold dbCompareDataKey withTolerance
  rw [hi, hf]
  simp only [FloatUnit.exactRational, Bool.false_eq_true, if_false, if_true, decide_eq_true_eq]
  rfl

/-! ## Renderings -/

/-- **Integer keys.**  Keys rendered from two `long long` compare as these do when they are equal,
when their sum is positive, or when one of them is the least `long long`; elsewhere the sign that
the reader skips decides. -/
theorem compare_renderings_iff (fp : FloatUnit) {iType : UInt16} (hi : isIntegerType iType = true)
    {a b : Int} (ha : -2 ^ 63 ≤ a ∧ a < 2 ^ 63) (hb : -2 ^ 63 ≤ b ∧ b < 2 ^ 63) :
    dbCompareDataKey fp (fuLonglongToStr a) (fuLonglongToStr b) iType =
        (if a = b then 0 else if a > b then 1 else -1) ↔
      a = b ∨ 0 < a + b ∨ a = -2 ^ 63 ∨ b = -2 ^ 63 := by
  have hcmp := congrFun₂ (dbCompareDataKey_integer fp hi) (fuLonglongToStr a) (fuLonglongToStr b)
  have hmeant : (if a = b then 0 else if a > b then 1 else -1 : Int) = byMeasure id a b := rfl
  have hread : byMeasure fuStrToInteger (fuLonglongToStr a) (fuLonglongToStr b) =
      byMeasure (fun x => fuStrToInteger (fuLonglongToStr x)) a b := rfl
  have hra := fuStrToInteger_longlong ha.1 ha.2
  have hrb := fuStrToInteger_longlong hb.1 hb.2
  rw [hcmp, hmeant, hread, byMeasure_eq_iff]
  simp only [hra, hrb, id_eq]
  by_cases hmina : a = -2 ^ 63
  · rw [if_pos hmina]
    by_cases hminb : b = -2 ^ 63
    · rw [if_pos hminb]
      exact iff_of_true ⟨Iff.rfl, Iff.rfl⟩ (Or.inr (Or.inr (Or.inl hmina)))
    · rw [if_neg hminb]
      refine iff_of_true ⟨?_, ?_⟩ (Or.inr (Or.inr (Or.inl hmina))) <;> omega
  · rw [if_neg hmina]
    by_cases hminb : b = -2 ^ 63
    · rw [if_pos hminb]
      refine iff_of_true ⟨?_, ?_⟩ (Or.inr (Or.inr (Or.inr hminb))) <;> omega
    · -- the absolute values are compared
      rw [if_neg hminb]
      omega

theorem compare_renderings_iff_mixed :
    dbCompareDataKey .exactRational (fuLonglongToStr (-3)) (fuLonglongToStr 7) dbIntT =
        (if (-3 : Int) = 7 then 0 else if (-3 : Int) > 7 then 1 else -1) ↔
      (-3 : Int) = 7 ∨ 0 < (-3 : Int) + 7 ∨ (-3 : Int) = -2 ^ 63 ∨ (7 : Int) = -2 ^ 63 :=
  compare_renderings_iff .exactRational (by decide) (by decide) (by decide)

/-- -2 is read as 2, and is above 1. -/
theorem compare_renderings_sign :
    dbCompareDataKey .exactRational (fuLonglongToStr (-2)) (fuLonglongToStr 1) dbIntT = 1 ∧
      ¬ dbCompareDataKey .exactRational (fuLonglongToStr (-2)) (fuLonglongToStr 1) dbIntT =
        (if (-2 : Int) = 1 then 0 else if (-2 : Int) > 1 then 1 else -1) := by
  decide

/-! ## The preorder -/

/-- Keys that are not compared within a tolerance. -/
theorem isPreorder_dbCompareDataKey (fp : FloatUnit) {iType : UInt16} (hf : isFloatType iType = false) :
    IsPreorder fun x y => dbCompareDataKey fp x y iType := by
  by_cases hi : isIntegerType iType = true
  · rw [dbCompareDataKey_integer fp hi]
    exact isPreorder_byMeasure fuStrToInteger
  · rw [dbCompareDataKey_bytes fp (by simpa using hi) hf]
    exact isPreorder_strCompare

/-- **The key order.**  For every type code the comparison is antisymmetric.  It is transitive but
for floats and doubles, and there but for two ties in a row whose ends are further apart than the
tolerance. -/
theorem dbCompareDataKey_order (iType : UInt16) (x y z : Str) :
    Opposite (dbCompareDataKey .exactRational x y iType) (dbCompareDataKey .exactRational y x iType) ∧
      (dbCompareDataKey .exactRational x y iType ≤ 0 → dbCompareDataKey .exactRational y z iType ≤ 0 →
        (dbCompareDataKey .exactRational x z iType ≤ 0 ↔
          ¬ (isFloatType iType = true ∧ dbCompareDataKey .exactRational x y iType = 0 ∧
            dbCompareDataKey .exactRational y z iType = 0 ∧
              keyTolerance ≤ readDouble x - readDouble z))) := by
  by_cases hf : isFloatType iType = true
  · have hcmp : ∀ u v, dbCompareDataKey .exactRational u v iType =
        withTolerance keyTolerance readDouble u v :=
      congrFun₂ (dbCompareDataKey_float hf)
    simp only [hcmp, hf, true_and]
    refine ⟨withTolerance_opposite keyTolerance_pos x y, fun hxy hyz => ?_⟩
    have hends := withTolerance_nonpos (f := readDouble) (x := x) (y := z) keyTolerance_pos
    constructor
    · rintro hxz ⟨-, -, hfar⟩
      exact absurd (hends.mp hxz) (not_lt.mpr hfar)
    · intro hnot
      by_contra hxz
      have hfar := not_lt.mp (hends.not.mp hxz)
      have hties : ¬ (withTolerance keyTolerance readDouble x y < 0 ∨
        withTolerance keyTolerance readDouble y z < 0) :=
        fun hstrict => hxz (withTolerance_trans keyTolerance_pos hxy hyz hstrict)
      exact hnot ⟨by omega, by omega, hfar⟩
  · have hf' : isFloatType iType = false := by simpa using hf
    have hpre := isPreorder_dbCompareDataKey .exactRational hf'
    refine ⟨hpre.opposite x y, fun hxy hyz => ?_⟩
    exact iff_of_true (hpre.trans x y z hxy hyz) fun h => hf h.1

/-- Each of the three is a tie with its neighbour, and the first is above the last. -/
theorem dbCompareDataKey_ties :
    ¬ ∀ (iType : UInt16) (x y z : Str),
      Opposite (dbCompareDataKey .exactRational x y iType) (dbCompareDataKey .exactRational y x iType) ∧
        (dbCompareDataKey .exactRational x y iType ≤ 0 → dbCompareDataKey .exactRational y z iType ≤ 0 →
          dbCompareDataKey .exactRational x z iType ≤ 0) := by
  intro h
  have hchain := (h dbDoubleT (lit "0.00001") (lit "0.000005") (lit "0")).2
  exact absurd (hchain (by decide +kernel) (by decide +kernel)) (by decide +kernel)

end FuServer
