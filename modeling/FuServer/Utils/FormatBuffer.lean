import FuServer.Model.Format

/-!
# The loop of fu_string_format

`vsnprintf` succeeds with an expansion as long as the buffer and puts no NUL then,
and the loop takes its result for that of one that fitted.
-/

namespace FuServer

open Bytes Outcome

/-- `vsnprintf` of a format that expands to `expansion`, by the size of its buffer. -/
structure Prints (expansion : Str) (vsnprintf : Nat → Int × Str) : Prop where
  fits : ∀ c, expansion.length < c →
    ∃ rest, vsnprintf c = ((expansion.length : Int), expansion ++ 0 :: rest)
  full : vsnprintf expansion.length = ((expansion.length : Int), expansion)
  cut : ∀ c, c < expansion.length → (vsnprintf c).1 < 0

variable {expansion : Str} {vsnprintf : Nat → Int × Str}

/-! ## One round -/

theorem Prints.formatLoop_fits (h : Prints expansion vsnprintf) (hnul : NoNul expansion) {c : BufSize}
    (hc : expansion.length < c.1) : formatLoop vsnprintf c = .ok expansion := by
  obtain ⟨rest, hrun⟩ := h.fits c.1 hc
  have hlen : strlenBuf (expansion ++ 0 :: rest) = .ok expansion.length := by
    unfold strlenBuf
    rw [if_pos (by simp), cstr_append_nul hnul]
  rw [formatLoop, hrun]
  dsimp only
  rw [if_neg (by omega), hlen, ok_bind, List.take_left, pure_eq_ok]

/-- A full buffer has no NUL. -/
theorem Prints.formatLoop_full (h : Prints expansion vsnprintf) (hnul : NoNul expansion) {c : BufSize}
    (hc : expansion.length = c.1) : formatLoop vsnprintf c = .error .readPastEnd := by
  have hrun := h.full
  have hlen : strlenBuf expansion = .error .readPastEnd := by
    unfold strlenBuf
    rw [if_neg fun hmem => hnul 0 hmem rfl]
  rw [hc] at hrun
  rw [formatLoop, hrun]
  dsimp only
  rw [if_neg (by omega), hlen, error_bind]

theorem Prints.formatLoop_over (h : Prints expansion vsnprintf) {c : BufSize}
    (hc : c.1 < expansion.length) :
    formatLoop vsnprintf c =
      if h : c.1 * 2 < 2 ^ 31 then formatLoop vsnprintf ⟨c.1 * 2, by omega⟩ else .error .outOfRange := by
  have hneg := h.cut c.1 hc
  rw [formatLoop]
  rcases hrun : vsnprintf c.1 with ⟨toSize, pBuf⟩
  rw [hrun] at hneg
  dsimp only at hneg ⊢
  rw [if_pos hneg]

/-! ## The whole loop -/

/-- Doubled from `c` on, a size that an `int` holds is above `n`, and none is `n` itself. -/
def Fitting (c n : Nat) : Prop := (∃ k, n < c * 2 ^ k ∧ c * 2 ^ k < 2 ^ 31) ∧ ∀ k, n ≠ c * 2 ^ k

theorem fitting_of_lt {c n : Nat} (hn : n < c) (hc : c < 2 ^ 31) : Fitting c n := by
  refine ⟨⟨0, by omega, by omega⟩, fun k heq => ?_⟩
  have hle : c ≤ c * 2 ^ k := Nat.le_mul_of_pos_right c (Nat.two_pow_pos k)
  omega

theorem not_fitting_self (c : Nat) : ¬ Fitting c c := by
  intro h
  exact h.2 0 (by omega)

/-- For a longer text the next size is as good a start. -/
theorem fitting_double {c n : Nat} (hn : c < n) : Fitting c n ↔ Fitting (c * 2) n := by
  have hpow : ∀ k, c * 2 * 2 ^ k = c * 2 ^ (k + 1) := by
    intro k
    rw [Nat.pow_succ']
    exact Nat.mul_assoc c 2 (2 ^ k)
  unfold Fitting
  simp only [hpow]
  constructor
  · rintro ⟨⟨k, hk, hlt⟩, hne⟩
    cases k with
    | zero => omega
    | succ k => exact ⟨⟨k, hk, hlt⟩, fun j => hne (j + 1)⟩
  · rintro ⟨⟨k, hk, hlt⟩, hne⟩
    refine ⟨⟨k + 1, hk, hlt⟩, fun j => ?_⟩
    cases j with
    | zero => omega
    | succ j => exact hne j

theorem not_fitting_of_large {c n : Nat} (hn : c < n) (hc : 2 ^ 31 ≤ c * 2) : ¬ Fitting c n := by
  rw [fitting_double hn]
  rintro ⟨⟨k, -, hlt⟩, -⟩
  have hle : c * 2 ≤ c * 2 * 2 ^ k := Nat.le_mul_of_pos_right _ (Nat.two_pow_pos k)
  omega

theorem Prints.formatLoop_iff (h : Prints expansion vsnprintf) (hnul : NoNul expansion) (c : BufSize) :
    formatLoop vsnprintf c = .ok expansion ↔ Fitting c.1 expansion.length := by
  obtain ⟨c, hpos, hc⟩ := c
  -- the sizes double up to what an int holds
  induction hm : 2 ^ 31 - c using Nat.strong_induction_on generalizing c with
  | _ m ih =>
    rcases Nat.lt_trichotomy expansion.length c with hlt | heq | hgt
    · rw [h.formatLoop_fits hnul hlt]
      exact iff_of_true rfl (fitting_of_lt hlt hc)
    · rw [h.formatLoop_full hnul heq]
      refine iff_of_false (by simp) ?_
      rw [heq]
      exact not_fitting_self c
    · rw [h.formatLoop_over hgt]
      dsimp only
      by_cases hdouble : c * 2 < 2 ^ 31
      · rw [dif_pos hdouble, fitting_double hgt]
        exact ih (2 ^ 31 - c * 2) (by omega) (c * 2) (by omega) hdouble rfl
      · rw [dif_neg hdouble]
        exact iff_of_false (by simp) (not_fitting_of_large hgt (by omega))

/-- The size of the first buffer, by the length of the format. -/
def firstSize (length : Nat) : Nat :=
  let toCharLen := (Int32.ofNat length).toInt.toNat
  if toCharLen < 1024 then 1024 else toCharLen * 2

/-- **The expansion.**  `fu_string_format` returns the whole expansion, and stays inside its buffer,
exactly when some doubling of the first size is above the expansion's length and none is equal to it. -/
theorem fuStringFormatBuf_iff (format : Str) (h : Prints expansion vsnprintf) (hnul : NoNul expansion) :
    fuStringFormatBuf vsnprintf format = .ok expansion ↔
      Fitting (firstSize (cstr format).length) expansion.length := by
  unfold fuStringFormatBuf firstSize
  dsimp only
  by_cases hshort : (Int32.ofNat (cstr format).length).toInt.toNat < 1024
  · rw [dif_pos hshort, if_pos hshort]
    exact h.formatLoop_iff hnul _
  · rw [dif_neg hshort, if_neg hshort]
    by_cases hdouble : (Int32.ofNat (cstr format).length).toInt.toNat * 2 < 2 ^ 31
    · rw [dif_pos hdouble]
      exact h.formatLoop_iff hnul _
    · rw [dif_neg hdouble]
      refine iff_of_false (by simp) ?_
      rintro ⟨⟨k, -, hlt⟩, -⟩
      have hle := Nat.le_mul_of_pos_right ((Int32.ofNat (cstr format).length).toInt.toNat * 2)
        (Nat.two_pow_pos k)
      omega

/-- The function of the runtime library, with a fresh buffer of `c` zero bytes. -/
def vsnprintfOf (expansion : Str) (c : Nat) : Int × Str :=
  if expansion.length < c then
    (expansion.length, expansion ++ 0 :: List.replicate (c - expansion.length - 1) 0)
  else if expansion.length = c then (expansion.length, expansion)
  else (-1, expansion.take c)

theorem prints_vsnprintfOf (expansion : Str) : Prints expansion (vsnprintfOf expansion) := by
  constructor
  · intro c hc
    refine ⟨List.replicate (c - expansion.length - 1) 0, ?_⟩
    unfold vsnprintfOf
    rw [if_pos hc]
  · unfold vsnprintfOf
    rw [if_neg (Nat.lt_irrefl _), if_pos rfl]
  · intro c hc
    unfold vsnprintfOf
    rw [if_neg (by omega), if_neg (by omega)]
    exact Int.negSucc_lt_zero 0

theorem fuStringFormatBuf_iff_select :
    fuStringFormatBuf (vsnprintfOf (lit "select * from person")) (lit "select * from %s") =
        .ok (lit "select * from person") ↔
      Fitting (firstSize (cstr (lit "select * from %s")).length) (lit "select * from person").length :=
  fuStringFormatBuf_iff (lit "select * from %s") (prints_vsnprintfOf _) (by decide)

/-- An expansion of 1024 bytes is read past the end of its buffer. -/
theorem fuStringFormatBuf_full :
    fuStringFormatBuf (vsnprintfOf (List.replicate 1024 97)) (lit "%s") = .error .readPastEnd := by
  have hnul : NoNul (List.replicate 1024 97) := by
    intro c hc
    rw [List.eq_of_mem_replicate hc]
    decide
  unfold fuStringFormatBuf
  exact (prints_vsnprintfOf (List.replicate 1024 97)).formatLoop_full hnul List.length_replicate

/-- The commands that the builders make with `fuStringFormat`: the loop returns those below 1024
bytes. -/
theorem fuStringFormatBuf_short {format : Str} {args : List Str} (hformat : NoNul format)
    (hshort : format.length < 1024) (h : Prints (fuStringFormat format args) vsnprintf)
    (hlen : (fuStringFormat format args).length < 1024) :
    fuStringFormatBuf vsnprintf format = .ok (fuStringFormat format args) := by
  have hnul := noNul_fuStringFormat hformat args
  have hfirst : (Int32.ofNat (cstr format).length).toInt.toNat < 1024 := by
    rw [cstr_eq_self.mpr hformat, Int32.toInt_ofNat_of_lt (by omega), Int.toNat_natCast]
    exact hshort
  unfold fuStringFormatBuf
  dsimp only
  rw [dif_pos hfirst]
  exact h.formatLoop_fits hnul hlen

end FuServer
