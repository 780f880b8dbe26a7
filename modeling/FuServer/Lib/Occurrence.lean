import Mathlib.Computability.Language

/-!
# Occurrences of a word, and attempts at it

A matcher that starts again behind the character at which an attempt failed goes
through its text attempt by attempt.  `failed p` is the language of the failed
attempts at `p`, and `FirstAt` the first place of a stream where `p` has occurred.
-/

namespace Occurrence

open scoped Computability

variable {α : Type}

/-- The first `n` items of a stream. -/
def upTo (s : Nat → α) (n : Nat) : List α := (List.range n).map s

@[simp] theorem length_upTo (s : Nat → α) (n : Nat) : (upTo s n).length = n := by
  simp [upTo]

theorem take_upTo (s : Nat → α) {m n : Nat} (h : m ≤ n) : (upTo s n).take m = upTo s m := by
  unfold upTo
  rw [← List.map_take, List.take_range, Nat.min_eq_left h]

theorem upTo_succ (s : Nat → α) (n : Nat) : upTo s (n + 1) = upTo s n ++ [s n] := by
  simp [upTo, List.range_succ]

/-- The last item of a word that has just occurred. -/
theorem mem_of_suffix_upTo {p : List α} (hp : p ≠ []) {s : Nat → α} {n : Nat}
    (h : p <:+ upTo s (n + 1)) :
    s n ∈ p := by
  obtain ⟨t, ht⟩ := h
  have hlast : (t ++ p).getLast? = some (s n) := by
    rw [ht, upTo_succ]
    simp
  rw [List.getLast?_append_of_ne_nil _ hp] at hlast
  exact List.mem_of_getLast? hlast

/-- After `n` items, and not before, `p` has occurred. -/
def FirstAt (p : List α) (s : Nat → α) (n : Nat) : Prop :=
  p <:+ upTo s n ∧ ∀ m, m < n → ¬ p <:+ upTo s m

theorem FirstAt.unique {p : List α} {s : Nat → α} {m n : Nat} (hm : FirstAt p s m) (hn : FirstAt p s n) :
    m = n := by
  rcases Nat.lt_trichotomy m n with h | h | h
  · exact absurd hm.1 (hn.2 m h)
  · exact h
  · exact absurd hn.1 (hm.2 n h)

/-- A word that has occurred has occurred a first time. -/
theorem exists_firstAt {p : List α} {s : Nat → α} {n : Nat} (h : p <:+ upTo s n) :
    ∃ m, m ≤ n ∧ FirstAt p s m := by
  classical
  have hex : ∃ n, p <:+ upTo s n := ⟨n, h⟩
  exact ⟨Nat.find hex, Nat.find_min' hex h, Nat.find_spec hex, fun m hm => Nat.find_min hex hm⟩

/-- The failed attempts at `p`: some of its items and then another one than its next. -/
def failed (p : List α) : Language α :=
  { w | ∃ l c, l < p.length ∧ p[l]? ≠ some c ∧ w = p.take l ++ [c] }

theorem mem_failed {p w : List α} :
    w ∈ failed p ↔ ∃ l c, l < p.length ∧ p[l]? ≠ some c ∧ w = p.take l ++ [c] := Iff.rfl

theorem append_failed {p u w : List α} (hu : u ∈ (failed p)∗) (hw : w ∈ failed p) :
    u ++ w ∈ (failed p)∗ := by
  obtain ⟨ws, rfl, hall⟩ := Language.mem_kstar.mp hu
  refine Language.mem_kstar.mpr ⟨ws ++ [w], by simp, ?_⟩
  intro x hx
  rcases List.mem_append.mp hx with hx | hx
  · exact hall x hx
  · rw [List.mem_singleton.mp hx]
    exact hw

/-- After failed attempts a text either is in the middle of one, or the word has occurred. -/
theorem exists_attempts {p : List α} (hp : p ≠ []) (w : List α) :
    (∃ u ∈ (failed p)∗, ∃ l, l < p.length ∧ w = u ++ p.take l) ∨ ∃ u ∈ (failed p)∗, u ++ p <+: w := by
  classical
  have hpos : 0 < p.length := List.length_pos_of_ne_nil hp
  induction w using List.reverseRecOn with
  | nil =>
    left
    exact ⟨[], Language.nil_mem_kstar _, 0, hpos, by simp⟩
  | append_singleton w c ih =>
    rcases ih with ⟨u, hu, l, hl, rfl⟩ | ⟨u, hu, hprefix⟩
    · by_cases hc : p[l]? = some c
      · -- one character further in the attempt
        have htake : p.take l ++ [c] = p.take (l + 1) := by
          rw [List.take_add_one, hc]
          rfl
        rw [List.append_assoc, htake]
        by_cases hend : l + 1 < p.length
        · left
          exact ⟨u, hu, l + 1, hend, rfl⟩
        · right
          refine ⟨u, hu, ?_⟩
          rw [List.take_of_length_le (by omega)]
      · -- the attempt has failed
        left
        refine ⟨u ++ (p.take l ++ [c]), append_failed hu ⟨l, c, hl, hc, rfl⟩, 0, hpos, ?_⟩
        simp
    · right
      exact ⟨u, hu, hprefix.trans (List.prefix_append w [c])⟩

/-- Behind failed attempts at a word of one character there is another character, if any. -/
theorem getLast?_ne_of_kstar {p u : List α} {a : α} (hp : ∀ c ∈ p, c = a) (hu : u ∈ (failed p)∗) :
    u.getLast? ≠ some a := by
  obtain ⟨ws, rfl, hall⟩ := Language.mem_kstar.mp hu
  induction ws using List.reverseRecOn with
  | nil => simp
  | append_singleton ws w _ =>
    obtain ⟨l, c, hl, hc, rfl⟩ := hall w (List.mem_append_right _ List.mem_cons_self)
    have hget : p[l]? = some a := by
      rw [List.getElem?_eq_getElem hl, hp p[l] (List.getElem_mem hl)]
    intro hlast
    apply hc
    rw [hget]
    simpa [eq_comm] using hlast

/-- An occurrence of a word of one character does not reach back into a failed attempt. -/
theorem append_ne_of_kstar {p u t : List α} {a : α} (hp : ∀ c ∈ p, c = a) (hu : u ∈ (failed p)∗)
    {l : Nat}
    (hl : l < p.length) : t ++ p ≠ u ++ p.take l := by
  intro ht
  have hlen : (p.take l).length = l := by
    rw [List.length_take]
    omega
  rcases List.append_eq_append_iff.mp ht with ⟨v, rfl, hv⟩ | ⟨v, -, hv⟩
  · -- `v` is where it would
    have hcount := congrArg List.length hv
    rw [List.length_append, hlen] at hcount
    have hne : v ≠ [] := by
      rintro rfl
      simp at hcount
      omega
    apply getLast?_ne_of_kstar hp hu
    rw [List.getLast?_append_of_ne_nil _ hne, List.getLast?_eq_some_getLast hne]
    congr 1
    apply hp
    rw [hv]
    exact List.mem_append_left _ (List.getLast_mem hne)
  · have hcount := congrArg List.length hv
    rw [List.length_append, hlen] at hcount
    omega

/-- In front of the first occurrence of a word of one character there are only failed attempts. -/
theorem firstAt_constant {p : List α} {a : α} (hp : p ≠ []) (hconst : ∀ c ∈ p, c = a) {s : Nat → α}
    {n : Nat}
    (h : FirstAt p s n) : ∃ u ∈ (failed p)∗, upTo s n = u ++ p := by
  have hpos : 0 < p.length := List.length_pos_of_ne_nil hp
  have hn : p.length ≤ n := by
    have hle := h.1.length_le
    rwa [length_upTo] at hle
  obtain ⟨m, rfl⟩ : ∃ m, n = m + 1 := ⟨n - 1, by omega⟩
  rcases exists_attempts hp (upTo s m) with ⟨u, hu, l, hl, hw⟩ | ⟨u, hu, hprefix⟩
  · -- the last item brings the attempt one further, and to its end
    have hsm : s m = a := hconst _ (mem_of_suffix_upTo hp h.1)
    have htake : p.take l ++ [s m] = p.take (l + 1) := by
      rw [List.take_add_one, List.getElem?_eq_getElem hl, hsm, hconst _ (List.getElem_mem hl)]
      rfl
    obtain ⟨t, ht⟩ := h.1
    rw [upTo_succ, hw, List.append_assoc, htake] at ht ⊢
    refine ⟨u, hu, ?_⟩
    rcases Nat.lt_or_ge (l + 1) p.length with hless | hend
    · exact absurd ht (append_ne_of_kstar hconst hu hless)
    · rw [List.take_of_length_le (by omega)]
  · -- or the word has occurred before
    exfalso
    have hle : (u ++ p).length ≤ m := by
      have hle := hprefix.length_le
      rwa [length_upTo] at hle
    apply h.2 (u ++ p).length (by omega)
    rw [← take_upTo s hle, ← List.prefix_iff_eq_take.mp hprefix]
    exact List.suffix_append u p

/-- A word that begins as it does one item later is of one character. -/
theorem eq_of_eq_cons_dropLast {p : List α} {a : α} (h : p = a :: p.dropLast) : ∀ c ∈ p, c = a := by
  have hget : ∀ i, i < p.length → p[i]? = some a := by
    intro i
    induction i with
    | zero =>
      intro _
      rw [h]
      rfl
    | succ i ih =>
      intro hi
      have hnext : (a :: p.dropLast)[i + 1]? = p[i]? := by
        rw [List.getElem?_cons_succ, List.getElem?_dropLast, if_pos (by omega)]
      rw [← h] at hnext
      rw [hnext]
      exact ih (by omega)
  intro c hc
  obtain ⟨i, hi⟩ := List.mem_iff_getElem?.mp hc
  have hlt := (List.getElem?_eq_some_iff.mp hi).1
  rw [hget i hlt] at hi
  cases hi
  rfl

/-- The stream that begins with `w` and goes on with `a`. -/
def extend (w : List α) (a : α) (i : Nat) : α := w[i]?.getD a

theorem upTo_extend (w : List α) (a : α) : upTo (extend w a) w.length = w := by
  apply List.ext_getElem (length_upTo _ _)
  intro i _ hi
  simp [upTo, extend, List.getElem?_eq_getElem hi]

theorem extend_mem {w p : List α} {a : α} (hw : ∀ c ∈ w, c ∈ p) (ha : a ∈ p) (i : Nat) :
    extend w a i ∈ p := by
  unfold extend
  cases h : w[i]? with
  | none => exact ha
  | some c => exact hw c (List.mem_of_getElem? h)

/-- A word of two characters occurs behind its own first one, which is no failed attempt. -/
theorem exists_unattempted {p : List α} {a : α} (ha : p.head? = some a) (hconst : ¬ ∀ c ∈ p, c = a) :
    ∃ s : Nat → α, (∀ i, s i ∈ p) ∧ ∃ n, FirstAt p s n ∧ ∀ u ∈ (failed p)∗, upTo s n ≠ u ++ p := by
  have hmem : a ∈ p := List.mem_of_head? ha
  have hpos : 0 < p.length := List.length_pos_of_mem hmem
  have hall := upTo_extend (a :: p) a
  refine ⟨extend (a :: p) a, extend_mem (by simp [hmem]) hmem, (a :: p).length, ⟨?_, ?_⟩, ?_⟩
  · rw [hall]
    exact List.suffix_cons a p
  · -- one item earlier it would be of one character
    intro m hm hsuffix
    have hle := hsuffix.length_le
    rw [length_upTo] at hle
    rw [List.length_cons] at hm
    have hm' : m = p.length := by omega
    subst hm'
    have heq := hsuffix.eq_of_length (length_upTo _ _).symm
    have htake : (a :: p).take p.length = upTo (extend (a :: p) a) p.length := by
      rw [← take_upTo _ (Nat.le_succ p.length)]
      exact congrArg (List.take p.length) hall.symm
    apply hconst
    apply eq_of_eq_cons_dropLast
    rw [← List.dropLast_cons_of_ne_nil (List.ne_nil_of_length_pos hpos), List.dropLast_eq_take,
      List.length_cons, Nat.add_sub_cancel, htake]
    exact heq
  · intro u hu h
    rw [hall] at h
    have hsingle : u = [a] := List.append_cancel_right (by rw [← h]; rfl)
    subst hsingle
    obtain ⟨ws, hws, hfail⟩ := Language.mem_kstar.mp hu
    cases ws with
    | nil => cases hws
    | cons w ws =>
      obtain ⟨l, c, hl, hc, rfl⟩ := hfail w List.mem_cons_self
      have hcount := congrArg List.length hws
      simp only [List.flatten_cons, List.length_append, List.length_take,
        List.length_singleton] at hcount
      have hl0 : l = 0 := by omega
      subst hl0
      have hca : a = c := by simpa using congrArg List.head? hws
      rw [← List.head?_eq_getElem?, ha, hca] at hc
      exact hc rfl

end Occurrence
