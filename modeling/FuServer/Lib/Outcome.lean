import Mathlib.Data.List.Basic
import Mathlib.Data.List.Forall2

/-!
# Computations that may fault

Rewriting rules for `Except` and for `mapM` over it.
-/

namespace Outcome

variable {ε α β : Type}

@[simp] theorem ok_bind (a : α) (f : α → Except ε β) : (Except.ok a >>= f) = f a := rfl

@[simp] theorem error_bind (e : ε) (f : α → Except ε β) :
    (Except.error e >>= f) = Except.error e := rfl

@[simp] theorem pure_eq_ok (a : α) : (pure a : Except ε α) = Except.ok a := rfl

theorem bind_eq_ok {x : Except ε α} {f : α → Except ε β} {b : β} :
    (x >>= f) = .ok b ↔ ∃ a, x = .ok a ∧ f a = .ok b := by
  cases x with
  | error e => simp
  | ok a => simp

/-- The computation does not fault, and `P` holds of its result. -/
def Returns (x : Except ε α) (P : α → Prop) : Prop := ∃ a, x = .ok a ∧ P a

instance (x : Except ε α) (P : α → Prop) [DecidablePred P] : Decidable (Returns x P) :=
  match x with
  | .ok a => decidable_of_iff (P a) ⟨fun h => ⟨a, rfl, h⟩, fun ⟨_, he, h⟩ => by cases he; exact h⟩
  | .error _ => isFalse fun ⟨_, he, _⟩ => by cases he

theorem returns_ok {a : α} {P : α → Prop} : Returns (.ok a : Except ε α) P ↔ P a := by
  constructor
  · rintro ⟨b, he, h⟩
    cases he
    exact h
  · intro h
    exact ⟨a, rfl, h⟩

theorem not_returns_error {e : ε} {P : α → Prop} : ¬ Returns (.error e : Except ε α) P := by
  rintro ⟨a, he, -⟩
  cases he

/-- A `mapM` none of whose calls faults is a `map`. -/
theorem mapM_ok {f : α → Except ε β} {g : α → β} (l : List α) (h : ∀ a ∈ l, f a = .ok (g a)) :
    l.mapM f = .ok (l.map g) := by
  induction l with
  | nil => rfl
  | cons a l ih =>
    rw [List.mapM_cons, h a List.mem_cons_self, ih fun b hb => h b (List.mem_cons_of_mem a hb)]
    rfl

/-- A `mapM` returns the results of its calls, one for each item. -/
theorem mapM_eq_ok_iff {f : α → Except ε β} {l : List α} {l' : List β} :
    l.mapM f = .ok l' ↔ List.Forall₂ (fun a b => f a = .ok b) l l' := by
  induction l generalizing l' with
  | nil =>
    rw [List.mapM_nil, pure_eq_ok, List.forall₂_nil_left_iff]
    exact ⟨fun h => by cases h; rfl, fun h => by rw [h]⟩
  | cons a l ih =>
    rw [List.mapM_cons, bind_eq_ok, List.forall₂_cons_left_iff]
    constructor
    · rintro ⟨b, hb, h⟩
      obtain ⟨rest, hrest, h⟩ := bind_eq_ok.mp h
      cases h
      exact ⟨b, rest, hb, ih.mp hrest, rfl⟩
    · rintro ⟨b, rest, hb, hrest, rfl⟩
      refine ⟨b, hb, ?_⟩
      rw [ih.mpr hrest]
      rfl

/-- A `foldlM` none of whose steps faults, with what holds after each prefix of the list. -/
theorem foldlM_ok {f : β → α → Except ε β} {I : List α → β → Prop} (l : List α) (b : β)
    (h0 : I [] b)
    (hstep : ∀ done a rest b, l = done ++ a :: rest → I done b →
      ∃ b', f b a = .ok b' ∧ I (done ++ [a]) b') :
    ∃ b', l.foldlM f b = .ok b' ∧ I l b' := by
  have walk : ∀ (rest done : List α) (b : β), l = done ++ rest → I done b →
      ∃ b', rest.foldlM f b = .ok b' ∧ I l b' := by
    intro rest
    induction rest with
    | nil =>
      intro done b hl hI
      rw [List.append_nil] at hl
      exact ⟨b, rfl, hl ▸ hI⟩
    | cons a rest ih =>
      intro done b hl hI
      obtain ⟨b1, hb1, hI1⟩ := hstep done a rest b hl hI
      rw [List.foldlM_cons, hb1, ok_bind]
      exact ih (done ++ [a]) b1 (by rw [hl, List.append_assoc]; rfl) hI1
  exact walk l [] b rfl h0

/-- A `foldlM` none of whose steps faults is a `foldl`. -/
theorem foldlM_eq_foldl {f : β → α → Except ε β} {g : β → α → β} (l : List α) (b : β)
    (h : ∀ a ∈ l, ∀ b, f b a = .ok (g b a)) : l.foldlM f b = .ok (l.foldl g b) := by
  induction l generalizing b with
  | nil => rfl
  | cons a l ih =>
    rw [List.foldlM_cons, h a List.mem_cons_self, ok_bind, List.foldl_cons]
    exact ih (g b a) fun a' ha' => h a' (List.mem_cons_of_mem a ha')

/-- The steps of a `foldlM` that returns have all returned. -/
theorem exists_of_foldlM_ok {f : β → α → Except ε β} {l : List α} {b r : β} (h : l.foldlM f b = .ok r) :
    ∀ a ∈ l, ∃ b1 b2, f b1 a = .ok b2 := by
  induction l generalizing b with
  | nil =>
    intro a ha
    cases ha
  | cons a l ih =>
    rw [List.foldlM_cons] at h
    obtain ⟨b', hb', hrest⟩ := bind_eq_ok.mp h
    intro a' ha'
    rcases List.mem_cons.mp ha' with rfl | ha'
    · exact ⟨b, b', hb'⟩
    · exact ih hrest a' ha'

end Outcome
