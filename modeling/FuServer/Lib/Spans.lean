import Mathlib.Computability.Language
import FuServer.Lib.Codec

/-!
# Readers and the words they take

A reader may run past the end of its buffer.  `Spans r L` says that it stays
inside exactly on the buffers that go on with a word of the language `L`, and
that it takes this word.  `Codes` is the same for a reader whose result is
known from the word.  The rules follow the shape of the reader.
-/

namespace Codec

variable {β σ ε : Type}

/-- The words of all the languages. -/
def anyOf {α : Type} (L : α → Language β) : Language β := {w | ∃ a, w ∈ L a}

theorem mem_anyOf {α : Type} {L : α → Language β} {w : List β} : w ∈ anyOf L ↔ ∃ a, w ∈ L a :=
  Iff.rfl

section

variable {α : Type} (place : List β → Nat → σ)

/-- The reader leaves the buffer alone and never moves back. -/
structure Moves (r : StateT σ (Except ε) α) : Prop where
  keeps : ∀ buf i a s, r (place buf i) = .ok (a, s) → ∃ j, s = place buf j
  forward : ∀ buf i a j, r (place buf i) = .ok (a, place buf j) → i ≤ j

/-- The run from `before` takes the word `w` and returns `a`. -/
def Takes (r : StateT σ (Except ε) α) (before w after : List β) (a : α) : Prop :=
  r (place (before ++ w ++ after) before.length) =
    .ok (a, place (before ++ w ++ after) (before ++ w).length)

/-- A run that ends inside the buffer has taken a word of the language of its result. -/
def Inside (r : StateT σ (Except ε) α) (code : α → Language β) : Prop :=
  ∀ before rest a j, r (place (before ++ rest) before.length) = .ok (a, place (before ++ rest) j) →
    j ≤ (before ++ rest).length → ∃ w ∈ code a, ∃ after, rest = w ++ after ∧ j = (before ++ w).length

structure Spans (r : StateT σ (Except ε) α) (L : Language β) : Prop extends Moves place r where
  reads : ∀ before w after, w ∈ L → ∃ a, Takes place r before w after a
  inside : Inside place r fun _ => L

/-- `code a` are the words from which `a` is read. -/
structure Codes (r : StateT σ (Except ε) α) (code : α → Language β) : Prop extends
    Moves place r where
  reads : ∀ a before w after, w ∈ code a → Takes place r before w after a
  inside : Inside place r code

end

section Rules

variable {α γ : Type} {place : List β → Nat → σ}

/-- The two halves of a run of `r >>= f`. -/
theorem bind_halves {r : StateT σ (Except ε) α} {f : α → StateT σ (Except ε) γ} {s s' : σ} {c : γ}
    (h : (r >>= f) s = .ok (c, s')) : ∃ a s1, r s = .ok (a, s1) ∧ f a s1 = .ok (c, s') := by
  have hs : (r s).bind (fun p => f p.1 p.2) = .ok (c, s') := h
  cases hr : r s with
  | error e =>
    rw [hr] at hs
    cases hs
  | ok p =>
    rw [hr] at hs
    exact ⟨p.1, p.2, rfl, hs⟩

theorem Moves.bind {r : StateT σ (Except ε) α} {f : α → StateT σ (Except ε) γ}
    (h : Moves place r) (h' : ∀ a, Moves place (f a)) : Moves place (r >>= f) := by
  constructor
  · intro buf i c s hs
    obtain ⟨a, s1, hr, hf⟩ := bind_halves hs
    obtain ⟨j, rfl⟩ := h.keeps buf i a s1 hr
    exact (h' a).keeps buf j c s hf
  · intro buf i c k hs
    obtain ⟨a, s1, hr, hf⟩ := bind_halves hs
    obtain ⟨j, rfl⟩ := h.keeps buf i a s1 hr
    exact Nat.le_trans (h.forward buf i a j hr) ((h' a).forward buf j c k hf)

theorem spans_pure (hplace : ∀ buf, Function.Injective (place buf)) (a : α) :
    Spans place (pure a : StateT σ (Except ε) α) 1 := by
  refine ⟨⟨?_, ?_⟩, ?_, ?_⟩
  · rintro buf i _ s hs
    cases hs
    exact ⟨i, rfl⟩
  · intro buf i b j hs
    have hij : place buf i = place buf j := congrArg Prod.snd (Except.ok.inj hs)
    exact Nat.le_of_eq (hplace buf hij)
  · intro before w after hw
    rw [Language.mem_one] at hw
    subst hw
    refine ⟨a, ?_⟩
    unfold Takes
    rw [List.append_nil]
    rfl
  · intro before rest b j hs _
    have hij : place (before ++ rest) before.length = place (before ++ rest) j :=
      congrArg Prod.snd (Except.ok.inj hs)
    refine ⟨[], Language.nil_mem_one, rest, rfl, ?_⟩
    rw [List.append_nil]
    exact (hplace _ hij).symm

theorem takes_bind {r : StateT σ (Except ε) α} {f : α → StateT σ (Except ε) γ}
    {before u v after : List β} {a : α} {c : γ} (h : Takes place r before u (v ++ after) a)
    (h' : Takes place (f a) (before ++ u) v after c) :
    Takes place (r >>= f) before (u ++ v) after c := by
  unfold Takes at *
  have hbuf : before ++ (u ++ v) ++ after = before ++ u ++ v ++ after := by
    simp only [List.append_assoc]
  have hbuf' : before ++ u ++ (v ++ after) = before ++ u ++ v ++ after := by
    simp only [List.append_assoc]
  rw [hbuf'] at h
  rw [hbuf, ← List.append_assoc]
  show (r _).bind (fun p => f p.1 p.2) = _
  rw [h]
  exact h'

theorem inside_bind {r : StateT σ (Except ε) α} {f : α → StateT σ (Except ε) γ}
    {code : α → Language β} {L : α → Language β} (hr : Moves place r) (hf : ∀ a, Moves place (f a))
    (h : Inside place r code) (h' : ∀ a, Inside place (f a) fun _ => L a) :
    Inside place (r >>= f) fun _ => anyOf fun a => code a * L a := by
  intro before rest c k hs hk
  obtain ⟨a, s1, h1, h2⟩ := bind_halves hs
  obtain ⟨j, rfl⟩ := hr.keeps _ _ a s1 h1
  have hjk := (hf a).forward _ j c k h2
  obtain ⟨u, hu, after, rfl, rfl⟩ := h before rest a j h1 (Nat.le_trans hjk hk)
  rw [← List.append_assoc] at h2 hk
  obtain ⟨v, hv, after', rfl, rfl⟩ := h' a (before ++ u) after c k h2 hk
  refine ⟨u ++ v, mem_anyOf.mpr ⟨a, Language.append_mem_mul hu hv⟩, after', ?_, ?_⟩
  · rw [List.append_assoc]
  · rw [List.append_assoc]

/-- What follows may depend on what was read. -/
theorem Codes.bind {r : StateT σ (Except ε) α} {f : α → StateT σ (Except ε) γ}
    {code : α → Language β} {L : α → Language β} (h : Codes place r code)
    (h' : ∀ a, Spans place (f a) (L a)) : Spans place (r >>= f) (anyOf fun a => code a * L a) := by
  refine ⟨h.toMoves.bind fun a => (h' a).toMoves, fun before w after hw => ?_,
    inside_bind h.toMoves (fun a => (h' a).toMoves) h.inside fun a => (h' a).inside⟩
  obtain ⟨a, hw⟩ := mem_anyOf.mp hw
  obtain ⟨u, hu, v, hv, rfl⟩ := Language.mem_mul.mp hw
  obtain ⟨c, hf⟩ := (h' a).reads (before ++ u) v after hv
  exact ⟨c, takes_bind (h.reads a before u (v ++ after) hu) hf⟩

theorem Spans.bind {r : StateT σ (Except ε) α} {f : α → StateT σ (Except ε) γ}
    {L L' : Language β} (h : Spans place r L) (h' : ∀ a, Spans place (f a) L') :
    Spans place (r >>= f) (L * L') := by
  refine ⟨h.toMoves.bind fun a => (h' a).toMoves, fun before w after hw => ?_,
    fun before rest c k hs hk => ?_⟩
  · obtain ⟨u, hu, v, hv, rfl⟩ := Language.mem_mul.mp hw
    obtain ⟨a, hr⟩ := h.reads before u (v ++ after) hu
    obtain ⟨c, hf⟩ := (h' a).reads (before ++ u) v after hv
    exact ⟨c, takes_bind hr hf⟩
  · obtain ⟨w, hw, hafter⟩ := inside_bind h.toMoves (fun a => (h' a).toMoves) h.inside
      (fun a => (h' a).inside) before rest c k hs hk
    obtain ⟨-, hw⟩ := mem_anyOf.mp hw
    exact ⟨w, hw, hafter⟩

/-- The value read may be worked on before it is returned. -/
theorem Spans.map (hplace : ∀ buf, Function.Injective (place buf)) {r : StateT σ (Except ε) α}
    {L : Language β} (h : Spans place r L) (g : α → γ) :
    Spans place (r >>= fun a => pure (g a)) L := by
  have hdone := h.bind fun a => spans_pure hplace (g a)
  rw [mul_one] at hdone
  exact hdone

theorem Spans.times (hplace : ∀ buf, Function.Injective (place buf))
    {body : α → StateT σ (Except ε) α} {L : Language β} (h : ∀ acc, Spans place (body acc) L)
    (n : Nat) (acc : α) : Spans place (Codec.times body n acc) (L ^ n) := by
  induction n generalizing acc with
  | zero =>
    rw [pow_zero]
    exact spans_pure hplace acc
  | succ n ih =>
    rw [pow_succ']
    exact (h acc).bind ih

/-- **The buffers a reader stays in** are those that start with a word of its language. -/
theorem Spans.stays_iff {r : StateT σ (Except ε) α} {L : Language β} (h : Spans place r L)
    (buf : List β) :
    (∃ a j, r (place buf 0) = .ok (a, place buf j) ∧ j ≤ buf.length) ↔ ∃ w ∈ L, w <+: buf := by
  constructor
  · rintro ⟨a, j, hr, hj⟩
    obtain ⟨w, hw, after, hbuf, -⟩ := h.inside [] buf a j hr hj
    exact ⟨w, hw, after, hbuf.symm⟩
  · rintro ⟨w, hw, after, rfl⟩
    obtain ⟨a, hr⟩ := h.reads [] w after hw
    exact ⟨a, w.length, hr, by rw [List.length_append]; exact Nat.le_add_right _ _⟩

end Rules

end Codec
