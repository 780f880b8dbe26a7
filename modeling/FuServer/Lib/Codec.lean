import Mathlib.Data.List.Basic

/-!
# Writers and readers over one buffer

A writer appends to a buffer; a reader takes what stands at its position and
moves the position past it.  `RoundTrips` pairs the two.  The rules follow the
shape of the reader: a `bind`, a counted loop, a result.  `Overwrites` is for a
writer that has a position too and writes over what stands there.
-/

namespace Codec

variable {β σ ε : Type}

/-- `w` and then `w'`. -/
def andThen (w w' : σ → σ) (d : σ) : σ := w' (w d)

section

variable {α : Type} (place : List β → Nat → σ)

/-- `w` appends `bytes` and leaves the position. -/
def Writes (w : σ → σ) (bytes : List β) : Prop :=
  ∀ buf i, w (place buf i) = place (buf ++ bytes) i

/-- Wherever `bytes` stand, `r` reads `a` off them and stops right after them. -/
def ReadsBack (r : StateT σ (Except ε) α) (bytes : List β) (a : α) : Prop :=
  ∀ before after, r (place (before ++ bytes ++ after) before.length) =
    .ok (a, place (before ++ bytes ++ after) (before ++ bytes).length)

/-- `w` writes `bytes` over as many at its position and stops right after them. -/
def Overwrites (w : StateT σ (Except ε) Unit) (bytes : List β) : Prop :=
  ∀ before old after, old.length = bytes.length →
    w (place (before ++ old ++ after) before.length) =
      .ok ((), place (before ++ bytes ++ after) (before ++ bytes).length)

/-- `r` reads `a` off what `w` writes. -/
def RoundTrips (w : σ → σ) (r : StateT σ (Except ε) α) (a : α) : Prop :=
  ∃ bytes, Writes place w bytes ∧ ReadsBack place r bytes a

end

section Rules

variable {α γ : Type} {place : List β → Nat → σ}

/-! ### Reading -/

theorem readsBack_pure (a : α) : ReadsBack (ε := ε) place (pure a) [] a := by
  intro before after
  rw [List.append_nil]
  rfl

theorem ReadsBack.bind {r : StateT σ (Except ε) α} {bytes bytes' : List β} {a : α}
    {f : α → StateT σ (Except ε) γ} {c : γ} (h : ReadsBack place r bytes a)
    (h' : ReadsBack place (f a) bytes' c) : ReadsBack place (r >>= f) (bytes ++ bytes') c := by
  intro before after
  have h1 := h before (bytes' ++ after)
  have h2 := h' (before ++ bytes) after
  have hbuf : before ++ bytes ++ (bytes' ++ after) = before ++ bytes ++ bytes' ++ after := by
    simp only [List.append_assoc]
  have hbuf' : before ++ (bytes ++ bytes') ++ after = before ++ bytes ++ bytes' ++ after := by
    simp only [List.append_assoc]
  rw [hbuf] at h1
  rw [hbuf', ← List.append_assoc]
  show (r (place (before ++ bytes ++ bytes' ++ after) before.length)).bind (fun p => f p.1 p.2) = _
  rw [h1]
  exact h2

/-- What is read may be worked on. -/
theorem ReadsBack.result {r : StateT σ (Except ε) α} {bytes : List β} {a : α}
    {f : α → StateT σ (Except ε) γ} {c : γ} (h : ReadsBack place r bytes a) (hf : f a = pure c) :
    ReadsBack place (r >>= f) bytes c := by
  have hdone := h.bind (f := f) (hf ▸ readsBack_pure c)
  rw [List.append_nil] at hdone
  exact hdone

/-! ### Writing in place -/

theorem overwrites_pure : Overwrites (ε := ε) place (pure ()) [] := by
  intro before old after hold
  rw [List.length_eq_zero_iff.mp hold, List.append_nil]
  rfl

theorem Overwrites.bind {w w' : StateT σ (Except ε) Unit} {bytes bytes' : List β}
    (h : Overwrites place w bytes) (h' : Overwrites place w' bytes') :
    Overwrites place (w >>= fun _ => w') (bytes ++ bytes') := by
  intro before old after hold
  rw [List.length_append] at hold
  have htake : (old.take bytes.length).length = bytes.length := by
    rw [List.length_take]
    omega
  have hdrop : (old.drop bytes.length).length = bytes'.length := by
    rw [List.length_drop]
    omega
  have h1 := h before (old.take bytes.length) (old.drop bytes.length ++ after) htake
  have h2 := h' (before ++ bytes) (old.drop bytes.length) after hdrop
  have hbuf : before ++ old.take bytes.length ++ (old.drop bytes.length ++ after) = before ++ old ++
      after := by
    rw [List.append_assoc, ← List.append_assoc (old.take _), List.take_append_drop, List.append_assoc]
  have hbuf' : before ++ (bytes ++ bytes') ++ after = before ++ bytes ++ bytes' ++ after := by
    simp only [List.append_assoc]
  rw [hbuf, ← List.append_assoc (before ++ bytes)] at h1
  rw [hbuf', ← List.append_assoc]
  show (w (place (before ++ old ++ after) before.length)).bind (fun p => w' p.2) = _
  rw [h1]
  exact h2

/-- A loop that writes the items of a list, one behind the other. -/
theorem Overwrites.forM {item : Type} {put : item → StateT σ (Except ε) Unit} {enc : item → List β}
    (l : List item) (h : ∀ x ∈ l, Overwrites place (put x) (enc x)) :
    Overwrites place (l.forM put) (l.flatMap enc) := by
  induction l with
  | nil => exact overwrites_pure
  | cons x l ih =>
    rw [List.flatMap_cons]
    exact (h x List.mem_cons_self).bind (ih fun y hy => h y (List.mem_cons_of_mem x hy))

/-! ### Round trips -/

theorem roundTrips_pure (a : α) : RoundTrips (ε := ε) place (fun d => d) (pure a) a := by
  refine ⟨[], fun buf i => ?_, readsBack_pure a⟩
  rw [List.append_nil]

/-- One after the other, with what the first reads at hand for the second. -/
theorem RoundTrips.bind {w w' : σ → σ} {r : StateT σ (Except ε) α} {a : α}
    {f : α → StateT σ (Except ε) γ} {c : γ} (h : RoundTrips place w r a)
    (h' : RoundTrips place w' (f a) c) : RoundTrips place (andThen w w') (r >>= f) c := by
  obtain ⟨bytes, hw, hr⟩ := h
  obtain ⟨bytes', hw', hr'⟩ := h'
  refine ⟨bytes ++ bytes', fun buf i => ?_, hr.bind hr'⟩
  show w' (w (place buf i)) = _
  rw [hw, hw', List.append_assoc]

/-- What is read may be worked on before it is returned. -/
theorem RoundTrips.map {w : σ → σ} {r : StateT σ (Except ε) α} {a : α} (g : α → γ)
    (h : RoundTrips place w r a) :
    RoundTrips place w (r >>= fun a => pure (g a)) (g a) := by
  have hdone := h.bind (f := fun a => pure (g a)) (roundTrips_pure (g a))
  exact hdone

/-! ## Counted loops -/

/-- `body` run `n` times. -/
def times {m : Type → Type} [Monad m] (body : α → m α) : Nat → α → m α
  | 0, acc => pure acc
  | n + 1, acc => do
    let acc ← body acc
    times body n acc

/-- A loop that writes the items of a list against one that reads as many. -/
theorem RoundTrips.times {item : Type} {put : σ → item → σ}
    {body : α → StateT σ (Except ε) α} {step : α → item → α} (l : List item) (acc : α)
    (h : ∀ acc, ∀ x ∈ l, RoundTrips place (fun d => put d x) (body acc) (step acc x)) :
    RoundTrips place (fun d => l.foldl put d) (Codec.times body l.length acc) (l.foldl step acc) := by
  induction l generalizing acc with
  | nil => exact roundTrips_pure acc
  | cons x l ih =>
    have hhead := h acc x List.mem_cons_self
    have htail := ih (step acc x) fun acc' y hy => h acc' y (List.mem_cons_of_mem x hy)
    exact hhead.bind htail

/-- The reading loop alone, over items that stand one behind the other. -/
theorem ReadsBack.times {item : Type} {enc : item → List β} {body : α → StateT σ (Except ε) α}
    {step : α → item → α} (l : List item) (acc : α)
    (h : ∀ acc, ∀ x ∈ l, ReadsBack place (body acc) (enc x) (step acc x)) :
    ReadsBack place (Codec.times body l.length acc) (l.flatMap enc) (l.foldl step acc) := by
  induction l generalizing acc with
  | nil => exact readsBack_pure acc
  | cons x l ih =>
    rw [List.flatMap_cons]
    exact (h acc x List.mem_cons_self).bind
      (ih (step acc x) fun acc' y hy => h acc' y (List.mem_cons_of_mem x hy))

/-- A loop over `g` of an accumulator is `g` of the loop. -/
theorem times_map {m : Type → Type} [Monad m] [LawfulMonad m] {body : α → m α} {g : α → α}
    (h : ∀ acc, body (g acc) = g <$> body acc) (n : Nat) (acc : α) :
    Codec.times body n (g acc) = g <$> Codec.times body n acc := by
  induction n generalizing acc with
  | zero => exact (map_pure g acc).symm
  | succ n ih =>
    rw [Codec.times, Codec.times, h, bind_map_left, map_bind]
    exact bind_congr fun acc' => ih acc'

/-- Written into an empty buffer, with anything after it. -/
theorem RoundTrips.read {w : σ → σ} {r : StateT σ (Except ε) α} {a : α}
    (h : RoundTrips place w r a) :
    ∃ buf, w (place [] 0) = place buf 0 ∧
      ∀ after, r (place (buf ++ after) 0) = .ok (a, place (buf ++ after) buf.length) := by
  obtain ⟨bytes, hw, hr⟩ := h
  exact ⟨bytes, hw [] 0, fun after => hr [] after⟩

end Rules

/-! ## What a reader can read -/

section Yields

variable {α γ : Type}

/-- Whatever `r` reads satisfies `P`. -/
def Yields (r : StateT σ (Except ε) α) (P : α → Prop) : Prop :=
  ∀ s a s', r s = .ok (a, s') → P a

theorem yields_pure {a : α} {P : α → Prop} (h : P a) :
    Yields (pure a : StateT σ (Except ε) α) P := by
  rintro s _ s' hs
  cases hs
  exact h

theorem Yields.bind {r : StateT σ (Except ε) α} {f : α → StateT σ (Except ε) γ} {P : α → Prop}
    {Q : γ → Prop} (h : Yields r P) (h' : ∀ a, P a → Yields (f a) Q) : Yields (r >>= f) Q := by
  intro s c s' hs
  have hs : (r s).bind (fun p => f p.1 p.2) = .ok (c, s') := hs
  cases hr : r s with
  | error e =>
    rw [hr] at hs
    cases hs
  | ok p =>
    rw [hr] at hs
    exact h' p.1 (h s p.1 p.2 hr) p.2 c s' hs

/-- An invariant of the rounds of a loop, with the number of rounds done. -/
theorem Yields.times {body : α → StateT σ (Except ε) α} {I : Nat → α → Prop}
    (h : ∀ n acc, I n acc → Yields (body acc) (I (n + 1))) (n k : Nat) (acc : α) (h0 : I k acc) :
    Yields (Codec.times body n acc) (I (k + n)) := by
  induction n generalizing k acc with
  | zero => exact yields_pure h0
  | succ n ih =>
    refine (h k acc h0).bind fun acc' h' => ?_
    have hrest := ih (k + 1) acc' h'
    rw [Nat.add_right_comm, Nat.add_assoc] at hrest
    exact hrest

end Yields

end Codec
