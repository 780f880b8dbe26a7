import FuServer.Lib.Outcome

/-!
# Runs of a partial step function

`step s a = none` means the step cannot be taken (or has no defined outcome),
and the run ends there.  `Always` and `EachStep` speak about every state and
every step of a run; `always_iff_eachStep` is the rule that turns a one-step
equivalence into one about whole runs.  The last part is forward simulation
of a step function with outputs by an abstract step relation.
-/

namespace Runs

variable {σ : Type*} {α : Type*} (step : σ → α → Option σ)

/-- The state after the whole action list, if every step of it can be taken. -/
def run : σ → List α → Option σ
  | s, [] => some s
  | s, a :: as => (step s a).bind fun s' => run s' as

/-- `P` holds in every state the run passes through, the first included. -/
def Always (P : σ → Prop) : σ → List α → Prop
  | s, [] => P s
  | s, a :: as => P s ∧ ∀ s', step s a = some s' → Always P s' as

/-- Every step the run takes is taken in a state where `C` allows it. -/
def EachStep (C : σ → α → Prop) : σ → List α → Prop
  | _, [] => True
  | s, a :: as => ∀ s', step s a = some s' → C s a ∧ EachStep C s' as

instance decidableEachStep (C : σ → α → Prop) [∀ s a, Decidable (C s a)] :
    ∀ (s : σ) (as : List α), Decidable (EachStep step C s as)
  | _, [] => isTrue trivial
  | s, a :: as =>
    match hs : step s a with
    | none => isTrue fun s' h => by rw [hs] at h; cases h
    | some s1 =>
      haveI := decidableEachStep C s1 as
      decidable_of_iff (C s a ∧ EachStep step C s1 as)
        ⟨fun h s' h' => by rw [hs] at h'; cases h'; exact h, fun h => h s1 hs⟩

variable {step}

/-- A run of two lists is the run of the second from where the first ends. -/
theorem run_append (as bs : List α) (s : σ) :
    run step s (as ++ bs) = (run step s as).bind fun s' => run step s' bs := by
  induction as generalizing s with
  | nil => rfl
  | cons a as ih =>
    show (step s a).bind _ = ((step s a).bind _).bind _
    rw [Option.bind_assoc]
    congr 1
    exact funext ih

theorem Always.head {P : σ → Prop} {s : σ} {as : List α} (h : Always step P s as) : P s := by
  cases as with
  | nil => exact h
  | cons a as => exact h.1

/-- `Always` is about the states reached by the prefixes of the action list. -/
theorem always_iff_reached {P : σ → Prop} (as : List α) (s : σ) :
    Always step P s as ↔ ∀ pre post s', as = pre ++ post → run step s pre = some s' → P s' := by
  induction as generalizing s with
  | nil =>
    constructor
    · intro h pre post s' he hr
      obtain ⟨rfl, -⟩ := List.append_eq_nil_iff.mp he.symm
      cases hr
      exact h
    · intro h
      exact h [] [] s rfl rfl
  | cons a as ih =>
    constructor
    · rintro ⟨h0, h⟩ pre post s' he hr
      cases pre with
      | nil => cases hr; exact h0
      | cons b pre =>
        obtain ⟨rfl, rfl⟩ := List.cons.inj he
        obtain ⟨s1, hs1, hr⟩ := Option.bind_eq_some_iff.mp hr
        exact (ih s1).mp (h s1 hs1) pre post s' rfl hr
    · intro h
      refine ⟨h [] (a :: as) s rfl rfl, fun s1 hs1 => (ih s1).mpr fun pre post s' he hr => ?_⟩
      exact h (a :: pre) post s' (by rw [he]; rfl) (by rw [run, hs1]; exact hr)

/-- A run that can be taken to a state without `P` is no run of `P` states. -/
theorem not_always_of_any {P : σ → Prop} {b : σ → Bool} (hb : ∀ s, b s = true → ¬ P s)
    {s : σ} {as : List α} (h : (run step s as).any b = true) : ¬ Always step P s as := by
  intro ha
  obtain ⟨s', hs', hbad⟩ := (Option.any_eq_true _ _).mp h
  have hP := (always_iff_reached as s).mp ha as [] s' (List.append_nil as).symm hs'
  exact hb s' hbad hP

/-- An invariant that implies `P`. -/
theorem always_of_invariant {J P : σ → Prop} (hJ : ∀ s a s', J s → step s a = some s' → J s')
    (hP : ∀ s, J s → P s) (as : List α) (s : σ) (hj : J s) : Always step P s as := by
  induction as generalizing s with
  | nil => exact hP s hj
  | cons a as ih => exact ⟨hP s hj, fun s' hs => ih s' (hJ s a s' hj hs)⟩

/-- Where a run breaks `P` after its first steps, it breaks it. -/
theorem not_always_append {P : σ → Prop} {s s' : σ} {as bs : List α} (h : run step s as = some s')
    (h' : ¬ Always step P s' bs) : ¬ Always step P s (as ++ bs) := by
  induction as generalizing s with
  | nil =>
    cases h
    exact h'
  | cons a as ih =>
    obtain ⟨s1, hs1, hr⟩ := Option.bind_eq_some_iff.mp h
    exact fun ha => ih hr (ha.2 s1 hs1)

theorem eachStep_of_forall {C : σ → α → Prop} (as : List α) (s : σ)
    (h : ∀ s, ∀ a ∈ as, C s a) : EachStep step C s as := by
  induction as generalizing s with
  | nil => exact trivial
  | cons a as ih =>
    intro s' _
    exact ⟨h s a List.mem_cons_self, ih s' fun s b hb => h s b (List.mem_cons_of_mem a hb)⟩

/-- **From one step to whole runs.**  Suppose that on the steps of the domain
`D`, in states satisfying the invariant `J` and `P`, a step re-establishes `P`
exactly when `C` allows it.  Then `P` holds throughout a run inside the domain
exactly when every step of the run is allowed. -/
theorem always_iff_eachStep {J P : σ → Prop} {D C : σ → α → Prop}
    (hJ : ∀ s a s', J s → D s a → step s a = some s' → J s')
    (hPC : ∀ s a s', J s → P s → D s a → step s a = some s' → (P s' ↔ C s a))
    (as : List α) (s : σ) (hj : J s) (hP : P s) (hd : EachStep step D s as) :
    Always step P s as ↔ EachStep step C s as := by
  induction as generalizing s with
  | nil => exact ⟨fun _ => trivial, fun _ => hP⟩
  | cons a as ih =>
    constructor
    · rintro ⟨-, h⟩ s' hs
      obtain ⟨hda, hrest⟩ := hd s' hs
      have hP' := (h s' hs).head
      have hj' := hJ s a s' hj hda hs
      exact ⟨(hPC s a s' hj hP hda hs).mp hP', (ih s' hj' hP' hrest).mp (h s' hs)⟩
    · intro h
      refine ⟨hP, fun s' hs => ?_⟩
      obtain ⟨hda, hrest⟩ := hd s' hs
      obtain ⟨hc, hsteps⟩ := h s' hs
      have hP' := (hPC s a s' hj hP hda hs).mpr hc
      exact (ih s' (hJ s a s' hj hda hs) hP' hrest).mpr hsteps

/-- Two step conditions that agree, on the steps of the domain `D`, in every
state of `J` agree on whole runs inside the domain.  `J` only has to outlive
the steps that are allowed. -/
theorem eachStep_congr {J : σ → Prop} {D C C' : σ → α → Prop}
    (hJ : ∀ s a s', J s → D s a → C' s a → step s a = some s' → J s')
    (hC : ∀ s a s', J s → D s a → step s a = some s' → (C s a ↔ C' s a))
    (as : List α) (s : σ) (hj : J s) (hd : EachStep step D s as) :
    EachStep step C s as ↔ EachStep step C' s as := by
  induction as generalizing s with
  | nil => exact Iff.rfl
  | cons a as ih =>
    have one : ∀ s', step s a = some s' →
        (C s a ∧ EachStep step C s' as ↔ C' s a ∧ EachStep step C' s' as) := by
      intro s' hs
      obtain ⟨hda, hrest⟩ := hd s' hs
      have hcc := hC s a s' hj hda hs
      constructor
      · rintro ⟨hc, h⟩
        have hc' := hcc.mp hc
        exact ⟨hc', (ih s' (hJ s a s' hj hda hc' hs) hrest).mp h⟩
      · rintro ⟨hc', h⟩
        exact ⟨hcc.mpr hc', (ih s' (hJ s a s' hj hda hc' hs) hrest).mpr h⟩
    exact forall_congr' fun s' => imp_congr_right (one s')

/-! ## Runs inside a domain -/

section Within

variable (step)

/-- Every step the run comes to is one that `D` allows in the state it is asked for in. -/
def Within (D : σ → α → Prop) : σ → List α → Prop
  | _, [] => True
  | s, a :: as => D s a ∧ ∀ s' ∈ step s a, Within D s' as

instance decidableWithin (D : σ → α → Prop) [∀ s a, Decidable (D s a)] :
    ∀ (s : σ) (as : List α), Decidable (Within step D s as)
  | _, [] => isTrue trivial
  | s, a :: as =>
    match hs : step s a with
    | none =>
      decidable_of_iff (D s a) ⟨fun h => ⟨h, fun r hr => by rw [hs] at hr; cases hr⟩, fun h => h.1⟩
    | some s' =>
      haveI := decidableWithin D s' as
      decidable_of_iff (D s a ∧ Within step D s' as)
        ⟨fun h => ⟨h.1, fun r hr => by rw [hs] at hr; cases hr; exact h.2⟩, fun h => ⟨h.1, h.2 s' hs⟩⟩

variable {step}

theorem within_append {D : σ → α → Prop} {as bs : List α} {s : σ} :
    Within step D s (as ++ bs) ↔ Within step D s as ∧ ∀ s' ∈ run step s as, Within step D s' bs := by
  induction as generalizing s with
  | nil => exact ⟨fun h => ⟨trivial, fun s' hs => by cases hs; exact h⟩, fun h => h.2 s rfl⟩
  | cons a as ih =>
    constructor
    · rintro ⟨hd, hrest⟩
      refine ⟨⟨hd, fun s1 hs => (ih.mp (hrest s1 hs)).1⟩, fun s' hs' => ?_⟩
      obtain ⟨s1, hs, hrun⟩ := Option.bind_eq_some_iff.mp hs'
      exact (ih.mp (hrest s1 hs)).2 s' hrun
    · rintro ⟨⟨hd, hfirst⟩, hsecond⟩
      exact ⟨hd, fun s1 hs =>
        ih.mpr ⟨hfirst s1 hs, fun s' hs' => hsecond s' (Option.bind_eq_some_iff.mpr ⟨s1, hs, hs'⟩)⟩⟩

/-- If in the states of `J` the steps of the domain can be taken and lead to states of `J`,
a run inside the domain goes through. -/
theorem run_of_within {J : σ → Prop} {D : σ → α → Prop}
    (h : ∀ s a, J s → D s a → ∃ s', step s a = some s' ∧ J s') (as : List α) (s : σ) (hj : J s)
    (hd : Within step D s as) :
    ∃ s', run step s as = some s' ∧ J s' := by
  induction as generalizing s with
  | nil => exact ⟨s, rfl, hj⟩
  | cons a as ih =>
    obtain ⟨hda, hrest⟩ := hd
    obtain ⟨s1, hs1, hj1⟩ := h s a hj hda
    obtain ⟨s', hs', hj'⟩ := ih s1 hj1 (hrest s1 hs1)
    refine ⟨s', ?_, hj'⟩
    rw [run, hs1]
    exact hs'

end Within

/-! ## Steps that may fault -/

section Faults

open Outcome

variable {ε : Type} {τ : Type} {cstep : Except ε τ → α → Option (Except ε τ)}

/-- `always_iff_eachStep` for states that a fault can end: no step in a state
of `J` faults. -/
theorem always_returns_iff {J P : τ → Prop} {C : τ → α → Prop}
    (hstep : ∀ s a r, J s → cstep (.ok s) a = some r → ∃ s', r = .ok s' ∧ J s' ∧ (P s → (P s' ↔ C s a)))
    (as : List α) (s : τ) (hj : J s) (hP : P s) :
    Always cstep (fun r => Returns r P) (.ok s) as ↔
      EachStep cstep (fun r a => ∀ s, r = .ok s → C s a) (.ok s) as := by
  apply always_iff_eachStep (J := fun r => Returns r J) (D := fun _ _ => True)
  · rintro r a r' ⟨s, rfl, hj⟩ - hs
    obtain ⟨s', rfl, hj', -⟩ := hstep s a r' hj hs
    exact ⟨s', rfl, hj'⟩
  · rintro r a r' ⟨s, rfl, hj⟩ hP - hs
    obtain ⟨s', rfl, -, hPC⟩ := hstep s a r' hj hs
    rw [returns_ok, hPC (returns_ok.mp hP)]
    constructor
    · intro h t ht
      cases ht
      exact h
    · intro h
      exact h s rfl
  · exact ⟨s, rfl, hj⟩
  · exact ⟨s, rfl, hP⟩
  · exact eachStep_of_forall as _ fun _ _ _ => trivial

end Faults

/-! ## Forward simulation -/

section Simulation

variable {β τ : Type*} (cstep : σ → α → Option (σ × β)) (astep : τ → α → β → τ → Prop)

/-- Run a step function with outputs. -/
def runOut : σ → List α → Option (σ × List β)
  | s, [] => some (s, [])
  | s, a :: as => (cstep s a).bind fun r => (runOut r.1 as).map fun q => (q.1, r.2 :: q.2)

/-- A run of the abstract relation with the given outputs. -/
def SpecRun : τ → List α → List β → τ → Prop
  | t, [], [], t' => t = t'
  | t, a :: as, b :: bs, t' => ∃ t1, astep t a b t1 ∧ SpecRun t1 as bs t'
  | _, _, _, _ => False

variable {cstep astep}

/-- **Simulation.**  If every allowed step can be taken and is matched by an
abstract step with the same output, whole runs are matched. -/
theorem simulation {R : σ → τ → Prop} {D : α → Prop}
    (h : ∀ s t a, R s t → D a →
      ∃ s' b t', cstep s a = some (s', b) ∧ astep t a b t' ∧ R s' t')
    (as : List α) (s : σ) (t : τ) (hok : ∀ a ∈ as, D a) (hR : R s t) :
    ∃ s' bs t', runOut cstep s as = some (s', bs) ∧ SpecRun astep t as bs t' ∧ R s' t' := by
  induction as generalizing s t with
  | nil => exact ⟨s, [], t, rfl, rfl, hR⟩
  | cons a as ih =>
    obtain ⟨s1, b, t1, hs, ha, hR1⟩ := h s t a hR (hok a List.mem_cons_self)
    obtain ⟨s', bs, t', hs', ha', hR'⟩ := ih s1 t1 (fun c hc => hok c (List.mem_cons_of_mem a hc)) hR1
    exact ⟨s', b :: bs, t', by simp [runOut, hs, hs'], ⟨t1, ha, ha'⟩, hR'⟩

/-- `simulation` where a step is allowed or not by the state it is taken in. -/
theorem simulation_within {R : σ → τ → Prop} {D : σ → α → Prop}
    (h : ∀ s t a, R s t → D s a →
      ∃ s' b t', cstep s a = some (s', b) ∧ astep t a b t' ∧ R s' t')
    (as : List α) (s : σ) (t : τ) (hok : Within (fun s a => (cstep s a).map (·.1)) D s as) (hR : R s t) :
    ∃ s' bs t', runOut cstep s as = some (s', bs) ∧ SpecRun astep t as bs t' ∧ R s' t' := by
  induction as generalizing s t with
  | nil => exact ⟨s, [], t, rfl, rfl, hR⟩
  | cons a as ih =>
    obtain ⟨hd, hrest⟩ := hok
    obtain ⟨s1, b, t1, hs, ha, hR1⟩ := h s t a hR hd
    have hnext : (cstep s a).map (·.1) = some s1 := by rw [hs, Option.map_some]
    obtain ⟨s', bs, t', hs', ha', hR'⟩ := ih s1 t1 (hrest s1 hnext) hR1
    exact ⟨s', b :: bs, t', by simp [runOut, hs, hs'], ⟨t1, ha, ha'⟩, hR'⟩

/-- One more step at the end of a run. -/
theorem runOut_concat {as : List α} {s s1 : σ} {bs : List β} (h : runOut cstep s as = some (s1, bs))
    {a : α} {s2 : σ} {b : β}
    (hstep : cstep s1 a = some (s2, b)) : runOut cstep s (as ++ [a]) = some (s2, bs ++ [b]) := by
  induction as generalizing s bs with
  | nil =>
    cases h
    simp [runOut, hstep]
  | cons c as ih =>
    obtain ⟨⟨s', b'⟩, hc, h⟩ := Option.bind_eq_some_iff.mp h
    obtain ⟨⟨s'', bs'⟩, hrun, heq⟩ := Option.map_eq_some_iff.mp h
    cases heq
    have hrest := ih hrun
    show ((cstep s c).bind fun r => (runOut cstep r.1 (as ++ [a])).map fun q => (q.1, r.2 :: q.2)) = _
    rw [hc, Option.bind_some, hrest]
    rfl

theorem SpecRun.concat {as : List α} {t t1 : τ} {bs : List β} (h : SpecRun astep t as bs t1) {a : α}
    {b : β} {t2 : τ}
    (hstep : astep t1 a b t2) : SpecRun astep t (as ++ [a]) (bs ++ [b]) t2 := by
  induction as generalizing t bs with
  | nil =>
    cases bs with
    | nil =>
      cases h
      exact ⟨t2, hstep, rfl⟩
    | cons b' bs => exact absurd h id
  | cons c as ih =>
    cases bs with
    | nil => exact absurd h id
    | cons b' bs =>
      obtain ⟨t', hc, h⟩ := h
      exact ⟨t', hc, ih h⟩

/-- Each operation of a run took a step. -/
theorem SpecRun.exists_step {γ : Type*} {f : γ → α} {g : γ → β} {l : List γ} {t t' : τ}
    (h : SpecRun astep t (l.map f) (l.map g) t') {x : γ} (hx : x ∈ l) :
    ∃ t1 t2, astep t1 (f x) (g x) t2 := by
  induction l generalizing t with
  | nil => cases hx
  | cons y l ih =>
    obtain ⟨t1, hstep, hrest⟩ := h
    cases hx with
    | head => exact ⟨t, t1, hstep⟩
    | tail _ hx => exact ih hrest hx

/-- A run of two lists has a state in between. -/
theorem SpecRun.split {as as' : List α} {t t' : τ} {bs bs' : List β} (hlen : bs.length = as.length)
    (h : SpecRun astep t (as ++ as') (bs ++ bs') t') :
    ∃ t1, SpecRun astep t as bs t1 ∧ SpecRun astep t1 as' bs' t' := by
  induction as generalizing t bs with
  | nil =>
    obtain rfl := List.length_eq_zero_iff.mp hlen
    exact ⟨t, rfl, h⟩
  | cons a as ih =>
    cases bs with
    | nil => cases hlen
    | cons b bs =>
      obtain ⟨t2, hstep, hrest⟩ := h
      obtain ⟨t1, hfirst, hsecond⟩ := ih (Nat.succ.inj hlen) hrest
      exact ⟨t1, ⟨t2, hstep, hfirst⟩, hsecond⟩

/-- A run told by other outputs, each of which goes with the one it replaces. -/
theorem SpecRun.retold {α' γ : Type*} {astep' : τ → α' → γ → τ → Prop} {g : α → α'} {Q : β → γ → Prop}
    (h : ∀ t a b t', astep t a b t' → ∃ c, astep' t (g a) c t' ∧ Q b c) {as : List α} {t t' : τ}
    {bs : List β} (hrun : SpecRun astep t as bs t') :
    ∃ cs, SpecRun astep' t (as.map g) cs t' ∧ List.Forall₂ Q bs cs := by
  induction as generalizing t bs with
  | nil =>
    cases bs with
    | nil => exact ⟨[], hrun, .nil⟩
    | cons b bs => cases hrun
  | cons a as ih =>
    cases bs with
    | nil => cases hrun
    | cons b bs =>
      obtain ⟨t1, hstep, hrest⟩ := hrun
      obtain ⟨c, hstep', hc⟩ := h t a b t1 hstep
      obtain ⟨cs, hrest', hcs⟩ := ih hrest
      exact ⟨c :: cs, ⟨t1, hstep', hrest'⟩, .cons hc hcs⟩

end Simulation

end Runs
