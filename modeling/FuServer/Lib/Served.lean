import Mathlib.Data.List.Induction
import Mathlib.Logic.Function.Basic
import FuServer.Lib.Runs

/-!
# Many clients, one server

Each client has a line of requests to the server and a line of replies back,
first in first out.  The server takes the first request of some client, in no
fixed order, and now and then does something of its own.  `served_refines`: in
every interleaving the history of the server is a run of what the server
refines, each client's part of it is what the client asked for, in order, and
the replies come back in that order.  `order_respects_time`: what was answered
before something else was asked for stands before it in the history.
-/

namespace Served

open Runs

variable {ι σ α ρ ε β : Type*}

/-- One operation of the server: the client and the request it is for, if any, and what was sent back. -/
structure Entry (ι α ρ β : Type*) where
  client : Option (ι × ρ)
  op : α
  sent : List β

/-- The server, the lines to and from each client, and what has happened: what each client
has asked for, what the server has done, what each client has been handed. -/
structure Net (ι σ α ρ β : Type*) where
  server : σ
  requests : ι → List ρ
  replies : ι → List β
  asked : ι → List ρ
  history : List (Entry ι α ρ β)
  handed : ι → List β

/-- A client sends, the server serves a client or does something of its own, a client takes a reply.
What else the server needs to serve a request comes with the event. -/
inductive Event (ι α ρ ε : Type*)
  | send (i : ι) (r : ρ)
  | serve (i : ι) (env : ε)
  | own (a : α)
  | take (i : ι)

/-- Nothing sent yet. -/
def start (s : σ) : Net ι σ α ρ β where
  server := s
  requests := fun _ => []
  replies := fun _ => []
  asked := fun _ => []
  history := []
  handed := fun _ => []

/-- The requests of a client that have been served, with what was sent back. -/
def servedOf [DecidableEq ι] (i : ι) (history : List (Entry ι α ρ β)) : List (ρ × List β) :=
  history.filterMap fun e => e.client.bind fun c => if c.1 = i then some (c.2, e.sent) else none

section Steps

variable [DecidableEq ι] (step : σ → α → Option (σ × List β)) (ask : ε → ρ → α)

def netStep (n : Net ι σ α ρ β) : Event ι α ρ ε → Option (Net ι σ α ρ β)
  | .send i r => some { n with
      requests := Function.update n.requests i (n.requests i ++ [r])
      asked := Function.update n.asked i (n.asked i ++ [r]) }
  | .serve i env =>
    match n.requests i with
    | [] => none
    | r :: rest => (step n.server (ask env r)).map fun p => { n with
        server := p.1
        requests := Function.update n.requests i rest
        replies := Function.update n.replies i (n.replies i ++ p.2)
        history := n.history ++ [⟨some (i, r), ask env r, p.2⟩] }
  | .own a => (step n.server a).map fun p => { n with
      server := p.1
      history := n.history ++ [⟨none, a, p.2⟩] }
  | .take i =>
    match n.replies i with
    | [] => none
    | b :: rest => some { n with
        replies := Function.update n.replies i rest
        handed := Function.update n.handed i (n.handed i ++ [b]) }

variable {step ask}

/-! ## The history -/

/-- What is always so.  The history is a run of the server; a client's requests are those
served, in order, and those waiting; what it was sent is what it was handed, and what waits. -/
structure Sound (step : σ → α → Option (σ × List β)) (ask : ε → ρ → α) (s : σ)
    (n : Net ι σ α ρ β) : Prop where
  run : runOut step s (n.history.map (·.op)) = some (n.server, n.history.map (·.sent))
  requests : ∀ i, n.asked i = (servedOf i n.history).map (·.1) ++ n.requests i
  replies : ∀ i, (servedOf i n.history).flatMap (·.2) = n.handed i ++ n.replies i
  ops : ∀ e ∈ n.history, ∀ c ∈ e.client, ∃ env, e.op = ask env c.2

theorem servedOf_concat (i : ι) (history : List (Entry ι α ρ β)) (e : Entry ι α ρ β) :
    servedOf i (history ++ [e]) = servedOf i history ++
      (e.client.bind fun c => if c.1 = i then some (c.2, e.sent) else none).toList := by
  unfold servedOf
  rw [List.filterMap_append]
  congr 1

theorem sound_start (s : σ) : Sound step ask s (start s : Net ι σ α ρ β) :=
  ⟨rfl, fun _ => rfl, fun _ => rfl, nofun⟩

theorem sound_step {s : σ} {n n' : Net ι σ α ρ β} (h : Sound step ask s n) {e : Event ι α ρ ε}
    (hs : netStep step ask n e = some n') : Sound step ask s n' := by
  cases e with
  | send i r =>
    cases hs
    refine ⟨h.run, fun j => ?_, h.replies, h.ops⟩
    show Function.update n.asked i _ j = _ ++ Function.update n.requests i _ j
    by_cases hj : j = i
    · subst hj
      rw [Function.update_self, Function.update_self, h.requests j, List.append_assoc]
    · rw [Function.update_of_ne hj, Function.update_of_ne hj, h.requests j]
  | serve i env =>
    unfold netStep at hs
    dsimp only at hs
    cases hr : n.requests i with
    | nil => rw [hr] at hs; cases hs
    | cons r rest =>
      rw [hr] at hs
      obtain ⟨⟨s', b⟩, hstep, rfl⟩ := Option.map_eq_some_iff.mp hs
      refine ⟨?_, fun j => ?_, fun j => ?_, fun e he c hc => ?_⟩
      · show runOut step s ((n.history ++ [_]).map _) = some (s', (n.history ++ [_]).map _)
        rw [List.map_append, List.map_append]
        exact runOut_concat h.run hstep
      · show n.asked j = (servedOf j (n.history ++ [_])).map _ ++ Function.update n.requests i rest j
        rw [servedOf_concat, List.map_append, h.requests j]
        by_cases hj : j = i
        · subst hj
          rw [Function.update_self, hr]
          simp
        · rw [Function.update_of_ne hj]
          simp [Ne.symm hj]
      · show (servedOf j (n.history ++ [_])).flatMap _ = n.handed j ++ Function.update n.replies i _ j
        rw [servedOf_concat, List.flatMap_append, h.replies j]
        by_cases hj : j = i
        · subst hj
          rw [Function.update_self]
          simp
        · rw [Function.update_of_ne hj]
          simp [Ne.symm hj]
      · rcases List.mem_append.mp he with he | he
        · exact h.ops e he c hc
        · rw [List.mem_singleton] at he
          subst he
          cases hc
          exact ⟨env, rfl⟩
  | own a =>
    obtain ⟨⟨s', b⟩, hstep, rfl⟩ := Option.map_eq_some_iff.mp hs
    refine ⟨?_, fun j => ?_, fun j => ?_, fun e he c hc => ?_⟩
    · show runOut step s ((n.history ++ [_]).map _) = some (s', (n.history ++ [_]).map _)
      rw [List.map_append, List.map_append]
      exact runOut_concat h.run hstep
    · show n.asked j = (servedOf j (n.history ++ [_])).map _ ++ n.requests j
      rw [servedOf_concat, h.requests j]
      simp
    · show (servedOf j (n.history ++ [_])).flatMap _ = n.handed j ++ n.replies j
      rw [servedOf_concat, List.flatMap_append, h.replies j]
      simp
    · rcases List.mem_append.mp he with he | he
      · exact h.ops e he c hc
      · rw [List.mem_singleton] at he
        subst he
        cases hc
  | take i =>
    unfold netStep at hs
    dsimp only at hs
    cases hb : n.replies i with
    | nil => rw [hb] at hs; cases hs
    | cons b rest =>
      rw [hb] at hs
      cases hs
      refine ⟨h.run, h.requests, fun j => ?_, h.ops⟩
      show _ = Function.update n.handed i _ j ++ Function.update n.replies i rest j
      by_cases hj : j = i
      · subst hj
        rw [Function.update_self, Function.update_self, h.replies j, hb]
        simp
      · rw [Function.update_of_ne hj, Function.update_of_ne hj, h.replies j]

theorem sound_run {s : σ} {n n' : Net ι σ α ρ β} (h : Sound step ask s n) {evs : List (Event ι α ρ ε)}
    (hr : run (netStep step ask) n evs = some n') : Sound step ask s n' := by
  induction evs generalizing n with
  | nil =>
    cases hr
    exact h
  | cons e evs ih =>
    obtain ⟨n1, hs, hr⟩ := Option.bind_eq_some_iff.mp hr
    exact ih (sound_step h hs) hr

/-! ## Refinement -/

/-- What may happen: the server is only given what `D` allows, a client only takes what is there. -/
def Allowed (ask : ε → ρ → α) (D : σ → α → Prop) (n : Net ι σ α ρ β) : Event ι α ρ ε → Prop
  | .send _ _ => True
  | .serve i env => ∃ r ∈ (n.requests i).head?, D n.server (ask env r)
  | .own a => D n.server a
  | .take i => n.replies i ≠ []

instance (ask : ε → ρ → α) (D : σ → α → Prop) [∀ s a, Decidable (D s a)] (n : Net ι σ α ρ β)
    (e : Event ι α ρ ε) : Decidable (Allowed ask D n e) :=
  match e with
  | .send _ _ => isTrue trivial
  | .serve i env => inferInstanceAs (Decidable (∃ r ∈ (n.requests i).head?, D n.server (ask env r)))
  | .own a => inferInstanceAs (Decidable (D n.server a))
  | .take i => inferInstanceAs (Decidable (¬ n.replies i = []))

/-- The net is sound, and its history a run of what the server refines. -/
structure Refines {τ : Type*} (step : σ → α → Option (σ × List β)) (ask : ε → ρ → α)
    (astep : τ → α → List β → τ → Prop) (R : σ → τ → Prop) (s : σ) (t : τ)
    (n : Net ι σ α ρ β) : Prop where
  sound : Sound step ask s n
  spec : ∃ t', SpecRun astep t (n.history.map (·.op)) (n.history.map (·.sent)) t' ∧ R n.server t'

section Refinement

variable {τ : Type*} {astep : τ → α → List β → τ → Prop} {R : σ → τ → Prop} {D : σ → α → Prop}

theorem refines_start {s : σ} {t : τ} (hR : R s t) :
    Refines step ask astep R s t (start s : Net ι σ α ρ β) :=
  ⟨sound_start s, t, rfl, hR⟩

theorem refines_step (h : ∀ s t a, R s t → D s a → ∃ s' b t', step s a = some (s', b) ∧
    astep t a b t' ∧ R s' t') {s : σ} {t : τ} {n : Net ι σ α ρ β}
    (hn : Refines step ask astep R s t n) {e : Event ι α ρ ε}
    (hd : Allowed ask D n e) :
    ∃ n', netStep step ask n e = some n' ∧ Refines step ask astep R s t n' := by
  obtain ⟨hsound, t1, hspec, hR1⟩ := hn
  cases e with
  | send i r => exact ⟨_, rfl, sound_step hsound (e := .send i r) rfl, t1, hspec, hR1⟩
  | serve i env =>
    obtain ⟨r, hr, hD⟩ := hd
    obtain ⟨rest, hrest⟩ := List.head?_eq_some_iff.mp hr
    obtain ⟨s', b, t2, hs, ha, hR2⟩ := h _ _ _ hR1 hD
    have hstep : netStep step ask n (.serve i env) = some { n with
        server := s'
        requests := Function.update n.requests i rest
        replies := Function.update n.replies i (n.replies i ++ b)
        history := n.history ++ [⟨some (i, r), ask env r, b⟩] } := by
      unfold netStep
      dsimp only
      rw [hrest]
      dsimp only
      rw [hs]
      rfl
    refine ⟨_, hstep, sound_step hsound hstep, t2, ?_, hR2⟩
    rw [List.map_append, List.map_append]
    exact hspec.concat ha
  | own a =>
    obtain ⟨s', b, t2, hs, ha, hR2⟩ := h _ _ _ hR1 hd
    have hstep : netStep step ask n (.own a : Event ι α ρ ε) = some { n with
        server := s'
        history := n.history ++ [⟨none, a, b⟩] } := by
      unfold netStep
      dsimp only
      rw [hs]
      rfl
    refine ⟨_, hstep, sound_step hsound hstep, t2, ?_, hR2⟩
    rw [List.map_append, List.map_append]
    exact hspec.concat ha
  | take i =>
    obtain ⟨b, rest, hb⟩ := List.exists_cons_of_ne_nil hd
    have hstep : netStep step ask n (.take i : Event ι α ρ ε) = some { n with
        replies := Function.update n.replies i rest
        handed := Function.update n.handed i (n.handed i ++ [b]) } := by
      unfold netStep
      dsimp only
      rw [hb]
    exact ⟨_, hstep, sound_step hsound hstep, t1, hspec, hR1⟩

/-- **Many clients, one order.**  Where each operation of the server is a step of what it refines,
every interleaving goes through, and its history is a run of that. -/
theorem served_refines (h : ∀ s t a, R s t → D s a → ∃ s' b t', step s a = some (s', b) ∧
    astep t a b t' ∧ R s' t') {s : σ} {t : τ} (hR : R s t) (evs : List (Event ι α ρ ε))
    (hok : Within (netStep step ask) (Allowed ask D) (start s : Net ι σ α ρ β) evs) :
    ∃ n, run (netStep step ask) (start s) evs = some n ∧ Sound step ask s n ∧
      ∃ t', SpecRun astep t (n.history.map (·.op)) (n.history.map (·.sent)) t' ∧ R n.server t' := by
  obtain ⟨n, hrun, hsound, hspec⟩ := run_of_within (J := Refines step ask astep R s t)
    (fun n e hn hd => refines_step h hn hd) evs _ (refines_start hR) hok
  exact ⟨n, hrun, hsound, hspec⟩

end Refinement

/-! ## Order in time -/

theorem history_grows {n n' : Net ι σ α ρ β} {e : Event ι α ρ ε} (hs : netStep step ask n e = some n') :
    n.history <+: n'.history := by
  cases e with
  | send i r =>
    cases hs
    exact List.prefix_rfl
  | serve i env =>
    unfold netStep at hs
    dsimp only at hs
    cases hr : n.requests i with
    | nil => rw [hr] at hs; cases hs
    | cons r rest =>
      rw [hr] at hs
      obtain ⟨p, -, rfl⟩ := Option.map_eq_some_iff.mp hs
      exact List.prefix_append _ _
  | own a =>
    obtain ⟨p, -, rfl⟩ := Option.map_eq_some_iff.mp hs
    exact List.prefix_append _ _
  | take i =>
    unfold netStep at hs
    dsimp only at hs
    cases hb : n.replies i with
    | nil => rw [hb] at hs; cases hs
    | cons b rest =>
      rw [hb] at hs
      cases hs
      exact List.prefix_rfl

theorem history_grows_run {n n' : Net ι σ α ρ β} {evs : List (Event ι α ρ ε)}
    (hr : run (netStep step ask) n evs = some n') : n.history <+: n'.history := by
  induction evs generalizing n with
  | nil =>
    cases hr
    exact List.prefix_rfl
  | cons e evs ih =>
    obtain ⟨n1, hs, hr⟩ := Option.bind_eq_some_iff.mp hr
    exact (history_grows hs).trans (ih hr)

/-- Where in the history the `k`-th request of a client is served. -/
def place (i : ι) (k p : Nat) (history : List (Entry ι α ρ β)) : Prop :=
  ∃ e, history[p]? = some e ∧ (∃ r, e.client = some (i, r)) ∧ (servedOf i (history.take p)).length = k

theorem length_servedOf_le (i : ι) (h1 h2 : List (Entry ι α ρ β)) :
    (servedOf i h1).length ≤ (servedOf i (h1 ++ h2)).length := by
  unfold servedOf
  rw [List.filterMap_append, List.length_append]
  omega

/-- A request stands in the history after as many of its client as its number says. -/
theorem place_lt {i : ι} {k p : Nat} {history : List (Entry ι α ρ β)} (h : place i k p history) :
    k < (servedOf i history).length := by
  obtain ⟨e, he, ⟨r, hr⟩, rfl⟩ := h
  have hlt := (List.getElem?_eq_some_iff.mp he).1
  have htake : history.take (p + 1) = history.take p ++ [e] := by
    rw [List.take_add_one, he]
    rfl
  have hmore := length_servedOf_le i (history.take (p + 1)) (history.drop (p + 1))
  rw [List.take_append_drop, htake, servedOf_concat, List.length_append, hr] at hmore
  simp at hmore
  omega

theorem length_flatMap_le {γ δ : Type*} {f : γ → List δ} {l : List γ} (h : ∀ x ∈ l, (f x).length ≤ 1) :
    (l.flatMap f).length ≤ l.length := by
  induction l with
  | nil => exact Nat.le_refl 0
  | cons x l ih =>
    have hx := h x List.mem_cons_self
    have hrest := ih fun y hy => h y (List.mem_cons_of_mem x hy)
    rw [List.flatMap_cons, List.length_append, List.length_cons]
    omega

theorem getElem?_flatMap_singletons {γ δ : Type*} {l : List (γ × List δ)}
    (h : ∀ x ∈ l, ∃ y, x.2 = [y]) {k : Nat} {d : δ}
    (hk : (l.flatMap (·.2))[k]? = some d) : ∃ c, l[k]? = some (c, [d]) := by
  induction l generalizing k with
  | nil => cases hk
  | cons x l ih =>
    obtain ⟨c, xs⟩ := x
    obtain ⟨y, rfl⟩ : ∃ y, xs = [y] := h _ List.mem_cons_self
    rw [List.flatMap_cons] at hk
    cases k with
    | zero =>
      cases hk
      exact ⟨c, rfl⟩
    | succ k => exact ih (fun x hx => h x (List.mem_cons_of_mem _ hx)) hk

theorem getElem?_forall₂ {γ δ : Type*} {Q : γ → δ → Prop} {l : List γ} {l' : List δ}
    (h : List.Forall₂ Q l l') {k : Nat} {c : γ}
    (hk : l[k]? = some c) : ∃ d, l'[k]? = some d ∧ Q c d := by
  induction h generalizing k with
  | nil => cases hk
  | cons hq _ ih =>
    cases k with
    | zero =>
      cases hk
      exact ⟨_, rfl, hq⟩
    | succ k => exact ih hk

/-- As many replies as a client has been handed, so many of its requests have been served. -/
theorem Sound.handed_le {s : σ} {n : Net ι σ α ρ β} (h : Sound step ask s n)
    (hone : ∀ e ∈ n.history, e.client ≠ none → e.sent.length = 1) (i : ι) :
    (n.handed i).length ≤ (servedOf i n.history).length := by
  have hsent : ∀ x ∈ servedOf i n.history, x.2.length ≤ 1 := by
    intro x hx
    obtain ⟨e, he, hbind⟩ := List.mem_filterMap.mp hx
    obtain ⟨c, hclient, hc⟩ := Option.bind_eq_some_iff.mp hbind
    split at hc
    · cases hc
      exact Nat.le_of_eq (hone e he (by rw [hclient]; nofun))
    · cases hc
  have hmore : ((servedOf i n.history).flatMap (·.2)).length ≤ _ := length_flatMap_le hsent
  rw [h.replies i, List.length_append] at hmore
  omega

theorem place_grows {i : ι} {k p : Nat} {h1 h2 : List (Entry ι α ρ β)} (h : place i k p h1)
    (hle : h1 <+: h2) :
    place i k p h2 := by
  obtain ⟨e, he, hclient, hk⟩ := h
  obtain ⟨rest, rfl⟩ := hle
  have hp := (List.getElem?_eq_some_iff.mp he).1
  refine ⟨e, ?_, hclient, ?_⟩
  · rw [List.getElem?_append_left hp, he]
  · rw [List.take_append_of_le_length (Nat.le_of_lt hp), hk]

/-- The `k`-th served request of a client has its place. -/
theorem exists_place {i : ι} {k : Nat} {r : ρ} {b : List β} {history : List (Entry ι α ρ β)}
    (h : (servedOf i history)[k]? = some (r, b)) :
    ∃ p op, history[p]? = some ⟨some (i, r), op, b⟩ ∧ place i k p history := by
  induction history using List.reverseRecOn with
  | nil => cases h
  | append_singleton l e ih =>
    rw [servedOf_concat] at h
    by_cases hk : k < (servedOf i l).length
    · rw [List.getElem?_append_left hk] at h
      obtain ⟨p, op, hp, hplace⟩ := ih h
      refine ⟨p, op, ?_, place_grows hplace (List.prefix_append l [e])⟩
      rw [List.getElem?_append_left (List.getElem?_eq_some_iff.mp hp).1, hp]
    · rw [List.getElem?_append_right (Nat.le_of_not_lt hk)] at h
      -- only the last entry is left, and it is this client's
      obtain ⟨client, op, sent⟩ := e
      cases client with
      | none => cases h
      | some c =>
        obtain ⟨j, r'⟩ := c
        dsimp only [Option.bind_some] at h
        split at h
        case isFalse => cases h
        case isTrue hj =>
          obtain rfl : j = i := hj
          obtain ⟨hzero, hb⟩ := List.getElem?_eq_some_iff.mp h
          have hk0 : k = (servedOf j l).length := by
            have hlt : k - (servedOf j l).length < 1 := hzero
            omega
          obtain ⟨rfl, rfl⟩ : r' = r ∧ sent = b := by
            simpa [hk0] using hb
          have hlast : (l ++ [⟨some (j, r'), op, sent⟩])[l.length]? = some ⟨some (j, r'), op, sent⟩ :=
            List.getElem?_concat_length
          refine ⟨l.length, op, hlast, _, hlast, ⟨r', rfl⟩, ?_⟩
          rw [List.take_left, hk0]

/-- What a client is handed `k`-th answers what it asked for `k`-th. -/
theorem Sound.answered {s : σ} {n : Net ι σ α ρ β} (h : Sound step ask s n)
    (hone : ∀ e ∈ n.history, e.client ≠ none → e.sent.length = 1) {i : ι} {k : Nat} {b : β}
    (hb : (n.handed i)[k]? = some b) :
    ∃ p r op, (n.asked i)[k]? = some r ∧ n.history[p]? = some ⟨some (i, r), op, [b]⟩ ∧
      place i k p n.history := by
  have hsent : ∀ x ∈ servedOf i n.history, ∃ y, x.2 = [y] := by
    intro x hx
    obtain ⟨e, he, hbind⟩ := List.mem_filterMap.mp hx
    obtain ⟨c, hclient, hc⟩ := Option.bind_eq_some_iff.mp hbind
    split at hc
    · cases hc
      exact List.length_eq_one_iff.mp (hone e he (by rw [hclient]; nofun))
    · cases hc
  have hall : ((servedOf i n.history).flatMap (·.2))[k]? = some b := by
    rw [h.replies i, List.getElem?_append_left (List.getElem?_eq_some_iff.mp hb).1, hb]
  obtain ⟨r, hr⟩ := getElem?_flatMap_singletons hsent hall
  obtain ⟨p, op, hp, hplace⟩ := exists_place hr
  refine ⟨p, r, op, ?_, hp, hplace⟩
  have hk : ((servedOf i n.history).map (·.1))[k]? = some r := by
    rw [List.getElem?_map, hr]
    rfl
  rw [h.requests i, List.getElem?_append_left (List.getElem?_eq_some_iff.mp hk).1, hk]

/-- **The order is that of time.**  A request answered before another was sent stands before it in
the history, whoever sent them. -/
theorem order_respects_time {s : σ} {n1 n2 : Net ι σ α ρ β} (h : Sound step ask s n1)
    {evs : List (Event ι α ρ ε)} (hr : run (netStep step ask) n1 evs = some n2)
    (hone : ∀ e ∈ n1.history, e.client ≠ none → e.sent.length = 1) {i j : ι} {k l p q : Nat}
    (hanswered : k < (n1.handed i).length) (hlater : (n1.asked j).length ≤ l)
    (hp : place i k p n2.history) (hq : place j l q n2.history) : p < q := by
  obtain ⟨rest, hrest⟩ := history_grows_run hr
  have hserved := h.handed_le hone i
  have hasked := congrArg List.length (h.requests j)
  rw [List.length_append, List.length_map] at hasked
  rw [← hrest] at hp hq
  have hp1 : p < n1.history.length := by
    by_contra hge
    obtain ⟨-, -, -, hk⟩ := hp
    have htake : (n1.history ++ rest).take p = n1.history ++ rest.take (p - n1.history.length) := by
      rw [List.take_append, List.take_of_length_le (by omega)]
    have hmore := length_servedOf_le i n1.history (rest.take (p - n1.history.length))
    rw [← htake, hk] at hmore
    omega
  have hq1 : n1.history.length ≤ q := by
    by_contra hlt
    have hin : place j l q n1.history := by
      obtain ⟨e, he, hclient, hl⟩ := hq
      rw [List.getElem?_append_left (by omega)] at he
      rw [List.take_append_of_le_length (by omega)] at hl
      exact ⟨e, he, hclient, hl⟩
    have := place_lt hin
    omega
  omega

end Steps

end Served
