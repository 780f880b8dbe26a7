import Mathlib.Data.List.Basic
import FuServer.Lib.Bytes

/-!
# Literals in a statement

The quoting rule of SQL: a literal starts at a quote and ends at the first
quote that is not doubled; a doubled quote in it stands for one.  `code` cuts
a statement at its literals, `render` writes one with its values put between
quotes as they are.  `code_render_iff` says when the two agree.
-/

namespace SqlToken

open Bytes

/-- The text up to the first literal, then each literal's value with the text after it. -/
abbrev Cut := Str × List (Str × Str)

/-! ## Reading -/

mutual

/-- Outside literals. -/
def code : Str → Option Cut
  | [] => some ([], [])
  | c :: t =>
    if c = 39 then (literal t).map fun p => ([], (p.1, p.2.1) :: p.2.2)
    else (code t).map fun p => (c :: p.1, p.2)

/-- Inside a literal: its value, and what comes after it. -/
def literal : Str → Option (Str × Cut)
  | [] => none
  | 39 :: 39 :: t => (literal t).map fun p => (39 :: p.1, p.2)
  | c :: t =>
    if c = 39 then (code t).map fun p => ([], p) else (literal t).map fun p => (c :: p.1, p.2)

end

theorem code_quote (t : Str) :
    code (39 :: t) = (literal t).map fun p => ([], (p.1, p.2.1) :: p.2.2) := by
  rw [code, if_pos rfl]

theorem code_cons {c : UInt8} (h : c ≠ 39) (t : Str) :
    code (c :: t) = (code t).map fun p => (c :: p.1, p.2) := by
  rw [code, if_neg h]

theorem literal_quotes (t : Str) :
    literal (39 :: 39 :: t) = (literal t).map fun p => (39 :: p.1, p.2) := by
  rw [literal]

theorem literal_cons {c : UInt8} (h : c ≠ 39) (t : Str) :
    literal (c :: t) = (literal t).map fun p => (c :: p.1, p.2) := by
  rw [literal, if_neg h]
  rintro t' rfl -
  exact h rfl

/-- Text that does not go on a quote just read. -/
def EndsQuote (t : Str) : Prop := ∀ t', t ≠ 39 :: t'

theorem literal_close {t : Str} (h : EndsQuote t) :
    literal (39 :: t) = (code t).map fun p => ([], p) := by
  rw [literal, if_pos rfl]
  intro t' _ ht'
  exact h t' ht'

/-! ## Writing -/

/-- The text outside the literals. -/
def Cut.codeText (e : Cut) : Str := e.1 ++ e.2.flatMap (·.2)

/-- The values in the literals. -/
def Cut.values (e : Cut) : List Str := e.2.map (·.1)

def render (e : Cut) : Str := e.1 ++ e.2.flatMap fun p => 39 :: p.1 ++ 39 :: p.2

theorem render_nil (c : Str) : render (c, []) = c := List.append_nil c

theorem render_cons (c v c' : Str) (l : List (Str × Str)) :
    render (c, (v, c') :: l) = c ++ 39 :: (v ++ 39 :: render (c', l)) := by
  simp [render]

theorem mem_render {e : Cut} {b : UInt8} (hb : b ≠ 39) :
    b ∈ render e ↔ b ∈ e.codeText ∨ ∃ v ∈ e.values, b ∈ v := by
  obtain ⟨c, l⟩ := e
  induction l generalizing c with
  | nil => simp [render, Cut.codeText, Cut.values]
  | cons p l ih =>
    obtain ⟨v, c'⟩ := p
    have ih' := ih c'
    simp only [Cut.codeText, Cut.values, List.mem_append] at ih'
    rw [render_cons]
    simp only [Cut.codeText, Cut.values, List.mem_append, List.mem_cons, hb, false_or, ih',
      List.flatMap_cons, List.map_cons, exists_eq_or_imp]
    tauto

/-- A literal is followed by something, and not by a quote. -/
def Spaced (e : Cut) : Prop := ∀ p ∈ e.2, p.2 ≠ [] ∧ EndsQuote p.2

theorem render_endsQuote {c : Str} {l : List (Str × Str)} (hne : c ≠ []) (hc : EndsQuote c) :
    EndsQuote (render (c, l)) := by
  cases c with
  | nil => exact absurd rfl hne
  | cons b c =>
    intro t h
    have hb : b = 39 := (List.cons.inj h).1
    exact hc c (by rw [hb])

/-! ## Reading back -/

theorem code_append {c : Str} (h : 39 ∉ c) (t : Str) :
    code (c ++ t) = (code t).map fun p => (c ++ p.1, p.2) := by
  induction c with
  | nil => simp
  | cons b c ih =>
    have hb : b ≠ 39 := fun he => h (he ▸ List.mem_cons_self)
    rw [List.cons_append, code_cons hb, ih fun hm => h (List.mem_cons_of_mem b hm), Option.map_map]
    rfl

theorem literal_append {v t : Str} (h : 39 ∉ v) (ht : EndsQuote t) :
    literal (v ++ 39 :: t) = (code t).map fun p => (v, p) := by
  induction v with
  | nil => exact literal_close ht
  | cons b v ih =>
    have hb : b ≠ 39 := fun he => h (he ▸ List.mem_cons_self)
    rw [List.cons_append, literal_cons hb, ih fun hm => h (List.mem_cons_of_mem b hm), Option.map_map]
    rfl

theorem replicate_append_pair (c : UInt8) (k : Nat) (v : Str) :
    List.replicate k c ++ c :: c :: v = c :: (List.replicate (k + 1) c ++ v) := by
  calc List.replicate k c ++ c :: c :: v
    _ = List.replicate k c ++ [c] ++ c :: v := List.append_cons _ _ _
    _ = List.replicate (k + 1) c ++ c :: v := by rw [← List.replicate_succ']
    _ = List.replicate (k + 1) c ++ [c] ++ v := List.append_cons _ _ _
    _ = c :: (List.replicate (k + 1) c ++ v) := by rw [← List.replicate_succ', List.replicate_succ]; rfl

/-- A closing quote that doubles the value's last one opens the text behind the
literal, so the literal decodes to more than quotes. -/
theorem literal_doubled_ne {t : Str} (ht : EndsQuote t) (hne : t ≠ []) (k : Nat) (q : Cut) :
    literal (39 :: 39 :: t) ≠ some (List.replicate k 39 ++ [39], q) := by
  intro h
  rw [literal_quotes] at h
  obtain ⟨p, hp, he⟩ := Option.map_eq_some_iff.mp h
  have hval : p.1 = List.replicate k 39 := by
    have hrep := congrArg Prod.fst he
    rw [← List.replicate_succ', List.replicate_succ] at hrep
    exact (List.cons.inj hrep).2
  cases t with
  | nil => exact hne rfl
  | cons b t =>
    have hb : b ≠ 39 := fun he => ht t (by rw [he])
    rw [literal_cons hb] at hp
    obtain ⟨p', -, hp'⟩ := Option.map_eq_some_iff.mp hp
    have hmem : b ∈ p.1 := by
      rw [← hp']
      exact List.mem_cons_self
    rw [hval] at hmem
    exact hb (List.eq_of_mem_replicate hmem)

/-- A value whose literal decodes to it, even behind more quotes, has no quote.
The quotes a value has pile up in front of what is left of it. -/
theorem literal_eq_self {t : Str} (ht : EndsQuote t) (hne : t ≠ []) {q : Cut} : ∀ (v : Str) (k : Nat),
    literal (v ++ 39 :: t) = some (List.replicate k 39 ++ v, q) → k = 0 ∧ 39 ∉ v
  | [], k, h => by
    rw [List.nil_append, literal_close ht] at h
    obtain ⟨p, -, hp⟩ := Option.map_eq_some_iff.mp h
    have hk : List.replicate k 39 = ([] : Str) := by simpa using (congrArg Prod.fst hp).symm
    exact ⟨by simpa using congrArg List.length hk, by simp⟩
  | c :: v, k, h => by
    by_cases hc : c = 39
    · subst hc
      exfalso
      cases v with
      | nil => exact literal_doubled_ne ht hne k q h
      | cons c' v =>
        by_cases hc' : c' = 39
        · subst hc'
          rw [List.cons_append, List.cons_append, literal_quotes, replicate_append_pair] at h
          obtain ⟨⟨value, q'⟩, hp, he⟩ := Option.map_eq_some_iff.mp h
          have hvalue : value = List.replicate (k + 1) 39 ++ v :=
            (List.cons.inj (congrArg Prod.fst he)).2
          rw [hvalue] at hp
          exact Nat.succ_ne_zero k (literal_eq_self ht hne v (k + 1) hp).1
        · -- the literal ends at this quote
          have hend : EndsQuote (c' :: v ++ 39 :: t) := fun t' he => hc' (List.cons.inj he).1
          rw [List.cons_append, literal_close hend] at h
          obtain ⟨p, -, hp⟩ := Option.map_eq_some_iff.mp h
          have hlen := congrArg (fun r : Str × Cut => r.1.length) hp
          simp at hlen
    · rw [List.cons_append, literal_cons hc] at h
      obtain ⟨⟨value, q'⟩, hp, he⟩ := Option.map_eq_some_iff.mp h
      have hhead := congrArg Prod.fst he
      cases k with
      | succ k =>
        rw [List.replicate_succ, List.cons_append] at hhead
        exact absurd (List.cons.inj hhead).1 hc
      | zero =>
        have hvalue : value = v := (List.cons.inj hhead).2
        rw [hvalue] at hp
        obtain ⟨-, hv⟩ := literal_eq_self ht hne v 0 hp
        exact ⟨rfl, fun hm => (List.mem_cons.mp hm).elim (fun h39 => hc h39.symm) hv⟩

/-- A literal decodes to the value written exactly when the value has no quote
and what follows reads as meant. -/
theorem literal_eq_some_iff {v t : Str} (ht : EndsQuote t) (hne : t ≠ []) {e : Cut} :
    literal (v ++ 39 :: t) = some (v, e) ↔ 39 ∉ v ∧ code t = some e := by
  constructor
  · intro h
    obtain ⟨-, hv⟩ := literal_eq_self ht hne v 0 h
    rw [literal_append hv ht] at h
    obtain ⟨e', he', heq⟩ := Option.map_eq_some_iff.mp h
    cases heq
    exact ⟨hv, he'⟩
  · rintro ⟨hv, he⟩
    rw [literal_append hv ht, he]
    rfl

/-- The shape of every successful reading. -/
theorem read_induct {P : Str → Cut → Prop} {Q : Str → Str × Cut → Prop} (hnil : P [] ([], []))
    (hopen : ∀ t p, Q t p → P (39 :: t) ([], (p.1, p.2.1) :: p.2.2))
    (hcode : ∀ c t e, c ≠ 39 → P t e → P (c :: t) (c :: e.1, e.2))
    (hquotes : ∀ t p, Q t p → Q (39 :: 39 :: t) (39 :: p.1, p.2))
    (hclose : ∀ t e, P t e → Q (39 :: t) ([], e))
    (hchar : ∀ c t p, c ≠ 39 → Q t p → Q (c :: t) (c :: p.1, p.2)) (n : Nat) : ∀ s : Str, s.length ≤ n →
      (∀ e, code s = some e → P s e) ∧ ∀ p, literal s = some p → Q s p := by
  induction n with
  | zero =>
    intro s hs
    obtain rfl := List.length_eq_zero_iff.mp (Nat.le_zero.mp hs)
    refine ⟨fun e he => ?_, fun p hp => ?_⟩
    · rw [code] at he
      cases he
      exact hnil
    · rw [literal] at hp
      cases hp
  | succ n ih =>
    intro s hs
    cases s with
    | nil => exact ih [] (Nat.zero_le n)
    | cons c t =>
      have ht : t.length ≤ n := Nat.le_of_succ_le_succ hs
      by_cases hc : c = 39
      · subst hc
        constructor
        · intro e he
          rw [code_quote] at he
          obtain ⟨p, hp, rfl⟩ := Option.map_eq_some_iff.mp he
          exact hopen t p ((ih t ht).2 p hp)
        · intro p hp
          by_cases hend : EndsQuote t
          · rw [literal_close hend] at hp
            obtain ⟨e, he, rfl⟩ := Option.map_eq_some_iff.mp hp
            exact hclose t e ((ih t ht).1 e he)
          · obtain ⟨t', rfl⟩ : ∃ t', t = 39 :: t' := by
              simpa [EndsQuote] using hend
            rw [literal_quotes] at hp
            obtain ⟨p', hp', rfl⟩ := Option.map_eq_some_iff.mp hp
            exact hquotes t' p' ((ih t' (Nat.le_of_succ_le ht)).2 p' hp')
      · constructor
        · intro e he
          rw [code_cons hc] at he
          obtain ⟨e', he', rfl⟩ := Option.map_eq_some_iff.mp he
          exact hcode c t e' hc ((ih t ht).1 e' he')
        · intro p hp
          rw [literal_cons hc] at hp
          obtain ⟨p', hp', rfl⟩ := Option.map_eq_some_iff.mp hp
          exact hchar c t p' hc ((ih t ht).2 p' hp')

/-- What is read as code has no quote. -/
theorem code_noQuote {s : Str} {e : Cut} (h : code s = some e) : 39 ∉ e.codeText := by
  refine (read_induct (P := fun _ e => 39 ∉ e.codeText) (Q := fun _ p => 39 ∉ p.2.codeText)
    List.not_mem_nil (fun t p hp => hp) (fun c t e hc he hm => ?_) (fun t p hp => hp) (fun t e he => he)
    (fun c t p hc hp => hp) s.length s (Nat.le_refl _)).1 e h
  exact (List.mem_cons.mp hm).elim (fun h39 => hc h39.symm) he

/-- Nothing is read that is not there. -/
theorem code_mem {s : Str} {e : Cut} (h : code s = some e) {b : UInt8}
    (hb : b ∈ e.codeText ∨ ∃ v ∈ e.values, b ∈ v) : b ∈ s := by
  refine (read_induct (P := fun s e => (b ∈ e.codeText ∨ ∃ v ∈ e.values, b ∈ v) → b ∈ s)
    (Q := fun s p => (b ∈ p.1 ∨ b ∈ p.2.codeText ∨ ∃ v ∈ p.2.values, b ∈ v) → b ∈ s)
    ?_ ?_ ?_ ?_ ?_ ?_ s.length s (Nat.le_refl _)).1 e h hb
  · rintro (hm | ⟨v, hv, -⟩)
    · cases hm
    · cases hv
  · rintro t p ih (hm | ⟨v, hv, hm⟩)
    · exact List.mem_cons_of_mem _ (ih (Or.inr (Or.inl hm)))
    · rcases List.mem_cons.mp hv with rfl | hv
      · exact List.mem_cons_of_mem _ (ih (Or.inl hm))
      · exact List.mem_cons_of_mem _ (ih (Or.inr (Or.inr ⟨v, hv, hm⟩)))
  · rintro c t e - ih (hm | hv)
    · rcases List.mem_cons.mp hm with rfl | hm
      · exact List.mem_cons_self
      · exact List.mem_cons_of_mem _ (ih (Or.inl hm))
    · exact List.mem_cons_of_mem _ (ih (Or.inr hv))
  · rintro t p ih (hm | hrest)
    · rcases List.mem_cons.mp hm with rfl | hm
      · exact List.mem_cons_self
      · exact List.mem_cons_of_mem _ (List.mem_cons_of_mem _ (ih (Or.inl hm)))
    · exact List.mem_cons_of_mem _ (List.mem_cons_of_mem _ (ih (Or.inr hrest)))
  · rintro t e ih (hm | hrest)
    · cases hm
    · exact List.mem_cons_of_mem _ (ih hrest)
  · rintro c t p - ih (hm | hrest)
    · rcases List.mem_cons.mp hm with rfl | hm
      · exact List.mem_cons_self
      · exact List.mem_cons_of_mem _ (ih (Or.inl hm))
    · exact List.mem_cons_of_mem _ (ih (Or.inr hrest))

/-- Reading up to and through the first literal. -/
theorem code_render_cons {c : Str} (hc : 39 ∉ c) (v c' : Str) (l : List (Str × Str)) :
    code (render (c, (v, c') :: l)) =
      (literal (v ++ 39 :: render (c', l))).map fun p => (c, (p.1, p.2.1) :: p.2.2) := by
  rw [render_cons, code_append hc, code_quote, Option.map_map]
  simp [Function.comp_def]

/-- The first literal reads back, and so does what stands behind it. -/
theorem code_render_cons_iff {c v c' : Str} {l : List (Str × Str)} (hc : 39 ∉ c)
    (hend : EndsQuote (render (c', l))) (hne : render (c', l) ≠ []) :
    code (render (c, (v, c') :: l)) = some (c, (v, c') :: l) ↔
      39 ∉ v ∧ code (render (c', l)) = some (c', l) := by
  rw [code_render_cons hc, ← literal_eq_some_iff hend hne]
  constructor
  · intro hread
    obtain ⟨⟨value, code', rest⟩, hp, he⟩ := Option.map_eq_some_iff.mp hread
    cases he
    exact hp
  · intro hread
    rw [hread]
    rfl

/-- **Values between bare quotes.**  A statement reads back as what was written
exactly when neither its code nor any value has a quote. -/
theorem code_render_iff {e : Cut} (h : Spaced e) :
    code (render e) = some e ↔ 39 ∉ e.codeText ∧ ∀ v ∈ e.values, 39 ∉ v := by
  obtain ⟨c, l⟩ := e
  induction l generalizing c with
  | nil =>
    have htext : render (c, []) = c ++ [] := rfl
    constructor
    · intro hread
      exact ⟨code_noQuote hread, fun v hv => by cases hv⟩
    · rintro ⟨hc, -⟩
      have hc' : 39 ∉ c := by simpa [Cut.codeText] using hc
      rw [htext, code_append hc', code]
      simp
  | cons p l ih =>
    obtain ⟨v, c'⟩ := p
    have hcode : (39 ∉ Cut.codeText (c, (v, c') :: l)) ↔ 39 ∉ c ∧ 39 ∉ Cut.codeText (c', l) := by
      simp [Cut.codeText]
    obtain ⟨hne', hend'⟩ := h (v, c') List.mem_cons_self
    have hend : EndsQuote (render (c', l)) := render_endsQuote hne' hend'
    have hne : render (c', l) ≠ [] := by
      intro hnil
      exact hne' (List.append_eq_nil_iff.mp hnil).1
    have ih' := ih c' fun p hp => h p (List.mem_cons_of_mem _ hp)
    constructor
    · intro hread
      have hquote := hcode.mp (code_noQuote hread)
      obtain ⟨hv, hrest⟩ := (code_render_cons_iff hquote.1 hend hne).mp hread
      refine ⟨hcode.mpr hquote, fun w hw => ?_⟩
      rcases List.mem_cons.mp hw with rfl | hw
      · exact hv
      · exact (ih'.mp hrest).2 w hw
    · rintro ⟨hquote, hvalues⟩
      obtain ⟨hc, hc'⟩ := hcode.mp hquote
      have hrest := ih'.mpr ⟨hc', fun w hw => hvalues w (List.mem_cons_of_mem _ hw)⟩
      exact (code_render_cons_iff hc hend hne).mpr ⟨hvalues v List.mem_cons_self, hrest⟩

/-! ## Lists of values -/

/-- Items with a text before each value and `sep` between them, then the rest. -/
def listed (sep head : Str) : List (Str × Str) → Cut → Cut
  | [], tail => (head ++ tail.1, tail.2)
  | [x], tail => (head ++ x.1, (x.2, tail.1) :: tail.2)
  | x :: y :: xs, tail =>
    let r := listed sep sep (y :: xs) tail
    (head ++ x.1, (x.2, r.1) :: r.2)

/-- A text and the value after it, between quotes. -/
def itemText (x : Str × Str) : Str := x.1 ++ 39 :: x.2 ++ [39]

theorem render_listed (sep head : Str) {items : List (Str × Str)} (h : items ≠ []) (tail : Cut) :
    render (listed sep head items tail) =
      head ++ sep.intercalate (items.map itemText) ++ render tail := by
  induction items generalizing head with
  | nil => exact absurd rfl h
  | cons x items ih =>
    cases items with
    | nil => simp [listed, render, itemText, List.intercalate]
    | cons y items =>
      have hrest := ih sep (List.cons_ne_nil y items)
      rw [listed, render_cons, hrest]
      simp [itemText, List.intercalate]

theorem values_listed (sep head : Str) (items : List (Str × Str)) (tail : Cut) :
    (listed sep head items tail).values = items.map (·.2) ++ tail.values := by
  induction items generalizing head with
  | nil => rfl
  | cons x items ih =>
    cases items with
    | nil => rfl
    | cons y items =>
      have hrest := ih sep
      rw [listed]
      simp only [Cut.values, List.map_cons, List.cons_append] at hrest ⊢
      rw [hrest]

theorem codeText_listed (sep head : Str) {items : List (Str × Str)} (h : items ≠ []) (tail : Cut) :
    (listed sep head items tail).codeText =
      head ++ sep.intercalate (items.map (·.1)) ++ tail.codeText := by
  induction items generalizing head with
  | nil => exact absurd rfl h
  | cons x items ih =>
    cases items with
    | nil => simp [listed, Cut.codeText, List.intercalate]
    | cons y items =>
      have hrest := ih sep (List.cons_ne_nil y items)
      rw [listed]
      simp only [Cut.codeText, List.flatMap_cons] at hrest ⊢
      rw [hrest]
      simp [List.intercalate]

theorem spaced_listed {sep : Str} (head : Str) (items : List (Str × Str)) {tail : Cut} (hsep : sep ≠ [])
    (hend : ∀ t, EndsQuote (sep ++ t)) (htail : tail.1 ≠ [] ∧ EndsQuote tail.1) (hrest : Spaced tail) :
    Spaced (listed sep head items tail) := by
  induction items generalizing head with
  | nil => exact hrest
  | cons x items ih =>
    cases items with
    | nil =>
      intro p hp
      rcases List.mem_cons.mp hp with rfl | hp
      · exact htail
      · exact hrest p hp
    | cons y items =>
      intro p hp
      rcases List.mem_cons.mp hp with rfl | hp
      · cases items with
        | nil => exact ⟨by simp [listed, hsep], hend _⟩
        | cons z items => exact ⟨by simp [listed, hsep], hend _⟩
      · exact ih sep p hp

theorem mem_intercalate {sep : Str} {b : UInt8} (hb : b ∉ sep) (l : List Str) :
    b ∈ sep.intercalate l ↔ ∃ x ∈ l, b ∈ x := by
  induction l with
  | nil => simp [List.intercalate]
  | cons x l ih =>
    cases l with
    | nil => simp [List.intercalate]
    | cons y l =>
      rw [intercalate_cons_cons, List.mem_append, List.mem_append, ih]
      simp only [hb, false_or, List.mem_cons, exists_eq_or_imp]

/-- Items each between `pre` and `suf` are items with `suf ++ pre` between them. -/
theorem flatMap_eq_intercalate (pre suf : Str) {l : List Str} (h : l ≠ []) :
    (l.flatMap fun x => pre ++ x ++ suf) = pre ++ (suf ++ pre).intercalate l ++ suf := by
  induction l with
  | nil => exact absurd rfl h
  | cons x l ih =>
    cases l with
    | nil => simp [List.intercalate]
    | cons y l =>
      rw [List.flatMap_cons, ih (List.cons_ne_nil y l)]
      simp [List.intercalate]

end SqlToken
