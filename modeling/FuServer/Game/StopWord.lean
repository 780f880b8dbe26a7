import FuServer.Lib.Occurrence
import FuServer.Model.Console

/-!
# The console's stop word

A mismatch throws the whole attempt away, the character that failed it included.
So the loop finds the word only where nothing but failed attempts stand in front.
-/

namespace FuServer

open Bytes Occurrence

open scoped Computability

variable {p : Str}

/-- The matching part of an attempt. -/
theorem inputCharLoop_take (hp : NoNul p) (k j : Nat) (h : k + j < p.length) (rest : Str) :
    inputCharLoop p k ((p.drop k).take j ++ rest) = (inputCharLoop p (k + j) rest).map (j + ·) := by
  induction j generalizing k with
  | zero => simp
  | succ j ih =>
    have hk : k < p.length := by omega
    have hne := hp p[k] (List.getElem_mem hk)
    have hnext : k + 1 ≠ p.length := by omega
    have hrest := ih (k + 1) (by omega)
    rw [List.drop_eq_getElem_cons hk, List.take_succ_cons, List.cons_append]
    rw [inputCharLoop, if_neg hne, if_pos (List.getElem?_eq_getElem hk), if_neg hnext, hrest,
      Option.map_map]
    rw [show k + 1 + j = k + (j + 1) by omega]
    congr 1
    funext n
    show j + n + 1 = j + 1 + n
    omega

/-- The loop is where it was before a failed attempt. -/
theorem inputCharLoop_failed (hp : NoNul p) {w : Str} (hw : w ∈ failed p) (hnul : NoNul w) (rest : Str) :
    inputCharLoop p 0 (w ++ rest) = (inputCharLoop p 0 rest).map (w.length + ·) := by
  obtain ⟨l, c, hl, hc, rfl⟩ := mem_failed.mp hw
  have hne : c ≠ 0 := hnul c (List.mem_append_right _ List.mem_cons_self)
  have hmatch := inputCharLoop_take hp 0 l (by omega) ([c] ++ rest)
  rw [List.drop_zero, Nat.zero_add, List.singleton_append, inputCharLoop, if_neg hne,
    if_neg hc] at hmatch
  rw [List.append_assoc, List.singleton_append, hmatch, Option.map_map, List.length_append,
    List.length_take,
    Nat.min_eq_left (Nat.le_of_lt hl)]
  congr 1
  funext n
  show l + (n + 1) = l + 1 + n
  omega

theorem inputCharLoop_attempts (hp : NoNul p) {u : Str} (hu : u ∈ (failed p)∗) (hnul : NoNul u)
    (rest : Str) :
    inputCharLoop p 0 (u ++ rest) = (inputCharLoop p 0 rest).map (u.length + ·) := by
  obtain ⟨ws, rfl, hall⟩ := Language.mem_kstar.mp hu
  clear hu
  induction ws with
  | nil => simp
  | cons w ws ih =>
    have hmem : ∀ c ∈ w, c ∈ (w :: ws).flatten :=
      fun c hc => List.mem_flatten_of_mem List.mem_cons_self hc
    have hrest := ih (fun x hx => hall x (List.mem_cons_of_mem w hx)) fun c hc =>
      hnul c (by rw [List.flatten_cons]; exact List.mem_append_right _ hc)
    rw [List.flatten_cons, List.append_assoc,
      inputCharLoop_failed hp (hall w List.mem_cons_self) (fun c hc => hnul c (hmem c hc)), hrest,
      Option.map_map, List.length_append]
    congr 1
    funext n
    show w.length + (ws.flatten.length + n) = w.length + ws.flatten.length + n
    omega

/-- The word itself ends the loop. -/
theorem inputCharLoop_word (hp : NoNul p) (hne : p ≠ []) (rest : Str) :
    inputCharLoop p 0 (p ++ rest) = some p.length := by
  have hpos := List.length_pos_of_ne_nil hne
  have hlast : p.length - 1 < p.length := by omega
  have hmatch := inputCharLoop_take hp 0 (p.length - 1) (by omega) ([p[p.length - 1]] ++ rest)
  have hsplit : (p.drop 0).take (p.length - 1) ++ ([p[p.length - 1]] ++ rest) = p ++ rest := by
    rw [List.drop_zero, ← List.append_assoc, ← List.take_succ_eq_append_getElem hlast,
      List.take_of_length_le (by omega)]
  rw [hsplit, Nat.zero_add, List.singleton_append, inputCharLoop, if_neg (hp _ (List.getElem_mem hlast)),
    if_pos (List.getElem?_eq_getElem hlast), if_pos (by omega)] at hmatch
  rw [hmatch]
  simp only [Option.map_some, Option.some.injEq]
  omega

/-- **Where the loop stops**: when failed attempts and then the word have come in. -/
theorem inputCharAndBreakLoop_iff (hp : NoNul p) (hne : p ≠ []) {w : Str} (hw : NoNul w) :
    inputCharAndBreakLoop p w = some w.length ↔ ∃ u ∈ (failed p)∗, w = u ++ p := by
  unfold inputCharAndBreakLoop
  constructor
  · intro h
    rcases exists_attempts hne w with ⟨u, hu, l, hl, rfl⟩ | ⟨u, hu, rest, rfl⟩
    · -- in the middle of an attempt the loop waits
      have hwait := inputCharLoop_take hp 0 l (by omega) []
      rw [List.drop_zero, List.append_nil, inputCharLoop, Option.map_none] at hwait
      rw [inputCharLoop_attempts hp hu fun c hc => hw c (List.mem_append_left _ hc), hwait] at h
      cases h
    · have hstop := inputCharLoop_word hp hne rest
      rw [List.append_assoc, inputCharLoop_attempts hp hu fun c hc => hw c (by simp [hc]), hstop] at h
      have hlen := Option.some.inj h
      simp only [List.length_append] at hlen
      have hrest : rest = [] := List.eq_nil_of_length_eq_zero (by omega)
      exact ⟨u, hu, by rw [hrest, List.append_nil]⟩
  · rintro ⟨u, hu, rfl⟩
    have hstop := inputCharLoop_word hp hne []
    rw [List.append_nil] at hstop
    rw [inputCharLoop_attempts hp hu fun c hc => hw c (List.mem_append_left _ hc), hstop,
      List.length_append]
    rfl

/-- On a stream of characters the loop stops after `n` of them. -/
def StopsAfter (p : Str) (s : Nat → UInt8) (n : Nat) : Prop :=
  inputCharAndBreakLoop p (upTo s n) = some n

/-- The loop stops when the word has first occurred, and at no other time. -/
def StopsRight (p : Str) (s : Nat → UInt8) : Prop := ∀ n, StopsAfter p s n ↔ FirstAt p s n

section

variable {s : Nat → UInt8}

theorem noNul_upTo (hs : ∀ i, s i ≠ 0) (n : Nat) : NoNul (upTo s n) := by
  intro c hc
  obtain ⟨i, -, rfl⟩ := List.mem_map.mp hc
  exact hs i

theorem stopsAfter_iff (hp : NoNul p) (hne : p ≠ []) (hs : ∀ i, s i ≠ 0) (n : Nat) :
    StopsAfter p s n ↔ ∃ u ∈ (failed p)∗, upTo s n = u ++ p := by
  have hiff := inputCharAndBreakLoop_iff hp hne (noNul_upTo hs n)
  rw [length_upTo] at hiff
  exact hiff

/-- The loop never goes on after it has stopped. -/
theorem StopsAfter.le (hp : NoNul p) (hne : p ≠ []) (hs : ∀ i, s i ≠ 0) {m n : Nat}
    (hm : StopsAfter p s m)
    (hn : StopsAfter p s n) : n ≤ m := by
  by_contra hlt
  obtain ⟨u, hu, hup⟩ := (stopsAfter_iff hp hne hs m).mp hm
  have hsplit : upTo s n = u ++ (p ++ (upTo s n).drop m) := by
    rw [← List.append_assoc, ← hup, ← take_upTo s (by omega : m ≤ n), List.take_append_drop]
  have hnul : NoNul u := fun c hc => noNul_upTo hs m c (by rw [hup]; exact List.mem_append_left _ hc)
  unfold StopsAfter inputCharAndBreakLoop at hn
  rw [hsplit, inputCharLoop_attempts hp hu hnul, inputCharLoop_word hp hne] at hn
  have hlen := congrArg List.length hup
  rw [length_upTo, List.length_append] at hlen
  have hnm := Option.some.inj hn
  dsimp only at hnm
  omega

theorem stopsRight_iff (hp : NoNul p) (hne : p ≠ []) (hs : ∀ i, s i ≠ 0) :
    StopsRight p s ↔ ∀ n, FirstAt p s n → ∃ u ∈ (failed p)∗, upTo s n = u ++ p := by
  constructor
  · intro h n hn
    exact (stopsAfter_iff hp hne hs n).mp ((h n).mpr hn)
  · intro h n
    constructor
    · intro hstop
      obtain ⟨u, -, hup⟩ := (stopsAfter_iff hp hne hs n).mp hstop
      -- the word has occurred, and the first time it did the loop stopped
      obtain ⟨m, hmn, hm⟩ :=
        exists_firstAt (show p <:+ upTo s n by rw [hup]; exact List.suffix_append u p)
      have hstop' := (stopsAfter_iff hp hne hs m).mpr (h m hm)
      have hle := hstop'.le hp hne hs hstop
      have heq : m = n := by omega
      rw [← heq]
      exact hm
    · intro hfirst
      exact (stopsAfter_iff hp hne hs n).mpr (h n hfirst)

end

/-- **The stop word.**  On a stream the loop stops right exactly when in front of the first occurrence
of the word, if there is one, stand nothing but failed attempts; and it does so on all streams exactly
when all characters of the word are the same. -/
theorem inputCharAndBreakLoop_right_iff (p : Str) (hp : NoNul p) (hne : p ≠ []) :
    (∀ s : Nat → UInt8, (∀ i, s i ≠ 0) →
      (StopsRight p s ↔ ∀ n, FirstAt p s n → ∃ u ∈ (failed p)∗, upTo s n = u ++ p)) ∧
    ((∀ s : Nat → UInt8, (∀ i, s i ≠ 0) → StopsRight p s) ↔ ∃ a, ∀ c ∈ p, c = a) := by
  refine ⟨fun s hs => stopsRight_iff hp hne hs, ?_, ?_⟩
  · intro hall
    refine ⟨p.head hne, ?_⟩
    by_contra hconst
    obtain ⟨s, hmem, n, hfirst, hnone⟩ := exists_unattempted (List.head?_eq_some_head hne) hconst
    have hs : ∀ i, s i ≠ 0 := fun i => hp (s i) (hmem i)
    obtain ⟨u, hu, hup⟩ := (stopsRight_iff hp hne hs).mp (hall s hs) n hfirst
    exact hnone u hu hup
  · rintro ⟨a, hconst⟩ s hs
    refine (stopsRight_iff hp hne hs).mpr fun n hfirst => ?_
    exact firstAt_constant hne hconst hfirst

theorem inputCharAndBreakLoop_right_iff_bang :
    (∀ s : Nat → UInt8, (∀ i, s i ≠ 0) → StopsRight (lit "!!") s) ↔ ∃ a, ∀ c ∈ lit "!!", c = a :=
  (inputCharAndBreakLoop_right_iff (lit "!!") (by decide) (by decide)).2

/-- `qquit` and then anything: the second `q` fails the first attempt and is thrown away with it. -/
theorem inputCharAndBreakLoop_misses :
    FirstAt stopWord (extend (lit "qquit") 120) 5 ∧
      inputCharAndBreakLoop stopWord (upTo (extend (lit "qquit") 120) 5) = none ∧
      ¬ StopsRight stopWord (extend (lit "qquit") 120) := by
  have hfirst : FirstAt stopWord (extend (lit "qquit") 120) 5 := ⟨by decide, by decide⟩
  have hwait : inputCharAndBreakLoop stopWord (upTo (extend (lit "qquit") 120) 5) = none := by decide
  refine ⟨hfirst, hwait, ?_⟩
  intro h
  have hstop : inputCharAndBreakLoop stopWord (upTo (extend (lit "qquit") 120) 5) = some 5 :=
    (h 5).mpr hfirst
  rw [hwait] at hstop
  cases hstop

end FuServer
