import Mathlib.Data.List.Basic

/-!
# Lists taken by fours

`mapWords` changes a list four items at a time and leaves the zero to three items
of its end alone.
-/

namespace Words

variable {α : Type}

def mapWords (f : α → α → α → α → List α) : List α → List α
  | a :: b :: c :: d :: rest => f a b c d ++ mapWords f rest
  | tail => tail

/-- Four items are made into four. -/
def KeepsWords (f : α → α → α → α → List α) : Prop := ∀ a b c d, (f a b c d).length = 4

/-- `g` makes what it was before out of what `f` has made. -/
def Undoes (g f : α → α → α → α → List α) : Prop :=
  ∀ a b c d, ∃ a' b' c' d', f a b c d = [a', b', c', d'] ∧ g a' b' c' d' = [a, b, c, d]

variable {f g : α → α → α → α → List α}

theorem mapWords_of_short {l : List α} (h : l.length < 4) : mapWords f l = l := by
  match l with
  | [] | [_] | [_, _] | [_, _, _] => rfl
  | a :: b :: c :: d :: rest =>
    simp only [List.length_cons] at h
    omega

theorem length_mapWords (h : KeepsWords f) (l : List α) : (mapWords f l).length = l.length := by
  fun_induction mapWords f l with
  | case1 a b c d rest ih =>
    rw [List.length_append, h, ih]
    simp only [List.length_cons]
    omega
  | case2 tail _ => rfl

theorem Undoes.mapWords (h : Undoes g f) (l : List α) : mapWords g (mapWords f l) = l := by
  fun_induction Words.mapWords f l with
  | case1 a b c d rest ih =>
    obtain ⟨a', b', c', d', hf, hg⟩ := h a b c d
    rw [hf]
    show g a' b' c' d' ++ Words.mapWords g (Words.mapWords f rest) = _
    rw [hg, ih]
    rfl
  | case2 tail htail =>
    unfold Words.mapWords
    split
    · next a b c d rest => exact absurd rfl (htail a b c d rest)
    · rfl

end Words
