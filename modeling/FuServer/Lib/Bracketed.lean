import Mathlib.Data.List.Basic

/-!
# Texts in brackets

`scan` goes through a text and collects what stands between an opening and a closing
bracket.  An opening bracket inside starts the item again, a closing one outside is
passed over like any other symbol there.  `inside` is the item begun, if any.
-/

namespace Bracketed

variable {α : Type} [DecidableEq α] (left right : α)

def scan : Option (List α) → List α → List (List α)
  | _, [] => []
  | none, c :: rest => if c = left then scan (some []) rest else scan none rest
  | some item, c :: rest =>
    if c = left then scan (some []) rest
    else if c = right then item :: scan none rest
    else scan (some (item ++ [c])) rest

/-- The item begun at the end of a text. -/
def endsIn : Option (List α) → List α → Option (List α)
  | inside, [] => inside
  | none, c :: rest => if c = left then endsIn (some []) rest else endsIn none rest
  | some item, c :: rest =>
    if c = left then endsIn (some []) rest
    else if c = right then endsIn none rest
    else endsIn (some (item ++ [c])) rest

/-- The items of a text. -/
def items (text : List α) : List (List α) := scan left right none text

/-- A text in brackets. -/
def bracket (text : List α) : List α := left :: text ++ [right]

/-- Free of both brackets. -/
def Free (text : List α) : Prop := ∀ c ∈ text, c ≠ left ∧ c ≠ right

variable {left right}

theorem scan_append (inside : Option (List α)) (s t : List α) :
    scan left right inside (s ++ t) = scan left right inside s ++
      scan left right (endsIn left right inside s) t := by
  induction s generalizing inside with
  | nil => cases inside <;> rfl
  | cons c s ih =>
    cases inside with
    | none =>
      rw [List.cons_append, scan, scan, endsIn]
      split <;> exact ih _
    | some item =>
      rw [List.cons_append, scan, scan, endsIn]
      split
      · exact ih _
      · split
        · rw [ih, List.cons_append]
        · exact ih _

theorem endsIn_append (inside : Option (List α)) (s t : List α) :
    endsIn left right inside (s ++ t) = endsIn left right (endsIn left right inside s) t := by
  induction s generalizing inside with
  | nil => cases inside <;> rfl
  | cons c s ih =>
    cases inside with
    | none =>
      rw [List.cons_append, endsIn, endsIn]
      split <;> exact ih _
    | some item =>
      rw [List.cons_append, endsIn, endsIn]
      split
      · exact ih _
      · split <;> exact ih _

/-- Behind a closing bracket no item is begun. -/
theorem endsIn_bracket (hne : left ≠ right) (text : List α) :
    endsIn left right none (bracket left right text) = none := by
  unfold bracket
  rw [endsIn_append]
  cases endsIn left right none (left :: text) with
  | none =>
    rw [endsIn, if_neg hne.symm]
    rfl
  | some item =>
    rw [endsIn, if_neg hne.symm, if_pos rfl]
    rfl

/-- The items of a text in brackets and those of what follows. -/
theorem items_bracket_append (hne : left ≠ right) (text rest : List α) :
    items left right (bracket left right text ++ rest) =
      items left right (bracket left right text) ++ items left right rest := by
  unfold items
  rw [scan_append, endsIn_bracket hne]

theorem items_cons_of_ne {c : α} (h : c ≠ left) (rest : List α) :
    items left right (c :: rest) = items left right rest := by
  unfold items
  rw [scan, if_neg h]

theorem scan_free {text : List α} (h : Free left right text) (item rest : List α) :
    scan left right (some item) (text ++ rest) = scan left right (some (item ++ text)) rest := by
  induction text generalizing item with
  | nil => rw [List.nil_append, List.append_nil]
  | cons c text ih =>
    obtain ⟨hleft, hright⟩ := h c List.mem_cons_self
    rw [List.cons_append, scan, if_neg hleft, if_neg hright,
      ih fun x hx => h x (List.mem_cons_of_mem c hx),
      List.append_assoc]
    rfl

/-- A text without brackets is one item between them. -/
theorem items_bracket_free (hne : left ≠ right) {text : List α} (h : Free left right text) :
    items left right (bracket left right text) = [text] := by
  unfold items bracket
  rw [List.cons_append, scan, if_pos rfl, scan_free h, List.nil_append, scan, if_neg hne.symm,
    if_pos rfl]
  rfl

/-- No item has a bracket in it. -/
theorem free_of_mem_scan {inside : Option (List α)} (hin : ∀ item ∈ inside, Free left right item)
    {text w : List α}
    (h : w ∈ scan left right inside text) : Free left right w := by
  induction text generalizing inside with
  | nil => cases inside <;> cases h
  | cons c text ih =>
    have hempty : ∀ item ∈ some ([] : List α), Free left right item := by
      rintro item ⟨⟩ c hc
      cases hc
    have hnone : ∀ item ∈ (none : Option (List α)), Free left right item := by
      rintro item ⟨⟩
    cases inside with
    | none =>
      rw [scan] at h
      split at h
      · exact ih hempty h
      · exact ih hnone h
    | some item =>
      have hitem := hin item rfl
      rw [scan] at h
      split at h
      · exact ih hempty h
      · split at h
        · rcases List.mem_cons.mp h with rfl | h
          · exact hitem
          · exact ih hnone h
        · next hleft hright =>
          refine ih ?_ h
          rintro longer ⟨⟩ x hx
          rcases List.mem_append.mp hx with hx | hx
          · exact hitem x hx
          · rw [List.mem_singleton.mp hx]
            exact ⟨hleft, hright⟩

theorem free_of_mem_items {text w : List α} (h : w ∈ items left right text) : Free left right w :=
  free_of_mem_scan (by rintro item ⟨⟩) h

end Bracketed
