import Mathlib.Logic.Function.Basic
import FuServer.Lib.HashMap

/-!
# Keyed tables

What a table of rows under keys is for: insert a row under a new key, change
the columns of a row other than its key, look a row up.  How the key of an
insertion without one is chosen, and whether such an insertion goes through,
is left open.  `rows` reads a hash map of records as such a table.
-/

namespace KeyedTable

variable {κ ι ν : Type*}

/-- A row for some of the keys. -/
abbrev Rows (κ ι ν : Type*) := κ → Option (ι → ν)

/-- The columns, which of them is the key, how a key is written in it, the value of an absent column. -/
structure Layout (κ ι ν : Type*) where
  columns : List ι
  key : ι
  write : κ → ν
  blank : ν

namespace Layout

variable [DecidableEq ι] (L : Layout κ ι ν)

/-- The row inserted under `k`: given columns set, absent columns blank. -/
def newRow (k : κ) (d : ι → Option ν) : ι → ν :=
  fun c => if c = L.key then L.write k else (d c).getD L.blank

/-- A row with the non-key columns of `d` set. -/
def amend (d : ι → Option ν) (row : ι → ν) : ι → ν :=
  fun c => if c = L.key then row c else (d c).getD (row c)

end Layout

inductive Call (κ ι ν : Type*)
  | insert (given : Option κ) (d : ι → Option ν)
  | modify (k : κ) (d : ι → Option ν)
  | query (k : κ)

inductive Reply (κ ν : Type*)
  | inserted (k : Option κ)
  | modified (ok : Bool)
  | found (ok : Bool) (rows : List (List ν))

section Step

variable [DecidableEq κ] [DecidableEq ι]

/-- What each call may do. -/
inductive Step (L : Layout κ ι ν) : Rows κ ι ν → Call κ ι ν → Reply κ ν → Rows κ ι ν → Prop
  | insert {T : Rows κ ι ν} {given : Option κ} {d : ι → Option ν} {k : κ} (absent : T k = none)
      (asked : ∀ k' ∈ given, k' = k) :
      Step L T (.insert given d) (.inserted (some k)) (Function.update T k (some (L.newRow k d)))
  | refuse {T : Rows κ ι ν} {given : Option κ} {d : ι → Option ν}
      (taken : ∀ k ∈ given, T k ≠ none) :
      Step L T (.insert given d) (.inserted none) T
  | modify {T : Rows κ ι ν} {k : κ} {d : ι → Option ν} {row : ι → ν} (present : T k = some row) :
      Step L T (.modify k d) (.modified true) (Function.update T k (some (L.amend d row)))
  | modifyAbsent {T : Rows κ ι ν} {k : κ} {d : ι → Option ν} (absent : T k = none) :
      Step L T (.modify k d) (.modified false) T
  | query {T : Rows κ ι ν} {k : κ} {row : ι → ν} (present : T k = some row) :
      Step L T (.query k) (.found true [L.columns.map row]) T
  | queryAbsent {T : Rows κ ι ν} {k : κ} (absent : T k = none) :
      Step L T (.query k) (.found false []) T

/-! ## Hash maps as keyed tables -/

/-- The table a hash map holds, when `view` reads its records as rows. -/
def rows {ρ : Type*} (view : ρ → ι → ν) (s : UMap κ ρ) : Rows κ ι ν :=
  fun k => (s.lookup k).map view

omit [DecidableEq ι] in
theorem rows_eq_none {ρ : Type*} {view : ρ → ι → ν} {s : UMap κ ρ} {k : κ} :
    rows view s k = none ↔ k ∉ s := by
  unfold rows
  rw [Option.map_eq_none_iff, AList.lookup_eq_none]

omit [DecidableEq ι] in
theorem rows_insertNew {ρ : Type*} (view : ρ → ι → ν) {s : UMap κ ρ} {k : κ} (hk : k ∉ s) (r : ρ) :
    rows view (UMap.insertNew k r s) = Function.update (rows view s) k (some (view r)) := by
  funext k'
  show ((UMap.insertNew k r s).lookup k').map view = _
  rw [UMap.lookup_insertNew]
  by_cases he : k' = k
  · rw [if_pos ⟨he, hk⟩, he, Function.update_self]
    rfl
  · rw [if_neg fun h => he h.1, Function.update_of_ne he]
    rfl

omit [DecidableEq ι] in
theorem rows_adjust {ρ : Type*} (view : ρ → ι → ν) {s : UMap κ ρ} {k : κ} {r : ρ}
    (hr : s.lookup k = some r) (f : ρ → ρ) :
    rows view (UMap.adjust k f s) = Function.update (rows view s) k (some (view (f r))) := by
  funext k'
  show ((UMap.adjust k f s).lookup k').map view = _
  rw [UMap.lookup_adjust]
  by_cases he : k' = k
  · rw [if_pos he, he, Function.update_self, hr]
    rfl
  · rw [if_neg he, Function.update_of_ne he]
    rfl

end Step

end KeyedTable
