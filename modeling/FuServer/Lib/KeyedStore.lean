import FuServer.Lib.KeyedTable
import FuServer.Lib.Runs

/-!
# Stores of keyed tables

What a store of tables under names is for: calls on one table, loads that add a
table, and passes that nobody sees.  A call on a table that is not there is
refused.  A table keeps its columns and its key for good; only its rows change.
-/

namespace KeyedStore

open KeyedTable

variable {η γ τ ν : Type*}

/-- A table of a store: its columns, which of them is the key, what kind each is of, its rows. -/
structure Sheet (γ τ ν : Type*) where
  names : List γ
  key : { c // c ∈ names }
  kind : { c // c ∈ names } → τ
  rows : Rows ν { c // c ∈ names } ν

abbrev Store (η γ τ ν : Type*) := η → Option (Sheet γ τ ν)

def Sheet.layout (blank : ν) (s : Sheet γ τ ν) : Layout ν { c // c ∈ s.names } ν where
  columns := s.names.attach
  key := s.key
  write := id
  blank := blank

/-- A call on one table.  A selection asks for the rows whose text in a column passes a
test, or for the row under an exact key when the column is the key. -/
inductive TableCall (γ τ ν : Type*)
  | insert (d : γ → Option ν)
  | modify (k : ν) (d : γ → Option ν)
  | select (c : γ) (exact : Option ν) (test : τ → ν → Prop)

/-- A request: a call on a table, a load of what the database holds for a name, or
something that leaves the tables alone. -/
inductive Request (η γ τ ν : Type*)
  | call (tname : η) (c : TableCall γ τ ν)
  | load (tname : η) (held : Option (Sheet γ τ ν))
  | nothing
  | flush

inductive Reply (γ ν : Type*)
  | inserted (k : Option ν)
  | modified (ok : Bool)
  | found (ok : Bool) (names : List γ) (rows : List (List ν))
  | loaded (ok : Bool)
  | flushed

/-- The answer of a call that is refused. -/
def TableCall.refusal : TableCall γ τ ν → Reply γ ν
  | .insert _ => .inserted none
  | .modify _ _ => .modified false
  | .select _ _ _ => .found false [] []

/-- The rows listed are those that pass, each once, in some order. -/
def Lists {κ ι : Type*} (T : Rows κ ι ν) (columns : List ι) (test : (ι → ν) → Prop)
    (found : List (List ν)) : Prop :=
  ∃ keys : List κ, keys.Nodup ∧ (∀ k, k ∈ keys ↔ ∃ row, T k = some row ∧ test row) ∧
    found.Perm (keys.filterMap fun k => (T k).map columns.map)

section Step

variable [DecidableEq η] [DecidableEq γ] [DecidableEq ν] (blank : ν)

/-- What a call may do to its table. -/
inductive SheetStep (s : Sheet γ τ ν) :
    TableCall γ τ ν → Reply γ ν → Rows ν { c // c ∈ s.names } ν → Prop
  | insert {d : γ → Option ν} {k : Option ν} {T : Rows ν { c // c ∈ s.names } ν}
      (step : KeyedTable.Step (s.layout blank) s.rows (.insert (d s.key.1) fun c => d c.1)
        (.inserted k) T) :
      SheetStep s (.insert d) (.inserted k) T
  | modify {k : ν} {d : γ → Option ν} {ok : Bool} {T : Rows ν { c // c ∈ s.names } ν}
      (step : KeyedTable.Step (s.layout blank) s.rows (.modify k fun c => d c.1) (.modified ok) T) :
      SheetStep s (.modify k d) (.modified ok) T
  | find {k : ν} {test : τ → ν → Prop} {ok : Bool} {rows : List (List ν)}
      (step : KeyedTable.Step (s.layout blank) s.rows (.query k) (.found ok rows) s.rows) :
      SheetStep s (.select s.key.1 (some k) test) (.found ok s.names rows) s.rows
  | scan {c : { c // c ∈ s.names }} {exact : Option ν} {test : τ → ν → Prop} {ok : Bool}
      {rows : List (List ν)}
      (free : c = s.key → exact = none)
      (lists : Lists s.rows (s.layout blank).columns (fun row => test (s.kind c) (row c)) rows)
      (any : ok = true ↔ rows ≠ []) :
      SheetStep s (.select c.1 exact test) (.found ok s.names rows) s.rows

/-- What a request may do to the store. -/
inductive Step : Store η γ τ ν → Request η γ τ ν → Reply γ ν → Store η γ τ ν → Prop
  | call {S : Store η γ τ ν} {tname : η} {s : Sheet γ τ ν} {c : TableCall γ τ ν} {reply : Reply γ ν}
      {T : Rows ν { c // c ∈ s.names } ν} (present : S tname = some s)
        (step : SheetStep blank s c reply T) :
      Step S (.call tname c) reply (Function.update S tname (some { s with rows := T }))
  | missing {S : Store η γ τ ν} {tname : η} {c : TableCall γ τ ν} (absent : S tname = none) :
      Step S (.call tname c) c.refusal S
  | load {S : Store η γ τ ν} {tname : η} {s : Sheet γ τ ν} (absent : S tname = none) :
      Step S (.load tname (some s)) (.loaded true) (Function.update S tname (some s))
  | notLoaded {S : Store η γ τ ν} {tname : η} {held : Option (Sheet γ τ ν)}
      (why : S tname ≠ none ∨ held = none) :
      Step S (.load tname held) (.loaded false) S
  | nothing {S : Store η γ τ ν} : Step S .nothing (.found false [] []) S
  | flush {S : Store η γ τ ν} : Step S .flush .flushed S

variable {blank}

/-- A step that leaves the rows of its table leaves the store. -/
theorem Step.call_same {S : Store η γ τ ν} {tname : η} {s : Sheet γ τ ν} {c : TableCall γ τ ν}
    {reply : Reply γ ν} (present : S tname = some s) (step : SheetStep blank s c reply s.rows) :
    Step blank S (.call tname c) reply S := by
  have hcall := Step.call present step
  have hsame : Function.update S tname (some { s with rows := s.rows }) = S := by
    rw [← present]
    exact Function.update_eq_self tname S
  rwa [hsame] at hcall

/-- Only a pass goes unanswered. -/
theorem Step.answered {S S' : Store η γ τ ν} {r : Request η γ τ ν} {reply : Reply γ ν}
    (h : Step blank S r reply S')
    (hr : r ≠ .flush) : reply ≠ .flushed := by
  cases h with
  | call _ step => cases step <;> nofun
  | @missing _ c _ => cases c <;> nofun
  | load _ => nofun
  | notLoaded _ => nofun
  | nothing => nofun
  | flush => exact absurd rfl hr

end Step

/-! ## Hash maps as the rows of a table -/

/-- The rows of a hash map that pass, read off its entries in any order. -/
theorem lists_entries {κ ι ρ : Type*} [DecidableEq κ] {view : ρ → ι → ν} {rs : UMap κ ρ}
    {columns : List ι} {test : (ι → ν) → Prop} {pass : ρ → Prop} [DecidablePred pass]
    (hpass : ∀ k r, rs.lookup k = some r → (pass r ↔ test (view r))) {found : List ρ}
    (hfound : found.Perm ((rs.entries.map (·.2)).filter fun r => decide (pass r))) :
    Lists (rows view rs) columns test (found.map fun r => columns.map (view r)) := by
  let kept := rs.entries.filter fun e => decide (pass e.2)
  have hkept : (rs.entries.map (·.2)).filter (fun r => decide (pass r)) = kept.map (·.2) :=
    List.filter_map
  have hlook : ∀ e ∈ kept, rs.lookup e.1 = some e.2 :=
    fun e he => UMap.mem_entries.mp (List.mem_of_mem_filter he)
  refine ⟨kept.map (·.1), ?_, fun k => ?_, ?_⟩
  · exact List.Nodup.sublist (List.Sublist.map _ List.filter_sublist) rs.nodupKeys
  · constructor
    · intro hk
      obtain ⟨e, he, rfl⟩ := List.mem_map.mp hk
      refine ⟨view e.2, by rw [rows, hlook e he]; rfl, ?_⟩
      exact (hpass e.1 e.2 (hlook e he)).mp (of_decide_eq_true (List.mem_filter.mp he).2)
    · rintro ⟨row, hrow, htest⟩
      obtain ⟨r, hr, rfl⟩ := Option.map_eq_some_iff.mp hrow
      refine List.mem_map.mpr ⟨⟨k, r⟩, List.mem_filter.mpr ⟨UMap.mem_entries.mpr hr, ?_⟩, rfl⟩
      exact decide_eq_true ((hpass k r hr).mpr htest)
  · have hrows : (kept.map (·.1)).filterMap (fun k => (rows view rs k).map columns.map) =
        kept.map fun e => columns.map (view e.2) := by
      rw [List.filterMap_map]
      apply List.filterMap_eq_map_iff_forall_eq_some.mpr
      intro e he
      show (rows view rs e.1).map columns.map = _
      rw [rows, hlook e he]
      rfl
    rw [hrows]
    have hmap := (hkept ▸ hfound).map fun r => columns.map (view r)
    rwa [List.map_map] at hmap

end KeyedStore
