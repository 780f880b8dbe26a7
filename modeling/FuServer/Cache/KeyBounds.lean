import FuServer.Cache.Inserts
import FuServer.Cache.KeyOrder

/-!
# The tracked bounds (m_sMinKey, m_sMaxKey)

Every overload of `InsertRecord` that stores a record calls `InsertSet`, and so
`CheckIncrementField`, with its key.  Where keys are compared in a total
preorder and none of them is empty, the two bounds are the extremes of the
keys, in whatever order these came.
-/

namespace FuServer

open Bytes Compare Outcome Runs

namespace InsertArgs

variable {fp : FloatUnit}

/-- What a call that returns has done: nothing, or put a record under the key it answers with. -/
theorem insert_cases {t t' : DBTable fp} (h : t.SchemaOk) {args : InsertArgs} {r : Option Str}
    (hins : args.insert t = .ok (t', r)) :
    (r = none ∧ t' = t) ∨ ∃ k pRecord, r = some k ∧ t' = t.addRecord k pRecord := by
  rw [insert_eq] at hins
  obtain ⟨checked, -, hfinish⟩ := bind_eq_ok.mp hins
  cases checked with
  | none =>
    cases hfinish
    exact Or.inl ⟨rfl, rfl⟩
  | some k =>
    obtain ⟨⟨stored, pRecord⟩, hstore, hanswer⟩ := bind_eq_ok.mp hfinish
    obtain ⟨_, -, hset⟩ := bind_eq_ok.mp hstore
    obtain ⟨added, hadded, hpair⟩ := bind_eq_ok.mp hset
    rw [DBTable.insertSet_eq h] at hadded
    cases hadded
    cases hpair
    cases hanswer
    exact Or.inr ⟨k, pRecord, rfl, rfl⟩

end InsertArgs

namespace DBTable

variable {fp : FloatUnit}

/-- The comparison of the table's keys. -/
def keyCompare (t : DBTable fp) (x y : Str) : Int := dbCompareDataKey fp x y t.keyType

/-- The keys of the table. -/
def keySet (t : DBTable fp) : Set Str := {k | k ∈ t.recordSet}

theorem keySet_addRecord (t : DBTable fp) (k : Str) (r : DBRecord) :
    (t.addRecord k r).keySet = Insert.insert k t.keySet := by
  ext k'
  exact UMap.mem_insertNew

/-- No key is empty; without keys the bounds are unset, else they are the extremes. -/
def BoundsTracked (t : DBTable fp) : Prop :=
  [] ∉ t.keySet ∧
    (t.keySet = ∅ ∧ t.sMinKey = [] ∧ t.sMaxKey = [] ∨ Extremes t.keyCompare t.keySet t.sMinKey t.sMaxKey)

theorem boundsTracked_addRecord {t : DBTable fp} (hpre : IsPreorder t.keyCompare)
    (ht : t.BoundsTracked) {k : Str} (hk : k ≠ [])
    (r : DBRecord) : (t.addRecord k r).BoundsTracked ∧
      Extremes t.keyCompare (t.addRecord k r).keySet (t.addRecord k r).sMinKey
        (t.addRecord k r).sMaxKey := by
  obtain ⟨hnil, hbounds⟩ := ht
  have hextremes : Extremes t.keyCompare (t.addRecord k r).keySet (t.addRecord k r).sMinKey
      (t.addRecord k r).sMaxKey := by
    rw [keySet_addRecord, addRecord_sMinKey, addRecord_sMaxKey]
    rcases hbounds with ⟨hempty, hmin, hmax⟩ | hbounds
    · -- the first key is both bounds
      rw [if_pos hmin, if_pos hmax, ite_self, ite_self, hempty, insert_empty_eq]
      exact Extremes.singleton hpre k
    · have hmin : t.sMinKey ≠ [] := fun h => hnil (h ▸ hbounds.lo_mem)
      have hmax : t.sMaxKey ≠ [] := fun h => hnil (h ▸ hbounds.hi_mem)
      rw [if_neg hmin, if_neg hmax]
      exact hbounds.insert hpre k
  refine ⟨⟨?_, Or.inr hextremes⟩, hextremes⟩
  rw [keySet_addRecord]
  intro hmem
  rcases Set.mem_insert_iff.mp hmem with h | h
  · exact hk h.symm
  · exact hnil h

/-- A successful insert under a non-empty key. -/
def storeStep (t : DBTable fp) (args : InsertArgs) : Option (DBTable fp) :=
  match args.insert t with
  | .ok (t', some k) => if k = [] then none else some t'
  | _ => none

theorem storeStep_eq_some {t t' : DBTable fp} (h : t.SchemaOk) {args : InsertArgs}
    (hs : storeStep t args = some t') : ∃ k r, k ≠ [] ∧ t' = t.addRecord k r := by
  unfold storeStep at hs
  split at hs
  · next t1 k hins =>
    split at hs
    · cases hs
    · next hk =>
      cases hs
      rcases InsertArgs.insert_cases h hins with ⟨hnone, -⟩ | ⟨k', r, hsome, heq⟩
      · cases hnone
      · obtain rfl := Option.some.inj hsome
        exact ⟨k, r, hk, heq⟩
  · cases hs

theorem isPreorder_keyCompare {t : DBTable fp}
    (hkey : isIntegerType t.keyType = true ∨ t.keyType = dbStringT) :
    IsPreorder t.keyCompare := by
  apply isPreorder_dbCompareDataKey
  rcases hkey with hi | hs
  · by_contra hf
    have hf' : isFloatType t.keyType = true := by simpa using hf
    rw [isIntegerType_of_float hf'] at hi
    cases hi
  · rw [hs]
    rfl

/-- The bounds stay tracked over a run. -/
theorem run_boundsTracked {t t' : DBTable fp} (h : t.SchemaOk) (hpre : IsPreorder t.keyCompare)
    (ht : t.BoundsTracked) (calls : List InsertArgs) (hrun : run storeStep t calls = some t') :
    t'.BoundsTracked ∧ t'.keyCompare = t.keyCompare ∧
      (t.keySet.Nonempty ∨ calls ≠ [] → t'.keySet.Nonempty) := by
  induction calls generalizing t with
  | nil =>
    cases hrun
    exact ⟨ht, rfl, fun hne => hne.elim id fun hnil => absurd rfl hnil⟩
  | cons args calls ih =>
    obtain ⟨t1, hstep, hrest⟩ := Option.bind_eq_some_iff.mp hrun
    obtain ⟨k, r, hk, rfl⟩ := storeStep_eq_some h hstep
    have hsame := addRecord_same t k r
    have htracked := (boundsTracked_addRecord hpre ht hk r).1
    have hnonempty : (t.addRecord k r).keySet.Nonempty := by
      rw [keySet_addRecord]
      exact Set.insert_nonempty k t.keySet
    obtain ⟨htracked', hcmp, hne⟩ := ih (h.of_same hsame) hpre htracked hrest
    exact ⟨htracked', hcmp, fun _ => hne (Or.inl hnonempty)⟩

/-- **The tracked bounds.**  After any inserts into a new table with an integer or a string key,
under keys none of which is empty, the bounds are keys of the table and no key lies outside them. -/
theorem bounds_extreme {t t' : DBTable fp} (h : t.SchemaOk)
    (hkey : isIntegerType t.keyType = true ∨ t.keyType = dbStringT) (hempty : t.recordSet = ∅)
    (hmin : t.sMinKey = []) (hmax : t.sMaxKey = []) {calls : List InsertArgs} (hne : calls ≠ [])
    (hrun : run storeStep t calls = some t') :
    t'.sMinKey ∈ t'.recordSet ∧ t'.sMaxKey ∈ t'.recordSet ∧ ∀ k ∈ t'.recordSet,
      dbCompareDataKey fp t'.sMinKey k t'.keyType ≤ 0 ∧
        0 ≤ dbCompareDataKey fp t'.sMaxKey k t'.keyType := by
  have hset : t.keySet = ∅ := by
    ext k
    unfold keySet
    rw [hempty]
    exact iff_of_false (AList.notMem_empty k) (Set.notMem_empty k)
  have htracked : t.BoundsTracked := by
    refine ⟨?_, Or.inl ⟨hset, hmin, hmax⟩⟩
    rw [hset]
    exact Set.notMem_empty []
  obtain ⟨⟨-, hbounds⟩, hcmp, hnonempty⟩ :=
    run_boundsTracked h (isPreorder_keyCompare hkey) htracked calls hrun
  rcases hbounds with ⟨hnone, -, -⟩ | hbounds
  · exact absurd hnone (hnonempty (Or.inr hne)).ne_empty
  · exact ⟨hbounds.lo_mem, hbounds.hi_mem, fun k hk => ⟨hbounds.least k hk, hbounds.greatest k hk⟩⟩

/-- An empty table of an `id` and a `name`. -/
def intKeyed : DBTable .exactRational := DBTable.new [lit "id", lit "name"] [dbIntT, dbStringT] 0

theorem bounds_extreme_three :
    ∃ t', run storeStep intKeyed [.byKey (lit "9"), .byList [lit "10", lit "x"], .byKey []] = some t' ∧
      t'.sMinKey ∈ t'.recordSet ∧ t'.sMaxKey ∈ t'.recordSet ∧ ∀ k ∈ t'.recordSet,
        dbCompareDataKey .exactRational t'.sMinKey k t'.keyType ≤ 0 ∧
          0 ≤ dbCompareDataKey .exactRational t'.sMaxKey k t'.keyType := by
  have hsome : (run storeStep intKeyed
      [.byKey (lit "9"), .byList [lit "10", lit "x"], .byKey []]).isSome = true := by decide +kernel
  obtain ⟨t', hrun⟩ := Option.isSome_iff_exists.mp hsome
  exact ⟨t', hrun, bounds_extreme (DBTable.new_schemaOk rfl (by decide) (by decide))
    (Or.inl rfl) rfl rfl rfl
    (List.cons_ne_nil _ _) hrun⟩

end DBTable

end FuServer
