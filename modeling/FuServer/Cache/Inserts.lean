import FuServer.Cache.TableSpec
import FuServer.Lib.Runs

/-!
# Inserts side by side

Each `InsertRecord` in two steps: the key is determined and looked for, then,
under the lock, the record is built and stored.  The lock keeps the second steps
apart, but not a second step from the first steps of others: of two calls that
have looked for one key, the second to store keeps the map as it is and returns
its own record all the same.
-/

namespace FuServer

open Bytes Outcome Runs

/-- The overloads of `InsertRecord` with what they are given. -/
inductive InsertArgs
  | byKey (key : Str)
  | byRecord (pRecord : DBRecord)
  | byName (dataList : UMap Str Str)
  | byList (dataList : List Str)
  | byIndex (dataList : UMap Int Str)

namespace InsertArgs

variable {fp : FloatUnit}

def insert (t : DBTable fp) : InsertArgs → Res (DBTable fp × Option Str)
  | byKey key => t.insertRecordKey key
  | byRecord pRecord => t.insertRecordPtr pRecord
  | byName dataList => t.insertRecord dataList
  | byList dataList => t.insertRecordList dataList
  | byIndex dataList => t.insertRecordIndexed dataList

/-! ## The two steps -/

/-- The key, unless there is a record under it. -/
def absent (t : DBTable fp) (dataKey : Str) : Option Str :=
  if (t.findSet dataKey).isSome then none else some dataKey

def absentKey (t : DBTable fp) (key : Str) : Res (Option Str) := do
  let dataKey ← t.givenKey (if key = [] then none else some key)
  return if dataKey = [] then none else absent t dataKey

/-- The first step: the key to insert under; `none` is `NULL`. -/
def check (t : DBTable fp) : InsertArgs → Res (Option Str)
  | byKey key => absentKey t key
  | byRecord pRecord => do
    let pKeyField ← pRecord.getField t.iPriKeyIndex
    return if pKeyField.bNull then none else absent t pKeyField.sData
  | byName dataList =>
    if dataList.entries = [] then absentKey t []
    else do
      let keyName ← t.getFieldName t.iPriKeyIndex
      let dataKey ← t.givenKey (dataList.lookup keyName)
      return absent t dataKey
  | byList dataList =>
    if t.fieldNameList.length ≠ dataList.length then return none
    else do
      let dataKey ← vecAt dataList t.iPriKeyIndex
      return absent t dataKey
  | byIndex dataList => do
    let dataKey ← t.givenKey (dataList.lookup t.iPriKeyIndex)
    return absent t dataKey

def keyFields (t : DBTable fp) (dataKey : Str) : Res (List DBField) :=
  t.newFields fun i iType => do
    let pField := (DBField.new iType).setIsKey ((i : Int) == t.iPriKeyIndex)
    return if pField.bKey then pField.setData dataKey else pField

/-- The record that the second step builds. -/
def build (t : DBTable fp) (dataKey : Str) : InsertArgs → Res DBRecord
  | byKey _ => do
    let fieldList ← keyFields t dataKey
    return { fieldList := fieldList }
  | byRecord pRecord => .ok pRecord
  | byName dataList =>
    if dataList.entries = [] then do
      let fieldList ← keyFields t dataKey
      return { fieldList := fieldList }
    else do
      let keyName ← t.getFieldName t.iPriKeyIndex
      let fieldList ← t.newFields fun i iType => do
        let fieldName ← t.getFieldName i
        let pField := ((DBField.new iType).setIsKey (fieldName == keyName)).setIndex i
        if pField.bKey then return pField.setData dataKey
        else match dataList.lookup fieldName with
          | some data => return pField.setData data
          | none => return pField
      return { fieldList := fieldList }
  | byList dataList => do
    let fieldList ← t.newFields fun i iType => do
      let data ← vecAt dataList i
      return (((DBField.new iType).setIsKey ((i : Int) == t.iPriKeyIndex)).setIndex i).setData data
    return { fieldList := fieldList }
  | byIndex dataList => do
    let fieldList ← t.newFields fun i iType => do
      let pField := ((DBField.new iType).setIsKey ((i : Int) == t.iPriKeyIndex)).setIndex i
      if pField.bKey then return pField.setData dataKey
      else match dataList.lookup (i : Int) with
        | some data => return pField.setData data
        | none => return pField
    return { fieldList := fieldList }

/-- The second step. -/
def store (t : DBTable fp) (dataKey : Str) (args : InsertArgs) : Res (DBTable fp × DBRecord) := do
  let pRecord ← args.build t dataKey
  let t' ← t.insertSet dataKey pRecord
  return (t', pRecord)

/-- What a call does once its key is known. -/
def finish (t : DBTable fp) (args : InsertArgs) : Option Str → Res (DBTable fp × Option Str)
  | none => return (t, none)
  | some dataKey => do
    let stored ← args.store t dataKey
    return (stored.1, some dataKey)

theorem finish_absent (t : DBTable fp) (args : InsertArgs) (k : Str) :
    args.finish t (absent t k) = if (t.findSet k).isSome then .ok (t, none)
      else do
        let pRecord ← args.build t k
        let t' ← t.insertSet k pRecord
        return (t', some k) := by
  unfold absent
  by_cases h : (t.findSet k).isSome
  · rw [if_pos h, if_pos h]
    rfl
  · rw [if_neg h, if_neg h, finish, store]
    simp only [bind_assoc, pure_bind]

theorem insertRecordKey_eq (t : DBTable fp) (key : Str) :
    t.insertRecordKey key = absentKey t key >>= finish t (byKey key) := by
  unfold absentKey DBTable.insertRecordKey
  rw [bind_assoc]
  congr 1
  funext k
  rw [pure_bind]
  by_cases hk : k = []
  · rw [if_pos hk, if_pos hk]
    rfl
  · rw [if_neg hk, if_neg hk, finish_absent, build, keyFields]
    simp only [bind_assoc, pure_bind]
    rfl

theorem insertRecord_eq (t : DBTable fp) (dataList : UMap Str Str) :
    t.insertRecord dataList = (byName dataList).check t >>= finish t (byName dataList) := by
  unfold DBTable.insertRecord
  by_cases hl : dataList.entries = []
  · -- the overload with a key, here the empty one
    have hsame : finish t (byName dataList) = finish t (byKey []) := by
      funext k
      cases k with
      | none => rfl
      | some k => rw [finish, finish, store, store, build, build, if_pos hl]
    rw [check, if_pos hl, if_pos hl, hsame]
    exact insertRecordKey_eq t []
  · rw [check, if_neg hl, if_neg hl]
    cases hname : t.getFieldName t.iPriKeyIndex with
    | error e => rfl
    | ok keyName =>
      simp only [ok_bind]
      rw [bind_assoc]
      congr 1
      funext k
      rw [pure_bind, finish_absent, build, if_neg hl, hname]
      simp only [ok_bind, bind_assoc, pure_bind]
      rfl

/-- A call that no other comes between is its two steps. -/
theorem insert_eq (t : DBTable fp) (args : InsertArgs) :
    args.insert t = args.check t >>= finish t args := by
  cases args with
  | byKey key => exact insertRecordKey_eq t key
  | byRecord pRecord =>
    unfold insert check DBTable.insertRecordPtr
    dsimp only
    rw [bind_assoc]
    congr 1
    funext pKeyField
    rw [pure_bind]
    cases hnull : pKeyField.bNull with
    | true => rfl
    | false =>
      rw [if_neg Bool.false_ne_true, finish_absent, build, Bool.false_or]
      rfl
  | byName dataList => exact insertRecord_eq t dataList
  | byList dataList =>
    unfold insert check DBTable.insertRecordList
    dsimp only
    split
    · rfl
    · rw [bind_assoc]
      congr 1
      funext k
      rw [pure_bind, finish_absent, build]
      simp only [bind_assoc, pure_bind]
      rfl
  | byIndex dataList =>
    unfold insert check DBTable.insertRecordIndexed
    dsimp only
    rw [bind_assoc]
    congr 1
    funext k
    rw [pure_bind, finish_absent, build]
    simp only [bind_assoc, pure_bind]
    rfl

end InsertArgs

/-! ## Calls on one table -/

/-- A call that has found its key absent, and one that has returned its record. -/
structure OpenInsert where
  id : Nat
  args : InsertArgs
  dataKey : Str

structure DoneInsert where
  id : Nat
  dataKey : Str
  pRecord : DBRecord

/-- A table beside the calls that are made on it.  `owner` is bookkeeping: the
call whose record is under a key. -/
structure Inserts (fp : FloatUnit) where
  table : DBTable fp
  next : Nat := 0
  pending : List OpenInsert := []
  done : List DoneInsert := []
  owner : Str → Option Nat := fun _ => none

inductive InsertStep
  /-- a new call -/
  | check (args : InsertArgs)
  /-- the second step of the call -/
  | store (id : Nat)

namespace Inserts

variable {fp : FloatUnit} {s s' : Inserts fp}

def step (s : Inserts fp) : InsertStep → Option (Inserts fp)
  | .check args =>
    match args.check s.table with
    | .error _ => none
    | .ok none => some { s with next := s.next + 1 }
    | .ok (some dataKey) =>
      some { s with next := s.next + 1, pending := ⟨s.next, args, dataKey⟩ :: s.pending }
  | .store id =>
    match s.pending.find? (·.id = id) with
    | none => none
    | some call =>
      match call.args.store s.table call.dataKey with
      | .error _ => none
      | .ok (table, pRecord) =>
        some { s with
          table := table
          pending := s.pending.filter (·.id ≠ id)
          done := ⟨id, call.dataKey, pRecord⟩ :: s.done
          owner := if call.dataKey ∈ s.table.recordSet then s.owner
            else Function.update s.owner call.dataKey (some id) }

/-- Every record that a call has returned is the one stored under its key, and
the calls that have returned one have different keys. -/
def Claimed (s : Inserts fp) : Prop :=
  (∀ d ∈ s.done, s.owner d.dataKey = some d.id ∧ s.table.recordSet.lookup d.dataKey = some d.pRecord) ∧
    (s.done.map (·.dataKey)).Nodup

/-- When a call stores its record, there is still none under its key. -/
def Unclaimed (s : Inserts fp) : InsertStep → Prop
  | .check _ => True
  | .store id => ∀ call ∈ s.pending.find? (·.id = id), s.table.findSet call.dataKey = none

structure Inv (s : Inserts fp) : Prop where
  fresh : ∀ call ∈ s.pending, call.id < s.next
  /-- a record is owned by a call that has returned it -/
  owned : ∀ k id, s.owner k = some id → id < s.next ∧ ∀ call ∈ s.pending, call.id ≠ id

theorem store_recordSet {t t' : DBTable fp} {args : InsertArgs} {k : Str} {r : DBRecord}
    (h : args.store t k = .ok (t', r)) : t'.recordSet = UMap.insertNew k r t.recordSet := by
  obtain ⟨pRecord, -, h⟩ := bind_eq_ok.mp h
  obtain ⟨t1, h1, h⟩ := bind_eq_ok.mp h
  cases h
  exact (DBTable.insertSet_spec h1).1

theorem mem_of_find {id : Nat} {call : OpenInsert} (h : s.pending.find? (·.id = id) = some call) :
    call ∈ s.pending ∧ call.id = id :=
  ⟨List.mem_of_find?_eq_some h, of_decide_eq_true (List.find?_some h :)⟩

theorem unclaimed_store {id : Nat} {call : OpenInsert} (h : s.pending.find? (·.id = id) = some call) :
    s.Unclaimed (.store id) ↔ call.dataKey ∉ s.table.recordSet := by
  show (∀ call ∈ s.pending.find? (·.id = id), s.table.recordSet.lookup call.dataKey = none) ↔ _
  rw [h, ← AList.lookup_eq_none]
  constructor
  · exact fun hnone => hnone call rfl
  · intro hnone c hc
    cases hc
    exact hnone

/-- **What a step does.**  A first step stores nothing; a second one is that of a pending call. -/
theorem step_cases {a : InsertStep} (hs : step s a = some s') :
    (∃ args, a = .check args ∧ s'.table = s.table ∧ s'.done = s.done ∧ s'.owner = s.owner ∧
        s'.next = s.next + 1 ∧ ∀ call ∈ s'.pending, call.id = s.next ∨ call ∈ s.pending) ∨
      ∃ id call table pRecord, a = .store id ∧ s.pending.find? (·.id = id) = some call ∧
        call.args.store s.table call.dataKey = .ok (table, pRecord) ∧
        s' = { s with
          table := table
          pending := s.pending.filter (·.id ≠ id)
          done := ⟨id, call.dataKey, pRecord⟩ :: s.done
          owner := if call.dataKey ∈ s.table.recordSet then s.owner
            else Function.update s.owner call.dataKey (some id) } := by
  cases a with
  | check args =>
    refine Or.inl ⟨args, rfl, ?_⟩
    rw [step] at hs
    cases hcheck : args.check s.table with
    | error e =>
      rw [hcheck] at hs
      cases hs
    | ok key =>
      rw [hcheck] at hs
      cases key with
      | none =>
        cases hs
        exact ⟨rfl, rfl, rfl, rfl, fun call hcall => Or.inr hcall⟩
      | some k =>
        cases hs
        refine ⟨rfl, rfl, rfl, rfl, fun call hcall => ?_⟩
        rcases List.mem_cons.mp hcall with rfl | hcall
        · exact Or.inl rfl
        · exact Or.inr hcall
  | store id =>
    rw [step] at hs
    cases hcall : s.pending.find? (·.id = id) with
    | none =>
      rw [hcall] at hs
      cases hs
    | some call =>
      rw [hcall] at hs
      dsimp only at hs
      cases hstore : call.args.store s.table call.dataKey with
      | error e =>
        rw [hstore] at hs
        cases hs
      | ok r =>
        rw [hstore] at hs
        cases hs
        exact Or.inr ⟨id, call, r.1, r.2, rfl, hcall, hstore, rfl⟩

theorem Inv.step (h : Inv s) {a : InsertStep} (hs : Inserts.step s a = some s') : Inv s' := by
  rcases step_cases hs with ⟨args, -, -, -, howner, hnext, hpending⟩ | ⟨id, call, table, pRecord, -,
    hcall, -, rfl⟩
  · constructor
    · intro call hcall
      rw [hnext]
      rcases hpending call hcall with hid | hcall
      · omega
      · have := h.fresh call hcall
        omega
    · intro k id hk
      rw [howner] at hk
      obtain ⟨hlt, hne⟩ := h.owned k id hk
      refine ⟨by omega, fun call hcall => ?_⟩
      rcases hpending call hcall with hid | hcall
      · omega
      · exact hne call hcall
  · obtain ⟨hmem, hid⟩ := mem_of_find hcall
    constructor
    · intro c hc
      exact h.fresh c (List.mem_of_mem_filter hc)
    · intro k j hk
      change (if call.dataKey ∈ s.table.recordSet then s.owner
        else Function.update s.owner call.dataKey (some id)) k = some j at hk
      have hold : s.owner k = some j → j < s.next ∧ ∀ c ∈ s.pending.filter (·.id ≠ id), c.id ≠ j := by
        intro hk
        obtain ⟨hlt, hne⟩ := h.owned k j hk
        exact ⟨hlt, fun c hc => hne c (List.mem_of_mem_filter hc)⟩
      split at hk
      · exact hold hk
      · by_cases hkey : k = call.dataKey
        · rw [hkey, Function.update_self] at hk
          cases hk
          refine ⟨?_, fun c hc => of_decide_eq_true (List.mem_filter.mp hc).2⟩
          rw [← hid]
          exact h.fresh call hmem
        · rw [Function.update_of_ne hkey] at hk
          exact hold hk

theorem claimed_step (h : Inv s) (hclaimed : s.Claimed) {a : InsertStep}
    (hs : Inserts.step s a = some s') :
    s'.Claimed ↔ s.Unclaimed a := by
  obtain ⟨hdone, hnodup⟩ := hclaimed
  rcases step_cases hs with ⟨args, rfl, htable, hsame, howner, -, -⟩ |
    ⟨id, call, table, pRecord, rfl, hcall, hstore, rfl⟩
  · refine iff_of_true ⟨?_, ?_⟩ trivial
    · rw [hsame, howner, htable]
      exact hdone
    · rw [hsame]
      exact hnodup
  · obtain ⟨hmem, hid⟩ := mem_of_find hcall
    have hset := store_recordSet hstore
    rw [unclaimed_store hcall]
    constructor
    · intro hclaimed hin
      -- the record under the key is that of a call that has returned
      have howner : s.owner call.dataKey = some id := by
        have := (hclaimed.1 ⟨id, call.dataKey, pRecord⟩ List.mem_cons_self).1
        rwa [if_pos hin] at this
      exact (h.owned _ _ howner).2 call hmem hid
    · intro hout
      have hother : ∀ d ∈ s.done, d.dataKey ≠ call.dataKey := by
        intro d hd hkey
        apply hout
        rw [← hkey]
        exact UMap.mem_of_lookup (hdone d hd).2
      constructor
      · intro d hd
        show (if call.dataKey ∈ s.table.recordSet then s.owner
          else Function.update s.owner call.dataKey (some id)) d.dataKey = some d.id ∧
            table.recordSet.lookup d.dataKey = some d.pRecord
        rw [if_neg hout, hset, UMap.lookup_insertNew]
        rcases List.mem_cons.mp hd with rfl | hd
        · rw [Function.update_self, if_pos ⟨rfl, hout⟩]
          exact ⟨rfl, rfl⟩
        · have hne := hother d hd
          rw [Function.update_of_ne hne, if_neg fun hboth => hne hboth.1]
          exact hdone d hd
      · show ((⟨id, call.dataKey, pRecord⟩ :: s.done : List DoneInsert).map (·.dataKey)).Nodup
        rw [List.map_cons, List.nodup_cons]
        refine ⟨fun hin => ?_, hnodup⟩
        obtain ⟨d, hd, hkey⟩ := List.mem_map.mp hin
        exact hother d hd hkey

/-- **Inserts side by side.**  Over any interleaving of the two steps of any
calls on a table, every call that returns a record has stored it and no two
of them have one key, exactly when no call stores its record where another has
stored one since the call looked. -/
theorem claimed_iff (t : DBTable fp) (as : List InsertStep) :
    Always step Claimed { table := t } as ↔ EachStep step Unclaimed { table := t } as := by
  apply always_iff_eachStep (J := Inv) (D := fun _ _ => True)
  · exact fun _ _ _ h _ hs => h.step hs
  · exact fun _ _ _ h hclaimed _ hs => claimed_step h hclaimed hs
  · exact ⟨nofun, nofun⟩
  · exact ⟨nofun, List.nodup_nil⟩
  · exact eachStep_of_forall as _ fun _ _ _ => trivial

/-- Two calls with one key: both look, then both store. -/
theorem not_claimed :
    ¬ Always step Claimed
      { table := (DBTable.new [lit "id"] [dbIntT] 0 : DBTable .exactRational) }
      [.check (.byKey (lit "7")), .check (.byKey (lit "7")), .store 0, .store 1] := by
  apply not_always_of_any (b := fun s => !decide (s.done.map (·.dataKey)).Nodup)
  · intro s hs hclaimed
    simp [hclaimed.2] at hs
  · decide +kernel

end Inserts

end FuServer
