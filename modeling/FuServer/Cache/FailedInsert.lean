import FuServer.Cache.ManagerSpec

/-!
# What `InsertDB` says and what it did

`InsertDB` answers with the key of the new record and with the empty text when
it has refused.  An empty data list has the empty key tested in
`InsertRecord(std::string)`; the name map does not test it, so a record stored
under the empty key is answered like a refusal.
-/

namespace FuServer

open Bytes Outcome

namespace DBTable

variable {fp : FloatUnit}

/-- A record under `k` came in; the others are what they were. -/
structure Gained (t t' : DBTable fp) (k : Str) : Prop where
  fresh : k ∉ t.recordSet
  stored : ∃ r, t'.recordSet.lookup k = some r
  others : ∀ k', k' ≠ k → t'.recordSet.lookup k' = t.recordSet.lookup k'

/-- The records agree with the answer: no change for the empty text, one record more for a key. -/
def AnsweredBy (t t' : DBTable fp) (k : Str) : Prop :=
  if k = [] then t'.recordSet = t.recordSet else Gained t t' k

/-- A non-empty data list, to be inserted under the empty key, and no record is under it yet. -/
def EntersEmpty (t : DBTable fp) (dataList : UMap Str Str) : Prop :=
  dataList.entries ≠ [] ∧ t.newKey dataList = [] ∧ [] ∉ t.recordSet

instance (t : DBTable fp) (d : UMap Str Str) : Decidable (t.EntersEmpty d) :=
  inferInstanceAs (Decidable (_ ∧ _ ∧ _))

theorem gained_addRecord {t : DBTable fp} {k : Str} (hk : k ∉ t.recordSet) (r : DBRecord) :
    Gained t (t.addRecord k r) k := by
  constructor
  · exact hk
  · refine ⟨r, ?_⟩
    rw [addRecord_recordSet, UMap.lookup_insertNew, if_pos ⟨rfl, hk⟩]
  · intro k' hne
    rw [addRecord_recordSet, UMap.lookup_insertNew, if_neg fun h => hne h.1]

theorem addRecord_ne {t : DBTable fp} {k : Str} (hk : k ∉ t.recordSet) (r : DBRecord) :
    (t.addRecord k r).recordSet ≠ t.recordSet := by
  intro heq
  have hmem : k ∈ (t.addRecord k r).recordSet := UMap.mem_insertNew.mpr (Or.inl rfl)
  rw [heq] at hmem
  exact hk hmem

/-- A list that is not refused goes in under the empty key only through the name map. -/
theorem entersEmpty_iff {t : DBTable fp} {d : UMap Str Str} (hr : ¬ t.Refuses d) :
    t.EntersEmpty d ↔ t.newKey d = [] := by
  constructor
  · intro h
    exact h.2.1
  · intro h0
    refine ⟨fun hd => hr (Or.inr ⟨hd, h0⟩), h0, ?_⟩
    intro hmem
    exact hr (Or.inl (by rw [h0]; exact hmem))

theorem answeredBy_addRecord {t : DBTable fp} {d : UMap Str Str} (hr : ¬ t.Refuses d) (r : DBRecord) :
    t.AnsweredBy (t.addRecord (t.newKey d) r) (t.newKey d) ↔ ¬ t.EntersEmpty d := by
  have hk : t.newKey d ∉ t.recordSet := fun hk => hr (Or.inl hk)
  rw [entersEmpty_iff hr]
  unfold AnsweredBy
  by_cases h0 : t.newKey d = []
  · rw [if_pos h0]
    exact iff_of_false (addRecord_ne hk r) fun h => h h0
  · rw [if_neg h0]
    exact iff_of_true (gained_addRecord hk r) h0

theorem not_entersEmpty_of_refuses {t : DBTable fp} {d : UMap Str Str} (hr : t.Refuses d) :
    ¬ t.EntersEmpty d := by
  rintro ⟨hd, h0, hmem⟩
  rcases hr with hk | ⟨hd', -⟩
  · rw [h0] at hk
    exact hmem hk
  · exact hd hd'

end DBTable

namespace DBManager

variable {fp : FloatUnit}

/-- **A refused insert changes nothing.**  The answer of `InsertDB` and the table's
records agree for every data list except one that goes in under the empty key. -/
theorem insertDB_answered_iff {m : DBManager fp} {tname : Str} {t : DBTable fp}
    (hm : m.tableSet.lookup tname = some t) (h : t.SchemaOk) (d : UMap Str Str) :
    Returns (m.insertDB tname d)
        (fun r => ∃ t', r.1.tableSet.lookup tname = some t' ∧ t.AnsweredBy t' r.2) ↔
      (tname = [] ∨ ¬ t.EntersEmpty d) := by
  by_cases hn : tname = []
  · have hres : m.insertDB tname d = .ok (m, []) := by
      unfold insertDB
      rw [if_pos hn]
    rw [hres, returns_ok]
    exact iff_of_true ⟨t, hm, rfl⟩ (Or.inl hn)
  rw [insertDB_eq hn hm h, returns_ok]
  by_cases hr : t.Refuses d
  · rw [if_pos hr]
    exact iff_of_true ⟨t, hm, rfl⟩ (Or.inr (DBTable.not_entersEmpty_of_refuses hr))
  rw [if_neg hr, or_iff_right hn, ← DBTable.answeredBy_addRecord hr ((t.newRecord d).setIsInsert true)]
  have hput := lookup_putTable_self hm (t.addRecord (t.newKey d) ((t.newRecord d).setIsInsert true))
  constructor
  · rintro ⟨t', ht', hans⟩
    obtain rfl := Option.some.inj (hput.symm.trans ht')
    exact hans
  · intro hans
    exact ⟨_, hput, hans⟩

/-- A manager with the empty table `t` of an `id` and a `name`. -/
def emptyTable : DBManager .exactRational :=
  { (createLink (lit "db") : DBManager .exactRational) with
    tableSet := UMap.insertNew (lit "t") (DBTable.new [lit "id", lit "name"] [dbIntT, dbStringT] 0) ∅ }

theorem insertDB_answered_iff_named :
    ∃ t, emptyTable.tableSet.lookup (lit "t") = some t ∧
      (Returns (emptyTable.insertDB (lit "t") (UMap.insertNew (lit "id") (lit "1") ∅))
          (fun r => ∃ t', r.1.tableSet.lookup (lit "t") = some t' ∧ t.AnsweredBy t' r.2) ↔
        (lit "t" = [] ∨ ¬ t.EntersEmpty (UMap.insertNew (lit "id") (lit "1") ∅))) :=
  ⟨_, rfl, insertDB_answered_iff rfl (DBTable.new_schemaOk rfl (by decide) (by decide)) _⟩

/-- With the key given as an empty text the answer is a refusal and the record is there. -/
theorem insertDB_empty_key :
    ∃ t, emptyTable.tableSet.lookup (lit "t") = some t ∧
      ¬ Returns (emptyTable.insertDB (lit "t") (UMap.insertNew (lit "id") [] ∅))
          (fun r => ∃ t', r.1.tableSet.lookup (lit "t") = some t' ∧ t.AnsweredBy t' r.2) ∧
      Returns (emptyTable.insertDB (lit "t") (UMap.insertNew (lit "id") [] ∅)) fun r =>
        r.2 = [] ∧ (r.1.tableSet.lookup (lit "t")).map (fun t' => t'.recordSet.keys) = some [[]] := by
  refine ⟨_, rfl, ?_, ?_⟩
  · rintro ⟨r, hr, t', ht', hans⟩
    cases hr
    cases ht'
    exact absurd (congrArg AList.keys hans) (by decide)
  · decide

end DBManager

end FuServer
