import Mathlib.Data.List.Induction
import FuServer.Model.Manager

/-!
# What a query finds

`QueryRecord` walks the records from both ends at once.  The rows it answers
with are, up to their order, those of the records `scanned` keeps; only the
record on which the two iterators meet is tested differently.
-/

namespace FuServer

open Bytes Outcome

namespace DBTable

variable {fp : FloatUnit}

/-! ## One record -/

/-- The test a record goes through; `same` for the one on which the iterators meet. -/
def matchRecord (fp : FloatUnit) (fieldIndex : Int) (b : Bounds) (same : Bool) (r : DBRecord) : Bool :=
  match r.getField fieldIndex with
  | .ok pField => (scanFlags fp b pField pField same).1
  | .error _ => false

theorem scanFlags_fst (b : Bounds) (f g : DBField) (same : Bool) :
    (scanFlags fp b f g same).1 = (scanFlags fp b f f same).1 := by
  unfold scanFlags
  dsimp only
  split
  · rfl
  · split
    · rfl
    · split <;> split <;> rfl

theorem scanFlags_snd (b : Bounds) (f g : DBField) :
    (scanFlags fp b f g false).2 = (scanFlags fp b g g false).1 := by
  unfold scanFlags
  dsimp only
  split
  · rfl
  · split
    · rfl
    · split <;> split <;> rfl

theorem matchRecord_of_ok {fieldIndex : Int} {r : DBRecord} {f : DBField}
    (h : r.getField fieldIndex = .ok f) (b : Bounds) (same : Bool) :
    matchRecord fp fieldIndex b same r = (scanFlags fp b f f same).1 := by
  unfold matchRecord
  rw [h]

/-! ## The scan -/

theorem vecAt_middle (pre post : List DBRecord) (a : DBRecord) :
    vecAt (pre ++ a :: post) (pre.length : Int) = .ok a := by
  rw [vecAt_eq_ok, Int.toNat_natCast, List.getElem?_append_right (Nat.le_refl _), Nat.sub_self]
  exact ⟨Int.natCast_nonneg _, rfl⟩

/-- The records a scan answers with. -/
def scanned (fp : FloatUnit) (fieldIndex : Int) (b : Bounds) (records : List DBRecord) : List DBRecord :=
  (records.zipIdx.filter fun e =>
    matchRecord fp fieldIndex b (2 * e.2 + 1 == records.length) e.1).map (·.1)

/-- The record itself if it passes. -/
def taken (pass : Bool) (r : DBRecord) : List DBRecord := if pass then [r] else []

theorem scanned_singleton (fieldIndex : Int) (b : Bounds) (a : DBRecord) :
    scanned fp fieldIndex b [a] = taken (matchRecord fp fieldIndex b true a) a := by
  show (List.filter (fun e => matchRecord fp fieldIndex b (2 * e.2 + 1 == 1) e.1) [(a, 0)]).map _ = _
  rw [List.filter_singleton]
  cases h : matchRecord fp fieldIndex b true a <;> simp [taken, h]

/-- The first and the last record, and a scan of those between them. -/
theorem scanned_ends (fieldIndex : Int) (b : Bounds) (a z : DBRecord) (l : List DBRecord) :
    scanned fp fieldIndex b (a :: (l ++ [z])) =
      taken (matchRecord fp fieldIndex b false a) a ++ scanned fp fieldIndex b l ++
        taken (matchRecord fp fieldIndex b false z) z := by
  have hlen : (a :: (l ++ [z])).length = l.length + 2 := by simp
  have hfirst : (2 * 0 + 1 == l.length + 2) = false := by simp
  have hlast : (2 * (l.length + 1) + 1 == l.length + 2) = false := by simp
  have hmid : ∀ i, (2 * (i + 1) + 1 == l.length + 2) = (2 * i + 1 == l.length) := by
    intro i
    rw [Bool.eq_iff_iff, beq_iff_eq, beq_iff_eq]
    omega
  unfold scanned
  rw [hlen, List.zipIdx_cons, List.zipIdx_append, List.zipIdx_succ, List.filter_cons, List.filter_append,
    List.filter_map]
  simp only [List.zipIdx_singleton, List.filter_singleton, Nat.zero_add, Function.comp_def, hmid, hfirst]
  rw [Nat.add_comm 1 l.length, hlast]
  unfold taken
  cases matchRecord fp fieldIndex b false a <;> cases matchRecord fp fieldIndex b false z <;>
    simp [Function.comp_def]

/-- The last round of a scan of an odd number of records. -/
theorem scanLoop_same {fieldIndex : Int} {b : Bounds} {pre post : List DBRecord} {a : DBRecord}
    {fuel : Nat} {found r : Bool × List (List Str)}
    (h : scanLoop fp fieldIndex b (pre ++ a :: post) (fuel + 1) pre.length (pre.length + 1) found =
      .ok r) :
    r.2 = found.2 ++ (taken (matchRecord fp fieldIndex b true a) a).map (·.checkDataList) := by
  obtain ⟨temp, recordList⟩ := found
  have hidx : ((pre.length + 1 : Nat) : Int) - 1 = (pre.length : Nat) := by simp
  rw [scanLoop, hidx, vecAt_middle, ok_bind, ok_bind, beq_self_eq_true] at h
  cases hf : a.getField fieldIndex with
  | error e =>
    rw [hf] at h
    cases h
  | ok f =>
    rw [hf, ok_bind, ok_bind] at h
    dsimp only at h
    rw [if_neg (by simp)] at h
    rw [matchRecord_of_ok hf]
    cases h
    cases (scanFlags fp b f f true).1 <;> simp [taken]

/-- The record at the upper end of the records left. -/
theorem vecAt_last (pre l post : List DBRecord) (a z : DBRecord) :
    vecAt (pre ++ a :: (l ++ z :: post)) (((pre.length + l.length + 2 : Nat) : Int) - 1) = .ok z := by
  have hidx : ((pre.length + l.length + 2 : Nat) : Int) - 1 = ((pre ++ a :: l).length : Nat) := by
    simp only [List.length_append, List.length_cons]
    omega
  have hlist : pre ++ a :: (l ++ z :: post) = (pre ++ a :: l) ++ z :: post := by simp
  rw [hidx, hlist]
  exact vecAt_middle (pre ++ a :: l) post z

/-- Any other round: the two end records are tested, then those between them. -/
theorem scanLoop_ends {fieldIndex : Int} {b : Bounds} {pre post l : List DBRecord} {a z : DBRecord}
    {fuel : Nat} {found r : Bool × List (List Str)}
    (h : scanLoop fp fieldIndex b (pre ++ a :: (l ++ z :: post)) (fuel + 1) pre.length
      (pre.length + l.length + 2) found = .ok r) :
    ∃ found' : Bool × List (List Str),
      found'.2 = found.2 ++ (taken (matchRecord fp fieldIndex b false a) a ++
        taken (matchRecord fp fieldIndex b false z) z).map (·.checkDataList) ∧
      (if l = [] then r = found'
        else scanLoop fp fieldIndex b (pre ++ a :: (l ++ z :: post)) fuel (pre.length + 1)
          (pre.length + 1 + l.length) found' = .ok r) := by
  obtain ⟨temp, recordList⟩ := found
  have hsame : (pre.length + 1 == pre.length + l.length + 2) = false := by
    rw [beq_eq_false_iff_ne]
    omega
  have hend : pre.length + l.length + 2 - 1 = pre.length + 1 + l.length := by omega
  rw [scanLoop, vecAt_middle, vecAt_last, ok_bind, ok_bind, hsame] at h
  cases hfa : a.getField fieldIndex with
  | error e =>
    rw [hfa] at h
    cases h
  | ok fa =>
  cases hfz : z.getField fieldIndex with
  | error e =>
    rw [hfa, hfz] at h
    cases h
  | ok fz =>
    rw [hfa, hfz, ok_bind, ok_bind] at h
    dsimp only at h
    rw [scanFlags_fst, scanFlags_snd, ← matchRecord_of_ok hfa, ← matchRecord_of_ok hfz, hend] at h
    generalize matchRecord fp fieldIndex b false a = ma at h ⊢
    generalize matchRecord fp fieldIndex b false z = mz at h ⊢
    have hround : ∀ found' : Bool × List (List Str),
        found' = (if !false && mz then
          (true, (if ma then (true, recordList ++ [a.checkDataList]) else (temp, recordList)).2 ++
            [z.checkDataList])
          else if ma then (true, recordList ++ [a.checkDataList]) else (temp, recordList)) →
        found'.2 = recordList ++ (taken ma a ++ taken mz z).map (·.checkDataList) := by
      rintro _ rfl
      cases ma <;> cases mz <;> simp [taken]
    have hout := hround _ rfl
    generalize (if !false && mz then _ else _ : Bool × List (List Str)) = found' at h hout
    refine ⟨found', hout, ?_⟩
    split
    · next hl =>
      rw [hl, if_neg (by simp)] at h
      cases h
      rfl
    · next hl =>
      have hpos := List.length_pos_iff.mpr hl
      rw [if_pos (by omega)] at h
      exact h

/-- The rows of a round in which both ends are tested, then those of the rest. -/
theorem scanned_ends_perm (fieldIndex : Int) (b : Bounds) (a z : DBRecord) {l rows : List DBRecord}
    (h : rows.Perm (scanned fp fieldIndex b l)) :
    (taken (matchRecord fp fieldIndex b false a) a ++ taken (matchRecord fp fieldIndex b false z) z ++
      rows).Perm (scanned fp fieldIndex b (a :: (l ++ [z]))) := by
  rw [scanned_ends]
  generalize taken (matchRecord fp fieldIndex b false a) a = first
  generalize taken (matchRecord fp fieldIndex b false z) z = last
  calc first ++ last ++ rows
    _ = first ++ (last ++ rows) := List.append_assoc _ _ _
    (first ++ (last ++ rows)).Perm (first ++ (rows ++ last)) :=
      List.Perm.append_left _ List.perm_append_comm
    (first ++ (rows ++ last)).Perm (first ++ (scanned fp fieldIndex b l ++ last)) :=
      List.Perm.append_left _ (h.append_right _)
    _ = _ := (List.append_assoc _ _ _).symm

/-- **The scan answers with the scanned records.**  By induction on the stretch
of records between the two iterators. -/
theorem scanLoop_rows (fieldIndex : Int) (b : Bounds) (l : List DBRecord) :
    ∀ (pre post : List DBRecord) (fuel : Nat) (found r : Bool × List (List Str)),
      l ≠ [] → l.length ≤ fuel →
      scanLoop fp fieldIndex b (pre ++ l ++ post) fuel pre.length (pre.length + l.length) found = .ok r →
      ∃ rows : List DBRecord, rows.Perm (scanned fp fieldIndex b l) ∧
        r.2 = found.2 ++ rows.map (·.checkDataList) := by
  induction l using List.bidirectionalRec with
  | nil =>
    intro _ _ _ _ _ h
    exact absurd rfl h
  | singleton a =>
    intro pre post fuel found r _ hfuel hscan
    obtain ⟨fuel, rfl⟩ : ∃ n, fuel = n + 1 := ⟨fuel - 1, by simp at hfuel; omega⟩
    rw [List.append_assoc] at hscan
    refine ⟨taken (matchRecord fp fieldIndex b true a) a, ?_, scanLoop_same hscan⟩
    rw [scanned_singleton]
  | cons_append a l z ih =>
    intro pre post fuel found r _ hfuel hscan
    have hlen : (a :: (l ++ [z])).length = l.length + 2 := by simp
    rw [hlen] at hfuel hscan
    obtain ⟨fuel, rfl⟩ : ∃ n, fuel = n + 1 := ⟨fuel - 1, by omega⟩
    have hlist : pre ++ a :: (l ++ [z]) ++ post = pre ++ a :: (l ++ z :: post) := by simp
    rw [hlist, ← Nat.add_assoc] at hscan
    obtain ⟨found', hout, hrest⟩ := scanLoop_ends hscan
    by_cases hl : l = []
    · subst hl
      rw [if_pos rfl] at hrest
      subst hrest
      have hperm := scanned_ends_perm fieldIndex b a z (List.Perm.refl (scanned fp fieldIndex b []))
      exact ⟨_, hperm, by rw [hout]; simp [scanned]⟩
    · rw [if_neg hl] at hrest
      have hlist' : pre ++ a :: (l ++ z :: post) = pre ++ [a] ++ l ++ z :: post := by simp
      have hpre : pre.length + 1 = (pre ++ [a]).length := by simp
      rw [hlist', hpre] at hrest
      obtain ⟨rows, hperm, hr⟩ := ih (pre ++ [a]) (z :: post) fuel found' r hl (by omega) hrest
      refine ⟨_, scanned_ends_perm fieldIndex b a z hperm, ?_⟩
      rw [hr, hout, List.append_assoc, ← List.map_append]

/-! ## The query -/

/-- The records a query answers with: the one under an equality key on the
key column, else those the scan keeps. -/
def answered (t : DBTable fp) (ord : HashOrder) (fieldName : Str) (b : Bounds) : List DBRecord :=
  if t.getFieldIndex fieldName = t.iPriKeyIndex ∧ b.dataEquKey ≠ [] then
    (t.recordSet.lookup b.dataEquKey).toList
  else scanned fp (t.getFieldIndex fieldName) b ((ord.order t.recordSet.entries).map (·.2))

theorem queryRecord_rows {t : DBTable fp} {ord : HashOrder} {fieldName : Str} {b : Bounds}
    {recordList : List (List Str)} {r : Bool × List (List Str)}
    (h : t.queryRecord ord fieldName b recordList = .ok r) :
    ∃ rows : List DBRecord, rows.Perm (t.answered ord fieldName b) ∧
      r.2 = recordList ++ rows.map (·.checkDataList) := by
  unfold queryRecord at h
  unfold answered
  dsimp only at h
  split at h
  · next hkey =>
    rw [if_pos hkey]
    cases hl : t.recordSet.lookup b.dataEquKey with
    | none =>
      rw [hl] at h
      cases h
      exact ⟨[], List.Perm.refl _, by simp⟩
    | some record =>
      rw [hl] at h
      cases h
      exact ⟨[record], List.Perm.refl _, rfl⟩
  · next hkey =>
    rw [if_neg hkey]
    have hlen : ((ord.order t.recordSet.entries).map (·.2)).length = t.recordSet.entries.length := by
      rw [List.length_map, (ord.perm _).length_eq]
    generalize (ord.order t.recordSet.entries).map (·.2) = records at h hlen
    split at h
    · next hpos =>
      have hne : records ≠ [] := List.length_pos_iff.mp (by omega)
      exact scanLoop_rows (t.getFieldIndex fieldName) b records [] [] records.length
        (false, recordList) r hne (Nat.le_refl _) (by simpa using h)
    · next hpos =>
      have hnil : records = [] := List.length_eq_zero_iff.mp (by omega)
      cases h
      rw [hnil]
      exact ⟨[], List.Perm.refl _, by simp⟩

end DBTable

end FuServer
