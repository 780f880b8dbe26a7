import Mathlib.Data.List.AList

/-!
# Unordered maps with in-place values

`UMap κ α` is Mathlib's `AList` read as a hash map: unique keys, `lookup`,
and the two writes that hash maps of pointers have: `insertNew` (an insert
that leaves a present key alone) and `adjust` (change the value a key points
to).  The order in which such a map is walked belongs to the hash layout and
not to the map, so a walk takes a `HashOrder`.
-/

abbrev UMap (κ α : Type*) := AList fun _ : κ => α

/-- A hash layout: the order in which the elements of a container are met. -/
structure HashOrder where
  order : {α : Type} → List α → List α
  perm : ∀ {α : Type} (l : List α), (order l).Perm l

/-- The layout that keeps insertion order. -/
def HashOrder.plain : HashOrder := ⟨fun l => l, fun l => List.Perm.refl l⟩

theorem HashOrder.mem_order (ord : HashOrder) {α : Type} {l : List α} {a : α} :
    a ∈ ord.order l ↔ a ∈ l :=
  (ord.perm l).mem_iff

namespace UMap

variable {κ α : Type*} [DecidableEq κ]

instance (s : UMap κ α) (P : κ → Prop) [DecidablePred P] : Decidable (∀ k ∈ s, P k) :=
  inferInstanceAs (Decidable (∀ k ∈ s.keys, P k))

/-- Insert that does nothing when the key is there. -/
def insertNew (k : κ) (v : α) (s : UMap κ α) : UMap κ α :=
  if k ∈ s then s else s.insert k v

/-- Change the value under `k`, in its place. -/
def adjust (k : κ) (f : α → α) (s : UMap κ α) : UMap κ α where
  entries := s.entries.map (.map id fun k' v => if k' = k then f v else v)
  nodupKeys := s.nodupKeys.map₂ fun k' v => if k' = k then f v else v

theorem lookup_insertNew (k k' : κ) (v : α) (s : UMap κ α) :
    (insertNew k v s).lookup k' = if k' = k ∧ k ∉ s then some v else s.lookup k' := by
  unfold insertNew
  by_cases hk : k ∈ s
  · simp [hk]
  · by_cases he : k' = k
    · subst he
      simp [hk, AList.lookup_insert]
    · simp [hk, he, AList.lookup_insert_ne he]

theorem insertNew_of_notMem {k : κ} (v : α) {s : UMap κ α} (h : k ∉ s) :
    (insertNew k v s).entries = ⟨k, v⟩ :: s.entries := by
  unfold insertNew
  rw [if_neg h, AList.entries_insert_of_notMem h]

theorem mem_insertNew {k k' : κ} {v : α} {s : UMap κ α} :
    k' ∈ insertNew k v s ↔ k' = k ∨ k' ∈ s := by
  unfold insertNew
  split
  · next h => exact ⟨Or.inr, fun h' => h'.elim (fun e => e ▸ h) id⟩
  · exact AList.mem_insert s

@[simp] theorem keys_adjust (k : κ) (f : α → α) (s : UMap κ α) : (adjust k f s).keys = s.keys :=
  List.map₂_keys _ s.entries

@[simp] theorem mem_adjust {k k' : κ} {f : α → α} {s : UMap κ α} : k' ∈ adjust k f s ↔ k' ∈ s := by
  rw [AList.mem_keys, keys_adjust, AList.mem_keys]

theorem lookup_adjust (k k' : κ) (f : α → α) (s : UMap κ α) :
    (adjust k f s).lookup k' = if k' = k then (s.lookup k).map f else s.lookup k' := by
  have h : (adjust k f s).lookup k' = (s.lookup k').map fun v => if k' = k then f v else v :=
    List.dlookup_map₂ k'
  rw [h]
  by_cases he : k' = k
  · subst he
    simp
  · simp [he]

theorem lookup_adjust_self (k : κ) (f : α → α) (s : UMap κ α) :
    (adjust k f s).lookup k = (s.lookup k).map f := by
  rw [lookup_adjust, if_pos rfl]

theorem lookup_adjust_ne {k k' : κ} (h : k' ≠ k) (f : α → α) (s : UMap κ α) :
    (adjust k f s).lookup k' = s.lookup k' := by
  rw [lookup_adjust, if_neg h]

theorem adjust_eq_self {k : κ} {f : α → α} {s : UMap κ α} (h : ∀ v, s.lookup k = some v → f v = v) :
    adjust k f s = s := by
  apply AList.ext
  show s.entries.map _ = s.entries
  conv => rhs; rw [← List.map_id s.entries]
  apply List.map_congr_left
  rintro ⟨k', v⟩ he
  show (⟨k', if k' = k then f v else v⟩ : Σ _ : κ, α) = ⟨k', v⟩
  split
  · next hk =>
    subst hk
    rw [h v (AList.mem_lookup_iff.mpr he)]
  · rfl

/-- Changing the value just inserted is inserting the changed value. -/
theorem adjust_insertNew {k : κ} {s : UMap κ α} (h : k ∉ s) (v : α) (f : α → α) :
    adjust k f (insertNew k v s) = insertNew k (f v) s := by
  apply AList.ext
  have hself : (adjust k f s).entries = s.entries := by
    rw [adjust_eq_self fun w hw => absurd (AList.lookup_isSome.mp (by rw [hw]; rfl)) h]
  show (insertNew k v s).entries.map _ = _
  rw [insertNew_of_notMem v h, insertNew_of_notMem (f v) h, List.map_cons]
  congr 1
  show (⟨k, if k = k then f v else v⟩ : Σ _ : κ, α) = ⟨k, f v⟩
  rw [if_pos rfl]

theorem mem_entries {s : UMap κ α} {k : κ} {v : α} : ⟨k, v⟩ ∈ s.entries ↔ s.lookup k = some v :=
  AList.mem_lookup_iff.symm

theorem mem_of_lookup {s : UMap κ α} {k : κ} {v : α} (h : s.lookup k = some v) : k ∈ s :=
  AList.lookup_isSome.mp (by rw [h]; rfl)

theorem exists_lookup {s : UMap κ α} {k : κ} (h : k ∈ s) : ∃ v, s.lookup k = some v :=
  Option.isSome_iff_exists.mp (AList.lookup_isSome.mpr h)

/-- The pairs of a list inserted one by one. -/
def insertAll (l : List (κ × α)) (s : UMap κ α) : UMap κ α := l.foldl (fun s e => s.insert e.1 e.2) s

theorem insertAll_cons (e : κ × α) (l : List (κ × α)) (s : UMap κ α) :
    insertAll (e :: l) s = insertAll l (s.insert e.1 e.2) := rfl

/-- Under a key that the list has, the last of its values is found. -/
theorem lookup_insertAll (l : List (κ × α)) (s : UMap κ α) (k : κ) :
    (∃ e ∈ l, e.1 = k ∧ (insertAll l s).lookup k = some e.2) ∨
      (∀ e ∈ l, e.1 ≠ k) ∧ (insertAll l s).lookup k = s.lookup k := by
  induction l generalizing s with
  | nil =>
    right
    exact ⟨by rintro e ⟨⟩, rfl⟩
  | cons e l ih =>
    rw [insertAll_cons]
    rcases ih (s.insert e.1 e.2) with ⟨e', he', hkey, hlookup⟩ | ⟨hnone, hlookup⟩
    · left
      exact ⟨e', List.mem_cons_of_mem e he', hkey, hlookup⟩
    · by_cases hkey : e.1 = k
      · left
        subst hkey
        refine ⟨e, List.mem_cons_self, rfl, ?_⟩
        rw [hlookup, AList.lookup_insert]
      · right
        refine ⟨?_, ?_⟩
        · intro e' he'
          rcases List.mem_cons.mp he' with rfl | he'
          · exact hkey
          · exact hnone e' he'
        · rw [hlookup, AList.lookup_insert_ne (Ne.symm hkey)]

/-- What the list has goes before what the map had. -/
theorem lookup_insertAll_or (l : List (κ × α)) (s : UMap κ α) (k : κ) :
    (insertAll l s).lookup k = ((insertAll l ∅).lookup k).or (s.lookup k) := by
  induction l generalizing s with
  | nil => rfl
  | cons e l ih =>
    rw [insertAll_cons, insertAll_cons, ih, ih (AList.insert e.1 e.2 ∅), Option.or_assoc]
    congr 1
    by_cases hkey : k = e.1
    · subst hkey
      rw [AList.lookup_insert, AList.lookup_insert]
      rfl
    · rw [AList.lookup_insert_ne hkey, AList.lookup_insert_ne hkey]
      rfl

/-! ## Walks over the entries -/

theorem nodupKeys_order {α : Type} {κ : Type} (ord : HashOrder) (s : UMap κ α) :
    (ord.order s.entries).NodupKeys :=
  (List.perm_nodupKeys (ord.perm s.entries)).mpr s.nodupKeys

/-- A walk meets the same value under each key as the map holds. -/
theorem dlookup_order {α : Type} {κ : Type} [DecidableEq κ] (ord : HashOrder) (s : UMap κ α) (k : κ) :
    (ord.order s.entries).dlookup k = s.lookup k :=
  List.perm_dlookup k (nodupKeys_order ord s) (ord.perm s.entries)

/-- Inserted one by one, a walk's entries are found where the map had nothing. -/
theorem lookup_foldl_insertNew (l : List (Σ _ : κ, α)) (s : UMap κ α) (k : κ) :
    (l.foldl (fun s e => insertNew e.1 e.2 s) s).lookup k = (s.lookup k).or (l.dlookup k) := by
  induction l generalizing s with
  | nil => exact (Option.or_none).symm
  | cons e l ih =>
    obtain ⟨k', v⟩ := e
    rw [List.foldl_cons, ih, lookup_insertNew]
    by_cases hk : k = k'
    · subst hk
      rw [List.dlookup_cons_eq]
      by_cases hmem : k ∈ s
      · obtain ⟨w, hw⟩ := exists_lookup hmem
        rw [if_neg fun h => h.2 hmem, hw]
        rfl
      · rw [if_pos ⟨rfl, hmem⟩, AList.lookup_eq_none.mpr hmem]
        rfl
    · have hrest : List.dlookup k (⟨k', v⟩ :: l) = List.dlookup k l :=
        List.dlookup_cons_ne l (⟨k', v⟩ : Σ _ : κ, α) hk
      rw [if_neg fun h => hk h.1, hrest]

/-- What a walk meets under one key. -/
theorem filter_key {l : List (Σ _ : κ, α)} (h : l.NodupKeys) (k : κ) :
    (l.filter fun e => e.1 = k) = (l.dlookup k).toList.map fun v => ⟨k, v⟩ := by
  induction l with
  | nil => rfl
  | cons e l ih =>
    obtain ⟨k', v⟩ := e
    obtain ⟨hnot, hnd⟩ := List.nodupKeys_cons.mp h
    by_cases hk : k' = k
    · subst hk
      rw [List.filter_cons_of_pos (by simp), ih hnd, List.dlookup_eq_none.mpr hnot,
        List.dlookup_cons_eq]
      rfl
    · have hrest : List.dlookup k (⟨k', v⟩ :: l) = List.dlookup k l :=
        List.dlookup_cons_ne l (⟨k', v⟩ : Σ _ : κ, α) (Ne.symm hk)
      rw [List.filter_cons_of_neg (by simpa using hk), ih hnd, hrest]

end UMap
