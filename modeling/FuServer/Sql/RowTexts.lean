import FuServer.Sql.WriteBack
import FuServer.Sql.WriteThrough

/-!
# Rows and their texts on the server

A row that is not new is kept in step with the row the server has under its
key: what is not modified is there (`Synced`), whether the row was fetched,
assigned to or committed.
-/

namespace FuServer

open Bytes SqlText SqlTables

namespace DBDataSet

variable {E : QueryEngine} {db : Str} {ord : HashOrder} {d : DBDataSet} {row : DBDataRow} {T T' : Table}
  {fieldName data : Str}

/-! ## Assignments -/

/-- The row behind `dataSet[fieldName] = data`. -/
def edited (fieldName data : Str) (row : DBDataRow) : DBDataRow :=
  { row.atField fieldName with
    rowList := UMap.adjust fieldName (·.assign data) (row.atField fieldName).rowList }

theorem lookup_edited (c : Str) : (edited fieldName data row).rowList.lookup c =
    if c = fieldName then some (((row.rowList.lookup fieldName).getD (DBDataField.new [])).assign data)
    else row.rowList.lookup c := by
  unfold edited DBDataRow.atField
  dsimp only
  rw [UMap.lookup_adjust]
  by_cases hc : c = fieldName
  · rw [if_pos hc, if_pos hc, UMap.lookup_insertNew]
    by_cases hmem : fieldName ∈ row.rowList
    · obtain ⟨f, hf⟩ := UMap.exists_lookup hmem
      rw [if_neg fun h => h.2 hmem, hf]
      rfl
    · rw [if_pos ⟨rfl, hmem⟩, AList.lookup_eq_none.mpr hmem]
      rfl
  · rw [if_neg hc, if_neg hc, UMap.lookup_insertNew, if_neg fun h => hc h.1]

theorem lookup_edited_ne {c : Str} (hc : c ≠ fieldName) :
    (edited fieldName data row).rowList.lookup c = row.rowList.lookup c := by
  rw [lookup_edited, if_neg hc]

theorem rowKey_edited (hb : Belongs E db d T row) (hkey : fieldName ≠ d.sKeyName) :
    d.rowKey (edited fieldName data row) = d.rowKey row := by
  obtain ⟨f, hf, -⟩ := hb.key
  rw [rowKey_eq hf, rowKey_eq ((lookup_edited_ne (Ne.symm hkey)).trans hf)]

/-- An assignment to another field than the key leaves a row of the table. -/
theorem Belongs.edited (hb : Belongs E db d T row) (hcolumn : fieldName ∈ T.columns)
    (hkey : fieldName ≠ d.sKeyName) (hdata : E.Accepts db d.sTableName fieldName data) :
    Belongs E db d T (edited fieldName data row) := by
  obtain ⟨f, hf, hclean⟩ := hb.key
  refine ⟨⟨f, (lookup_edited_ne (Ne.symm hkey)).trans hf, hclean⟩, ?_, ?_⟩
  · rintro ⟨c, g⟩ he
    have hlook := UMap.mem_entries.mp he
    by_cases hc : c = fieldName
    · subst hc
      exact hcolumn
    · rw [lookup_edited_ne hc] at hlook
      exact hb.columns _ (UMap.mem_entries.mpr hlook)
  · rintro ⟨c, g⟩ he hsent
    have hlook := UMap.mem_entries.mp he
    by_cases hc : c = fieldName
    · rw [lookup_edited, if_pos hc] at hlook
      obtain rfl := Option.some.inj hlook
      rw [hc]
      exact hdata
    · rw [lookup_edited_ne hc] at hlook
      exact hb.texts _ (UMap.mem_entries.mpr hlook) hsent

theorem rowKeys_edited {rows : List DBDataRow} (hb : ∀ row ∈ rows, Belongs E db d T row)
    (hkey : fieldName ≠ d.sKeyName) (i : Nat) :
    (rows.modify i (edited fieldName data)).map d.rowKey = rows.map d.rowKey := by
  apply List.ext_getElem?
  intro j
  rw [List.getElem?_map, List.getElem?_map, List.getElem?_modify]
  cases hj : rows[j]? with
  | none => rfl
  | some row =>
    show some (d.rowKey (if _ then _ else row)) = some (d.rowKey row)
    split
    · rw [rowKey_edited (hb row (List.mem_of_getElem? hj)) hkey]
    · rfl

/-! ## Texts on the server -/

/-- The server has a row under the key, with the texts of the row where `P` holds. -/
def HasTexts (P : Str → Prop) (d : DBDataSet) (T : Table) (row : DBDataRow) : Prop :=
  ∃ r, T.rows.lookup (d.rowKey row) = some r ∧
    ∀ c ∈ T.columns, P c → (T.cell (d.rowKey row) r c).getD [] = (cells row c).getD []

/-- The fields that are not modified. -/
def Clean (row : DBDataRow) (c : Str) : Prop := ∀ f, row.rowList.lookup c = some f → f.bModify = false

/-- The server has the texts that are not modified. -/
def Synced (d : DBDataSet) (T : Table) (row : DBDataRow) : Prop := HasTexts (Clean row) d T row

/-- The server has all the texts. -/
def Stored (d : DBDataSet) (T : Table) (row : DBDataRow) : Prop := HasTexts (fun _ => True) d T row

theorem HasTexts.mono {P Q : Str → Prop} (h : HasTexts P d T row) (hPQ : ∀ c, Q c → P c) :
    HasTexts Q d T row := by
  obtain ⟨r, hr, htexts⟩ := h
  exact ⟨r, hr, fun c hc hQ => htexts c hc (hPQ c hQ)⟩

/-- The texts stay there as long as the row does. -/
theorem HasTexts.of_lookup {P : Str → Prop} (h : HasTexts P d T row)
    (hshape : T'.columns = T.columns ∧ T'.key = T.key)
    (hrow : T'.rows.lookup (d.rowKey row) = T.rows.lookup (d.rowKey row)) : HasTexts P d T' row := by
  obtain ⟨r, hr, htexts⟩ := h
  refine ⟨r, hrow.trans hr, fun c hc hP => ?_⟩
  rw [Table.cell, hshape.2]
  exact htexts c (hshape.1 ▸ hc) hP

theorem assign_clean {f : DBDataField} (h : (f.assign data).bModify = false) :
    f.bModify = false ∧ f.sData = data := by
  unfold DBDataField.assign at h
  dsimp only at h
  split at h
  · cases h
  · next hsame =>
    refine ⟨h, ?_⟩
    rw [h] at hsame
    simpa using hsame

/-- A text that is assigned once more leaves its field as it was. -/
theorem Synced.edited (h : Synced d T row) (hb : Belongs E db d T row) (hkey : fieldName ≠ d.sKeyName) :
    Synced d T (edited fieldName data row) := by
  obtain ⟨r, hr, htexts⟩ := h
  refine ⟨r, by rw [rowKey_edited hb hkey, hr], fun c hc hclean => ?_⟩
  rw [rowKey_edited hb hkey]
  by_cases hname : c = fieldName
  · have hfield := hclean _ ((lookup_edited c).trans (if_pos hname))
    obtain ⟨hbefore, hdata⟩ := assign_clean hfield
    have hcell : (cells (DBDataSet.edited fieldName data row) c).getD [] = (cells row c).getD [] := by
      unfold cells
      rw [lookup_edited, if_pos hname, hname]
      show data = _
      rw [← hdata]
      cases row.rowList.lookup fieldName <;> rfl
    rw [hcell]
    refine htexts c hc fun f hf => ?_
    rw [← hname, hf] at hbefore
    exact hbefore
  · have hcell : cells (DBDataSet.edited fieldName data row) c = cells row c := by
      unfold cells
      rw [lookup_edited_ne hname]
    rw [hcell]
    exact htexts c hc fun f hf => hclean f ((lookup_edited_ne hname).trans hf)

/-- A field that no update sends is not modified. -/
theorem clean_of_walked (ord : HashOrder) {c : Str} (h : ∀ i ∈ row.walked ord, i.1 ≠ c) :
    Clean row c := by
  intro f hf
  refine Bool.eq_false_iff.mpr fun hm => h (c, f.sData) ?_ rfl
  exact List.mem_map.mpr ⟨⟨c, f⟩,
    List.mem_filter.mpr ⟨ord.mem_order.mpr (UMap.mem_entries.mpr hf), hm⟩, rfl⟩

/-- Behind an update of its one modified field a row has all its texts. -/
theorem cell_sent (hb : Belongs E db d T row) (hkey : T.key = d.sKeyName) {r : NullRow}
    {i : Str × Str} (hw : row.walked ord = [i])
    (htexts : ∀ c ∈ T.columns, Clean row c →
      (T.cell (d.rowKey row) r c).getD [] = (cells row c).getD [])
    {c : Str} (hc : c ∈ T.columns) :
    (T.cell (d.rowKey row) (fun c => ([i].lookup c).or (r c)) c).getD [] =
      (cells row c).getD [] := by
  have hi : i ∈ row.walked ord := hw ▸ List.mem_cons_self
  obtain ⟨e, he, -, rfl⟩ := mem_walked hi
  by_cases hname : c = e.1
  · have hne : c ≠ T.key := by
      rw [hname, hkey]
      exact hb.walked_ne hi
    have hsent : cells row c = some e.2.sData := by
      unfold cells
      rw [hname, UMap.mem_entries.mp he]
      rfl
    have hset : [(e.1, e.2.sData)].lookup c = some e.2.sData := by
      rw [hname, List.lookup_cons_self]
    rw [Table.cell, if_neg hne, hsent, hset]
    rfl
  · have hother : [(e.1, e.2.sData)].lookup c = none := by
      rw [List.lookup_cons, beq_eq_false_iff_ne.mpr hname]
      rfl
    have hclean : Clean row c := by
      refine clean_of_walked ord fun i hi => ?_
      rw [hw] at hi
      rw [List.mem_singleton.mp hi]
      exact Ne.symm hname
    rw [← htexts c hc hclean, Table.cell, Table.cell, hother, Option.none_or]

/-- A row that is not new keeps its clean texts on the server, and has all of
them there behind a `Commit` if at most one field was modified. -/
theorem Synced.after (h : Synced d T row) (hb : Belongs E db d T row) (hkey : T.key = d.sKeyName)
    (hshape : T'.columns = T.columns ∧ T'.key = T.key) (hold : row.bInsert = false)
    (hserver : T'.rows.lookup (d.rowKey row) = serverAfter ord row (T.rows.lookup (d.rowKey row))) :
    HasTexts (fun c => Clean row c ∨ row.modified.length ≤ 1) d T' row := by
  obtain ⟨r, hr, htexts⟩ := h
  have hcell : ∀ r c, T'.cell (d.rowKey row) r c = T.cell (d.rowKey row) r c := by
    intro r c
    unfold Table.cell
    rw [hshape.2]
  have hlen : (row.walked ord).length = row.modified.length := (row.walked_perm ord).length_eq
  rw [hr, serverAfter, hold, if_neg Bool.false_ne_true] at hserver
  -- how many fields the walk finds decides what is sent
  cases hw : row.walked ord with
  | nil =>
    rw [hw] at hserver
    refine ⟨r, hserver, fun c hc _ => ?_⟩
    rw [hcell]
    refine htexts c (hshape.1 ▸ hc) (clean_of_walked ord fun i hi => ?_)
    rw [hw] at hi
    cases hi
  | cons i l =>
    cases l with
    | nil =>
      rw [hw] at hserver
      refine ⟨_, hserver, fun c hc _ => ?_⟩
      rw [hcell]
      exact cell_sent hb hkey hw htexts (hshape.1 ▸ hc)
    | cons j l =>
      rw [hw] at hserver
      refine ⟨r, hserver, fun c hc hP => ?_⟩
      rw [hcell]
      refine htexts c (hshape.1 ▸ hc) (hP.resolve_right ?_)
      rw [← hlen, hw, List.length_cons, List.length_cons]
      omega

/-- A new row that went in is there whole. -/
theorem stored_new (hb : Belongs E db d T row) (hkey : T'.key = d.sKeyName) (hnew : row.bInsert = true)
    (hserver : T'.rows.lookup (d.rowKey row) = serverAfter ord row none) : Stored d T' row := by
  rw [serverAfter, if_pos hnew] at hserver
  refine ⟨cells row, hserver, fun c _ _ => ?_⟩
  unfold Table.cell
  split
  · next hc => rw [hc, hkey, cells_key hb]
  · rfl

/-! ## Rows fetched by key -/

/-- The row a server brings for a key. -/
def fetchedRow (T : Table) (k : Str) (r : NullRow) : DBDataRow :=
  DBDataRow.new (collectRow T.columns ((T.line k r).map (·.getD [])))

theorem find_zip_map (g : Str → Str) {columns : List Str} (h : ∀ c ∈ columns, cstr c = c) (c : Str) :
    ((columns.zip (columns.map g)).find? fun x => cstr x.1 = c) = if c ∈ columns then
      some (c, g c) else none := by
  induction columns with
  | nil => rfl
  | cons c' columns ih =>
    have hrest := ih fun d hd => h d (List.mem_cons_of_mem c' hd)
    rw [List.map_cons, List.zip_cons_cons]
    by_cases hc : c = c'
    · rw [List.find?_cons_of_pos (by simpa [hc] using h c' List.mem_cons_self), hc,
        if_pos List.mem_cons_self]
    · have hne : ¬ cstr c' = c := by
        rw [h c' List.mem_cons_self]
        exact Ne.symm hc
      rw [List.find?_cons_of_neg (by simpa using hne), hrest]
      simp only [List.mem_cons, hc, false_or]

section

variable (hedit : E.Editable db d.sTableName T)

include hedit

theorem lookup_fetchedRow (k : Str) (r : NullRow) (c : Str) :
    (fetchedRow T k r).rowList.lookup c =
      if c ∈ T.columns then some (DBDataField.new ((T.cell k r c).getD [])) else none := by
  have hcstr : ∀ c ∈ T.columns, cstr c = c := fun c hc =>
    cstr_eq_self.mpr fun b hb hzero => (mark_notMem (hedit.columns c hc).1).1 (hzero ▸ hb)
  show (collectRow _ _).lookup c = _
  unfold collectRow Table.line
  rw [lookup_foldl_fields, AList.lookup_empty, Option.none_or, List.map_map, find_zip_map _ hcstr]
  by_cases hc : c ∈ T.columns
  · rw [if_pos hc, if_pos hc]
    rfl
  · rw [if_neg hc, if_neg hc]
    rfl

variable (hkey : T.key = d.sKeyName)

include hkey

theorem key_fetchedRow (k : Str) (r : NullRow) :
    (fetchedRow T k r).rowList.lookup d.sKeyName = some (DBDataField.new k) := by
  rw [lookup_fetchedRow hedit, ← hkey, if_pos hedit.key, Table.cell, if_pos rfl]
  rfl

theorem rowKey_fetchedRow (k : Str) (r : NullRow) : d.rowKey (fetchedRow T k r) = k :=
  rowKey_eq (key_fetchedRow hedit hkey k r)

/-- A row that the server has is one of the table. -/
theorem belongs_fetchedRow {k : Str} (hk : E.Accepts db d.sTableName d.sKeyName k) (r : NullRow) :
    Belongs E db d T (fetchedRow T k r) := by
  have hlook := lookup_fetchedRow hedit k r
  have hfield := key_fetchedRow hedit hkey k r
  refine ⟨⟨_, hfield, rfl⟩, ?_, ?_⟩
  · rintro ⟨c, f⟩ he
    have hf := UMap.mem_entries.mp he
    rw [hlook] at hf
    split at hf
    · next hc => exact hc
    · cases hf
  · rintro ⟨c, f⟩ he hsent
    have hf := UMap.mem_entries.mp he
    have hclean : f.bModify = false := by
      rw [hlook] at hf
      split at hf
      · cases hf
        rfl
      · cases hf
    rcases hsent with hnew | hm | rfl
    · cases hnew
    · rw [hclean] at hm
      cases hm
    · rw [hfield] at hf
      cases hf
      exact hk

/-- It has the texts that are there. -/
theorem synced_fetchedRow {k : Str} {r : NullRow} (hr : T.rows.lookup k = some r) :
    Synced d T (fetchedRow T k r) := by
  rw [Synced, HasTexts, rowKey_fetchedRow hedit hkey]
  refine ⟨r, hr, fun c hc _ => ?_⟩
  unfold cells
  rw [lookup_fetchedRow hedit, if_pos hc]
  rfl

theorem belongs_keyRow {k : Str} (hk : E.Accepts db d.sTableName d.sKeyName k) :
    Belongs E db d T (d.keyRow k) ∧ d.rowKey (d.keyRow k) = k := by
  have hlook : ∀ c, (d.keyRow k).rowList.lookup c = if c = d.sKeyName then
      some (DBDataField.new k) else none := by
    intro c
    show (UMap.insertNew d.sKeyName (DBDataField.new k) ∅).lookup c = _
    rw [UMap.lookup_insertNew, AList.lookup_empty]
    by_cases hc : c = d.sKeyName
    · rw [if_pos hc, if_pos ⟨hc, AList.notMem_empty _⟩]
    · rw [if_neg hc, if_neg fun h => hc h.1]
  have hfield := (hlook d.sKeyName).trans (if_pos rfl)
  have hentry : ∀ e ∈ (d.keyRow k).rowList.entries, e.1 = d.sKeyName ∧ e.2 = DBDataField.new k := by
    rintro ⟨c, f⟩ he
    have hf := UMap.mem_entries.mp he
    rw [hlook] at hf
    split at hf
    · next hc =>
      cases hf
      exact ⟨hc, rfl⟩
    · cases hf
  refine ⟨⟨⟨_, hfield, rfl⟩, fun e he => ?_, fun e he _ => ?_⟩, rowKey_eq hfield⟩
  · rw [(hentry e he).1, ← hkey]
    exact hedit.key
  · rw [(hentry e he).1, (hentry e he).2]
    exact hk

end

end DBDataSet

end FuServer
