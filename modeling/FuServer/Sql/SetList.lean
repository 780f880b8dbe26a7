import Mathlib.Algebra.BigOperators.Group.List.Basic
import FuServer.Lib.SqlText
import FuServer.Sql.WriteBack

/-!
# The set list of `CommitModify`

The statement is to be an `update` of the modified fields.  The loop writes a
blank behind each assignment and nothing between two of them, so the text is
that of an `update` statement only where there is one assignment, and only for
names and values that `%s` does not cut at a NUL.
-/

namespace FuServer

open Bytes Outcome SqlText

/-! ## Lengths -/

theorem length_commaSep (xs : List Str) (h : xs ≠ []) :
    (commaSep xs).length + 2 = (xs.map List.length).sum + 2 * xs.length := by
  induction xs with
  | nil => exact absurd rfl h
  | cons x xs ih =>
    cases xs with
    | nil => simp [commaSep]
    | cons y xs =>
      have hcomma : (lit ", ").length = 2 := rfl
      have ih := ih (List.cons_ne_nil y xs)
      rw [commaSep_cons_cons, List.length_append, List.length_append, hcomma, List.map_cons,
        List.sum_cons,
        List.length_cons]
      omega

/-- Each assignment with a blank behind it. -/
theorem length_flatMap_blank (xs : List Str) :
    (xs.flatMap fun x => x ++ lit " ").length = (xs.map List.length).sum + xs.length := by
  induction xs with
  | nil => rfl
  | cons x xs ih =>
    have hblank : (lit " ").length = 1 := rfl
    rw [List.flatMap_cons, List.length_append, List.length_append, hblank, ih, List.map_cons,
      List.sum_cons,
      List.length_cons]
    omega

namespace DBDataRow

/-- The modified fields with their data. -/
def modified (row : DBDataRow) : List (Str × Str) :=
  (row.rowList.entries.filter (·.2.bModify)).map fun iter => (iter.1, iter.2.sData)

theorem modified_eq_nil {row : DBDataRow} : row.modified = [] ↔ ¬ row.Dirty := by
  unfold modified Dirty
  rw [List.map_eq_nil_iff, List.filter_eq_nil_iff]
  constructor
  · rintro h ⟨e, he, hm⟩
    exact h e he hm
  · intro h e he hm
    exact h ⟨e, he, hm⟩

/-- The modified fields in the order of the walk. -/
def walked (ord : HashOrder) (row : DBDataRow) : List (Str × Str) :=
  ((ord.order row.rowList.entries).filter (·.2.bModify)).map fun iter => (iter.1, iter.2.sData)

theorem walked_perm (ord : HashOrder) (row : DBDataRow) : (row.walked ord).Perm row.modified :=
  ((ord.perm row.rowList.entries).filter _).map _

end DBDataRow

namespace DBDataSet

variable {d : DBDataSet} {row : DBDataRow}

/-! ## The text -/

/-- The statement of the loop: a blank behind each assignment. -/
def blankText (tableName : Str) (sets : List (Str × Str)) (keyName key : Str) : Str :=
  lit "update " ++ tableName ++ lit " set " ++ ((sets.map setText).flatMap fun x => x ++ lit " ") ++
    lit "where " ++ setText (keyName, key) ++ lit ";"

/-- What `%s` leaves of an assignment. -/
def cutItem (i : Str × Str) : Str × Str := (cstr i.1, cstr i.2)

theorem setPart_eq (ord : HashOrder) (tableName : Str) (row : DBDataRow) :
    setPart ord tableName row = lit "update " ++ cstr tableName ++ lit " set " ++
      (((row.walked ord).map cutItem).map setText).flatMap fun x => x ++ lit " " := by
  have hupdate : fuStringFormat (lit "update %s set ") [tableName] =
      lit "update " ++ (cstr tableName ++ lit " set ") := rfl
  have hfmt : (fun iter : Σ _ : Str,
    DBDataField => fuStringFormat (lit "%s='%s' ") [iter.1, iter.2.sData]) =
      fun iter => setText (cutItem (iter.1, iter.2.sData)) ++ lit " " := by
    funext iter
    simp only [setText, quoted, cutItem, List.append_assoc]
    rfl
  unfold setPart DBDataRow.walked
  rw [List.foldl_append_eq_append, ← List.flatMap_def, hfmt, hupdate, List.map_map, List.map_map,
    List.flatMap_map,
    List.append_assoc]
  rfl

theorem wherePart_eq (keyName key : Str) :
    wherePart keyName key = lit "where " ++ setText (cstr keyName, key) ++ lit ";" := by
  simp only [wherePart, setText, quoted, List.append_assoc]
  rfl

/-- The text of `CommitModify` in its two parts. -/
theorem parts_eq_blankText (ord : HashOrder) (tableName keyName : Str) (row : DBDataRow) :
    setPart ord tableName row ++ wherePart keyName (cstr (keyData keyName row)) =
      blankText (cstr tableName) ((row.walked ord).map cutItem) (cstr keyName)
        (cstr (keyData keyName row)) := by
  rw [setPart_eq, wherePart_eq]
  unfold blankText
  simp only [List.append_assoc]

theorem noNul_blankText (ord : HashOrder) (tableName keyName : Str) (row : DBDataRow) :
    NoNul (blankText (cstr tableName) ((row.walked ord).map cutItem) (cstr keyName)
      (cstr (keyData keyName row))) := by
  rw [← parts_eq_blankText]
  exact noNul_append.mpr ⟨noNul_setPart ord tableName row, noNul_wherePart (noNul_cstr _)⟩

/-- A text with blanks has the length of one with commas only for one assignment. -/
theorem length_of_blankText {tableName keyName key : Str} {sets items : List (Str × Str)}
    (hp : items.Perm sets) (hne : sets ≠ [])
    (h : blankText tableName sets keyName key =
      (Stmt.update tableName items keyName key).text) :
    sets.length = 1 := by
  have hlen := congrArg List.length h
  have hsum : ((items.map setText).map List.length).sum = ((sets.map setText).map List.length).sum :=
    ((hp.map _).map _).sum_eq
  have hcomma := length_commaSep (items.map setText) (by
    intro hnil
    rw [List.map_eq_nil_iff.mp hnil] at hp
    exact hne hp.symm.eq_nil)
  have hblank := length_flatMap_blank (sets.map setText)
  have hpos := List.length_pos_iff.mpr hne
  have hcount := hp.length_eq
  have hwhere : (lit "where ").length = 6 := rfl
  have hwhere' : (lit " where ").length = 7 := rfl
  rw [List.length_map] at hcomma hblank
  unfold blankText at hlen
  rw [text_update] at hlen
  simp only [List.length_append] at hlen
  omega

/-- One assignment reads the same either way. -/
theorem blankText_singleton (tableName keyName key : Str) (c : Str × Str) :
    blankText tableName [c] keyName key = (Stmt.update tableName [c] keyName key).text := by
  rw [text_update]
  unfold blankText
  simp only [List.map_cons, List.map_nil, List.flatMap_cons, List.flatMap_nil, commaSep, List.append_nil,
    List.append_assoc]
  rfl

/-! ## CommitModify -/

/-- A row with modified fields has one statement run, an `update` of them, in some
order, where the key is the row's; any other row has none run, and stays. -/
def SetsModified (hSqlServer : DBSqlServer) (d : DBDataSet) (row : DBDataRow) (key : Str)
    (r : DBSqlServer × DBDataSet × Bool) : Prop :=
  if row.Dirty then
    ∃ items : List (Str × Str), items.Perm row.modified ∧
      r.1.ran = hSqlServer.ran ++ [((Stmt.update d.sTableName items d.sKeyName key).text, r.2.2)]
  else r.1 = hSqlServer ∧ r.2.1 = d

/-- No field is modified, or one is, and there is no NUL in the statement's names and values. -/
def OneAtMost (d : DBDataSet) (row : DBDataRow) (key : Str) : Prop :=
  row.modified = [] ∨
    ∃ c, row.modified = [c] ∧ (NoNul c.1 ∧ NoNul c.2) ∧ NoNul d.sTableName ∧ NoNul d.sKeyName ∧ NoNul key

theorem commitModify_clean (ord : HashOrder) (hSqlServer : DBSqlServer) (hrow : d.curRow = .ok row)
    (h : ¬ row.Dirty) : d.commitModify ord hSqlServer = .ok (hSqlServer, d, false) := by
  have hnil : (ord.order row.rowList.entries).filter (·.2.bModify) = [] := by
    rw [List.filter_eq_nil_iff]
    intro e he hm
    exact h ⟨e, ord.mem_order.mp he, hm⟩
  have hsql : modifySql ord d.sTableName d.sKeyName row = none := by
    unfold modifySql
    dsimp only
    rw [if_pos hnil]
  unfold commitModify
  rw [hrow, ok_bind, hsql]
  rfl

theorem commitModify_dirty (ord : HashOrder) (hSqlServer : DBSqlServer) (hrow : d.curRow = .ok row)
    (h : row.Dirty) :
    Returns (d.commitModify ord hSqlServer) fun r =>
      r.1.ran = hSqlServer.ran ++ [(blankText (cstr d.sTableName) ((row.walked ord).map cutItem)
        (cstr d.sKeyName) (cstr (keyData d.sKeyName row)), r.2.2)] := by
  obtain ⟨h0, hget⟩ := vecAt_eq_ok.mp hrow
  obtain ⟨hlt, -⟩ := List.getElem?_eq_some_iff.mp hget
  unfold commitModify
  rw [hrow, ok_bind, modifySql_parts h, parts_eq_blankText]
  dsimp only
  unfold modifyCurRow
  rw [vecModify_of_lt _ h0 hlt]
  refine returns_ok.mpr ?_
  -- the server gets the text up to a NUL, and there is none
  show hSqlServer.ran ++ [(cstr _, _)] = _
  rw [cstr_eq_self.mpr (noNul_blankText ord d.sTableName d.sKeyName row)]
  rfl

theorem map_cutItem {l : List (Str × Str)} (h : ∀ i ∈ l, NoNul i.1 ∧ NoNul i.2) : l.map cutItem = l := by
  induction l with
  | nil => rfl
  | cons i l ih =>
    obtain ⟨h1, h2⟩ := h i List.mem_cons_self
    have hone : cutItem i = i := by
      show (cstr i.1, cstr i.2) = i
      rw [cstr_eq_self.mpr h1, cstr_eq_self.mpr h2]
    rw [List.map_cons, hone, ih fun j hj => h j (List.mem_cons_of_mem i hj)]

/-- The text of `CommitModify` is an `update` of the modified fields when there is one field and
`%s` cuts nothing. -/
theorem update_text_iff (ord : HashOrder) (tableName keyName : Str) (hne : row.modified ≠ []) :
    (∃ items : List (Str × Str), items.Perm row.modified ∧
      blankText (cstr tableName) ((row.walked ord).map cutItem) (cstr keyName)
        (cstr (keyData keyName row)) =
        (Stmt.update tableName items keyName (keyData keyName row)).text) ↔
      ∃ c, row.modified = [c] ∧ (NoNul c.1 ∧ NoNul c.2) ∧ NoNul tableName ∧ NoNul keyName ∧
        NoNul (keyData keyName row) := by
  have hperm := row.walked_perm ord
  constructor
  · rintro ⟨items, hitems, htext⟩
    -- nothing was cut, or the two texts would differ in their NULs
    have hnoNul := noNul_blankText ord tableName keyName row
    rw [htext] at hnoNul
    obtain ⟨htable, hsets, hname, hval⟩ := noNul_of_update hnoNul
    have hcut : (row.walked ord).map cutItem = row.walked ord :=
      map_cutItem fun i hi => hsets i (hitems.mem_iff.mpr (hperm.mem_iff.mp hi))
    have hwalked : row.walked ord ≠ [] := by
      intro hnil
      rw [hnil] at hperm
      exact hne hperm.symm.eq_nil
    rw [cstr_eq_self.mpr htable, cstr_eq_self.mpr hname, cstr_eq_self.mpr hval, hcut] at htext
    have hone := length_of_blankText (hitems.trans hperm.symm) hwalked htext
    rw [hperm.length_eq] at hone
    obtain ⟨c, hc⟩ := List.length_eq_one_iff.mp hone
    refine ⟨c, hc, hsets c ?_, htable, hname, hval⟩
    rw [hitems.mem_iff, hc]
    exact List.mem_singleton_self c
  · rintro ⟨c, hc, hitem, htable, hname, hval⟩
    refine ⟨[c], by rw [hc], ?_⟩
    rw [hc, List.perm_singleton] at hperm
    have hcut : [c].map cutItem = [c] := map_cutItem (by simpa using hitem)
    rw [hperm, hcut, cstr_eq_self.mpr htable, cstr_eq_self.mpr hname, cstr_eq_self.mpr hval]
    exact blankText_singleton tableName keyName (keyData keyName row) c

/-- **The set list.**  `CommitModify` runs an `update` of exactly the modified fields when
there is one, and no statement when there is none; two fields or more have no comma
between them. -/
theorem commitModify_setList_iff (ord : HashOrder) (hSqlServer : DBSqlServer) {keyField : DBDataField}
    (hrow : d.curRow = .ok row) (hkey : row.rowList.lookup d.sKeyName = some keyField) :
    Returns (d.commitModify ord hSqlServer) (SetsModified hSqlServer d row keyField.sData) ↔
      OneAtMost d row keyField.sData := by
  have hdata : keyData d.sKeyName row = keyField.sData := by
    unfold keyData
    rw [hkey]
    rfl
  unfold SetsModified OneAtMost
  rw [← hdata]
  by_cases hdirty : row.Dirty
  · have hne : row.modified ≠ [] := fun hnil => DBDataRow.modified_eq_nil.mp hnil hdirty
    obtain ⟨r, hr, hran⟩ := commitModify_dirty ord hSqlServer hrow hdirty
    rw [hr, returns_ok, if_pos hdirty, or_iff_right hne, hran,
      ← update_text_iff ord d.sTableName d.sKeyName hne]
    simp only [List.append_cancel_left_eq, List.cons.injEq, Prod.mk.injEq, and_true]
  · rw [commitModify_clean ord hSqlServer hrow hdirty, returns_ok, if_neg hdirty]
    exact iff_of_true ⟨rfl, rfl⟩ (Or.inl (DBDataRow.modified_eq_nil.mpr hdirty))

/-- The row `1` of an `id`, an `a` and a `b`, the last two as given. -/
def rowOne (a b : DBDataField) : DBDataRow :=
  DBDataRow.new (UMap.insertNew (lit "b") b (UMap.insertNew (lit "a") a
    (UMap.insertNew (lit "id") (DBDataField.new (lit "1")) ∅)))

/-- A data set over `t` with one row. -/
def setOf (row : DBDataRow) : DBDataSet :=
  { sTableName := lit "t", sKeyName := lit "id", setList := [row] }

theorem curRow_setOf (row : DBDataRow) : (setOf row).curRow = .ok row := rfl

/-- A row with a new text for `a`. -/
def oneModified : DBDataRow :=
  rowOne ((DBDataField.new (lit "x")).assign (lit "y")) (DBDataField.new (lit "z"))

theorem commitModify_setList_iff_one :
    ∃ keyField, (setOf oneModified).curRow = .ok oneModified ∧
      oneModified.rowList.lookup (setOf oneModified).sKeyName = some keyField ∧
      (Returns ((setOf oneModified).commitModify .plain { answers := [true] })
          (SetsModified { answers := [true] } (setOf oneModified) oneModified keyField.sData) ↔
        OneAtMost (setOf oneModified) oneModified keyField.sData) := by
  have hkey : oneModified.rowList.lookup (setOf oneModified).sKeyName =
      some (DBDataField.new (lit "1")) := by
    decide
  exact ⟨_, curRow_setOf oneModified, hkey,
    commitModify_setList_iff .plain { answers := [true] } (curRow_setOf oneModified) hkey⟩

/-- With `a` and `b` assigned there is a blank between the assignments and no comma. -/
theorem commitModify_no_comma :
    let row := rowOne ((DBDataField.new (lit "x")).assign (lit "y"))
      ((DBDataField.new []).assign (lit "w"))
    ¬ Returns ((setOf row).commitModify .plain { answers := [true] })
        (SetsModified { answers := [true] } (setOf row) row (lit "1")) ∧
      Returns ((setOf row).commitModify .plain { answers := [true] }) fun r =>
        r.1.ran = [(lit "update t set b='w' a='y' where id='1';", true)] := by
  intro row
  have hrun : Returns ((setOf row).commitModify .plain { answers := [true] }) fun r =>
      r.1.ran = [(lit "update t set b='w' a='y' where id='1';", true)] := by decide
  have hdirty : row.Dirty := by decide
  have hmod : row.modified = [(lit "b", lit "w"), (lit "a", lit "y")] := by decide
  have hblank : blankText (lit "t") row.modified (lit "id") (lit "1") =
      lit "update t set b='w' a='y' where id='1';" := by decide
  refine ⟨?_, hrun⟩
  obtain ⟨r, hr, hran⟩ := hrun
  rw [hr, returns_ok]
  unfold SetsModified
  rw [if_pos hdirty, hran, ← hblank]
  rintro ⟨items, hitems, htext⟩
  have hone := length_of_blankText hitems (by rw [hmod]; exact List.cons_ne_nil _ _)
    (Prod.mk.inj (List.cons.inj htext).1).1
  rw [hmod] at hone
  exact absurd hone (by decide)

end DBDataSet

end FuServer
