import FuServer.Backup.Commands
import FuServer.Lib.SqlText
import FuServer.Lib.SqlToken

/-!
# What a backup command says

An insert command is the statement that inserts the record.  An update
command is written by a loop that puts no comma between its items, so it is a
statement only when there is one item.  `denotes_iff` says exactly which
commands denote their record.
-/

namespace FuServer

open Bytes Decimal Outcome SqlText

namespace DBTable

variable {fp : FloatUnit}

/-- The columns besides the key, with their places. -/
def nonKey (t : DBTable fp) : List (Str × Nat) :=
  t.fieldNameList.zipIdx.filter fun c => (c.2 : Int) != t.iPriKeyIndex

/-- The statement has the grammar's shape for this table and kind of write: all
columns in order for an insert, all but the key for an update, plain values. -/
def ShapeOf (t : DBTable fp) (r : DBRecord) (stmt : Stmt) : Prop :=
  if r.bInsert = true then
    ∃ vals, vals.length = t.fieldNameList.length ∧ (∀ v ∈ vals, Plain v) ∧
      stmt = .insert t.sTableName t.fieldNameList vals
  else
    ∃ sets val, sets.map (·.1) = t.nonKey.map (·.1) ∧ (∀ s ∈ sets, Plain s.2) ∧ Plain val ∧
      stmt = .update t.sTableName sets t.keyName val

/-- Executing the statement makes the row stored under the record's key equal to
the record, column by column: a row not stored before, for an insert, one
stored before for an update. -/
def Saves (t : DBTable fp) (r : DBRecord) (stmt : Stmt) : Prop :=
  ∀ rows : List Row,
    (if r.bInsert = true then ∀ row ∈ rows, row t.keyName ≠ r.text t.iPriKeyIndex.toNat
      else ∃ row ∈ rows, row t.keyName = r.text t.iPriKeyIndex.toNat) →
    (∃ row ∈ stmt.exec rows, row t.keyName = r.text t.iPriKeyIndex.toNat) ∧
    ∀ row ∈ stmt.exec rows, row t.keyName = r.text t.iPriKeyIndex.toNat →
      ∀ c ∈ t.fieldNameList, row c = r.text (t.fieldNameList.idxOf c)

/-- The command is a well-formed statement that saves the record. -/
def Denotes (t : DBTable fp) (r : DBRecord) (cmd : Str) : Prop :=
  ∃ stmt : Stmt, stmt.text = cmd ∧ t.ShapeOf r stmt ∧ t.Saves r stmt

/-- No NUL byte in the names and values that go into a command. -/
def NulFree (t : DBTable fp) (r : DBRecord) : Prop :=
  NoNul t.sTableName ∧ (∀ c ∈ t.fieldNameList, NoNul c) ∧ ∀ f ∈ r.fieldList, NoNul f.sData

/-! ## Commands have no NUL -/

theorem noNul_setItems (r : DBRecord) (key : Int) (cols : List (Str × Nat)) :
    NoNul (r.setItems key cols) := by
  unfold DBRecord.setItems
  intro b hb
  obtain ⟨c, -, hb⟩ := List.mem_flatMap.mp hb
  have hitem : NoNul (lit " " ++ (cstr c.1 ++ (lit "='" ++ (cstr (r.text c.2) ++ lit "' ")))) := by
    simp only [noNul_append]
    exact ⟨by decide, noNul_cstr _, by decide, noNul_cstr _, by decide⟩
  exact hitem b hb

theorem noNul_cmdText (t : DBTable fp) (r : DBRecord) : NoNul (t.cmdText r) := by
  unfold cmdText
  split
  · unfold insertCmd
    simp only [noNul_append]
    exact ⟨by decide, noNul_cstr _, noNul_cstr _, by decide, noNul_cstr _, by decide⟩
  · unfold modifyCmd
    simp only [noNul_append]
    exact ⟨⟨⟨by decide, noNul_cstr _, by decide⟩, noNul_setItems r _ _⟩, by decide, noNul_cstr _,
      by decide, noNul_cstr _, by decide⟩

theorem noNul_nameItems (cols : List (Str × Nat)) : NoNul (DBRecord.nameItems cols) := by
  induction cols with
  | nil =>
    intro b hb
    cases hb
  | cons c cols ih =>
    cases cols with
    | nil => exact noNul_append.mpr ⟨noNul_cstr _, by decide⟩
    | cons c' cols => exact noNul_append.mpr ⟨noNul_append.mpr ⟨noNul_cstr _, by decide⟩, ih⟩

theorem noNul_valueItems (r : DBRecord) (cols : List (Str × Nat)) : NoNul (r.valueItems cols) := by
  induction cols with
  | nil =>
    intro b hb
    cases hb
  | cons c cols ih =>
    have hitem : ∀ last : Str, NoNul last → NoNul (lit "'" ++ (cstr (r.text c.2) ++ last)) :=
      fun last hl => noNul_append.mpr ⟨by decide, noNul_append.mpr ⟨noNul_cstr _, hl⟩⟩
    cases cols with
    | nil => exact hitem _ (by decide)
    | cons c' cols => exact noNul_append.mpr ⟨hitem _ (by decide), ih⟩

/-! ## The insert command -/

theorem nameItems_eq {cols : List (Str × Nat)} (h : cols ≠ []) :
    DBRecord.nameItems cols = commaSep (cols.map fun c => cstr c.1) ++ lit ")" := by
  induction cols with
  | nil => exact absurd rfl h
  | cons c cols ih =>
    cases cols with
    | nil => rfl
    | cons c' cols =>
      rw [DBRecord.nameItems, ih (List.cons_ne_nil c' cols)]
      · rw [List.map_cons, List.map_cons, List.map_cons, commaSep_cons_cons, List.append_assoc,
          List.append_assoc, List.append_assoc]
      · exact List.cons_ne_nil c' cols

theorem valueItems_eq (r : DBRecord) {cols : List (Str × Nat)} (h : cols ≠ []) :
    r.valueItems cols = commaSep (cols.map fun c => quoted (cstr (r.text c.2))) ++ lit ")" := by
  induction cols with
  | nil => exact absurd rfl h
  | cons c cols ih =>
    cases cols with
    | nil =>
      show lit "'" ++ (cstr (r.text c.2) ++ lit "')") = quoted (cstr (r.text c.2)) ++ lit ")"
      unfold quoted
      rw [List.append_assoc, List.append_assoc]
      rfl
    | cons c' cols =>
      rw [DBRecord.valueItems, ih (List.cons_ne_nil c' cols)]
      · rw [List.map_cons, List.map_cons, List.map_cons, commaSep_cons_cons]
        unfold quoted
        simp only [List.append_assoc]
        rfl
      · exact List.cons_ne_nil c' cols

/-- A text of a record is the text of one of its fields. -/
theorem text_mem {r : DBRecord} {i : Nat} (h : i < r.fieldList.length) :
    ∃ f ∈ r.fieldList, r.text i = f.sData := by
  refine ⟨r.fieldList[i], List.getElem_mem h, ?_⟩
  rw [DBRecord.text, List.getD_eq_getElem _ _ h]

section Statement

variable {t : DBTable fp} {r : DBRecord}

theorem noNul_text (hw : r.fieldList.length = t.fieldNameList.length) (hn : t.NulFree r) {i : Nat}
    (hi : i < t.fieldNameList.length) : cstr (r.text i) = r.text i := by
  obtain ⟨f, hf, hft⟩ := text_mem (r := r) (i := i) (by omega)
  rw [hft]
  exact cstr_eq_self.mpr (hn.2.2 f hf)

/-- The values of a record, in column order. -/
def values (t : DBTable fp) (r : DBRecord) : List Str := t.fieldNameList.zipIdx.map fun c => r.text c.2

theorem length_values (t : DBTable fp) (r : DBRecord) :
    (t.values r).length = t.fieldNameList.length := by
  simp [values]

theorem getD_values {i : Nat} (hi : i < t.fieldNameList.length) : (t.values r).getD i [] = r.text i := by
  have hlt : i < (t.values r).length := by rw [length_values]; exact hi
  rw [List.getD_eq_getElem _ _ hlt]
  simp [values]

theorem insertCmd_eq (hw : r.fieldList.length = t.fieldNameList.length) (hn : t.NulFree r)
    (hne : t.fieldNameList ≠ []) :
    t.insertCmd r = (Stmt.insert t.sTableName t.fieldNameList (t.values r)).text := by
  have hcols : t.fieldNameList.zipIdx ≠ [] := by
    intro h
    exact hne (by simpa using h)
  have hnames : (t.fieldNameList.zipIdx.map fun c => cstr c.1) = t.fieldNameList := by
    have hmap : (t.fieldNameList.zipIdx.map fun c => cstr c.1) = t.fieldNameList.zipIdx.map (·.1) := by
      apply List.map_congr_left
      intro c hc
      obtain ⟨-, -, hmem⟩ := List.mem_zipIdx hc
      exact cstr_eq_self.mpr (hn.2.1 c.1 (by rw [hmem]; exact List.getElem_mem _))
    rw [hmap]
    simp
  have hvals : (t.fieldNameList.zipIdx.map fun c => quoted (cstr (r.text c.2))) =
      (t.values r).map quoted := by
    unfold values
    rw [List.map_map]
    apply List.map_congr_left
    intro c hc
    obtain ⟨-, hlt, -⟩ := List.mem_zipIdx hc
    show quoted (cstr (r.text c.2)) = quoted (r.text c.2)
    rw [noNul_text hw hn (by omega)]
  have hpar1 : NoNul (lit "(" ++ DBRecord.nameItems t.fieldNameList.zipIdx) :=
    noNul_append.mpr ⟨by decide, noNul_nameItems _⟩
  have hpar2 : NoNul (lit "(" ++ r.valueItems t.fieldNameList.zipIdx) :=
    noNul_append.mpr ⟨by decide, noNul_valueItems r _⟩
  unfold insertCmd
  dsimp only
  rw [cstr_eq_self.mpr hpar1, cstr_eq_self.mpr hpar2, cstr_eq_self.mpr hn.1, nameItems_eq hcols,
    valueItems_eq r hcols, hnames, hvals, text_insert]
  simp only [List.append_assoc]
  rfl

/-! ## What the statements do -/

theorem mem_nonKey {c : Str} {i : Nat} :
    (c, i) ∈ t.nonKey ↔ t.fieldNameList[i]? = some c ∧ (i : Int) ≠ t.iPriKeyIndex := by
  unfold nonKey
  rw [List.mem_filter, List.mem_zipIdx_iff_getElem?]
  simp

/-- A column besides the key is listed with its place. -/
theorem idxOf_nonKey (hd : t.fieldNameList.Nodup) {c : Str} {i : Nat} (hc : (c, i) ∈ t.nonKey) :
    c ∈ t.fieldNameList ∧ t.fieldNameList.idxOf c = i := by
  obtain ⟨hlt, rfl⟩ := List.getElem?_eq_some_iff.mp (mem_nonKey.mp hc).1
  exact ⟨List.getElem_mem hlt, hd.idxOf_getElem i hlt⟩

theorem nonKey_name (h : SchemaOk t) (hd : t.fieldNameList.Nodup) {c : Str} :
    c ∈ t.nonKey.map (·.1) ↔ c ∈ t.fieldNameList ∧ c ≠ t.keyName := by
  rw [List.mem_map]
  constructor
  · rintro ⟨⟨c, i⟩, hc, rfl⟩
    obtain ⟨hmem, hidx⟩ := idxOf_nonKey hd hc
    refine ⟨hmem, fun hkey => (mem_nonKey.mp hc).2 ?_⟩
    rw [← (keyIndex_iff h hd hmem).mpr hkey, hidx]
  · rintro ⟨hc, hk⟩
    refine ⟨(c, t.fieldNameList.idxOf c), mem_nonKey.mpr ⟨?_, fun hkey => hk ?_⟩, rfl⟩
    · exact List.getElem?_idxOf hc
    · exact (keyIndex_iff h hd hc).mp hkey

/-- The update a pending modify stands for. -/
def updateStmt (t : DBTable fp) (r : DBRecord) : Stmt :=
  .update t.sTableName (t.nonKey.map fun c => (c.1, r.text c.2)) t.keyName
    (r.text t.iPriKeyIndex.toNat)

theorem saves_insert (h : SchemaOk t) (hd : t.fieldNameList.Nodup) (hi : r.bInsert = true) :
    t.Saves r (.insert t.sTableName t.fieldNameList (t.values r)) := by
  intro rows hrows
  rw [if_pos hi] at hrows
  have hrow : ∀ c ∈ t.fieldNameList,
      assign (t.fieldNameList.zip (t.values r)) (fun _ => []) c = r.text (t.fieldNameList.idxOf c) := by
    intro c hc
    unfold assign
    rw [lookup_zip (length_values t r) hc, Option.getD_some,
      getD_values (List.idxOf_lt_length_of_mem hc)]
  constructor
  · refine ⟨_, List.mem_append_right rows List.mem_cons_self, ?_⟩
    rw [hrow t.keyName (keyName_mem h), idxOf_keyName h hd]
  · intro row hmem hk
    rcases List.mem_append.mp hmem with hold | hnew
    · exact absurd hk (hrows row hold)
    · obtain rfl := List.mem_singleton.mp hnew
      exact hrow

/-- Of the settings made from the columns besides the key, the one of a column. -/
theorem lookup_nonKey (h : SchemaOk t) (hd : t.fieldNameList.Nodup) (f : Nat → Str) (c : Str) :
    (t.nonKey.map fun c => (c.1, f c.2)).lookup c =
      if c ∈ t.fieldNameList ∧ c ≠ t.keyName then some (f (t.fieldNameList.idxOf c)) else none := by
  have hnames : (t.nonKey.map fun c => (c.1, f c.2)).map (·.1) = t.nonKey.map (·.1) := by
    rw [List.map_map]
    rfl
  have hmem := nonKey_name h hd (c := c)
  by_cases hc : c ∈ t.fieldNameList ∧ c ≠ t.keyName
  · rw [if_pos hc]
    obtain ⟨w, hw, hin⟩ := exists_lookup_of_mem (hnames ▸ hmem.mpr hc)
    obtain ⟨⟨c', i⟩, hci, he⟩ := List.mem_map.mp hin
    obtain ⟨rfl, rfl⟩ := Prod.mk.inj he
    rw [hw, (idxOf_nonKey hd hci).2]
  · rw [if_neg hc, List.lookup_eq_none_iff]
    intro s hs
    have hne : s.1 ≠ c := by
      rintro rfl
      exact hc (hmem.mp (hnames ▸ List.mem_map_of_mem hs))
    simpa using hne.symm

/-- In a row stored under the record's key, the key keeps its text and the other
columns get the record's. -/
theorem assign_nonKey (h : SchemaOk t) (hd : t.fieldNameList.Nodup) {row : Row}
    (hk : row t.keyName = r.text t.iPriKeyIndex.toNat) {c : Str} (hc : c ∈ t.fieldNameList) :
    assign (t.nonKey.map fun c => (c.1, r.text c.2)) row c = r.text (t.fieldNameList.idxOf c) := by
  unfold assign
  rw [lookup_nonKey h hd r.text c]
  by_cases hck : c = t.keyName
  · subst hck
    rw [if_neg fun hboth => hboth.2 rfl, Option.getD_none, hk, idxOf_keyName h hd]
  · rw [if_pos ⟨hc, hck⟩, Option.getD_some]

theorem saves_update (h : SchemaOk t) (hd : t.fieldNameList.Nodup) (hi : r.bInsert = false) :
    t.Saves r (t.updateStmt r) := by
  intro rows hrows
  rw [if_neg (by rw [hi]; exact Bool.false_ne_true)] at hrows
  obtain ⟨row, hmem, hk⟩ := hrows
  constructor
  · refine ⟨_, List.mem_map_of_mem hmem, ?_⟩
    rw [if_pos hk, assign_nonKey h hd hk (keyName_mem h), idxOf_keyName h hd]
  · intro row' hmem' hk'
    obtain ⟨row0, -, rfl⟩ := List.mem_map.mp hmem'
    by_cases h0 : row0 t.keyName = r.text t.iPriKeyIndex.toNat
    · rw [if_pos h0]
      exact fun c hc => assign_nonKey h hd h0 hc
    · rw [if_neg h0] at hk'
      exact absurd hk' h0

/-! ## The update command -/

/-- One item of an update command. -/
def setItem (r : DBRecord) (c : Str × Nat) : Str :=
  lit " " ++ (cstr c.1 ++ (lit "='" ++ (cstr (r.text c.2) ++ lit "' ")))

theorem modifyCmd_text (t : DBTable fp) (r : DBRecord) :
    t.modifyCmd r = (lit "update " ++ (cstr t.sTableName ++ lit " set")) ++
      t.nonKey.flatMap (setItem r) ++ (lit "where " ++ (cstr t.keyName ++
        (lit "='" ++ (cstr (r.text t.iPriKeyIndex.toNat) ++ lit "';")))) := rfl

theorem cstr_nonKey (hcols : ∀ c ∈ t.fieldNameList, NoNul c) {c : Str × Nat} (hc : c ∈ t.nonKey) :
    cstr c.1 = c.1 := by
  obtain ⟨hlt, hname⟩ := List.getElem?_eq_some_iff.mp (mem_nonKey.mp hc).1
  rw [← hname]
  exact cstr_eq_self.mpr (hcols _ (List.getElem_mem hlt))

/-- The assignments of an update command. -/
def cmdSets (t : DBTable fp) (r : DBRecord) : List (Str × Str) :=
  t.nonKey.map fun c => (c.1, cstr (r.text c.2))

/-- With a blank before and behind each item, two stand between them. -/
theorem modifyCmd_eq_updateText (h : SchemaOk t) (htab : NoNul t.sTableName)
    (hcols : ∀ c ∈ t.fieldNameList, NoNul c) (hne : t.nonKey ≠ []) (r : DBRecord) :
    t.modifyCmd r = updateText (lit "  ") t.sTableName (t.cmdSets r) t.keyName
      (cstr (r.text t.iPriKeyIndex.toNat)) := by
  have hitems : t.nonKey.flatMap (setItem r) =
      ((t.cmdSets r).map setText).flatMap fun x => lit " " ++ x ++ lit " " := by
    rw [cmdSets, List.map_map, List.flatMap_map]
    refine List.flatMap_congr fun c hc => ?_
    unfold setItem setText quoted
    rw [cstr_nonKey hcols hc]
    simp only [Function.comp_apply, List.append_assoc]
    rfl
  have hsets : (t.cmdSets r).map setText ≠ [] := by
    simpa [cmdSets] using hne
  have hsep : lit " " ++ lit " " = lit "  " := rfl
  rw [modifyCmd_text, hitems, SqlToken.flatMap_eq_intercalate _ _ hsets, hsep, cstr_eq_self.mpr htab,
    cstr_eq_self.mpr (hcols _ (keyName_mem h))]
  unfold updateText setText quoted
  simp only [List.append_assoc]
  rfl

/-- With one column besides the key there is nothing to separate. -/
theorem modifyCmd_eq (h : SchemaOk t) (hw : r.fieldList.length = t.fieldNameList.length)
    (hn : t.NulFree r) {c : Str × Nat} (hc : t.nonKey = [c]) :
    t.modifyCmd r = (t.updateStmt r).text := by
  have hne : t.nonKey ≠ [] := by
    rw [hc]
    exact List.cons_ne_nil c []
  have hmem := (mem_nonKey (c := c.1) (i := c.2)).mp (by rw [hc]; exact List.mem_singleton_self c)
  obtain ⟨hlt, -⟩ := List.getElem?_eq_some_iff.mp hmem.1
  rw [modifyCmd_eq_updateText h hn.1 hn.2.1 hne, noNul_text hw hn h.keyHi, updateStmt,
    text_update_eq, cmdSets, hc,
    List.map_singleton, List.map_singleton, noNul_text hw hn hlt]
  unfold updateText
  rw [List.map_singleton, List.intercalate_singleton, List.intercalate_singleton]

/-- With two there is a blank where the grammar has a comma. -/
theorem modifyCmd_ne {c c' : Str × Nat} {cols : List (Str × Nat)} (hc : t.nonKey = c :: c' :: cols)
    (hw : r.fieldList.length = t.fieldNameList.length) (hn : t.NulFree r)
    (hplain : ∀ f ∈ r.fieldList, Plain f.sData) {sets : List (Str × Str)} {val : Str}
    (hsets : sets.map (·.1) = t.nonKey.map (·.1)) (hp : ∀ s ∈ sets, Plain s.2) :
    (Stmt.update t.sTableName sets t.keyName val).text ≠ t.modifyCmd r := by
  intro heq
  have hmem := (mem_nonKey (c := c.1) (i := c.2)).mp (by rw [hc]; exact List.mem_cons_self)
  obtain ⟨hlt, -⟩ := List.getElem?_eq_some_iff.mp hmem.1
  have hcname : cstr c.1 = c.1 := cstr_nonKey hn.2.1 (by rw [hc]; exact List.mem_cons_self)
  have hquote : 39 ∉ r.text c.2 := by
    obtain ⟨f, hf, hft⟩ := text_mem (r := r) (i := c.2) (by omega)
    rw [hft]
    exact (hplain f hf).1
  rw [hc, List.map_cons, List.map_cons] at hsets
  match sets, hsets, hp with
  | (a, w) :: (a', w') :: sets, hsets, hp =>
    obtain rfl : a = c.1 := (List.cons.inj hsets).1
    rw [modifyCmd_text, text_update, hc, List.flatMap_cons, List.flatMap_cons] at heq
    unfold setItem at heq
    rw [List.map_cons, List.map_cons, commaSep_cons_cons, cstr_eq_self.mpr hn.1, hcname,
      noNul_text hw hn hlt] at heq
    unfold setText quoted at heq
    simp only [List.append_assoc] at heq
    -- both sides up to the first value
    have hset : lit " set " ++ (c.1 ++ _) = lit " set " ++ (c.1 ++ _) :=
      List.append_cancel_left (List.append_cancel_left heq)
    have hval : lit "='" ++ (w ++ 39 :: _) = lit "='" ++ (r.text c.2 ++ 39 :: _) :=
      List.append_cancel_left (List.append_cancel_left hset)
    obtain ⟨-, hsep⟩ := cut_at_quote (hp _ List.mem_cons_self).1 hquote (List.append_cancel_left hval)
    exact absurd (List.cons.inj hsep).1 (by decide)

/-! ## When a command denotes its record -/

/-- Every text of a record is in some column. -/
theorem nulFree_of_columns (hd : t.fieldNameList.Nodup)
    (hw : r.fieldList.length = t.fieldNameList.length) (htab : NoNul t.sTableName)
    (hcols : ∀ c ∈ t.fieldNameList, NoNul c ∧ NoNul (r.text (t.fieldNameList.idxOf c))) :
    t.NulFree r := by
  refine ⟨htab, fun c hc => (hcols c hc).1, fun f hf => ?_⟩
  obtain ⟨i, hlt, rfl⟩ := List.getElem_of_mem hf
  have hi : i < t.fieldNameList.length := by omega
  have htext := (hcols _ (List.getElem_mem hi)).2
  rw [hd.idxOf_getElem i hi, DBRecord.text, List.getD_eq_getElem _ _ hlt] at htext
  exact htext

/-- Inserted into an empty table the new row is the only one. -/
theorem nulFree_of_insert (hd : t.fieldNameList.Nodup)
    (hw : r.fieldList.length = t.fieldNameList.length) (hi : r.bInsert = true) {vals : List Str}
    (hlen : vals.length = t.fieldNameList.length)
    (hnul : NoNul (Stmt.insert t.sTableName t.fieldNameList vals).text)
    (hsaves : t.Saves r (.insert t.sTableName t.fieldNameList vals)) : t.NulFree r := by
  obtain ⟨htab, hnames, hvals⟩ := noNul_of_insert hnul
  obtain ⟨⟨row, hmem, hk⟩, hall⟩ := hsaves [] (by
    rw [if_pos hi]
    intro row hrow
    cases hrow)
  have hrow := hall row hmem hk
  obtain rfl := List.mem_singleton.mp hmem
  refine nulFree_of_columns hd hw htab fun c hc => ⟨hnames c hc, ?_⟩
  have hlt : t.fieldNameList.idxOf c < vals.length := by
    rw [hlen]
    exact List.idxOf_lt_length_of_mem hc
  rw [← hrow c hc]
  unfold assign
  rw [lookup_zip hlen hc, Option.getD_some, List.getD_eq_getElem _ _ hlt]
  exact hvals _ (List.getElem_mem hlt)

theorem length_nonKey (h : SchemaOk t) : t.nonKey.length + 1 = t.fieldNameList.length := by
  have hplaces : t.nonKey.map (·.2) =
      (List.range t.fieldNameList.length).erase t.iPriKeyIndex.toNat := by
    rw [List.nodup_range.erase_eq_filter, List.range_eq_range', ← List.zipIdx_map_snd 0,
      List.filter_map]
    have hfilter : t.nonKey = t.fieldNameList.zipIdx.filter
        ((fun i => i != t.iPriKeyIndex.toNat) ∘ Prod.snd) := by
      apply List.filter_congr
      intro c _
      have hlo := h.keyLo
      rw [Bool.eq_iff_iff]
      simp only [Function.comp_apply, bne_iff_ne]
      omega
    rw [hfilter]
  have hlen := congrArg List.length hplaces
  rw [List.length_map, List.length_erase_of_mem (List.mem_range.mpr h.keyHi),
    List.length_range] at hlen
  have hhi := h.keyHi
  omega

/-- From a row that differs from the record in every column but the key, an
update that saves the record has to hit it and set each of them. -/
theorem nulFree_of_update (h : SchemaOk t) (hd : t.fieldNameList.Nodup)
    (hw : r.fieldList.length = t.fieldNameList.length) (hcols : 2 ≤ t.fieldNameList.length)
    (hi : r.bInsert = false) {sets : List (Str × Str)} {val : Str}
    (hnames : sets.map (·.1) = t.nonKey.map (·.1))
    (hnul : NoNul (Stmt.update t.sTableName sets t.keyName val).text)
    (hsaves : t.Saves r (.update t.sTableName sets t.keyName val)) : t.NulFree r := by
  obtain ⟨htab, hsets, hkeyNul, hval⟩ := noNul_of_update hnul
  let row0 : Row := fun c =>
    if c = t.keyName then r.text t.iPriKeyIndex.toNat else r.text (t.fieldNameList.idxOf c) ++ [1]
  have hrow0 : row0 t.keyName = r.text t.iPriKeyIndex.toNat := if_pos rfl
  obtain ⟨⟨row, hmem, hk⟩, hall⟩ := hsaves [row0] (by
    rw [if_neg (by rw [hi]; exact Bool.false_ne_true)]
    exact ⟨row0, List.mem_singleton_self row0, hrow0⟩)
  have hrow : ∀ c ∈ t.fieldNameList,
      (if row0 t.keyName = val then assign sets row0 else row0) c =
        r.text (t.fieldNameList.idxOf c) := by
    have hsame := hall row hmem hk
    obtain rfl := List.mem_singleton.mp hmem
    exact hsame
  have hhit : row0 t.keyName = val := by
    by_contra hne
    have hlen := length_nonKey h
    obtain ⟨c, hc⟩ : ∃ c, c ∈ t.nonKey.map (·.1) := by
      apply List.exists_mem_of_length_pos
      rw [List.length_map]
      omega
    obtain ⟨hcmem, hck⟩ := (nonKey_name h hd).mp hc
    have hold := hrow c hcmem
    have hdiff : row0 c = r.text (t.fieldNameList.idxOf c) ++ [1] := if_neg hck
    rw [if_neg hne, hdiff] at hold
    exact absurd (congrArg List.length hold) (by simp)
  rw [if_pos hhit] at hrow
  refine nulFree_of_columns hd hw htab fun c hc => ?_
  by_cases hck : c = t.keyName
  · subst hck
    rw [idxOf_keyName h hd, ← hrow0, hhit]
    exact ⟨hkeyNul, hval⟩
  · obtain ⟨w, hlook, hin⟩ := exists_lookup_of_mem (hnames ▸ (nonKey_name h hd).mpr ⟨hc, hck⟩)
    rw [← hrow c hc]
    unfold assign
    rw [hlook, Option.getD_some]
    exact hsets _ hin

/-- A command has no NUL, so a record it denotes has none either. -/
theorem nulFree_of_denotes (h : SchemaOk t) (hd : t.fieldNameList.Nodup)
    (hw : r.fieldList.length = t.fieldNameList.length) (hcols : 2 ≤ t.fieldNameList.length)
    (hden : t.Denotes r (t.cmdText r)) : t.NulFree r := by
  obtain ⟨stmt, htext, hshape, hsaves⟩ := hden
  have hnul : NoNul stmt.text := htext ▸ noNul_cmdText t r
  unfold ShapeOf at hshape
  by_cases hi : r.bInsert = true
  · rw [if_pos hi] at hshape
    obtain ⟨vals, hlen, -, rfl⟩ := hshape
    exact nulFree_of_insert hd hw hi hlen hnul hsaves
  · rw [if_neg hi] at hshape
    obtain ⟨sets, val, hnames, -, -, rfl⟩ := hshape
    exact nulFree_of_update h hd hw hcols (Bool.eq_false_iff.mpr hi) hnames hnul hsaves

/-- With two columns besides the key an update command is no statement. -/
theorem not_denotes_update (h : SchemaOk t) (hw : r.fieldList.length = t.fieldNameList.length)
    (hn : t.NulFree r) (hplain : ∀ f ∈ r.fieldList, Plain f.sData) (hi : ¬ r.bInsert = true)
    (hcols : 2 < t.fieldNameList.length) : ¬ t.Denotes r (t.cmdText r) := by
  rintro ⟨stmt, htext, hshape, -⟩
  unfold ShapeOf at hshape
  rw [if_neg hi] at hshape
  obtain ⟨sets, val, hnames, hp, -, rfl⟩ := hshape
  have hnonKey := length_nonKey h
  match hc : t.nonKey with
  | [] => rw [hc, List.length_nil] at hnonKey; omega
  | [c] => rw [hc, List.length_singleton] at hnonKey; omega
  | c :: c' :: cols =>
    refine modifyCmd_ne hc hw hn hplain hnames hp (htext.trans ?_)
    rw [cmdText, if_neg hi]

theorem plain_text (hw : r.fieldList.length = t.fieldNameList.length)
    (hplain : ∀ f ∈ r.fieldList, Plain f.sData) {i : Nat} (hi : i < t.fieldNameList.length) :
    Plain (r.text i) := by
  obtain ⟨f, hf, hft⟩ := text_mem (r := r) (i := i) (by omega)
  rw [hft]
  exact hplain f hf

theorem denotes_insert (h : SchemaOk t) (hd : t.fieldNameList.Nodup)
    (hw : r.fieldList.length = t.fieldNameList.length) (hn : t.NulFree r)
    (hplain : ∀ f ∈ r.fieldList, Plain f.sData) (hi : r.bInsert = true) :
    t.Denotes r (t.cmdText r) := by
  have hne : t.fieldNameList ≠ [] := by
    intro hnil
    have hmem := keyName_mem h
    rw [hnil] at hmem
    cases hmem
  have htext : t.cmdText r = (Stmt.insert t.sTableName t.fieldNameList (t.values r)).text := by
    rw [cmdText, if_pos hi]
    exact insertCmd_eq hw hn hne
  refine ⟨_, htext.symm, ?_, saves_insert h hd hi⟩
  unfold ShapeOf
  rw [if_pos hi]
  refine ⟨t.values r, length_values t r, fun v hv => ?_, rfl⟩
  obtain ⟨c, hc, rfl⟩ := List.mem_map.mp hv
  obtain ⟨-, hlt, -⟩ := List.mem_zipIdx hc
  exact plain_text hw hplain (by omega)

theorem denotes_update (h : SchemaOk t) (hd : t.fieldNameList.Nodup)
    (hw : r.fieldList.length = t.fieldNameList.length) (hn : t.NulFree r)
    (hplain : ∀ f ∈ r.fieldList, Plain f.sData) (hi : ¬ r.bInsert = true)
    (hcols : t.fieldNameList.length = 2) : t.Denotes r (t.cmdText r) := by
  have hlen := length_nonKey h
  obtain ⟨c, hc⟩ : ∃ c, t.nonKey = [c] := List.length_eq_one_iff.mp (by omega)
  have htext : t.cmdText r = (t.updateStmt r).text := by
    rw [cmdText, if_neg hi]
    exact modifyCmd_eq h hw hn hc
  refine ⟨_, htext.symm, ?_, saves_update h hd (Bool.eq_false_iff.mpr hi)⟩
  unfold ShapeOf
  rw [if_neg hi]
  refine ⟨_, _, ?_, fun s hs => ?_, plain_text hw hplain h.keyHi, rfl⟩
  · rw [List.map_map]
    rfl
  · obtain ⟨⟨c, i⟩, hci, rfl⟩ := List.mem_map.mp hs
    obtain ⟨hlt, -⟩ := List.getElem?_eq_some_iff.mp (mem_nonKey.mp hci).1
    exact plain_text hw hplain hlt

end Statement

/-- **When the backup command denotes its record.**  No name and no value has a
NUL byte, and the record is new or has one column besides the key. -/
theorem denotes_iff {t : DBTable fp} (h : t.WellFormed) (hd : t.fieldNameList.Nodup)
    (hcols : 2 ≤ t.fieldNameList.length) (ord : HashOrder) (tname : Str) {k : Str} {r : DBRecord}
    (hr : t.recordSet.lookup k = some r) (hpending : r.pending = true)
    (hplain : ∀ f ∈ r.fieldList, Plain f.sData) :
    ∃ cmdList cmd, t.backupTableCmd ord tname ∅ = .ok cmdList ∧ cmdList.lookup (tname, k) = some cmd ∧
      (t.Denotes r cmd ↔
        t.NulFree r ∧ (r.bInsert = true ∨ t.fieldNameList.length = 2)) := by
  obtain ⟨cmdList, hok, hlook⟩ := backupTableCmd_at h ord tname k
  have hcmd : cmdList.lookup (tname, k) = some (t.cmdText r) := by
    rw [hlook, cmdAt, hr, Option.bind_some, cmdOf, if_pos hpending]
  refine ⟨cmdList, t.cmdText r, hok, hcmd, ?_⟩
  have hw := h.width hr
  constructor
  · intro hden
    have hn := nulFree_of_denotes h.schema hd hw hcols hden
    refine ⟨hn, ?_⟩
    by_contra hor
    obtain ⟨hi, hlen⟩ := not_or.mp hor
    exact not_denotes_update h.schema hw hn hplain hi (by omega) hden
  · rintro ⟨hn, hor⟩
    by_cases hi : r.bInsert = true
    · exact denotes_insert h.schema hd hw hn hplain hi
    · exact denotes_update h.schema hd hw hn hplain hi (hor.resolve_left hi)

/-- A changed row of two text columns besides the key. -/
def modifiedRow : DBRecord where
  fieldList := [((DBField.new dbIntT).setIsKey true).setData (lit "1"),
    (DBField.new dbStringT).setData (lit "x"), (DBField.new dbStringT).setData (lit "y")]
  bModify := true

def threeColumns : DBTable .exactRational :=
  { (DBTable.new [lit "id", lit "a", lit "b"] [dbIntT, dbStringT, dbStringT] 0).addRecord (lit "1")
      modifiedRow with
    sTableName := lit "t", sDBName := lit "db" }

theorem threeColumns_wellFormed : threeColumns.WellFormed := by
  have hnew : DBTable.WellFormed (DBTable.new [lit "id", lit "a", lit "b"]
      [dbIntT, dbStringT, dbStringT] 0 : DBTable .exactRational) :=
    DBTable.new_wellFormed rfl (by decide) (by decide)
  have hadd := hnew.addRecord (k := lit "1") (r := modifiedRow) (AList.notMem_empty (lit "1"))
    ⟨rfl, _, rfl, rfl⟩
  exact hadd.named (lit "t") (lit "db")

/-- The command of the changed row has no comma between its two items. -/
theorem denotes_broken :
    ((threeColumns.backupTableCmd .plain (lit "t") ∅).toOption.bind fun cmdList =>
      cmdList.lookup (lit "t", lit "1")) = some (lit "update t set a='x'  b='y' where id='1';") ∧
    ¬ threeColumns.Denotes modifiedRow (lit "update t set a='x'  b='y' where id='1';") := by
  refine ⟨by decide +kernel, ?_⟩
  have hcmd : threeColumns.cmdText modifiedRow =
      lit "update t set a='x'  b='y' where id='1';" := by decide +kernel
  rw [← hcmd]
  exact not_denotes_update threeColumns_wellFormed.schema rfl ⟨by decide, by decide, by decide⟩
    (by decide) (by decide) (by decide)

theorem denotes_iff_threeColumns :
    ∃ cmdList cmd, threeColumns.backupTableCmd .plain (lit "t") ∅ = .ok cmdList ∧
      cmdList.lookup (lit "t", lit "1") = some cmd ∧
      (threeColumns.Denotes modifiedRow cmd ↔ threeColumns.NulFree modifiedRow ∧
        (modifiedRow.bInsert = true ∨ threeColumns.fieldNameList.length = 2)) :=
  denotes_iff threeColumns_wellFormed (by decide) (by decide) .plain (lit "t") rfl rfl (by decide)

end DBTable

end FuServer
