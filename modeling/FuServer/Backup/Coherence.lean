import FuServer.Backup.Database
import FuServer.Backup.Statement
import FuServer.Cache.Store
import FuServer.Lib.SqlEngine

/-!
# The cache and the database

The manager together with a server that runs its commands (an `Engine`).  A
command runs again with every due table after its own, so a pass sends most of
them more than once: the row is refused the second time, and the update says
the same.  `cache_kept`: along every run the server has a row for each record
that is not new, with the record's texts unless the record waits to be written.
-/

namespace FuServer

open Bytes Outcome SqlText SqlTables Runs KeyedStore
open SqlWhere (IsName)

/-! ## Records and rows -/

/-- What the server has for a record: nothing until it is inserted, then a row under its key,
with the record's texts unless the record has changed since. -/
def Fits (T : Table) (names : List Str) (k : Str) : Option DBRecord → Prop
  | none => T.rows.lookup k = none
  | some r =>
    if r.bInsert = true then T.rows.lookup k = none
    else ∃ row, T.rows.lookup k = some row ∧
      (r.bModify = false → ∀ c ∈ names, (T.cell k row c).getD [] = r.text (names.idxOf c))

section Fits

variable {T T' : Table} {names : List Str} {k : Str} {r : DBRecord}

theorem fits_new (hi : r.bInsert = true) : Fits T names k (some r) ↔ T.rows.lookup k = none := by
  show (if _ then _ else _) ↔ _
  rw [if_pos hi]

theorem fits_old (hi : ¬ r.bInsert = true) :
    Fits T names k (some r) ↔ ∃ row, T.rows.lookup k = some row ∧
    (r.bModify = false → ∀ c ∈ names, (T.cell k row c).getD [] = r.text (names.idxOf c)) := by
  show (if _ then _ else _) ↔ _
  rw [if_neg hi]

/-- Only the row under the key matters. -/
theorem Fits.of_row {o : Option DBRecord} (h : Fits T names k o) (hkey : T'.key = T.key)
    (hrow : T'.rows.lookup k = T.rows.lookup k) : Fits T' names k o := by
  cases o with
  | none => exact hrow.trans h
  | some r =>
    unfold Fits at h ⊢
    rw [hrow]
    simp only [Table.cell, hkey] at h ⊢
    exact h

/-- A record that is written has its row. -/
theorem fits_cleared {row : NullRow} (hrow : T.rows.lookup k = some row)
    (htexts : ∀ c ∈ names, (T.cell k row c).getD [] = r.text (names.idxOf c)) :
    Fits T names k (some r.cleared) :=
  (fits_old Bool.false_ne_true).mpr ⟨row, hrow, fun _ => htexts⟩

/-- A record that is not new has a row. -/
theorem Fits.row (h : Fits T names k (some r)) (hi : ¬ r.bInsert = true) :
    ∃ row, T.rows.lookup k = some row := by
  obtain ⟨row, hrow, -⟩ := (fits_old hi).mp h
  exact ⟨row, hrow⟩

end Fits

namespace DBTable

variable {fp : FloatUnit}

/-- The server's table is this one's: the same columns, the same key, a fitting row for each
record.  Of the records, those under `done` count as written. -/
structure Mirrors (t : DBTable fp) (done : List RecRef) (T : Table) : Prop where
  columns : T.columns = t.fieldNameList
  key : T.key = t.keyName
  fits : ∀ k, Fits T t.fieldNameList k
    ((t.recordSet.lookup k).map fun r => if (t.sTableName, k) ∈ done then r.cleared else r)

/-! ## Commands on the server -/

section Commands

variable {E : Engine} {s : E.State} {db : Str} {t : DBTable fp} {r : DBRecord} {T : Table}

/-- The server can run the command of the record in the database `db`: the names need no
delimiters, no text of the record has a NUL, a quote or a backslash, each column takes its text,
no other key of the table is taken for the record's, and the record is new or has one column
besides the key. -/
structure Readable (E : Engine) (db : Str) (t : DBTable fp) (r : DBRecord) : Prop where
  texts : ∀ f ∈ r.fieldList, NoNul f.sData ∧ Plain f.sData
  table : IsIdentifier E.reserved t.sTableName
  columns : ∀ c ∈ t.fieldNameList, IsIdentifier E.reserved c
  takes : ∀ c ∈ t.fieldNameList, E.takes db t.sTableName c (r.text (t.fieldNameList.idxOf c)) = true
  apart : ∀ k ∈ t.recordSet.keys, E.same db t.sTableName k (r.text t.iPriKeyIndex.toNat) = true →
    k = r.text t.iPriKeyIndex.toNat
  one : r.bInsert = true ∨ t.fieldNameList.length = 2

instance (E : Engine) (db : Str) (t : DBTable fp) (r : DBRecord) : Decidable (t.Readable E db r) :=
  decidable_of_iff ((∀ f ∈ r.fieldList, NoNul f.sData ∧ Plain f.sData) ∧
    IsIdentifier E.reserved t.sTableName ∧
      (∀ c ∈ t.fieldNameList, IsIdentifier E.reserved c) ∧
      (∀ c ∈ t.fieldNameList, E.takes db t.sTableName c (r.text (t.fieldNameList.idxOf c)) = true) ∧
      (∀ k ∈ t.recordSet.keys, E.same db t.sTableName k (r.text t.iPriKeyIndex.toNat) = true →
        k = r.text t.iPriKeyIndex.toNat) ∧
      (r.bInsert = true ∨ t.fieldNameList.length = 2))
    ⟨fun ⟨h1, h2, h3, h4, h5, h6⟩ => ⟨h1, h2, h3, h4, h5, h6⟩,
      fun ⟨h1, h2, h3, h4, h5, h6⟩ => ⟨h1, h2, h3, h4, h5, h6⟩⟩

theorem Readable.nulFree (h : t.Readable E db r) : t.NulFree r :=
  ⟨noNul_of_isName h.table.1, fun c hc => noNul_of_isName (h.columns c hc).1,
    fun f hf => (h.texts f hf).1⟩

theorem Readable.noQuote (h : t.Readable E db r) (hw : r.fieldList.length = t.fieldNameList.length)
    {i : Nat}
    (hi : i < t.fieldNameList.length) : 39 ∉ r.text i :=
  (plain_text hw (fun f hf => (h.texts f hf).2) hi).1

/-- Texts of the record, each under its column. -/
theorem Readable.takes_items (h : t.Readable E db r) (hcols : T.columns = t.fieldNameList)
    {items : List (Str × Str)} (hnames : (items.map (·.1)).Nodup)
    (hitems : ∀ i ∈ items, i.1 ∈ t.fieldNameList ∧ i.2 = r.text (t.fieldNameList.idxOf i.1)) :
    T.Takes E.reserved (E.takes db t.sTableName) items := by
  refine ⟨hnames, fun i hi => ?_, fun i hi => ?_⟩
  · obtain ⟨hc, -⟩ := hitems i hi
    exact ⟨hcols ▸ hc, h.columns i.1 hc⟩
  · obtain ⟨hc, htext⟩ := hitems i hi
    rw [htext]
    exact h.takes i.1 hc

/-- What an insert command writes. -/
def items (t : DBTable fp) (r : DBRecord) : List (Str × Str) := t.fieldNameList.zip (t.values r)

theorem items_names (t : DBTable fp) (r : DBRecord) : (t.items r).map (·.1) = t.fieldNameList := by
  unfold items
  rw [List.map_fst_zip (Nat.le_of_eq (length_values t r).symm)]

theorem items_values (t : DBTable fp) (r : DBRecord) : (t.items r).map (·.2) = t.values r := by
  unfold items
  rw [List.map_snd_zip (Nat.le_of_eq (length_values t r))]

theorem lookup_items {c : Str} (hc : c ∈ t.fieldNameList) :
    (t.items r).lookup c = some (r.text (t.fieldNameList.idxOf c)) := by
  unfold items
  rw [lookup_zip (length_values t r) hc, getD_values (List.idxOf_lt_length_of_mem hc)]

theorem mem_items (hd : t.fieldNameList.Nodup) {i : Str × Str} (hi : i ∈ t.items r) :
    i.1 ∈ t.fieldNameList ∧ i.2 = r.text (t.fieldNameList.idxOf i.1) := by
  have hc : i.1 ∈ t.fieldNameList := t.items_names r ▸ List.mem_map_of_mem hi
  have hlook := lookup_of_mem ((t.items_names r).symm ▸ hd) hi
  rw [lookup_items hc] at hlook
  exact ⟨hc, (Option.some.inj hlook).symm⟩

/-- The command of a new record is read as the insertion of its texts. -/
theorem read_insertCmd (h : SchemaOk t) (hw : r.fieldList.length = t.fieldNameList.length)
    (hr : t.Readable E db r)
    (hi : r.bInsert = true) : read E.reserved (cstr (t.cmdText r)) =
      some (.insert t.sTableName ((t.items r).map (·.1)) ((t.items r).map (·.2))) := by
  have hne : t.fieldNameList ≠ [] := List.ne_nil_of_mem (keyName_mem h)
  have hvalues : t.values r ≠ [] := by
    intro hnil
    have hlen := length_values t r
    rw [hnil] at hlen
    exact hne (List.length_eq_zero_iff.mp hlen.symm)
  have htext : t.cmdText r = (Stmt.insert t.sTableName t.fieldNameList (t.values r)).text := by
    rw [cmdText, if_pos hi, insertCmd_eq hw hr.nulFree hne]
  have hquotes : ∀ v ∈ t.values r, 39 ∉ v := by
    intro v hv
    obtain ⟨c, hc, rfl⟩ := List.mem_map.mp hv
    obtain ⟨-, hlt, -⟩ := List.mem_zipIdx hc
    exact hr.noQuote hw (by omega)
  rw [cstr_eq_self.mpr (noNul_cmdText t r), htext, items_names, items_values]
  exact read_insert hr.table.1 hne (fun c hc => (hr.columns c hc).1) hvalues hquotes

/-- What an update command assigns. -/
def sets (t : DBTable fp) (r : DBRecord) : List (Str × Str) := t.nonKey.map fun c => (c.1, r.text c.2)

theorem mem_sets (h : SchemaOk t) (hd : t.fieldNameList.Nodup) {i : Str × Str} (hi : i ∈ t.sets r) :
    i.1 ∈ t.fieldNameList ∧ i.1 ≠ t.keyName ∧ i.2 = r.text (t.fieldNameList.idxOf i.1) := by
  obtain ⟨c, hc, rfl⟩ := List.mem_map.mp hi
  obtain ⟨hmem, hne⟩ := (nonKey_name h hd).mp (List.mem_map_of_mem hc)
  exact ⟨hmem, hne, by rw [(idxOf_nonKey hd hc).2]⟩

/-- The command of a record that is not new, with one column besides the key, is read as its update. -/
theorem read_modifyCmd (h : SchemaOk t) (hd : t.fieldNameList.Nodup)
    (hw : r.fieldList.length = t.fieldNameList.length) (hr : t.Readable E db r)
    (hi : ¬ r.bInsert = true) :
    ((t.sets r).map (·.1)).Nodup ∧ read E.reserved (cstr (t.cmdText r)) =
      some (.update t.sTableName (t.sets r) t.keyName (r.text t.iPriKeyIndex.toNat)) := by
  have hlen := length_nonKey h
  have hone := hr.one.resolve_left hi
  obtain ⟨c, hc⟩ : ∃ c, t.nonKey = [c] := List.length_eq_one_iff.mp (by omega)
  have hsets : t.sets r = [(c.1, r.text c.2)] := by rw [sets, hc, List.map_singleton]
  have htext : t.cmdText r =
      (Stmt.update t.sTableName (t.sets r) t.keyName (r.text t.iPriKeyIndex.toNat)).text := by
    rw [cmdText, if_neg hi]
    exact modifyCmd_eq h hw hr.nulFree hc
  rw [cstr_eq_self.mpr (noNul_cmdText t r), htext]
  constructor
  · rw [hsets]
    exact List.nodup_singleton _
  · refine read_update hr.table.1 (by rw [hsets]; exact List.cons_ne_nil _ _) (fun i hm => ?_)
      (fun i hm => ?_)
      (hr.columns _ (keyName_mem h)).1 (hr.noQuote hw h.keyHi)
    · exact (hr.columns _ (mem_sets h hd hm).1).1
    · obtain ⟨hmem, -, htext⟩ := mem_sets h hd hm
      rw [htext]
      exact hr.noQuote hw (List.idxOf_lt_length_of_mem hmem)

/-- The key field has the key. -/
theorem text_keyIndex (h : t.WellFormed) {k : Str} (hr : t.recordSet.lookup k = some r) :
    r.text t.iPriKeyIndex.toNat = k := by
  obtain ⟨hw, f, hf, rfl⟩ := h.agree k r hr
  have hlt : t.iPriKeyIndex.toNat < r.fieldList.length := by rw [hw]; exact h.schema.keyHi
  have hfield : vecAt r.fieldList t.iPriKeyIndex = .ok f := hf
  rw [vecAt_of_lt h.schema.keyLo hlt] at hfield
  rw [DBRecord.text, List.getD_eq_getElem _ _ hlt, Except.ok.inj hfield]

/-- The server has no row without a record. -/
theorem Mirrors.mem {done : List RecRef} (hm : t.Mirrors done T) {k : Str} (hk : k ∈ T.rows) :
    k ∈ t.recordSet.keys := by
  by_contra hnot
  have hfit := hm.fits k
  rw [AList.lookup_eq_none.mpr (mt AList.mem_keys.mp hnot)] at hfit
  exact AList.lookup_eq_none.mp hfit hk

/-- The key column has the key. -/
theorem text_keyColumn (h : t.WellFormed) (hd : t.fieldNameList.Nodup) {k : Str}
    (hr : t.recordSet.lookup k = some r) : r.text (t.fieldNameList.idxOf t.keyName) = k := by
  rw [idxOf_keyName h.schema hd, text_keyIndex h hr]

/-- No other row has a key that the server takes for the record's. -/
theorem Mirrors.apart (h : t.WellFormed) {done : List RecRef} (hm : t.Mirrors done T) {k : Str}
    (hr : t.recordSet.lookup k = some r) (hread : t.Readable E db r) :
    ∀ k' ∈ T.rows, E.same db t.sTableName k' k = true → k' = k := by
  intro k' hk' hsame
  have hkeyText := text_keyIndex h hr
  rw [← hkeyText] at hsame ⊢
  exact hread.apart k' (hm.mem hk') hsame

/-- The table is as before, with the record's row in it. -/
def RowWritten (t : DBTable fp) (E : Engine) (s s' : E.State) (db : Str) (T : Table) (k : Str)
    (r : DBRecord) : Prop :=
  ∃ T' row, E.tables s' = (E.tables s).put db t.sTableName T' ∧ T.Sets T' k row ∧
    ∀ c ∈ t.fieldNameList, (T'.cell k row c).getD [] = r.text (t.fieldNameList.idxOf c)

/-- The command of a new record puts its row in; if the row is there already, it is refused. -/
theorem exec_insertCmd (h : t.WellFormed) (hd : t.fieldNameList.Nodup) {done : List RecRef}
    (hm : t.Mirrors done T) {k : Str} (hr : t.recordSet.lookup k = some r)
    (hread : t.Readable E db r) (hT : E.tables s db t.sTableName = some T) (hi : r.bInsert = true) :
    t.RowWritten E s (E.exec s db (cstr (t.cmdText r))).1 db T k r := by
  have hkeyCol := text_keyColumn h hd hr
  have hfit := hm.fits k
  rw [hr, Option.map_some] at hfit
  have hcmd := read_insertCmd h.schema (h.width hr) hread hi
  have hitems := hread.takes_items hm.columns ((t.items_names r).symm ▸ hd) fun i hi => mem_items hd hi
  have hk : (t.items r).lookup T.key = some k := by
    rw [hm.key, lookup_items (keyName_mem h.schema), hkeyCol]
  by_cases hmem : k ∈ T.rows
  · -- the row is there, so this is not the first time
    obtain ⟨row, hrow⟩ := UMap.exists_lookup hmem
    refine ⟨T, row, ?_, ⟨rfl, rfl, hrow, fun _ _ => rfl⟩, ?_⟩
    · rw [(E.duplicate hcmd hread.table hT hitems hk hmem).2, Database.put_eq_self hT]
    · split at hfit
      · obtain ⟨row', hrow', htexts⟩ := (fits_old Bool.false_ne_true).mp hfit
        cases hrow.symm.trans hrow'
        exact htexts rfl
      · rw [fits_new hi, hrow] at hfit
        cases hfit
  · have hrest : ∀ c ∈ T.columns, c ∉ (t.items r).map (·.1) →
        E.optional db t.sTableName c = true := by
      intro c hc hnot
      rw [items_names, ← hm.columns] at hnot
      exact absurd hc hnot
    have hnew : ∀ k' ∈ T.rows, E.same db t.sTableName k' k = false := by
      intro k' hk'
      refine Bool.eq_false_iff.mpr fun hsame => hmem ?_
      rw [← hm.apart h hr hread k' hk' hsame]
      exact hk'
    obtain ⟨-, T', htables, hsets⟩ := E.insert hcmd hread.table hT hitems hrest hk hnew
    refine ⟨T', _, htables, hsets, fun c hc => ?_⟩
    unfold Table.cell
    rw [hsets.key, hm.key]
    split
    · next hck => rw [Option.getD_some, hck, hkeyCol]
    · dsimp only
      rw [lookup_items hc, Option.getD_some]

/-- The command of a modified record sets the texts of its row. -/
theorem exec_modifyCmd (h : t.WellFormed) (hd : t.fieldNameList.Nodup) {done : List RecRef}
    (hm : t.Mirrors done T) {k : Str} (hr : t.recordSet.lookup k = some r)
    (hread : t.Readable E db r) (hT : E.tables s db t.sTableName = some T) (hi : r.bInsert ≠ true) :
    t.RowWritten E s (E.exec s db (cstr (t.cmdText r))).1 db T k r := by
  have hkeyCol := text_keyColumn h hd hr
  have hfit := hm.fits k
  rw [hr, Option.map_some] at hfit
  obtain ⟨hnames, hcmd⟩ := read_modifyCmd h.schema hd (h.width hr) hread hi
  rw [text_keyIndex h hr, ← hm.key] at hcmd
  obtain ⟨row, hrow⟩ : ∃ row, T.rows.lookup k = some row := by
    split at hfit
    · exact hfit.row Bool.false_ne_true
    · exact hfit.row hi
  have hsets := hread.takes_items hm.columns hnames fun i hi => ⟨(mem_sets h.schema hd hi).1,
    (mem_sets h.schema hd hi).2.2⟩
  have hother : ∀ i ∈ t.sets r, i.1 ≠ T.key := fun i hi => hm.key ▸ (mem_sets h.schema hd hi).2.1
  have hident : IsIdentifier E.reserved T.key := hm.key ▸ hread.columns _ (keyName_mem h.schema)
  have htakes : E.takes db t.sTableName T.key k = true := by
    rw [hm.key, ← hkeyCol]
    exact hread.takes _ (keyName_mem h.schema)
  obtain ⟨-, T', htables, hrowSet⟩ := E.update hcmd hread.table hT hsets hother hident htakes hrow
    (hm.apart h hr hread)
  refine ⟨T', _, htables, hrowSet, fun c hc => ?_⟩
  unfold Table.cell
  rw [hrowSet.key, hm.key]
  split
  · next hck => rw [Option.getD_some, hck, hkeyCol]
  · next hck =>
    have hlook : (t.sets r).lookup c = some (r.text (t.fieldNameList.idxOf c)) := by
      unfold sets
      rw [lookup_nonKey h.schema hd r.text c, if_pos ⟨hc, hck⟩]
    dsimp only
    rw [hlook]
    rfl

/-- **One command.**  Whether it is the first time or not, after the command of a record its row is there
with its texts, and nothing else is touched. -/
theorem exec_cmdText (h : t.WellFormed) (hd : t.fieldNameList.Nodup) {done : List RecRef}
    (hm : t.Mirrors done T) {k : Str} (hr : t.recordSet.lookup k = some r)
    (hread : t.Readable E db r) (hT : E.tables s db t.sTableName = some T) :
    t.RowWritten E s (E.exec s db (cstr (t.cmdText r))).1 db T k r := by
  by_cases hi : r.bInsert = true
  · exact exec_insertCmd h hd hm hr hread hT hi
  · exact exec_modifyCmd h hd hm hr hread hT hi

/-- A table that has the record's row, and all else as before. -/
theorem Mirrors.written {done : List RecRef} (hm : t.Mirrors done T) {k : Str}
    (hr : t.recordSet.lookup k = some r) {T' : Table} {row : NullRow} (hsets : T.Sets T' k row)
    (htexts : ∀ c ∈ t.fieldNameList, (T'.cell k row c).getD [] = r.text (t.fieldNameList.idxOf c)) :
    t.Mirrors (done ++ [(t.sTableName, k)]) T' := by
  refine ⟨hsets.columns.trans hm.columns, hsets.key.trans hm.key, fun k' => ?_⟩
  by_cases hk : k' = k
  · subst hk
    rw [hr, Option.map_some, if_pos (List.mem_append_right done List.mem_cons_self)]
    exact fits_cleared hsets.self htexts
  · have hiff : (t.sTableName, k') ∈ done ++ [(t.sTableName, k)] ↔ (t.sTableName, k') ∈ done := by
      rw [List.mem_append, List.mem_singleton, Prod.mk.injEq, or_iff_left fun h => hk h.2]
    simp only [hiff]
    exact (hm.fits k').of_row hsets.key (hsets.other k' hk)

end Commands

end DBTable

/-! ## Passes -/

namespace DBManager

variable {fp : FloatUnit}

/-- Each cached table is mirrored by the table of its name in its database; the records `done` count as
written. -/
def KeptBut (m : DBManager fp) (done : List RecRef) (D : Database) : Prop :=
  ∀ tname t, m.tableSet.lookup tname = some t →
    t.sTableName = tname ∧ NoNul tname ∧ ∃ T, D (cstr t.sDBName) tname = some T ∧ t.Mirrors done T

/-- The server after the commands of a pass. -/
def served (E : Engine) (s : E.State) (trace : List CmdRun) : E.State :=
  trace.foldl (fun s run => (E.exec s run.db (cstr run.text)).1) s

/-- What a pass writes can be run by the server, and belongs to the selected database. -/
def Writable (E : Engine) (m : DBManager fp) (dt : fp.Flt) : Prop :=
  ∀ e ∈ m.tableSet.entries, m.isDue e.2 dt = true → ∀ e' ∈ e.2.recordSet.entries, e'.2.pending = true →
    cstr e.2.sDBName = m.pDBLink.selected ∧ e.2.Readable E m.pDBLink.selected e'.2

instance (E : Engine) (m : DBManager fp) (dt : fp.Flt) : Decidable (Writable E m dt) :=
  inferInstanceAs (Decidable (∀ e ∈ m.tableSet.entries, _))

section Pass

variable {E : Engine} {m : DBManager fp} {dt : fp.Flt} {s : E.State}

/-- One command of a pass. -/
theorem kept_run (h : m.WellFormed)
    (hd : ∀ tname t, m.tableSet.lookup tname = some t → t.fieldNameList.Nodup)
    (hwrite : m.Writable E dt) {done : List RecRef} (hk : m.KeptBut done (E.tables s)) {run : CmdRun}
    (hdb : run.db = m.pDBLink.selected) (hcmd : m.commandOf dt run.ref = some run.text) :
    m.KeptBut (done ++ [run.ref]) (E.tables (E.exec s run.db (cstr run.text)).1) := by
  obtain ⟨t, r, ht, hdue, hr, hp, htext⟩ := text_of_commandOf hcmd
  obtain ⟨hselected, hread⟩ :=
    hwrite ⟨_, t⟩ (UMap.mem_entries.mpr ht) hdue ⟨_, r⟩ (UMap.mem_entries.mpr hr) hp
  obtain ⟨hname, hnul, T, hT, hm⟩ := hk _ t ht
  obtain ⟨⟨tname, k⟩, text, db, ok⟩ := run
  dsimp only at hname ht hr hdb htext hT hselected hread ⊢
  subst hname htext
  rw [← hselected] at hdb hread
  subst hdb
  obtain ⟨T', row, htables, hsets, htexts⟩ := DBTable.exec_cmdText (h _ t ht) (hd _ t ht) hm hr hread hT
  intro tname u hu
  rw [htables]
  by_cases he : tname = t.sTableName
  · subst he
    cases ht.symm.trans hu
    exact ⟨rfl, hnul, T', Database.put_self _ _ _ _, hm.written hr hsets htexts⟩
  · obtain ⟨hname, hnul, U, hU, hmu⟩ := hk tname u hu
    refine ⟨hname, hnul, U, (Database.put_other _ _ he).trans hU, hmu.columns, hmu.key, fun k' => ?_⟩
    have hiff : (u.sTableName, k') ∈ done ++ [(t.sTableName, k)] ↔ (u.sTableName, k') ∈ done := by
      rw [List.mem_append, List.mem_singleton, Prod.mk.injEq, or_iff_left]
      rintro ⟨h', -⟩
      exact he (hname.symm.trans h')
    simp only [hiff]
    exact hmu.fits k'

/-- The commands of a pass, one after the other. -/
theorem kept_trace (h : m.WellFormed)
    (hd : ∀ tname t, m.tableSet.lookup tname = some t → t.fieldNameList.Nodup)
    (hwrite : m.Writable E dt) {trace : List CmdRun}
    (htrace : ∀ run ∈ trace, run.db = m.pDBLink.selected ∧ m.commandOf dt run.ref = some run.text)
    {done : List RecRef} (hk : m.KeptBut done (E.tables s)) :
    m.KeptBut (done ++ trace.map (·.ref)) (E.tables (served E s trace)) := by
  induction trace generalizing done s with
  | nil =>
    rw [List.map_nil, List.append_nil]
    exact hk
  | cons run trace ih =>
    obtain ⟨hdb, hcmd⟩ := htrace run List.mem_cons_self
    have hrest := ih (fun run' hrun => htrace run' (List.mem_cons_of_mem _ hrun))
      (kept_run h hd hwrite hk hdb hcmd)
    rw [List.append_assoc] at hrest
    exact hrest

/-- The commands of a pass are those of due records, on the database selected. -/
theorem update_runs (h : m.WellFormed) {ord : HashOrder} {answer : Str → RecRef → Bool}
    {m' : DBManager fp} {trace : List CmdRun} (hs : m.update ord answer dt = .ok (m', trace)) :
    ∀ run ∈ trace, run.db = m.pDBLink.selected ∧ m.commandOf dt run.ref = some run.text := by
  obtain ⟨s, hok, inv⟩ := update_spec h ord answer dt
  cases hok.symm.trans hs
  intro run hrun
  refine ⟨inv.db run hrun, ?_⟩
  have hmem : (run.text, run.ok) ∈ runsOf s.trace run.ref := mem_runsOf.mpr ⟨run, hrun, rfl, rfl, rfl⟩
  rw [inv.runs run.ref, expectedRuns] at hmem
  split at hmem
  · next text htext =>
    obtain ⟨_, -, hpair⟩ := List.mem_map.mp hmem
    rw [htext, (Prod.mk.inj hpair).1]
  · cases hmem

/-- A pass takes each table through its turn. -/
theorem after_update (h : m.WellFormed) {ord : HashOrder} {answer : Str → RecRef → Bool}
    {m' : DBManager fp} {trace : List CmdRun} (hs : m.update ord answer dt = .ok (m', trace))
    {tname : Str} {t' : DBTable fp} (ht' : m'.tableSet.lookup tname = some t') :
    ∃ t, m.tableSet.lookup tname = some t ∧ m.After dt t t' := by
  obtain ⟨p, hok, inv⟩ := update_spec h ord answer dt
  cases hok.symm.trans hs
  by_cases hmem : tname ∈ ord.order m.tableSet.keys
  · obtain ⟨t, t1, h1, h2, hafter⟩ := inv.after tname hmem
    cases h2.symm.trans ht'
    exact ⟨t, h1, hafter⟩
  · rw [inv.before tname hmem] at ht'
    exact absurd (ord.mem_order.mpr (AList.mem_keys.mpr (UMap.mem_of_lookup ht'))) hmem

/-- A pass leaves nothing that is due behind. -/
theorem kept_update (h : m.WellFormed)
    (hd : ∀ tname t, m.tableSet.lookup tname = some t → t.fieldNameList.Nodup)
    (hwrite : m.Writable E dt) (hk : m.KeptBut [] (E.tables s)) {ord : HashOrder}
    {answer : Str → RecRef → Bool} {m' : DBManager fp} {trace : List CmdRun}
    (hs : m.update ord answer dt = .ok (m', trace)) :
    m'.KeptBut [] (E.tables (served E s trace)) := by
  have hkept := kept_trace h hd hwrite (update_runs h hs) hk
  rw [List.nil_append] at hkept
  obtain ⟨p, hok, inv⟩ := update_spec h ord answer dt
  cases hok.symm.trans hs
  have hran : ∀ ref, ref ∈ p.trace.map (·.ref) ↔ m.commandOf dt ref ≠ none := by
    intro ref
    rw [← exists_run_iff inv ref, List.mem_map]
  intro tname t' ht'
  obtain ⟨t, ht, hafter⟩ := after_update h hs ht'
  obtain ⟨hname, hnul, T, hT, hm⟩ := hkept tname t ht
  obtain ⟨⟨rs, hrest⟩, hrec⟩ := hafter
  have hfits : ∀ k, (t'.recordSet.lookup k).map
      (fun r => if (t'.sTableName, k) ∈ [] then r.cleared else r) =
      (t.recordSet.lookup k).map fun r => if (t.sTableName, k) ∈ p.trace.map (·.ref) then
          r.cleared else r := by
    intro k
    rw [hrec k, Option.map_map]
    apply Option.map_congr
    intro r hr
    have hmem := hran (t.sTableName, k)
    rw [hname] at hmem
    rw [Function.comp_apply, if_neg List.not_mem_nil, hname]
    by_cases hdue : m.isDue t dt = true
    · rw [if_pos hdue]
      by_cases hp : r.pending = true
      · rw [if_pos (hmem.mpr (by rw [commandOf_of_pending ht hdue hr hp]; exact Option.some_ne_none _))]
      · rw [DBRecord.cleared_of_not_pending (Bool.eq_false_iff.mpr hp), ite_self]
    · rw [if_neg hdue, if_neg fun hin => hmem.mp hin ?_]
      exact commandOf_of_not_due (by rw [isDueName_of_lookup ht]; exact Bool.eq_false_iff.mpr hdue)
  subst hrest
  refine ⟨hname, hnul, T, hT, hm.columns, hm.key, fun k => ?_⟩
  rw [hfits k]
  exact hm.fits k

end Pass

/-! ## Calls -/

section Calls

variable {m : DBManager fp} {D : Database}

theorem mirrors_nil {t : DBTable fp} {T : Table} : t.Mirrors [] T ↔
    T.columns = t.fieldNameList ∧ T.key = t.keyName ∧
      ∀ k, Fits T t.fieldNameList k (t.recordSet.lookup k) := by
  have hid : ∀ k, ((t.recordSet.lookup k).map fun r =>
    if (t.sTableName, k) ∈ ([] : List RecRef) then r.cleared else r) =
      t.recordSet.lookup k := by
    intro k
    simp
  constructor
  · rintro ⟨hcols, hkey, hfits⟩
    exact ⟨hcols, hkey, fun k => hid k ▸ hfits k⟩
  · rintro ⟨hcols, hkey, hfits⟩
    exact ⟨hcols, hkey, fun k => (hid k).symm ▸ hfits k⟩

/-- One table has other records, for which the rows fit as well. -/
theorem kept_put (hk : m.KeptBut [] D) {tname : Str} {t t' : DBTable fp}
    (ht : m.tableSet.lookup tname = some t) (hsame : t.SameSchema t')
    (hfits : ∀ (T : Table) (k : Str), (∀ k', Fits T t.fieldNameList k' (t.recordSet.lookup k')) →
      Fits T t.fieldNameList k (t'.recordSet.lookup k)) : (m.putTable tname t').KeptBut [] D := by
  intro tname' u hu
  by_cases he : tname' = tname
  · subst he
    rw [lookup_putTable_self ht] at hu
    cases hu
    obtain ⟨hname, hnul, T, hT, hm⟩ := hk tname' t ht
    obtain ⟨hcols, hkey, hall⟩ := mirrors_nil.mp hm
    refine ⟨hsame.tname.trans hname, hnul, T, hsame.dbname ▸ hT,
      mirrors_nil.mpr ⟨hcols.trans hsame.names.symm, ?_, fun k => ?_⟩⟩
    · rw [hkey]
      unfold DBTable.keyName
      rw [hsame.names, hsame.key]
    · rw [hsame.names]
      exact hfits T k hall
  · rw [lookup_putTable, if_neg he] at hu
    exact hk tname' u hu

theorem kept_insertDB (h : m.WellFormed) (hk : m.KeptBut [] D) {tname : Str} {d : UMap Str Str}
    {m' : DBManager fp} {k : Str} (hs : m.insertDB tname d = .ok (m', k)) : m'.KeptBut [] D := by
  rcases insertDB_cases h hs with ⟨rfl, -⟩ | ⟨t, ht, hr, -, rfl⟩
  · exact hk
  · refine kept_put hk ht (DBTable.addRecord_same t _ _) fun T k' hall => ?_
    have hnew : t.newKey d ∉ t.recordSet := fun hmem => hr (Or.inl hmem)
    rw [DBTable.addRecord_recordSet, UMap.lookup_insertNew]
    split
    · next hk' =>
      have hnone := hall (t.newKey d)
      rw [AList.lookup_eq_none.mpr hnew] at hnone
      rw [hk'.1]
      exact (fits_new rfl).mpr hnone
    · exact hall k'

/-- A record is changed and says so, or is what it was. -/
theorem bModify_foldl_assignNamed {t : DBTable fp} {l : List (Σ _ : Str, Str)} {r : DBRecord}
    (h : (l.foldl t.assignNamed r).bModify = false) : l.foldl t.assignNamed r = r := by
  have hi := DBTable.bInsert_foldl_assignNamed t l r
  induction l using List.reverseRecOn with
  | nil => rfl
  | append_singleton l e ih =>
    rw [List.foldl_append] at h ⊢
    have he : t.assignNamed (l.foldl t.assignNamed r) e = l.foldl t.assignNamed r := by
      change (t.assignNamed (l.foldl t.assignNamed r) e).bModify = false at h
      unfold DBTable.assignNamed at h ⊢
      split
      · next hne =>
        rw [if_pos hne] at h
        cases h
      · rfl
    change (t.assignNamed (l.foldl t.assignNamed r) e).bModify = false at h
    show t.assignNamed (l.foldl t.assignNamed r) e = r
    rw [he] at h ⊢
    exact ih h (DBTable.bInsert_foldl_assignNamed t l r)

theorem kept_modifyDB (h : m.WellFormed) (hk : m.KeptBut [] D) {tname k : Str} {d : UMap Str Str}
    {m' : DBManager fp} {ok : Bool} (hs : m.modifyDB tname k d = .ok (m', ok)) : m'.KeptBut [] D := by
  rcases modifyDB_cases h hs with ⟨rfl, -⟩ | ⟨t, r, ht, hr, -, -, rfl⟩
  · exact hk
  · refine kept_put hk ht (DBTable.putRecord_same t _ _) fun T k' hall => ?_
    rw [DBTable.lookup_putRecord]
    split
    · next hk' =>
      subst hk'
      have hfit := hall k'
      rw [hr] at hfit ⊢
      have hi := DBTable.bInsert_foldl_assignNamed t d.entries r
      by_cases hnew : r.bInsert = true
      · exact (fits_new (hi.trans hnew)).mpr ((fits_new hnew).mp hfit)
      · obtain ⟨row, hrow, htexts⟩ := (fits_old hnew).mp hfit
        refine (fits_old (by rw [hi]; exact hnew)).mpr ⟨row, hrow, fun hm => ?_⟩
        have hsame := bModify_foldl_assignNamed hm
        rw [hsame] at hm ⊢
        exact htexts hm
    · exact hall k'

/-! ## Loads -/

section Listing

variable {T : Table} {i : Int}

theorem rowKey_listed (hlt : i.toNat < T.columns.length) (hkey : T.columns.getD i.toNat [] = T.key)
    (k : Str)
    (row : NullRow) : rowKey i (T.columns.map (T.cell k row)) = k := by
  rw [List.getD_eq_getElem _ _ hlt] at hkey
  unfold rowKey Table.cell
  rw [List.getD_eq_getElem?_getD, List.getElem?_map, List.getElem?_eq_getElem hlt, Option.map_some,
    if_pos hkey]
  rfl

theorem map_rowKey_listing (hlt : i.toNat < T.columns.length)
    (hkey : T.columns.getD i.toNat [] = T.key) :
    T.listing.map (rowKey i) = T.rows.keys := by
  unfold Table.listing
  rw [List.map_map]
  exact List.map_congr_left fun e _ => rowKey_listed hlt hkey e.1 e.2

/-- What is listed has keys, and no two the same, unless a row is under the empty key. -/
theorem keyedRows_listing {rows : List (List (Option Str))} (hrows : rows.Perm T.listing)
    (hlt : i.toNat < T.columns.length) (hkey : T.columns.getD i.toNat [] = T.key)
    (hempty : [] ∉ T.rows) :
    DBTable.KeyedRows i rows := by
  have hkeys : (rows.map (rowKey i)).Perm T.rows.keys :=
    map_rowKey_listing hlt hkey ▸ hrows.map (rowKey i)
  refine ⟨fun row hrow hnil => hempty ?_, hkeys.nodup_iff.mpr T.rows.keys_nodup⟩
  exact AList.mem_keys.mpr (hkeys.mem_iff.mp (hnil ▸ List.mem_map_of_mem hrow))

/-- The row under a key, in what a select of the table lists. -/
theorem find_listing {rows : List (List (Option Str))} (hrows : rows.Perm T.listing)
    (hlt : i.toNat < T.columns.length) (hkey : T.columns.getD i.toNat [] = T.key) (k : Str) :
    rows.find? (fun row => rowKey i row = k) = (T.rows.lookup k).map fun row =>
      T.columns.map (T.cell k row) := by
  have hmem : ∀ w, w ∈ rows ↔ ∃ k row, T.rows.lookup k = some row ∧
      T.columns.map (T.cell k row) = w := by
    intro w
    rw [hrows.mem_iff]
    unfold Table.listing
    rw [List.mem_map]
    constructor
    · rintro ⟨e, he, rfl⟩
      exact ⟨e.1, e.2, UMap.mem_entries.mp he, rfl⟩
    · rintro ⟨k, row, hrow, rfl⟩
      exact ⟨⟨k, row⟩, UMap.mem_entries.mpr hrow, rfl⟩
  cases hfind : rows.find? fun row => rowKey i row = k with
  | none =>
    rw [List.find?_eq_none] at hfind
    cases hrow : T.rows.lookup k with
    | none => rfl
    | some row =>
      have hin := hfind _ ((hmem _).mpr ⟨k, row, hrow, rfl⟩)
      rw [rowKey_listed hlt hkey k row] at hin
      exact absurd (decide_eq_true rfl) hin
  | some w =>
    obtain ⟨k', row, hrow, rfl⟩ := (hmem w).mp (List.mem_of_find?_eq_some hfind)
    have hk := List.find?_some hfind
    rw [decide_eq_true_eq, rowKey_listed hlt hkey k' row] at hk
    subst hk
    rw [hrow]
    rfl

end Listing

/-- The record of a listed row fits it. -/
theorem fits_rowRecord {fields : List MysqlField} {T : Table}
    (hcols : T.columns = (checkFieldInfo fields).1) {k : Str} {row : NullRow}
    (hrow : T.rows.lookup k = some row) :
    Fits T (checkFieldInfo fields).1 k (some (rowRecord fields (T.columns.map (T.cell k row)))) := by
  refine (fits_old Bool.false_ne_true).mpr ⟨row, hrow, fun _ c hc => ?_⟩
  have hwidth : (T.columns.map (T.cell k row)).length = fields.length := by
    rw [List.length_map, hcols, (length_checkFieldInfo fields).1]
  have htext : (rowRecord fields (T.columns.map (T.cell k row))).text
      ((checkFieldInfo fields).1.idxOf c) =
      ((T.columns.map (T.cell k row)).getD ((checkFieldInfo fields).1.idxOf c) none).getD [] :=
    DBTable.rowOf_rowRecord hwidth ⟨c, hc⟩
  have hin : T.columns.idxOf c < T.columns.length := List.idxOf_lt_length_of_mem (hcols ▸ hc)
  rw [htext, ← hcols, List.getD_eq_getElem?_getD, List.getElem?_map, List.getElem?_eq_getElem hin,
    Option.map_some,
    Option.getD_some, List.getElem_idxOf]

/-- A new table that has taken in what a select lists is mirrored. -/
theorem mirrors_loaded {res : MysqlRes} {t : DBTable fp} {T : Table}
    (hkey : 0 ≤ (checkFieldInfo res.fields).2.2)
    (hrows : checkToTable res.fields res.rows (DBTable.new (checkFieldInfo res.fields).1
      (checkFieldInfo res.fields).2.1 (checkFieldInfo res.fields).2.2 : DBTable fp) = .ok (some t))
    (hcols : T.columns = (checkFieldInfo res.fields).1)
    (hkeyed : T.key = (checkFieldInfo res.fields).1.getD (checkFieldInfo res.fields).2.2.toNat [])
    (hperm : res.rows.Perm T.listing) (tname dbname : Str) :
    DBTable.Mirrors { t with sTableName := tname, sDBName := dbname } [] T := by
  have hnew := new_checkFieldInfo fp hkey
  obtain ⟨o, ho, hgrown⟩ := DBTable.checkToTable_grown res.rows res.width _ hnew.schema
    (length_checkFieldInfo res.fields).1.symm
  obtain rfl : o = some t := Except.ok.inj (ho.symm.trans hrows)
  have hsame := (hgrown t rfl).same
  obtain ⟨-, -, -, hlook⟩ := DBTable.checkToTable_rows res.width hrows
  have hlt : (checkFieldInfo res.fields).2.2.toNat < T.columns.length := by
    rw [hcols]
    exact hnew.schema.keyHi
  have hrec : ∀ k, t.recordSet.lookup k = (T.rows.lookup k).map fun row =>
      rowRecord res.fields (T.columns.map (T.cell k row)) := by
    intro k
    have hfind := find_listing hperm hlt (hcols ▸ hkeyed.symm) k
    rw [hlook k]
    show ((∅ : UMap Str DBRecord).lookup k).or ((res.rows.find? fun row =>
      rowKey (checkFieldInfo res.fields).2.2 row = k).map _) = _
    rw [AList.lookup_empty, Option.none_or, hfind, Option.map_map]
    rfl
  refine mirrors_nil.mpr ⟨hcols.trans hsame.names.symm, ?_, fun k => ?_⟩
  · rw [hkeyed]
    show _ = t.fieldNameList.getD t.iPriKeyIndex.toNat []
    rw [hsame.names, hsame.key]
    rfl
  · show Fits T t.fieldNameList k (t.recordSet.lookup k)
    rw [hrec, hsame.names]
    cases hrow : T.rows.lookup k with
    | none => exact hrow
    | some row => exact fits_rowRecord hcols hrow

/-- The answers of a load tell what the server has of the table in the database entered. -/
def Tells (m : DBManager fp) (D : Database) (dbname tname : Str) (reply : LoadReply) : Prop :=
  dbname = [] ∨ reply.useOk = true → ∀ fields ∈ reply.info, ∀ res ∈ reply.select,
    ∃ T ∈ D (m.enterDB dbname reply.useOk).1.pDBLink.selected (cstr tname),
      T.columns = (checkFieldInfo fields).1 ∧ 0 ≤ (checkFieldInfo fields).2.2 ∧
      T.key = (checkFieldInfo fields).1.getD (checkFieldInfo fields).2.2.toNat [] ∧
        res.rows.Perm T.listing

instance (m : DBManager fp) (D : Database) (dbname tname : Str) (reply : LoadReply) :
    Decidable (m.Tells D dbname tname reply) :=
  inferInstanceAs (Decidable (_ → ∀ fields ∈ reply.info, ∀ res ∈ reply.select, ∃ T ∈ _, _))

theorem kept_loadTable (hsel : m.Selected) (hk : m.KeptBut [] D) {dbname tname : Str} {reply : LoadReply}
    (hc : reply.Consistent) (hn : NoNul tname) (htells : m.Tells D dbname tname reply)
    {m' : DBManager fp} {b : Bool}
    (hs : m.loadTable dbname tname reply = .ok (m', b)) : m'.KeptBut [] D := by
  have hset := enterDB_tableSet m dbname reply.useOk
  have hentered := selected_enterDB hsel dbname reply.useOk
  rcases loadTable_exits hs with ⟨-, rfl | rfl⟩ | ⟨fields, res, t, -, -, hin, hinfo, -, hselect,
    hrows, rfl⟩
  · exact hk
  · intro tname' t ht
    rw [hset] at ht
    exact hk tname' t ht
  · obtain rfl := hc fields hinfo res hselect
    obtain ⟨T, hT, hcols, hkey, hkeyed, hperm⟩ :=
      htells ((enterDB_snd m dbname reply.useOk).mp hin) _ hinfo res hselect
    intro tname' u hu
    change (UMap.insertNew tname _ (m.enterDB dbname reply.useOk).1.tableSet).lookup tname' =
      some u at hu
    rw [UMap.lookup_insertNew] at hu
    split at hu
    case isFalse =>
      rw [hset] at hu
      exact hk tname' u hu
    case isTrue hname =>
      obtain ⟨rfl, -⟩ := hname
      cases hu
      rw [hentered, cstr_eq_self.mpr hn] at hT
      exact ⟨rfl, hn, T, hT, mirrors_loaded hkey hrows hcols hkeyed hperm _ _⟩

end Calls

end DBManager

/-! ## Runs -/

/-- The manager and the server. -/
structure System (fp : FloatUnit) (E : Engine) where
  mgr : DBManager fp
  db : E.State

namespace System

open DBManager

variable {fp : FloatUnit} {E : Engine}

/-- A call on the manager; the commands of a pass run on the server, whatever the manager hears of
them. -/
def step (s : System fp E) : ManagerCall fp → Option (System fp E)
  | .update ord answer dt =>
    match s.mgr.update ord answer dt with
    | .ok (m', trace) => some ⟨m', served E s.db trace⟩
    | .error _ => none
  | c => (s.mgr.manage c).map fun p => ⟨p.1, s.db⟩

/-- What is asked of a call: it is orderly, a load is told what the server has, and the server can run
what a pass writes. -/
def Ready (s : System fp E) (c : ManagerCall fp) : Prop :=
  s.mgr.Orderly c ∧
    match c with
    | .load dbname tname reply => NoNul tname ∧ s.mgr.Tells (E.tables s.db) dbname tname reply
    | .update _ _ dt => s.mgr.Writable E dt
    | _ => True

instance (s : System fp E) (c : ManagerCall fp) : Decidable (Ready s c) :=
  match c with
  | .load dbname tname reply => inferInstanceAs (Decidable (s.mgr.Orderly (.load dbname tname reply) ∧
      NoNul tname ∧ s.mgr.Tells (E.tables s.db) dbname tname reply))
  | .insert tname d => inferInstanceAs (Decidable (s.mgr.Orderly (.insert tname d) ∧ True))
  | .modify tname k d => inferInstanceAs (Decidable (s.mgr.Orderly (.modify tname k d) ∧ True))
  | .query ord tname fieldName b =>
    inferInstanceAs (Decidable (s.mgr.Orderly (.query ord tname fieldName b) ∧ True))
  | .update ord answer dt => inferInstanceAs (Decidable (s.mgr.Orderly (.update ord answer dt) ∧
      s.mgr.Writable E dt))
  | .close => inferInstanceAs (Decidable (s.mgr.Orderly .close ∧ True))

/-- The cache is a cache: its tables are tables of a store, the server mirrors them, and the database
selected is the one entered last. -/
structure Sound (s : System fp E) : Prop where
  stores : ∃ S, s.mgr.Stores S
  selected : s.mgr.Selected
  kept : s.mgr.KeptBut [] (E.tables s.db)

/-- A table of the cache is well formed, its columns differ, and no record is under the empty key. -/
theorem Sound.loaded {s : System fp E} (h : s.Sound) {tname : Str} {t : DBTable fp}
    (ht : s.mgr.tableSet.lookup tname = some t) :
    t.WellFormed ∧ t.fieldNameList.Nodup ∧ [] ∉ t.recordSet := by
  obtain ⟨S, hS⟩ := h.stores
  cases hs : S tname with
  | none =>
    rw [hS.lookup_eq_none hs] at ht
    cases ht
  | some sheet =>
    have hl := (hS.present tname t sheet ht hs).loaded
    refine ⟨hl.toWellFormed, ?_, hl.rows⟩
    rw [hl.columns]
    exact hl.distinct

/-- A call that changes only rows leaves the link. -/
theorem selected_manage {m m' : DBManager fp} (hw : m.WellFormed) (h : m.Selected) {c : ManagerCall fp}
    {r : KeyedStore.Reply Str Str} (hs : m.manage c = some (m', r)) : m'.Selected := by
  cases c with
  | load dbname tname reply =>
    obtain ⟨ok, hr, -⟩ := manage_load hs
    rcases loadTable_exits hr with ⟨-, rfl | rfl⟩ | ⟨fields, res, t, -, -, -, -, -, -, -, rfl⟩
    · exact h
    · exact selected_enterDB h dbname reply.useOk
    · exact selected_enterDB h dbname reply.useOk
  | insert tname d =>
    obtain ⟨k, hr, -⟩ := manage_insert hs
    rcases insertDB_cases hw hr with ⟨rfl, -⟩ | ⟨t, -, -, -, rfl⟩
    · exact h
    · exact h
  | modify tname k d =>
    obtain ⟨ok, hr, -⟩ := manage_modify hs
    rcases modifyDB_cases hw hr with ⟨rfl, -⟩ | ⟨t, r, -, -, -, -, rfl⟩
    · exact h
    · exact h
  | query ord tname fieldName b =>
    obtain ⟨ok, rows, names, -, rfl, -⟩ := manage_query hs
    exact h
  | update ord answer dt =>
    obtain ⟨trace, hr, -⟩ := manage_update hs
    obtain ⟨s, hok, inv⟩ := update_spec hw ord answer dt
    cases hok.symm.trans hr
    show s.mgr.pDBLink.selected = cstr s.mgr.sCurrentDB
    rw [inv.link, inv.current]
    exact h
  | close =>
    cases hs
    exact h

/-- A call other than a pass leaves what is kept. -/
theorem kept_manage {s : System fp E} (h : s.Sound) {c : ManagerCall fp} (hready : Ready s c)
    (hc : ∀ ord answer dt, c ≠ .update ord answer dt) {m' : DBManager fp} {r : KeyedStore.Reply Str Str}
    (hs : s.mgr.manage c = some (m', r)) : m'.KeptBut [] (E.tables s.db) := by
  obtain ⟨S, hS⟩ := h.stores
  cases c with
  | load dbname tname reply =>
    obtain ⟨⟨-, hserv⟩, hn, htells⟩ := hready
    obtain ⟨ok, hr, -⟩ := manage_load hs
    exact kept_loadTable h.selected h.kept hserv.consistent hn htells hr
  | insert tname d =>
    obtain ⟨k, hr, -⟩ := manage_insert hs
    exact kept_insertDB hS.wellFormed h.kept hr
  | modify tname k d =>
    obtain ⟨ok, hr, -⟩ := manage_modify hs
    exact kept_modifyDB hS.wellFormed h.kept hr
  | query ord tname fieldName b =>
    obtain ⟨ok, rows, names, -, rfl, -⟩ := manage_query hs
    exact h.kept
  | update ord answer dt => exact absurd rfl (hc ord answer dt)
  | close =>
    cases hs
    exact h.kept

/-- A call that is ready goes through and keeps the cache one. -/
theorem sound_step {s : System fp E} (h : s.Sound) {c : ManagerCall fp} (hready : Ready s c) :
    ∃ s', step s c = some s' ∧ s'.Sound := by
  obtain ⟨S, hS⟩ := h.stores
  obtain ⟨m', r, S', hrun, -, hS'⟩ := refines_call hS hready.1
  have hsel := selected_manage hS.wellFormed h.selected hrun
  have other : (∀ ord answer dt, c ≠ .update ord answer dt) →
      step s c = (s.mgr.manage c).map (fun p => ⟨p.1, s.db⟩) →
      ∃ s', step s c = some s' ∧ s'.Sound := by
    intro hc hstep
    rw [hrun] at hstep
    exact ⟨⟨m', s.db⟩, hstep, ⟨S', hS'⟩, hsel, kept_manage h hready hc hrun⟩
  cases c with
  | update ord answer dt =>
    obtain ⟨trace, hup, -⟩ := manage_update hrun
    refine ⟨⟨m', served E s.db trace⟩, ?_, ⟨S', hS'⟩, hsel, ?_⟩
    · unfold step
      dsimp only
      rw [hup]
    · exact kept_update hS.wellFormed (fun _ _ ht => (h.loaded ht).2.1) hready.2 h.kept hup
  | load dbname tname reply => exact other nofun rfl
  | insert tname d => exact other nofun rfl
  | modify tname k d => exact other nofun rfl
  | query ord tname fieldName b => exact other nofun rfl
  | close => exact other nofun rfl

theorem sound_createLink (dbname : Str) (server : E.State) :
    Sound (⟨createLink dbname, server⟩ : System fp E) := by
  refine ⟨⟨_, stores_createLink dbname⟩, ?_, fun tname t ht => ?_⟩
  · show cstr dbname = cstr (cstr dbname)
    rw [cstr_cstr]
  · cases ht

/-- **The cache is backed.**  Along every run of calls that are ready, whatever is on the server at the
start, each cached table is mirrored: the server has a row for exactly the records that are not new, with
the record's texts unless the record waits to be written. -/
theorem cache_kept (dbname : Str) (server : E.State) (calls : List (ManagerCall fp))
    (hok : Within step Ready (⟨createLink dbname, server⟩ : System fp E) calls) :
    ∃ s' : System fp E, run step ⟨createLink dbname, server⟩ calls = some s' ∧ s'.Sound :=
  run_of_within (fun _ _ h hready => sound_step h hready) calls _ (sound_createLink dbname server) hok

/-- One table of one row. -/
def oneRowDatabase : Database :=
  Database.put (fun _ _ => none) (lit "db") (lit "t")
    { columns := [lit "id",
      lit "name"], key := lit "id", rows := UMap.insertNew (lit "1") (fun _ => none) ∅ }

/-- A new manager, and a server of texts with that table. -/
def oneRowSystem : System .exactRational (.ofTables []) := ⟨createLink (lit "db"), oneRowDatabase⟩

/-- The table is loaded, a row goes in, the row that was there is changed, and both are written. -/
def writtenCalls : List (ManagerCall .exactRational) :=
  [.load [] (lit "t") rowReply, .insert (lit "t") (UMap.insertNew (lit "name") (lit "x") ∅),
    .modify (lit "t") (lit "1") (UMap.insertNew (lit "name") (lit "y") ∅),
    .update .plain (fun _ _ => true) (10 : ℚ), .insert (lit "t") ∅]

theorem cache_kept_oneRow : ∃ s', run step oneRowSystem writtenCalls = some s' ∧ s'.Sound :=
  cache_kept (E := .ofTables []) (lit "db") oneRowDatabase writtenCalls (by decide +kernel)

end System

end FuServer
