import FuServer.Lib.SqlTables

/-!
# Servers of SQL

What a program may count on when it writes rows with `insert` and `update`.
A server is its state, the tables seen in it and the way it runs a text; its
types, its comparison of keys and its defaults are its own (`Engine`), and so is
the order of the rows that it brings (`QueryEngine`).  One that has only texts and
compares them byte by byte is `QueryEngine.ofTables`.
-/

namespace SqlTables

open Bytes SqlText SqlToken SqlWhere

/-- One row of the table is another, and the rest is as it was. -/
structure Table.Sets (T T' : Table) (k : Str) (row : NullRow) : Prop where
  columns : T'.columns = T.columns
  key : T'.key = T.key
  self : T'.rows.lookup k = some row
  other : ∀ k' ≠ k, T'.rows.lookup k' = T.rows.lookup k'

/-- Values for different columns of a table, each of which its column takes. -/
structure Table.Takes (reserved : List Str) (takes : Str → Str → Bool) (T : Table)
    (items : List (Str × Str)) : Prop where
  names : (items.map (·.1)).Nodup
  columns : ∀ i ∈ items, i.1 ∈ T.columns ∧ IsIdentifier reserved i.1
  values : ∀ i ∈ items, takes i.1 i.2 = true

/-- A server.  Its `tables` are those with a key of one column, which it fills, checks and
changes only as a statement says: they have no other unique keys or constraints, no
triggers and no columns that it sets by itself.  `takes` says that a column takes a text that
is put between quotes as it is, gives it back and finds it; `same` is how keys compare;
`optional` are the columns that an insertion need not name, and that are NULL then. -/
structure Engine where
  State : Type
  reserved : List Str
  tables : State → Database
  takes (db table column text : Str) : Bool
  same (db table k k' : Str) : Bool
  optional (db table column : Str) : Bool
  /-- Run a text on the selected database. -/
  exec (s : State) (db text : Str) : State × Bool
  /-- A row whose key is not there goes in. -/
  insert {s : State} {db text table k : Str} {items : List (Str × Str)} {T : Table}
    (hread : read reserved text = some (.insert table (items.map (·.1)) (items.map (·.2))))
    (htable : IsIdentifier reserved table) (hT : tables s db table = some T)
    (hitems : T.Takes reserved (takes db table) items)
    (hrest : ∀ c ∈ T.columns, c ∉ items.map (·.1) → optional db table c = true)
    (hk : items.lookup T.key = some k) (hnew : ∀ k' ∈ T.rows, same db table k' k = false) :
    (exec s db text).2 = true ∧
      ∃ T', tables (exec s db text).1 = (tables s).put db table T' ∧ T.Sets T' k fun c => items.lookup c
  /-- A row whose key is there is refused. -/
  duplicate {s : State} {db text table k : Str} {items : List (Str × Str)} {T : Table}
    (hread : read reserved text = some (.insert table (items.map (·.1)) (items.map (·.2))))
    (htable : IsIdentifier reserved table) (hT : tables s db table = some T)
    (hitems : T.Takes reserved (takes db table) items) (hk : items.lookup T.key = some k)
    (hmem : k ∈ T.rows) :
    (exec s db text).2 = false ∧ tables (exec s db text).1 = tables s
  /-- The row under a key that no other key is taken for is changed. -/
  update {s : State} {db text table k : Str} {sets : List (Str × Str)} {T : Table} {row : NullRow}
    (hread : read reserved text = some (.update table sets T.key k))
    (htable : IsIdentifier reserved table) (hT : tables s db table = some T)
    (hsets : T.Takes reserved (takes db table) sets) (hkey : ∀ i ∈ sets, i.1 ≠ T.key)
    (hname : IsIdentifier reserved T.key) (hk : takes db table T.key k = true)
    (hrow : T.rows.lookup k = some row) (hapart : ∀ k' ∈ T.rows, same db table k' k = true → k' = k) :
    (exec s db text).2 = true ∧
      ∃ T', tables (exec s db text).1 = (tables s).put db table T' ∧
        T.Sets T' k fun c => (sets.lookup c).or (row c)

namespace Engine

variable (E : Engine) (db table : Str)

/-- No other key of the table is taken for this one. -/
def Apart (T : Table) (k : Str) : Prop := ∀ k' ∈ T.rows, E.same db table k' k = true → k' = k

instance (T : Table) (k : Str) : Decidable (E.Apart db table T k) :=
  inferInstanceAs (Decidable (∀ k' ∈ T.rows.keys, _))

/-- Two keys are one, or one is taken for the other. -/
def Alike (k k' : Str) : Prop := k = k' ∨ E.same db table k k' = true ∨ E.same db table k' k = true

instance (k k' : Str) : Decidable (E.Alike db table k k') := inferInstanceAs (Decidable (_ ∨ _))

/-- A text that is read as it is between quotes, and that the column takes. -/
def Accepts (c v : Str) : Prop := 0 ∉ v ∧ 39 ∉ v ∧ E.takes db table c v = true

instance (c v : Str) : Decidable (E.Accepts db table c v) := inferInstanceAs (Decidable (_ ∧ _ ∧ _))

/-- A table with plain names, in which a row may have no more than its key. -/
structure Editable (T : Table) : Prop where
  name : IsIdentifier E.reserved table
  columns : ∀ c ∈ T.columns, IsIdentifier E.reserved c
  key : T.key ∈ T.columns
  optional : ∀ c ∈ T.columns, c ≠ T.key → E.optional db table c = true

variable {E db table} {k k' : Str} {T T' : Table}

theorem Alike.refl (k : Str) : E.Alike db table k k := Or.inl rfl

theorem Alike.symm (h : E.Alike db table k k') : E.Alike db table k' k := h.imp Eq.symm Or.symm

instance : Std.Symm fun k k' => ¬ E.Alike db table k k' := ⟨fun _ _ h h' => h h'.symm⟩

theorem Editable.of_shape (h : E.Editable db table T)
    (hshape : T'.columns = T.columns ∧ T'.key = T.key) :
    E.Editable db table T' :=
  ⟨h.name, hshape.1 ▸ h.columns, hshape.1 ▸ hshape.2 ▸ h.key, hshape.1 ▸ hshape.2 ▸ h.optional⟩

/-- A key stays apart when no key comes that is like it. -/
theorem Apart.of_rows (h : E.Apart db table T k)
    (hrows : ∀ k' ∈ T'.rows, k' ∈ T.rows ∨ k' = k ∨ ¬ E.Alike db table k' k) :
    E.Apart db table T' k := by
  intro k' hk' hsame
  rcases hrows k' hk' with hold | hself | hunlike
  · exact h k' hold hsame
  · exact hself
  · exact absurd (Or.inr (Or.inl hsame)) hunlike

/-- Run texts one after the other. -/
def serve (E : Engine) (s : E.State) (db : Str) : List Str → E.State × List Bool
  | [] => (s, [])
  | text :: texts =>
    let run := E.exec s db text
    let rest := serve E run.1 db texts
    (rest.1, run.2 :: rest.2)

end Engine

/-- A server that is also asked for rows.  A select changes nothing; it is refused, or all it
brings is handed out. -/
structure QueryEngine extends Engine where
  fetch (s : State) (db text : Str) : Option Result
  /-- The keys of a table differ as the server compares them. -/
  unique {s : State} {db table k k' : Str} {T : Table} (hT : tables s db table = some T)
    (hk : k ∈ T.rows)
    (hk' : k' ∈ T.rows) (hsame : same db table k' k = true) : k' = k
  /-- A select by one column brings rows of the table, each at most once. -/
  select {s : State} {db text table c v : Str} {T : Table} {R : Result}
    (hread : readSelect reserved text = some (table, c, v)) (htable : IsIdentifier reserved table)
    (hc : IsIdentifier reserved c) (hT : tables s db table = some T) (hR : fetch s db text = some R) :
    R.columns = T.columns ∧ ∃ es : List (Σ _ : Str, NullRow), (es.map (·.1)).Nodup ∧
      (∀ e ∈ es, T.rows.lookup e.1 = some e.2) ∧ R.rows = es.map fun e => T.line e.1 e.2
  /-- A select by a key that no other key is taken for brings its row, if there is one. -/
  selectKey {s : State} {db text table k : Str} {T : Table}
    (hread : readSelect reserved text = some (table, T.key, k)) (htable : IsIdentifier reserved table)
    (hkey : IsIdentifier reserved T.key) (hT : tables s db table = some T) (hcolumn : T.key ∈ T.columns)
    (hk : takes db table T.key k = true) (hapart : ∀ k' ∈ T.rows, same db table k' k = true → k' = k) :
    fetch s db text = some ⟨T.columns, ((T.rows.lookup k).map (T.line k)).toList⟩
  /-- Conditions with a comma between them are refused. -/
  commas {s : State} {db text table c v : Str} {e : Cut} {ts : List Token} (hcode : code text = some e)
    (htokens : tokens e = .word (lit "select") :: .symbol 42 :: .word (lit "from") :: .word table ::
      .word (lit "where") :: .word c :: .symbol 61 :: .value v :: .symbol 44 :: ts) :
    fetch s db text = none
  /-- Assignments with nothing between them are refused. -/
  blanks {s : State} {db text table c v c' : Str} {e : Cut} {ts : List Token}
    (hcode : code text = some e)
    (htokens : tokens e = .word (lit "update") :: .word table :: .word (lit "set") :: .word c ::
      .symbol 61 ::
      .value v :: .word c' :: .symbol 61 :: ts) :
    (exec s db text).2 = false ∧ tables (exec s db text).1 = tables s

/-! ## Texts compared byte by byte -/

section OfTables

variable {reserved : List Str} {D : Database} {db text table k : Str} {items : List (Str × Str)}
    {T : Table}
theorem Table.insert_eq (hnames : (items.map (·.1)).Nodup) (hcolumns : ∀ i ∈ items, i.1 ∈ T.columns)
    (hk : items.lookup T.key = some k) :
    T.insert (items.map (·.1)) (items.map (·.2)) =
      if k ∈ T.rows then none
      else some { T with rows := UMap.insertNew k (fun c => items.lookup c) T.rows } := by
  have hzip : (items.map (·.1)).zip (items.map (·.2)) = items := by
    rw [← List.unzip_fst, ← List.unzip_snd, List.zip_unzip]
  have hcols : ∀ c ∈ items.map (·.1), c ∈ T.columns := by
    intro c hc
    obtain ⟨i, hi, rfl⟩ := List.mem_map.mp hc
    exact hcolumns i hi
  unfold insert
  rw [hzip, hk]
  dsimp only
  by_cases hmem : k ∈ T.rows
  · rw [if_pos hmem, if_neg fun hall => hall.2.2.2 hmem]
  · rw [if_neg hmem, if_pos ⟨by simp, hnames, hcols, hmem⟩]

theorem Database.exec_insert
    (hread : read reserved text = some (.insert table (items.map (·.1)) (items.map (·.2))))
    (hT : D db table = some T) (hnames : (items.map (·.1)).Nodup)
    (hcolumns : ∀ i ∈ items, i.1 ∈ T.columns) (hk : items.lookup T.key = some k) :
    D.exec reserved db text =
      if k ∈ T.rows then (D, false)
      else (D.put db table { T with rows := UMap.insertNew k (fun c => items.lookup c) T.rows },
        true) := by
  unfold exec
  rw [hread, Option.bind_some]
  unfold after
  dsimp only
  rw [hT, Option.bind_some, Table.insert_eq hnames hcolumns hk]
  by_cases hmem : k ∈ T.rows
  · rw [if_pos hmem, if_pos hmem]
    rfl
  · rw [if_neg hmem, if_neg hmem]
    rfl

theorem Database.exec_update (hread : read reserved text = some (.update table items T.key k))
    (hT : D db table = some T) (hnames : (items.map (·.1)).Nodup)
    (hcolumns : ∀ i ∈ items, i.1 ∈ T.columns) (hkey : ∀ i ∈ items, i.1 ≠ T.key) :
    D.exec reserved db text =
      (D.put db table { T with rows := UMap.adjust k (fun row c =>
        (items.lookup c).or (row c)) T.rows }, true) := by
  unfold exec
  rw [hread, Option.bind_some]
  unfold after
  dsimp only
  rw [hT, Option.bind_some]
  unfold Table.update
  rw [if_pos ⟨rfl, hnames, fun i hi => ⟨hcolumns i hi, hkey i hi⟩⟩]
  rfl

theorem Database.of_select {c v : Str} {R : Result}
    (hread : readSelect reserved text = some (table, c, v)) (hT : D db table = some T)
    (hR : D.select reserved db text = some R) :
    c ∈ T.columns ∧ R = ⟨T.columns, T.select c v⟩ := by
  unfold select at hR
  rw [hread, Option.bind_some, hT, Option.bind_some] at hR
  split at hR
  · next hc => exact ⟨hc, (Option.some.inj hR).symm⟩
  · cases hR

theorem Database.select_eq {c v : Str} (hread : readSelect reserved text = some (table, c, v))
    (hT : D db table = some T) (hc : c ∈ T.columns) :
    D.select reserved db text = some ⟨T.columns, T.select c v⟩ := by
  unfold select
  rw [hread, Option.bind_some, hT, Option.bind_some, if_pos hc]

theorem Database.select_commas (D : Database) (db : Str) {c v : Str} {e : Cut} {ts : List Token}
    (hcode : code text = some e)
    (htokens : tokens e = .word (lit "select") :: .symbol 42 :: .word (lit "from") :: .word table ::
      .word (lit "where") :: .word c :: .symbol 61 :: .value v :: .symbol 44 :: ts) :
    D.select reserved db text = none := by
  unfold select readSelect
  rw [hcode, Option.bind_some, htokens, parseSelect, if_neg, Option.bind_none]
  rintro ⟨-, -, -, -, -, hts | hts⟩
  · cases hts
  · cases hts

theorem Database.exec_blanks (D : Database) (db : Str) {u w c v c' : Str} {e : Cut} {ts : List Token}
    (hcode : code text = some e)
    (htokens : tokens e = .word u :: .word table :: .word w :: .word c :: .symbol 61 :: .value v ::
      .word c' ::
      .symbol 61 :: ts) : D.exec reserved db text = (D, false) := by
  unfold exec read
  rw [hcode, Option.bind_some, htokens, parse_blanks]
  rfl

theorem lookup_of_mem {i : Str × Str} (hnames : (items.map (·.1)).Nodup) (hi : i ∈ items) :
    items.lookup i.1 = some i.2 := by
  induction items with
  | nil => cases hi
  | cons j items ih =>
    rw [List.map_cons, List.nodup_cons] at hnames
    rcases List.mem_cons.mp hi with rfl | hi
    · exact List.lookup_cons_self
    · have hne : i.1 ≠ j.1 := fun heq => hnames.1 (heq ▸ List.mem_map_of_mem hi)
      rw [List.lookup_cons, beq_eq_false_iff_ne.mpr hne]
      exact ih hnames.2 hi

end OfTables

/-- A server of texts. -/
def Engine.ofTables (reserved : List Str) : Engine where
  State := Database
  reserved := reserved
  tables := fun D => D
  takes := fun _ _ _ _ => true
  same := fun _ _ k k' => k = k'
  optional := fun _ _ _ => true
  exec := Database.exec reserved
  insert {s db text table k items T} hread _ hT hitems _ hk hnew := by
    have hmem : k ∉ T.rows := fun hmem => of_decide_eq_false (hnew k hmem) rfl
    rw [Database.exec_insert (D := s) hread hT hitems.names (fun i hi => (hitems.columns i hi).1) hk,
      if_neg hmem]
    refine ⟨rfl, _, rfl, rfl, rfl, ?_, fun k' hne => ?_⟩
    · rw [UMap.lookup_insertNew, if_pos ⟨rfl, hmem⟩]
    · rw [UMap.lookup_insertNew, if_neg fun h => hne h.1]
  duplicate {s db text table k items T} hread _ hT hitems hk hmem := by
    rw [Database.exec_insert (D := s) hread hT hitems.names (fun i hi => (hitems.columns i hi).1) hk,
      if_pos hmem]
    exact ⟨rfl, rfl⟩
  update {s db text table k sets T row} hread _ hT hsets hkey _ _ hrow _ := by
    rw [Database.exec_update (D := s) hread hT hsets.names (fun i hi => (hsets.columns i hi).1) hkey]
    refine ⟨rfl, _, rfl, rfl, rfl, ?_, fun k' hne => UMap.lookup_adjust_ne hne _ _⟩
    rw [UMap.lookup_adjust_self, hrow]
    rfl

/-- A server of texts that is asked for rows. -/
def QueryEngine.ofTables (reserved : List Str) : QueryEngine where
  toEngine := Engine.ofTables reserved
  fetch := Database.select reserved
  unique _ _ _ hsame := of_decide_eq_true hsame
  select {s db text table c v T R} hread _ _ hT hR := by
    obtain ⟨-, rfl⟩ := Database.of_select (D := s) hread hT hR
    refine ⟨rfl, _, ?_, fun e he => ?_, rfl⟩
    · exact (List.filter_sublist.map _).nodup T.rows.nodupKeys
    · exact UMap.mem_entries.mp (List.mem_filter.mp he).1
  selectKey {s db text table k T} hread _ _ hT hcolumn _ _ := by
    rw [← T.select_key]
    exact Database.select_eq (D := s) hread hT hcolumn
  commas {s db text table c v e ts} hcode htokens := Database.select_commas s db hcode htokens
  blanks {s db text table c v c' e ts} hcode htokens := by
    have hexec : Database.exec reserved s db text = (s, false) := Database.exec_blanks s db hcode htokens
    exact ⟨congrArg Prod.snd hexec, congrArg Prod.fst hexec⟩

end SqlTables
