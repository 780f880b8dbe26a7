import FuServer.Sql.Conjunction
import FuServer.Sql.Cursor
import FuServer.Sql.Fetch
import FuServer.Sql.RowTexts

/-!
# Editing a table through a data set

A data set fetches rows by key or by condition or makes them, takes assignments
and commits, as often as it likes, and a server answers from its tables.
Every row that is not new has on the server the texts that are not modified
(`SetSession.Sound`); `set_writesThrough` says which rows a `Commit` brings
there whole.
-/

namespace FuServer

open Bytes Outcome Runs SqlText SqlTables

/-- A data set and its server. -/
structure SetSession (E : QueryEngine) where
  set : DBDataSet
  data : E.State

inductive SetSessionOp
  | newKeyData (keyData : Str)
  | newCodition (ord : HashOrder) (codition : UMap Str Str)
  | write (fieldName data : Str)
  | moveBeginRow
  | moveNextRow
  | clear
  | commit (ord : HashOrder) (answers : List Bool)

namespace SetSession

variable {E : QueryEngine} {db tname : Str} {s : SetSession E} {T T' : Table}

/-! ## Sessions -/

/-- The session with the set behind a call. -/
def withSet (s : SetSession E) : Res DBDataSet → Option (SetSession E)
  | .ok set => some { s with set := set }
  | .error _ => none

/-- The select that a call runs. -/
def selects (s : SetSession E) : SetSessionOp → Option Str
  | .newKeyData keyData =>
    if s.set.sKeyName = [] then
      none else some (DBDataSet.querySql s.set.sTableName s.set.sKeyName keyData)
  | .newCodition ord codition =>
    if codition.entries = [] then
      none else some (DBDataSet.queryConditionSql ord s.set.sTableName codition)
  | _ => none

/-- One call whose select is collected. -/
def call (db : Str) (s : SetSession E) : SetSessionOp → Option (SetSession E)
  | .newKeyData keyData =>
    -- an empty key is left to the server, with an insertion of its own
    if keyData = [] then none
    else s.withSet (DataSetOp.call s.set (.newKeyData (DBDataSet.server E s.data db) keyData))
  | .newCodition ord codition =>
    s.withSet (DataSetOp.call s.set (.newCodition (DBDataSet.server E s.data db) ord codition))
  | .write fieldName data => s.withSet (s.set.write fieldName data)
  | .moveBeginRow => s.withSet (.ok s.set.moveBeginRow.1)
  | .moveNextRow => s.withSet (.ok s.set.moveNextRow.1)
  | .clear => s.withSet (.ok s.set.clear)
  | .commit ord answers =>
    match s.set.commit ord { answers := answers } with
    | .ok (hSqlServer, set) =>
      let served := E.serve s.data db (hSqlServer.ran.map (·.1))
      if served.2 = hSqlServer.ran.map (·.2) then some ⟨set, served.1⟩ else none
    | .error _ => none

/-- One call; a select that reads past the buffer is none, nor is a `Commit` with other outcomes
than the server has. -/
def step (db : Str) (s : SetSession E) (op : SetSessionOp) : Option (SetSession E) :=
  if ∀ sqlStr ∈ s.selects op, DBDataSet.Collects E s.data db sqlStr then s.call db op else none

/-- The keys of the rows of the set. -/
def keys (s : SetSession E) : List Str := s.set.setList.map s.set.rowKey

/-- The rows that `New` by condition brings. -/
def matching (db : Str) (s : SetSession E) (ord : HashOrder) (codition : UMap Str Str) :
    List DBDataRow :=
  s.set.appended (.newCodition (DBDataSet.server E s.data db) ord codition)

/-- The keys of the rows that a call brings. -/
def brought (db : Str) (s : SetSession E) : SetSessionOp → List Str
  | .newKeyData keyData => [keyData]
  | .newCodition ord codition => (s.matching db ord codition).map s.set.rowKey
  | _ => []

/-- The rows of the set are rows of a table on the server, with keys that the server tells
apart; those that are not new are there with the texts that are not modified. -/
structure Sound (db tname : Str) (s : SetSession E) (T : Table) : Prop where
  opened : s.set.sTableName = tname
  table : E.tables s.data db s.set.sTableName = some T
  edit : E.Editable db s.set.sTableName T
  key : T.key = s.set.sKeyName
  rows : ∀ row ∈ s.set.setList, DBDataSet.Belongs E db s.set T row
  apart : ∀ k ∈ s.keys, E.Apart db s.set.sTableName T k
  unlike : s.keys.Pairwise fun k k' => ¬ E.Alike db s.set.sTableName k k'
  synced : ∀ row ∈ s.set.setList, row.bInsert = false → DBDataSet.Synced s.set T row
  cursor : 0 ≤ s.set.setIndex ∧ s.set.CursorValid ∧ (s.set.setList = [] → s.set.setIndex = 0)

/-- The server gives the statements of a `Commit` the outcomes `answers`. -/
def Answers (db : Str) (s : SetSession E) (ord : HashOrder) (answers : List Bool) : Prop :=
  Returns (s.set.commit ord { answers := answers }) fun r =>
    (E.serve s.data db (r.1.ran.map (·.1))).2 = r.1.ran.map (·.2)

/-- A key that can come to the set: it can be sent, and no row has one like it. -/
def Comes (db : Str) (s : SetSession E) (k : Str) : Prop :=
  E.Accepts db s.set.sTableName s.set.sKeyName k ∧ ∀ k' ∈ s.keys, ¬ E.Alike db s.set.sTableName k' k

instance (db : Str) (s : SetSession E) (k : Str) : Decidable (s.Comes db k) :=
  inferInstanceAs (Decidable (_ ∧ _))

/-- The values of the select of a call have room in the buffer. -/
def Fetches (db : Str) (s : SetSession E) (op : SetSessionOp) : Prop :=
  ∀ sqlStr ∈ s.selects op, DBDataSet.Short E s.data db sqlStr

instance (db : Str) (s : SetSession E) (op : SetSessionOp) : Decidable (s.Fetches db op) :=
  inferInstanceAs (Decidable (∀ sqlStr ∈ s.selects op, _))

/-- `New` brings no key like one that a row of the set has, and finds a given key only while the
cursor is not on a new row; assignments go to other columns than the key, while there are rows;
`Clear` comes with the cursor on the first row.  Keys and assigned texts can be sent. -/
def Ready (db : Str) (s : SetSession E) : SetSessionOp → Prop
  | .newKeyData keyData =>
    keyData ≠ [] ∧ s.Fetches db (.newKeyData keyData) ∧ s.Comes db keyData ∧
      (∀ T ∈ E.tables s.data db s.set.sTableName, E.Apart db s.set.sTableName T keyData) ∧
      (((E.tables s.data).rowAt db s.set.sTableName keyData).isSome = true → s.set.isNewRow ≠ .ok true)
  | .newCodition ord codition =>
    (∀ iter ∈ codition.entries, IsIdentifier E.reserved iter.1 ∧ 39 ∉ iter.2) ∧
      s.Fetches db (.newCodition ord codition) ∧
        ∀ k ∈ s.brought db (.newCodition ord codition), s.Comes db k
  | .write fieldName data =>
    s.set.setList ≠ [] ∧ fieldName ≠ s.set.sKeyName ∧ E.Accepts db s.set.sTableName fieldName data ∧
      ∃ T ∈ E.tables s.data db s.set.sTableName, fieldName ∈ T.columns
  | .moveBeginRow => True
  | .moveNextRow => True
  | .clear => s.set.setIndex = 0
  | .commit ord answers => Answers db s ord answers

instance (db : Str) (s : SetSession E) : ∀ op, Decidable (Ready db s op)
  | .newKeyData _ => inferInstanceAs (Decidable (_ ∧ _ ∧ _ ∧ _ ∧ (_ → _)))
  | .newCodition _ _ => inferInstanceAs (Decidable (_ ∧ _ ∧ _))
  | .write _ _ => inferInstanceAs (Decidable (_ ∧ _ ∧ _ ∧ _))
  | .moveBeginRow => isTrue trivial
  | .moveNextRow => isTrue trivial
  | .clear => inferInstanceAs (Decidable (_ = _))
  | .commit _ _ => inferInstanceAs (Decidable (Returns _ _))

/-- A call that has no select, or one whose values have room, is carried out. -/
theorem step_of_fetches {op : SetSessionOp} (h : s.Fetches db op) : step db s op = s.call db op :=
  if_pos fun sqlStr hsql => (h sqlStr hsql).collects

/-- The set comes to the server as a walk. -/
theorem Sound.walk (h : Sound db tname s T) : DBDataSet.Walk E db s.set T s.set.setList := by
  refine ⟨h.rows, fun row hrow hold => ?_, fun row hrow => h.apart _ (List.mem_map_of_mem hrow),
    h.unlike⟩
  obtain ⟨r, hr, -⟩ := h.synced row hrow hold
  exact UMap.mem_of_lookup hr

theorem Sound.move (h : Sound db tname s T) {set : DBDataSet} (hlist : set.setList = s.set.setList)
    (hnames : set.sTableName = s.set.sTableName ∧ set.sKeyName = s.set.sKeyName)
    (hcursor : 0 ≤ set.setIndex ∧ set.CursorValid ∧ (set.setList = [] → set.setIndex = 0)) :
    Sound db tname { s with set := set } T := by
  obtain ⟨tableName, kname, ident, list, index⟩ := set
  obtain rfl : list = s.set.setList := hlist
  obtain ⟨rfl, rfl⟩ : tableName = s.set.sTableName ∧ kname = s.set.sKeyName := hnames
  exact ⟨h.opened, h.table, h.edit, h.key, fun row hrow => (h.rows row hrow).of_columns rfl rfl rfl,
    h.apart,
    h.unlike, h.synced, hcursor⟩

theorem Sound.moveBeginRow (h : Sound db tname s T) :
    Sound db tname { s with set := s.set.moveBeginRow.1 } T := by
  unfold DBDataSet.moveBeginRow
  by_cases hnil : s.set.setList = []
  · rw [if_pos hnil]
    exact h
  · rw [if_neg hnil]
    exact h.move rfl ⟨rfl, rfl⟩ ⟨Int.le_refl 0, DBDataSet.zero_cursorValid rfl, fun _ => rfl⟩

theorem Sound.moveNextRow (h : Sound db tname s T) :
    Sound db tname { s with set := s.set.moveNextRow.1 } T := by
  have hvalid := DBDataSet.moveNextRow_cursorValid h.cursor.1 h.cursor.2.1
  have hindex := h.cursor.1
  unfold DBDataSet.moveNextRow at hvalid ⊢
  by_cases hlt : s.set.setIndex < (s.set.setList.length : Int) - 1
  · rw [if_pos hlt] at hvalid ⊢
    refine h.move rfl ⟨rfl, rfl⟩ ⟨Int.add_nonneg hindex (Int.zero_le_ofNat 1), hvalid, fun hnil => ?_⟩
    have hlen : s.set.setList.length = 0 := List.length_eq_zero_iff.mpr hnil
    omega
  · rw [if_neg hlt]
    exact h

/-- Without rows there is nothing to keep. -/
theorem Sound.clear (h : Sound db tname s T) (h0 : s.set.setIndex = 0) :
    Sound db tname { s with set := s.set.clear } T :=
  ⟨h.opened, h.table, h.edit, h.key, nofun, nofun, List.Pairwise.nil, nofun, h.cursor.1,
    fun hne => absurd rfl hne,
    fun _ => h0⟩

/-- The table changes, the rows of the set do not. -/
theorem Sound.frame (h : Sound db tname s T) {data : E.State} (hdata : E.tables data db tname = some T')
    (hshape : T'.columns = T.columns ∧ T'.key = T.key)
    (hrows : ∀ k ∈ s.keys, T'.rows.lookup k = T.rows.lookup k)
    (hmem : ∀ k' ∈ T'.rows, k' ∈ T.rows ∨ ∀ k ∈ s.keys, ¬ E.Alike db s.set.sTableName k' k) :
    Sound db tname { s with data := data } T' := by
  refine ⟨h.opened, ?_, h.edit.of_shape hshape, hshape.2.trans h.key,
    fun row hrow => (h.rows row hrow).of_columns rfl rfl hshape.1, fun k hk => ?_, h.unlike,
    fun row hrow hold => (h.synced row hrow hold).of_lookup hshape
      (hrows _ (List.mem_map_of_mem hrow)), h.cursor⟩
  · show E.tables data db s.set.sTableName = some T'
    rw [h.opened, hdata]
  · exact (h.apart k hk).of_rows fun k' hk' => (hmem k' hk').imp_right fun hunlike =>
      Or.inr (hunlike k hk)

/-! ## One call -/

/-- The text of a select by key is read. -/
theorem Sound.read_query (h : Sound db tname s T) {k : Str} (hne : k ≠ []) (hk : 0 ∉ k ∧ 39 ∉ k) :
    readSelect E.reserved (cstr (DBDataSet.querySql s.set.sTableName s.set.sKeyName k)) =
      some (s.set.sTableName, T.key, k) := by
  have hkeyName := h.key ▸ (h.edit.columns _ h.edit.key).1
  have hplain : (SqlCall.queryKey s.set.sTableName s.set.sKeyName k).Plain .plain := by
    unfold SqlCall.Plain SqlCall.names SqlCall.values SqlCall.items
    dsimp only
    rw [if_neg hne, if_neg hne]
    refine ⟨fun n hn => ?_, fun v hv => ?_⟩
    · rw [List.map_nil, List.append_nil] at hn
      rcases List.mem_cons.mp hn with rfl | hn
      · exact DBDataSet.mark_notMem h.edit.name.1
      · rw [List.mem_singleton.mp hn]
        exact DBDataSet.mark_notMem hkeyName
    · rw [List.mem_singleton.mp hv]
      exact hk
  unfold readSelect
  rw [SqlCall.code_plain rfl hplain, Option.bind_some,
    SqlCall.parse_query hne h.edit.name.1 hkeyName, h.key]

/-- A select by key brings the row under the key. -/
theorem Sound.found_eq (h : Sound db tname s T) {k : Str} (hne : k ≠ [])
    (hk : E.Accepts db s.set.sTableName s.set.sKeyName k) (hapart : E.Apart db s.set.sTableName T k)
    (hshort : DBDataSet.Short E s.data db (DBDataSet.querySql s.set.sTableName s.set.sKeyName k)) :
    s.set.found (DBDataSet.server E s.data db) k =
      ((T.rows.lookup k).map (DBDataSet.fetchedRow T k)).toList := by
  obtain ⟨h0, h39, htakes⟩ := hk
  have hfetch := E.selectKey (h.read_query hne ⟨h0, h39⟩) h.edit.name (h.edit.columns _ h.edit.key)
    h.table h.edit.key
    (h.key ▸ htakes) hapart
  unfold DBDataSet.found
  cases hr : T.rows.lookup k with
  | none =>
    rw [hr] at hfetch
    exact DBDataSet.fetched_of_short hfetch hshort (List.ne_nil_of_mem h.edit.key) nofun
  | some r =>
    rw [hr] at hfetch
    refine DBDataSet.fetched_of_short hfetch hshort (List.ne_nil_of_mem h.edit.key)
      fun values hvalues => ?_
    rw [show values = T.line k r from List.mem_singleton.mp hvalues, Table.line, List.length_map]

/-- A row comes to the set. -/
theorem Sound.push (h : Sound db tname s T) {row : DBDataRow} {set : DBDataSet}
    (hlist : set.setList = s.set.setList ++ [row])
    (hnames : set.sTableName = s.set.sTableName ∧ set.sKeyName = s.set.sKeyName) (hrange : set.InRange)
    (hb : DBDataSet.Belongs E db s.set T row) (hapart : E.Apart db s.set.sTableName T (s.set.rowKey row))
    (hunlike : ∀ k ∈ s.keys, ¬ E.Alike db s.set.sTableName k (s.set.rowKey row))
    (hsynced : row.bInsert = false → DBDataSet.Synced s.set T row) :
    Sound db tname { s with set := set } T := by
  obtain ⟨tableName, kname, ident, list, index⟩ := set
  obtain rfl : list = s.set.setList ++ [row] := hlist
  obtain ⟨rfl, rfl⟩ : tableName = s.set.sTableName ∧ kname = s.set.sKeyName := hnames
  have hkeys : (s.set.setList ++ [row]).map s.set.rowKey = s.keys ++ [s.set.rowKey row] :=
    List.map_append
  have hmem : ∀ r ∈ s.set.setList ++ [row], r ∈ s.set.setList ∨ r = row := by
    intro r hr
    exact (List.mem_append.mp hr).imp_right List.mem_singleton.mp
  refine ⟨h.opened, h.table, h.edit, h.key, fun r hr => ?_, fun k hk => ?_, ?_, fun r hr hold => ?_,
    hrange.1,
    fun _ => hrange, fun hnil => ?_⟩
  · rcases hmem r hr with hr | rfl
    · exact (h.rows r hr).of_columns rfl rfl rfl
    · exact hb.of_columns rfl rfl rfl
  · have hk' : k ∈ s.keys ++ [s.set.rowKey row] := hkeys ▸ hk
    rcases List.mem_append.mp hk' with hk' | hk'
    · exact h.apart k hk'
    · rw [List.mem_singleton.mp hk']
      exact hapart
  · show ((s.set.setList ++ [row]).map s.set.rowKey).Pairwise _
    rw [hkeys, List.pairwise_append]
    refine ⟨h.unlike, List.pairwise_singleton _ _, fun k hk k' hk' => ?_⟩
    rw [List.mem_singleton.mp hk']
    exact hunlike k hk
  · rcases hmem r hr with hr | rfl
    · exact h.synced r hr hold
    · exact hsynced hold
  · exact absurd hnil (List.append_ne_nil_of_right_ne_nil _ (List.cons_ne_nil row []))

theorem modify_eq_self {α : Type} {l : List α} {i : Nat} {a : α} {f : α → α} (ha : l[i]? = some a)
    (hf : f a = a) :
    l.modify i f = l := by
  apply List.ext_getElem?
  intro j
  rw [List.getElem?_modify]
  cases hj : l[j]? with
  | none => rfl
  | some b =>
    show some (if i = j then f b else b) = some b
    split
    · next hij =>
      rw [← hij, ha] at hj
      cases hj
      rw [hf]
    · rfl

theorem mem_modify {α : Type} {l : List α} {i : Nat} {a : α} {f : α → α} (h : a ∈ l.modify i f) :
    ∃ b ∈ l, a = b ∨ a = f b := by
  obtain ⟨j, hj⟩ := List.mem_iff_getElem?.mp h
  rw [List.getElem?_modify] at hj
  obtain ⟨b, hb, rfl⟩ := Option.map_eq_some_iff.mp hj
  refine ⟨b, List.mem_of_getElem? hb, ?_⟩
  split
  · exact Or.inr rfl
  · exact Or.inl rfl

/-- Behind the row that is there, `New` clears a flag that is clear already. -/
theorem Sound.fetched_modify (h : Sound db tname s T) {k : Str} {r : NullRow}
    (hr : T.rows.lookup k = some r)
    (hcur : ((E.tables s.data).rowAt db s.set.sTableName k).isSome → s.set.isNewRow ≠ .ok true) :
    (s.set.setList ++ [DBDataSet.fetchedRow T k r]).modify s.set.setIndex.toNat
        (·.setIsInsert false) = s.set.setList ++ [DBDataSet.fetchedRow T k r] := by
  have hfound : ((E.tables s.data).rowAt db s.set.sTableName k).isSome = true := by
    unfold Database.rowAt
    rw [h.table, Option.bind_some, hr]
    rfl
  obtain ⟨row, hrow, hold⟩ : ∃ row,
      (s.set.setList ++ [DBDataSet.fetchedRow T k r])[s.set.setIndex.toNat]? = some row ∧
        row.bInsert = false := by
    by_cases hnil : s.set.setList = []
    · rw [hnil, h.cursor.2.2 hnil]
      exact ⟨_, rfl, rfl⟩
    · have hlt := (h.cursor.2.1 hnil).2
      rw [List.getElem?_append_left hlt, List.getElem?_eq_getElem hlt]
      refine ⟨_, rfl, Bool.eq_false_iff.mpr fun hnew => hcur hfound ?_⟩
      have hrow : s.set.curRow = .ok s.set.setList[s.set.setIndex.toNat] :=
        vecAt_eq_ok.mpr ⟨h.cursor.1, List.getElem?_eq_getElem hlt⟩
      unfold DBDataSet.isNewRow
      rw [hrow, ok_bind, hnew]
      rfl
  refine modify_eq_self hrow ?_
  rw [DBDataRow.setIsInsert, ← hold]

/-- `New` with a key of its own brings its row. -/
theorem Sound.newKeyData (h : Sound db tname s T) {k : Str} (hready : Ready db s (.newKeyData k)) :
    ∃ set, step db s (.newKeyData k) = some { s with set := set } ∧
      Sound db tname { s with set := set } T ∧
      set.setList.map set.rowKey = s.keys ++ [k] := by
  obtain ⟨hne, hfetches, ⟨hk, hunlike⟩, hapart, hcur⟩ := hready
  have hname : s.set.sKeyName ≠ [] := h.key ▸ (h.edit.columns _ h.edit.key).1.1
  have hshort := hfetches _ (if_neg hname)
  have hT := hapart T h.table
  rw [step_of_fetches hfetches]
  unfold call DataSetOp.call
  dsimp only
  rw [if_neg hne, DBDataSet.newKeyData_eq, if_neg hname, h.found_eq hne hk hT hshort]
  cases hr : T.rows.lookup k with
  | none =>
    obtain ⟨hb, hkey⟩ := DBDataSet.belongs_keyRow (d := s.set) h.edit h.key hk
    rw [Option.map_none, Option.toList_none, if_neg (not_not.mpr rfl), if_neg hne]
    refine ⟨_, rfl, h.push rfl ⟨rfl, rfl⟩ (DBDataSet.inRange_onRow (d := s.set)) hb (hkey.symm ▸ hT)
      (hkey.symm ▸ hunlike) nofun, ?_⟩
    show (s.set.setList ++ [s.set.keyRow k]).map s.set.rowKey = _
    rw [List.map_append, List.map_singleton, hkey]
    rfl
  | some r =>
    have hb := DBDataSet.belongs_fetchedRow h.edit h.key hk r
    have hkey := DBDataSet.rowKey_fetchedRow h.edit h.key k r
    have hsame := h.fetched_modify hr hcur
    have hrange : (s.set.append [DBDataSet.fetchedRow T k r]).InRange := by
      refine (DBDataSet.inRange_append h.cursor.1 h.cursor.2.1).mpr fun hnil => ?_
      rw [h.cursor.2.2 hnil]
      exact Int.one_pos
    rw [Option.map_some, Option.toList_some, if_pos (List.cons_ne_nil _ _)]
    unfold DBDataSet.settled
    rw [if_pos hrange]
    refine ⟨_, rfl, h.push hsame ⟨rfl, rfl⟩ (DBDataSet.inRange_modify.mpr hrange) hb (hkey.symm ▸ hT)
      (hkey.symm ▸ hunlike) fun _ => ?_, ?_⟩
    · exact DBDataSet.synced_fetchedRow h.edit h.key hr
    · show ((s.set.setList ++ [DBDataSet.fetchedRow T k r]).modify s.set.setIndex.toNat _).map
          s.set.rowKey = _
      rw [hsame, List.map_append, List.map_singleton, hkey]
      rfl

/-- Rows of the table come to the set. -/
theorem Sound.append (h : Sound db tname s T) {rows : List DBDataRow}
    (hrows : ∀ row ∈ rows, DBDataSet.Belongs E db s.set T row ∧ DBDataSet.Synced s.set T row)
    (hapart : ∀ k ∈ rows.map s.set.rowKey, E.Apart db s.set.sTableName T k)
    (hunlike : (rows.map s.set.rowKey).Pairwise fun k k' => ¬ E.Alike db s.set.sTableName k k')
    (hkeys : ∀ k' ∈ rows.map s.set.rowKey, ∀ k ∈ s.keys, ¬ E.Alike db s.set.sTableName k k') :
    Sound db tname { s with set := s.set.append rows } T := by
  have hmap : (s.set.setList ++ rows).map s.set.rowKey = s.keys ++ rows.map s.set.rowKey :=
    List.map_append
  refine ⟨h.opened, h.table, h.edit, h.key, fun row hrow => ?_, fun k hk => ?_, ?_,
    fun row hrow hold => ?_, h.cursor.1, ?_, fun hnil => ?_⟩
  · rcases List.mem_append.mp hrow with hrow | hrow
    · exact (h.rows row hrow).of_columns rfl rfl rfl
    · exact (hrows row hrow).1.of_columns rfl rfl rfl
  · have hk' : k ∈ s.keys ++ rows.map s.set.rowKey := hmap ▸ hk
    exact (List.mem_append.mp hk').elim (h.apart k) (hapart k)
  · show ((s.set.setList ++ rows).map s.set.rowKey).Pairwise _
    rw [hmap, List.pairwise_append]
    exact ⟨h.unlike, hunlike, fun k hk k' hk' => hkeys k' hk' k hk⟩
  · rcases List.mem_append.mp hrow with hrow | hrow
    · exact h.synced row hrow hold
    · exact (hrows row hrow).2
  · refine (DBDataSet.cursorValid_append h.cursor.1 h.cursor.2.1).mpr fun hnil hne => ?_
    rw [h.cursor.2.2 hnil]
    exact Int.natCast_pos.mpr (List.length_pos_iff.mpr hne)
  · exact h.cursor.2.2 (List.append_eq_nil_iff.mp hnil).1

/-- What a server brings for a select by conditions: rows of the table, each at most once. -/
theorem Sound.fetch_condition (h : Sound db tname s T) {ord : HashOrder} {codition : UMap Str Str}
    (hne : codition.entries ≠ [])
    (hplain : ∀ iter ∈ codition.entries, IsIdentifier E.reserved iter.1 ∧ 39 ∉ iter.2) {R : Result}
    (hR : E.fetch s.data db (cstr (DBDataSet.queryConditionSql ord s.set.sTableName codition)) =
      some R) :
    R.columns = T.columns ∧ ∃ es : List (Σ _ : Str, NullRow), (es.map (·.1)).Nodup ∧
      (∀ e ∈ es, T.rows.lookup e.1 = some e.2) ∧ R.rows = es.map fun e => T.line e.1 e.2 := by
  have hnames : ∀ iter ∈ codition.entries, SqlWhere.IsName E.reserved iter.1 :=
    fun iter hi => (hplain iter hi).1.1
  have hsent : (SqlCall.queryCondition s.set.sTableName codition).text ord =
      some (cstr (DBDataSet.queryConditionSql ord s.set.sTableName codition)) := if_neg hne
  have hcode := SqlCall.code_sent hsent h.edit.name.1 hnames fun iter hi => (hplain iter hi).2
  have htokens := SqlCall.tokens_cut hsent h.edit.name.1 hnames
  match hitems : (SqlCall.queryCondition s.set.sTableName codition).items ord with
  | [] => exact absurd hitems (SqlCall.items_ne_nil hsent)
  | [i] =>
    have hi : IsIdentifier E.reserved i.1 :=
      (hplain _ (SqlCall.mem_items (hitems ▸ List.mem_singleton_self i))).1
    have hread : readSelect E.reserved
        (cstr (DBDataSet.queryConditionSql ord s.set.sTableName codition)) =
        some (s.set.sTableName, i.1, cstr i.2) := by
      unfold readSelect
      rw [hcode, Option.bind_some, htokens, hitems]
      exact if_pos ⟨rfl, rfl, rfl, h.edit.name.1, hi.1, Or.inl rfl⟩
    exact E.select hread h.edit.name hi h.table hR
  | i :: j :: l =>
    -- behind the first condition is a comma
    rw [hitems, List.map_cons, List.map_cons, SqlCall.conditionTokens_cons_cons] at htokens
    rw [E.commas hcode htokens] at hR
    cases hR

/-- A select by condition brings rows of the table, each at most once. -/
theorem Sound.matching_eq (h : Sound db tname s T) {ord : HashOrder} {codition : UMap Str Str}
    (hplain : ∀ iter ∈ codition.entries, IsIdentifier E.reserved iter.1 ∧ 39 ∉ iter.2)
    (hfetches : s.Fetches db (.newCodition ord codition)) :
    ∃ es : List (Σ _ : Str, NullRow), (es.map (·.1)).Nodup ∧ (∀ e ∈ es, T.rows.lookup e.1 = some e.2) ∧
      s.matching db ord codition = es.map fun e => DBDataSet.fetchedRow T e.1 e.2 := by
  unfold matching DBDataSet.appended
  dsimp only
  by_cases hne : codition.entries = []
  · rw [if_pos hne]
    exact ⟨[], List.nodup_nil, nofun, rfl⟩
  rw [if_neg hne]
  have hshort := hfetches _ (if_neg hne)
  cases hfetch : E.fetch s.data db
      (cstr (DBDataSet.queryConditionSql ord s.set.sTableName codition)) with
  | none => exact ⟨[], List.nodup_nil, nofun, DBDataSet.fetched_of_refused hfetch⟩
  | some R =>
    obtain ⟨hcolumns, es, hnodup, hrows, hlines⟩ := h.fetch_condition hne hplain hfetch
    have hlen : ∀ values ∈ R.rows, values.length = R.columns.length := by
      intro values hvalues
      rw [hlines] at hvalues
      obtain ⟨e, -, rfl⟩ := List.mem_map.mp hvalues
      rw [Table.line, List.length_map, hcolumns]
    have hne' : R.columns ≠ [] := hcolumns ▸ List.ne_nil_of_mem h.edit.key
    refine ⟨es, hnodup, hrows, ?_⟩
    rw [DBDataSet.fetched_of_short hfetch hshort hne' hlen, hlines, hcolumns, List.map_map]
    rfl

/-- `New` by condition brings its rows. -/
theorem Sound.newCodition (h : Sound db tname s T) {ord : HashOrder} {codition : UMap Str Str}
    (hready : Ready db s (.newCodition ord codition)) :
    Sound db tname { s with set := s.set.append (s.matching db ord codition) } T := by
  obtain ⟨hplain, hfetches, hcomes⟩ := hready
  obtain ⟨es, hnodup, hes, hrows⟩ := h.matching_eq hplain hfetches
  have hbrought : (s.matching db ord codition).map s.set.rowKey = es.map (·.1) := by
    rw [hrows, List.map_map]
    apply List.map_congr_left
    intro e _
    exact DBDataSet.rowKey_fetchedRow h.edit h.key e.1 e.2
  have hthere : ∀ k ∈ es.map (·.1), k ∈ T.rows := by
    intro k hk
    obtain ⟨e, he, rfl⟩ := List.mem_map.mp hk
    exact UMap.mem_of_lookup (hes e he)
  refine h.append (fun row hrow => ?_) (fun k hk => ?_) ?_ fun k hk => (hcomes k hk).2
  · rw [hrows] at hrow
    obtain ⟨e, he, rfl⟩ := List.mem_map.mp hrow
    have hk : e.1 ∈ (s.matching db ord codition).map s.set.rowKey := hbrought ▸ List.mem_map_of_mem he
    exact ⟨DBDataSet.belongs_fetchedRow h.edit h.key (hcomes e.1 hk).1 e.2,
      DBDataSet.synced_fetchedRow h.edit h.key (hes e he)⟩
  · exact fun k' hk' => E.unique h.table (hthere k (hbrought ▸ hk)) hk'
  · -- keys of the table are unlike when they are not one
    rw [hbrought]
    refine hnodup.imp_of_mem fun {k k'} hk hk' hne halike => ?_
    rcases halike with heq | hsame | hsame
    · exact hne heq
    · exact hne (E.unique h.table (hthere k' hk') (hthere k hk) hsame)
    · exact hne (E.unique h.table (hthere k hk) (hthere k' hk') hsame).symm

/-- An assignment stays in its row. -/
theorem Sound.write (h : Sound db tname s T) {fieldName data : Str}
    (hready : Ready db s (.write fieldName data)) :
    ∃ set, s.set.write fieldName data = .ok set ∧ Sound db tname { s with set := set } T ∧
      set.setList.map set.rowKey = s.keys := by
  obtain ⟨hne, hkey, hdata, T0, hT0, hcolumn⟩ := hready
  obtain rfl : T0 = T := Option.some.inj (hT0.symm.trans h.table)
  have hrange := h.cursor.2.1 hne
  have hcall : s.set.write fieldName data = .ok { s.set with
      setList := s.set.setList.modify s.set.setIndex.toNat (DBDataSet.edited fieldName data) } := by
    unfold DBDataSet.write DBDataSet.index
    rw [if_neg hne, DBDataSet.modifyCurRow_of_inRange _ hrange, ok_bind,
      DBDataSet.modifyCurRow_of_inRange _ (DBDataSet.inRange_modify.mpr hrange)]
    dsimp only
    rw [List.modify_modify_eq]
    rfl
  have hkeys :
      (s.set.setList.modify s.set.setIndex.toNat (DBDataSet.edited fieldName data)).map
        s.set.rowKey = s.keys := DBDataSet.rowKeys_edited h.rows hkey _
  refine ⟨_, hcall, ?_, hkeys⟩
  refine ⟨h.opened, h.table, h.edit, h.key, fun row' hrow' => ?_, fun k hk => ?_, ?_,
    fun row' hrow' hold => ?_,
    h.cursor.1, fun _ => DBDataSet.inRange_modify.mpr hrange, fun hnil => ?_⟩
  · obtain ⟨row, hrow, rfl | rfl⟩ := mem_modify hrow'
    · exact (h.rows _ hrow).of_columns rfl rfl rfl
    · exact ((h.rows row hrow).edited hcolumn hkey hdata).of_columns rfl rfl rfl
  · exact h.apart k (hkeys ▸ hk)
  · exact (congrArg (List.Pairwise _) hkeys).mpr h.unlike
  · obtain ⟨row, hrow, rfl | rfl⟩ := mem_modify hrow'
    · exact h.synced _ hrow hold
    · exact (h.synced row hrow hold).edited (h.rows row hrow) hkey
  · have hlen := congrArg List.length hnil
    rw [List.length_modify] at hlen
    exact absurd (List.length_eq_zero_iff.mp hlen) hne

/-! ## Commits -/

/-- What a `Commit` does with a row: a row that was not new and had several
modified fields, or has an old key, is refused; any other is stored. -/
structure Written (d : DBDataSet) (T T' : Table) (row row' : DBDataRow) : Prop where
  texts : row'.rowList = row.rowList
  new : row'.bInsert = true ↔ row.bInsert = true ∧ d.rowKey row ∈ T.rows
  refused : row'.bInsert = true ∨ (row.bInsert = false ∧ 1 < row.modified.length) →
    T'.rows.lookup (d.rowKey row) = T.rows.lookup (d.rowKey row)
  stored : row'.bInsert = false → row.bInsert = true ∨ row.modified.length ≤ 1 →
    DBDataSet.Stored d T' row'

theorem serverAfter_refused {ord : HashOrder} {row : DBDataRow} (hold : row.bInsert = false)
    (hmany : 1 < row.modified.length) (before : Option NullRow) :
    DBDataSet.serverAfter ord row before = before := by
  have hlen : (row.walked ord).length = row.modified.length := (row.walked_perm ord).length_eq
  unfold DBDataSet.serverAfter
  rw [hold, if_neg Bool.false_ne_true]
  cases hw : row.walked ord with
  | nil => rfl
  | cons i l =>
    cases l with
    | nil =>
      rw [hw, List.length_singleton] at hlen
      omega
    | cons j l => rfl

variable {ord : HashOrder} {answers : List Bool} {d' : DBDataSet}

/-- Every row is written. -/
theorem Sound.written (h : Sound db tname s T) (hset : DBDataSet.Settles ord s.set T T' d')
    {row : DBDataRow} (hrow : row ∈ s.set.setList) :
    Written s.set T T' row (DBDataSet.rowAfter row (T.rows.lookup (s.set.rowKey row))) := by
  have hb := h.rows row hrow
  have hserver := hset.server row hrow
  have hmem : (T.rows.lookup (s.set.rowKey row)).isSome = true ↔ s.set.rowKey row ∈ T.rows :=
    AList.lookup_isSome
  refine ⟨rfl, ?_, fun hrefused => ?_, fun hdone hfew => ?_⟩
  · show (row.bInsert && _) = true ↔ _
    rw [Bool.and_eq_true, hmem]
  · rcases hrefused with hnew | ⟨hold, hmany⟩
    · obtain ⟨hnew, hsome⟩ := (Bool.and_eq_true _ _).mp hnew
      rw [hserver, DBDataSet.serverAfter, if_pos hnew]
      obtain ⟨r, hr⟩ := Option.isSome_iff_exists.mp hsome
      rw [hr]
      rfl
    · rw [hserver, serverAfter_refused hold hmany]
  · show DBDataSet.Stored s.set T' row
    cases hold : row.bInsert with
    | true =>
      have hnone : T.rows.lookup (s.set.rowKey row) = none := by
        have hflag : (row.bInsert && (T.rows.lookup (s.set.rowKey row)).isSome) = false := hdone
        rw [hold, Bool.true_and] at hflag
        exact Option.isNone_iff_eq_none.mp (Option.isSome_eq_false_iff.mp hflag)
      exact DBDataSet.stored_new hb (hset.shape.2.trans h.key) hold (hnone ▸ hserver)
    | false =>
      rw [hold] at hfew
      exact ((h.synced row hrow hold).after hb h.key hset.shape hold hserver).mono fun c _ =>
        Or.inr (hfew.resolve_left Bool.false_ne_true)

/-- Behind a `Commit` the set is still one of rows of the table. -/
theorem Sound.settled (h : Sound db tname s T) (hset : DBDataSet.Settles ord s.set T T' d')
    (hnames : d'.sTableName = s.set.sTableName ∧ d'.sKeyName = s.set.sKeyName)
    (hcursor : 0 ≤ d'.setIndex ∧ d'.CursorValid ∧ (d'.setList = [] → d'.setIndex = 0)) {data : E.State}
    (hdata : E.tables data = (E.tables s.data).put db s.set.sTableName T') :
    Sound db tname ⟨d', data⟩ T' := by
  have hmem : ∀ row' ∈ d'.setList, ∃ row ∈ s.set.setList,
      row' = DBDataSet.rowAfter row (T.rows.lookup (s.set.rowKey row)) := by
    rw [hset.rows]
    intro row' hrow'
    obtain ⟨row, hrow, rfl⟩ := List.mem_map.mp hrow'
    exact ⟨row, hrow, rfl⟩
  have hrowKey := DBDataSet.rowKey_congr hnames.2
  have hkeys : d'.setList.map d'.rowKey = s.keys := hset.keys hnames.2
  refine ⟨hnames.1.trans h.opened, ?_, ?_, ?_, fun row' hrow' => ?_, fun k hk => ?_, ?_,
    fun row' hrow' hold => ?_, hcursor⟩
  · show E.tables data db d'.sTableName = some T'
    rw [hdata, hnames.1, Database.put_self]
  · rw [hnames.1]
    exact h.edit.of_shape hset.shape
  · rw [hset.shape.2, hnames.2]
    exact h.key
  · obtain ⟨row, hrow, rfl⟩ := hmem row' hrow'
    have hb := h.rows row hrow
    refine DBDataSet.Belongs.of_columns ⟨hb.key, hb.columns, fun e he hsent => hb.texts e he ?_⟩
      hnames.1 hnames.2 hset.shape.1
    exact hsent.imp_left fun hnew => ((Bool.and_eq_true _ _).mp hnew).1
  · have hk' : k ∈ s.keys := hkeys ▸ hk
    rw [hnames.1]
    refine (h.apart k hk').of_rows fun k' hk'' => ?_
    rcases hset.mem hk'' with hold | hown
    · exact Or.inl hold
    · exact Or.inr ((eq_or_ne k' k).imp_right (h.unlike.forall hown hk'))
  · show (d'.setList.map d'.rowKey).Pairwise _
    rw [hkeys, hnames.1]
    exact h.unlike
  · obtain ⟨row, hrow, rfl⟩ := hmem row' hrow'
    have hsynced : DBDataSet.Synced s.set T' row := by
      cases hnew : row.bInsert with
      | true => exact ((h.written hset hrow).stored hold (Or.inl hnew)).mono fun _ _ => trivial
      | false => exact ((h.synced row hrow hnew).after (h.rows row hrow) h.key hset.shape hnew
          (hset.server row hrow)).mono fun _ => Or.inl
    obtain ⟨r, hr, htexts⟩ := hsynced
    refine ⟨r, ?_, ?_⟩
    · show T'.rows.lookup (d'.rowKey row) = some r
      rw [hrowKey, hr]
    · show ∀ c ∈ T'.columns, DBDataSet.Clean row c → (T'.cell (d'.rowKey row) r c).getD [] = _
      rw [hrowKey]
      exact htexts

/-- A `Commit` with the outcomes of the server settles the rows. -/
theorem Sound.commit (h : Sound db tname s T) (hanswers : Answers db s ord answers) :
    ∃ s' T', step db s (.commit ord answers) = some s' ∧
      E.tables s'.data = (E.tables s.data).put db s.set.sTableName T' ∧
      DBDataSet.Settles ord s.set T T' s'.set ∧ Sound db tname s' T' := by
  obtain ⟨⟨hSqlServer, d'⟩, hcommit, hagree⟩ := hanswers
  obtain ⟨T', hdata, hset⟩ := DBDataSet.commit_settles h.table h.edit h.key h.walk hcommit hagree
  obtain ⟨setIndex, hresult, hnil, hcons⟩ := DBDataSet.commit_eq ord { answers := answers } s.set
  have hset' := hcommit.symm.trans hresult
  have hlen : d'.setList.length = s.set.setList.length := by
    rw [hset.rows, List.length_map]
  have hempty : d'.setList = [] ↔ s.set.setList = [] := by
    rw [← List.length_eq_zero_iff, hlen, List.length_eq_zero_iff]
  obtain ⟨hnames, hindex⟩ :
      (d'.sTableName = s.set.sTableName ∧ d'.sKeyName = s.set.sKeyName) ∧ d'.setIndex = setIndex := by
    cases hset'
    exact ⟨⟨rfl, rfl⟩, rfl⟩
  refine ⟨⟨d', (E.serve s.data db (hSqlServer.ran.map (·.1))).1⟩, T', ?_, hdata, hset,
    h.settled hset hnames ⟨?_, fun hne => ?_, fun he => ?_⟩ hdata⟩
  · rw [step_of_fetches (fun _ hsql => by cases hsql)]
    unfold call
    dsimp only
    rw [hcommit]
    exact if_pos hagree
  · by_cases hlist : s.set.setList = []
    · rw [hindex, hnil hlist]
      exact h.cursor.1
    · rw [hindex]
      exact (hcons hlist).1
  · have hpos := hcons (mt hempty.mpr hne)
    rw [DBDataSet.InRange, hindex, hlen]
    exact hpos
  · rw [hindex, hnil (hempty.mp he)]
    exact h.cursor.2.2 (hempty.mp he)

/-! ## Sessions go through -/

/-- A call does nothing to other tables, nor to rows of the table that are not of the set, and
brings no row to the set but those that are asked for. -/
structure Frame (db tname : Str) (s : SetSession E) (op : SetSessionOp) (T : Table) (s' : SetSession E)
    (T' : Table) : Prop where
  tables : ∀ table ≠ tname, E.tables s'.data db table = E.tables s.data db table
  shape : T'.columns = T.columns ∧ T'.key = T.key
  rows : ∀ k ∉ s.keys, T'.rows.lookup k = T.rows.lookup k
  keys : ∀ k ∈ s'.keys, k ∈ s.keys ∨ k ∈ s.brought db op

theorem Frame.of_keys {op : SetSessionOp} {set : DBDataSet}
    (h : ∀ k ∈ set.setList.map set.rowKey, k ∈ s.keys ∨ k ∈ s.brought db op) :
    Frame db tname s op T { s with set := set } T :=
  ⟨fun _ _ => rfl, ⟨rfl, rfl⟩, fun _ _ => rfl, h⟩

/-- A key that comes to the table is one of the set. -/
theorem Frame.mem {op : SetSessionOp} {s' : SetSession E} (h : Frame db tname s op T s' T') {k : Str}
    (hk : k ∈ T'.rows) : k ∈ T.rows ∨ k ∈ s.keys := by
  by_cases hmem : k ∈ s.keys
  · exact Or.inr hmem
  · rw [← AList.lookup_isSome, h.rows k hmem, AList.lookup_isSome] at hk
    exact Or.inl hk

/-- A call made with care goes through and leaves the set one of rows of the table. -/
theorem sound_step {op : SetSessionOp} (h : Sound db tname s T) (hready : Ready db s op) :
    ∃ s', step db s op = some s' ∧ ∃ T', Sound db tname s' T' ∧ Frame db tname s op T s' T' := by
  cases op with
  | newKeyData k =>
    obtain ⟨set, hstep, hsound, hkeys⟩ := h.newKeyData hready
    refine ⟨{ s with set := set }, hstep, T, hsound, Frame.of_keys fun k' hk' => ?_⟩
    rw [hkeys] at hk'
    exact List.mem_append.mp hk'
  | newCodition ord codition =>
    have hstep : step db s (.newCodition ord codition) =
        some { s with set := s.set.append (s.matching db ord codition) } := by
      rw [step_of_fetches hready.2.1]
      exact congrArg (fun set => some { s with set := set }) DBDataSet.newCodition_eq
    refine ⟨_, hstep, T, h.newCodition hready, Frame.of_keys fun k hk => ?_⟩
    have hk' : k ∈ (s.set.setList ++ s.matching db ord codition).map s.set.rowKey := hk
    rw [List.map_append] at hk'
    exact List.mem_append.mp hk'
  | write fieldName data =>
    obtain ⟨set, hcall, hsound, hkeys⟩ := h.write hready
    refine ⟨{ s with set := set }, ?_, T, hsound, Frame.of_keys fun k hk => Or.inl (hkeys ▸ hk)⟩
    rw [step_of_fetches (fun _ hsql => by cases hsql)]
    exact congrArg s.withSet hcall
  | moveBeginRow =>
    refine ⟨_, step_of_fetches (fun _ hsql => by cases hsql), T, h.moveBeginRow,
      Frame.of_keys fun k hk => Or.inl ?_⟩
    unfold DBDataSet.moveBeginRow at hk
    split at hk
    · exact hk
    · exact hk
  | moveNextRow =>
    refine ⟨_, step_of_fetches (fun _ hsql => by cases hsql), T, h.moveNextRow,
      Frame.of_keys fun k hk => Or.inl ?_⟩
    unfold DBDataSet.moveNextRow at hk
    split at hk
    · exact hk
    · exact hk
  | clear =>
    exact ⟨_, step_of_fetches (fun _ hsql => by cases hsql), T, h.clear hready, Frame.of_keys nofun⟩
  | commit ord answers =>
    obtain ⟨s', T', hstep, hdata, hset, hsound⟩ := h.commit hready
    have hkeyName : s'.set.sKeyName = s.set.sKeyName := hsound.key.symm.trans (hset.shape.2.trans h.key)
    refine ⟨s', hstep, T', hsound, fun table hne => ?_, hset.shape, hset.other, fun k hk => Or.inl ?_⟩
    · rw [hdata, Database.put_other _ _ (h.opened ▸ hne)]
    · show k ∈ s.set.setList.map s.set.rowKey
      rw [← hset.keys hkeyName]
      exact hk

theorem answers_of_step {ord : HashOrder} {answers : List Bool} {s' : SetSession E}
    (h : step db s (.commit ord answers) = some s') : Answers db s ord answers := by
  rw [step_of_fetches (fun _ hsql => by cases hsql)] at h
  unfold call at h
  dsimp only at h
  cases hcommit : s.set.commit ord { answers := answers } with
  | error e =>
    rw [hcommit] at h
    cases h
  | ok r =>
    rw [hcommit] at h
    dsimp only at h
    split at h
    · next hagree => exact ⟨r, hcommit, hagree⟩
    · cases h

/-- A set just opened on a table. -/
theorem sound_new {data : E.State} {T : Table} {identity : Bool} (hT : E.tables data db tname = some T)
    (hedit : E.Editable db tname T) :
    Sound db tname ⟨DBDataSet.new tname (some (T.key, identity)), data⟩ T := by
  unfold DBDataSet.new
  rw [if_neg hedit.name.1.1]
  exact ⟨rfl, hT, hedit, rfl, nofun, nofun, List.Pairwise.nil, nofun, Int.le_refl 0,
    fun h => absurd rfl h,
    fun _ => rfl⟩

/-- A `Commit` goes through, with outcomes that the server gives; the rows of
the table under other keys stay as they are, and those of the set are written. -/
def WritesThrough (db : Str) (s : SetSession E) (ord : HashOrder) : Prop :=
  ∃ T, E.tables s.data db s.set.sTableName = some T ∧
    (∃ answers s', step db s (.commit ord answers) = some s') ∧
    ∀ answers s', step db s (.commit ord answers) = some s' →
      ∃ T', E.tables s'.data = (E.tables s.data).put db s.set.sTableName T' ∧
        (∀ k ∉ s.keys, T'.rows.lookup k = T.rows.lookup k) ∧
        List.Forall₂ (Written s.set T T') s.set.setList s'.set.setList

theorem Sound.writesThrough (h : Sound db tname s T) (ord : HashOrder) : s.WritesThrough db ord := by
  refine ⟨T, h.table, ?_, fun answers s' hstep => ?_⟩
  · obtain ⟨answers, hSqlServer, d', hcommit, hagree⟩ := DBDataSet.commit_answered E s.data db ord s.set
    obtain ⟨s', T', hstep, -⟩ := h.commit ⟨_, hcommit, hagree⟩
    exact ⟨answers, s', hstep⟩
  · obtain ⟨s'', T', hstep', hdata, hset, -⟩ := h.commit (answers_of_step hstep)
    obtain rfl : s'' = s' := Option.some.inj (hstep'.symm.trans hstep)
    refine ⟨T', hdata, hset.other, ?_⟩
    rw [hset.rows, List.forall₂_map_right_iff, List.forall₂_same]
    exact fun row hrow => h.written hset hrow

/-- **Writing through.**  However a set just opened on a table is used with
care, no call fails, and a `Commit` then stores each row of the set whole,
unless the key of a new row was there or several fields of an old one were
modified: for these the server keeps what it had. -/
theorem set_writesThrough {data : E.State} {T0 : Table} {identity : Bool}
    (hT0 : E.tables data db tname = some T0) (hedit : E.Editable db tname T0)
    {ops : List SetSessionOp} (hready : Within (step db) (Ready db)
      (⟨DBDataSet.new tname (some (T0.key, identity)), data⟩ : SetSession E) ops) (ord : HashOrder) :
    ∃ s, run (step db) (⟨DBDataSet.new tname (some (T0.key, identity)), data⟩ : SetSession E) ops =
      some s ∧
      s.set.sTableName = tname ∧ s.WritesThrough db ord := by
  have hsteps : ∀ (s : SetSession E) op, (∃ T, Sound db tname s T) → Ready db s op →
      ∃ s', step db s op = some s' ∧ ∃ T, Sound db tname s' T := by
    rintro s op ⟨T, h⟩ hready
    obtain ⟨s', hstep, T', hsound, -⟩ := sound_step h hready
    exact ⟨s', hstep, T', hsound⟩
  obtain ⟨s, hrun, T, hsound⟩ := run_of_within hsteps ops _ ⟨T0, sound_new hT0 hedit⟩ hready
  exact ⟨s, hrun, hsound.opened, hsound.writesThrough ord⟩

/-- A table with one row. -/
def oneName : Table where
  columns := [lit "id", lit "name"]
  key := lit "id"
  rows := UMap.insertNew (lit "1") (fun c => if c = lit "name" then some (lit "a") else none) ∅

def oneTable : Database := fun _ table => if table = lit "t" then some oneName else none

theorem editable_oneName : (QueryEngine.ofTables []).Editable (lit "game") (lit "t") oneName :=
  ⟨by decide +kernel, by decide +kernel, by decide, fun _ _ _ => rfl⟩

/-- A set just opened on the table. -/
def openedOne : SetSession (.ofTables []) :=
  ⟨DBDataSet.new (lit "t") (some (oneName.key, false)), oneTable⟩

/-- The row is found by its name and changed; the emptied set then makes a second one. -/
def edits : List SetSessionOp :=
  [.newCodition .plain (UMap.insertNew (lit "name") (lit "a") ∅), .write (lit "name") (lit "b"),
    .commit .plain [true], .clear, .newKeyData (lit "2"), .write (lit "name") (lit "c")]

theorem set_writesThrough_edits :
    Within (step (lit "game")) (Ready (lit "game")) openedOne edits ∧
    ∃ s, run (step (lit "game")) openedOne edits = some s ∧
      s.set.sTableName = lit "t" ∧ s.WritesThrough (lit "game") .plain := by
  have hready : Within (step (lit "game")) (Ready (lit "game")) openedOne edits := by decide +kernel
  have htable : (QueryEngine.ofTables []).tables oneTable (lit "game") (lit "t") = some oneName := rfl
  exact ⟨hready, set_writesThrough htable editable_oneName hready .plain⟩

end SetSession

end FuServer
