import FuServer.Lib.SqlEngine
import FuServer.Sql.Commit
import FuServer.Sql.Literals
import FuServer.Sql.SetList

/-!
# What a server makes of the built statements

`literals_iff` says when the text of a statement keeps its values; here such a
text is read as a server reads SQL.  An insertion is one, with its columns in
the order of the walk; an `update` is one where a single field is modified,
and no statement at all where two are.
-/

namespace FuServer

open Bytes SqlText SqlToken SqlTables
open SqlWhere (IsName tokens)

/-! ## Reading -/

namespace SqlCall

variable {reserved : List Str} {ord : HashOrder}

/-- A text with plain names and values is read off its cut. -/
theorem code_plain {call : SqlCall} {sent : Str} (h : call.text ord = some sent)
    (hplain : call.Plain ord) :
    code sent = some (call.cut ord id) := by
  obtain ⟨hnames, hvalues⟩ := hplain
  rw [sent_eq_meant h (fun n hn => (hnames n hn).1) fun v hv => (hvalues v hv).1,
    code_render_iff (spaced_cut ord id call), mem_codeText_iff h (Or.inr rfl), values_cut_id]
  refine ⟨?_, fun v hv => (hvalues v hv).2⟩
  rintro ⟨n, hn, h39⟩
  exact (hnames n hn).2.1 h39

theorem cut_insert {tableName : Str} {row : DBDataRow}
    (hne : (commitInsert tableName row).items ord ≠ []) :
    (commitInsert tableName row).cut ord id = insertCut (lit ",") tableName
      (((commitInsert tableName row).items ord).map (·.1))
        (((commitInsert tableName row).items ord).map (·.2)) := by
  unfold cut insertCut
  dsimp only
  rw [if_neg hne, List.map_map]
  simp only [List.append_assoc]
  rfl

/-- An insertion with at least one field is understood. -/
theorem parse_insert {tableName : Str} {row : DBDataRow}
    (hne : (commitInsert tableName row).items ord ≠ []) (ht : IsName reserved tableName)
    (hc : ∀ i ∈ (commitInsert tableName row).items ord, IsName reserved i.1) :
    parse reserved (tokens ((commitInsert tableName row).cut ord id)) =
      some (.insert tableName (((commitInsert tableName row).items ord).map (·.1))
        (((commitInsert tableName row).items ord).map (·.2))) := by
  rw [cut_insert hne]
  refine parse_insertCut comma ht (by simpa using hne) (fun c hm => ?_) (by simpa using hne)
  obtain ⟨i, hi, rfl⟩ := List.mem_map.mp hm
  exact hc i hi

/-- A modification of one field is understood. -/
theorem parse_modify {tableName keyName : Str} {row : DBDataRow} {i : Str × Str}
    (hi : (commitModify tableName keyName row).items ord = [i]) (ht : IsName reserved tableName)
    (hk : IsName reserved keyName) (hc : IsName reserved i.1) :
    parse reserved (tokens ((commitModify tableName keyName row).cut ord id)) =
      some (.update tableName [i] keyName (keyData keyName row)) := by
  have hcut : (commitModify tableName keyName row).cut ord id =
      updateCut (lit ", ") tableName [i] keyName (keyData keyName row) := by
    unfold cut updateCut updateHead
    dsimp only
    rw [hi]
    show listed (lit " ") _ [(i.1 ++ lit "=", i.2)] _ = listed (lit ", ") _ [(i.1 ++ [61], i.2)] _
    rw [listed, listed]
    simp only [List.append_assoc]
    rfl
  rw [hcut]
  refine parse_updateCut comma_blank ht (List.cons_ne_nil i []) (fun s hs => ?_) hk _
  rw [List.mem_singleton.mp hs]
  exact hc

/-- The tokens of a modification of two fields or more: nothing stands between its assignments. -/
theorem tokens_modify_more {tableName keyName : Str} {row : DBDataRow} {i j : Str × Str}
    {l : List (Str × Str)} (hi : (commitModify tableName keyName row).items ord = i :: j :: l)
    (ht : IsName reserved tableName) (hk : IsName reserved keyName)
    (hc : ∀ i ∈ (commitModify tableName keyName row).items ord, IsName reserved i.1) :
    ∃ ts, tokens ((commitModify tableName keyName row).cut ord id) =
      .word (lit "update") :: .word tableName :: .word (lit "set") :: .word i.1 :: .symbol 61 ::
        .value i.2 ::
        .word j.1 :: .symbol 61 :: ts := by
  have hcut : (commitModify tableName keyName row).cut ord id =
      updateCut (lit " ") tableName (i :: j :: l) keyName (keyData keyName row) := by
    unfold cut updateCut updateHead
    dsimp only
    rw [hi]
    simp only [List.append_assoc]
    rfl
  rw [hi] at hc
  rw [hcut]
  exact tokens_blankCut (SqlWhere.closed_concat (c := 32) (by decide) []) rfl ht hc hk
    (keyData keyName row)

/-- A query by key is understood. -/
theorem parse_query {tableName keyName tkeyData : Str} (hne : tkeyData ≠ [])
    (ht : IsName reserved tableName) (hk : IsName reserved keyName) :
    parseSelect reserved (tokens ((queryKey tableName keyName tkeyData).cut ord id)) =
      some (tableName, keyName, tkeyData) := by
  have hselect : SqlWhere.Closed (lit "select * from ") :=
    SqlWhere.closed_concat (c := 32) (by decide) (lit "select * from")
  have hwhere : SqlWhere.Closed (lit "where ") :=
    SqlWhere.closed_concat (c := 32) (by decide) (lit "where")
  have htext : lit "select * from " ++ tableName ++ lit " where " ++ keyName ++ lit "=" =
      lit "select * from " ++ ((tableName ++ [32]) ++ (lit "where " ++ (keyName ++ [61]))) := by
    simp only [List.append_assoc]
    rfl
  have htokens : tokens ((queryKey tableName keyName tkeyData).cut ord id) =
      [.word (lit "select"), .symbol 42, .word (lit "from"), .word tableName, .word (lit "where"),
        .word keyName,
        .symbol 61, .value tkeyData, .symbol 59] := by
    unfold cut
    dsimp only [id]
    rw [if_neg hne, SqlWhere.tokens_cons, htext, hselect, SqlWhere.closed_concat (by decide) tableName,
      ht.scan (c := 32) (by decide), hwhere, hk.scan (c := 61) (by decide)]
    rfl
  rw [htokens, parseSelect, if_pos ⟨rfl, rfl, rfl, ht, hk, Or.inr rfl⟩]

end SqlCall

namespace DBDataSet

/-! ## Running -/

section Run

variable {E : QueryEngine} {db : Str} {s : E.State} {ord : HashOrder} {d : DBDataSet}
    {row : DBDataRow} {T T' : Table}
/-- The key of a row. -/
def rowKey (d : DBDataSet) (row : DBDataRow) : Str := SqlCall.keyData d.sKeyName row

/-- The texts of a row, by column. -/
def cells (row : DBDataRow) : NullRow := fun c => (row.rowList.lookup c).map (·.sData)

/-- A row of the table: it has a key, its fields are columns, and these take the texts that are
sent of it. -/
structure Belongs (E : QueryEngine) (db : Str) (d : DBDataSet) (T : Table) (row : DBDataRow) : Prop where
  key : ∃ f, row.rowList.lookup d.sKeyName = some f ∧ f.bModify = false
  columns : ∀ e ∈ row.rowList.entries, e.1 ∈ T.columns
  texts : ∀ e ∈ row.rowList.entries, row.bInsert = true ∨ e.2.bModify = true ∨ e.1 = d.sKeyName →
    E.Accepts db d.sTableName e.1 e.2.sData

theorem Belongs.of_columns {d' : DBDataSet} (hb : Belongs E db d T row)
    (htable : d'.sTableName = d.sTableName) (hkey : d'.sKeyName = d.sKeyName)
    (h : T'.columns = T.columns) : Belongs E db d' T' row := by
  refine ⟨hkey ▸ hb.key, fun e he => h ▸ hb.columns e he, fun e he hsent => ?_⟩
  rw [htable]
  exact hb.texts e he (hkey ▸ hsent)

theorem dlookup_map {α : Type} (f : α → Str) (l : List (Σ _ : Str, α)) (c : Str) :
    (l.map fun e => (e.1, f e.2)).lookup c = (List.dlookup c l).map f := by
  induction l with
  | nil => rfl
  | cons e l ih =>
    obtain ⟨a, v⟩ := e
    rw [List.map_cons, List.lookup_cons]
    by_cases hc : c = a
    · subst hc
      simp
    · have hbeq : (c == a) = false := by simpa using hc
      have hrest : List.dlookup c ((⟨a, v⟩ : Σ _ : Str, α) :: l) = List.dlookup c l :=
        List.dlookup_cons_ne l _ hc
      rw [hrest, ← ih, hbeq]

/-- An insertion has the text of each field. -/
theorem lookup_items (tableName : Str) (row : DBDataRow) (c : Str) :
    ((SqlCall.commitInsert tableName row).items ord).lookup c = cells row c := by
  unfold SqlCall.items cells
  rw [dlookup_map, UMap.dlookup_order]

theorem rowKey_eq {f : DBDataField} (h : row.rowList.lookup d.sKeyName = some f) :
    d.rowKey row = f.sData := by
  have hmem := UMap.mem_of_lookup h
  unfold rowKey SqlCall.keyData DBDataRow.atField
  rw [UMap.insertNew, if_pos hmem, h]
  rfl

theorem cells_key (hb : Belongs E db d T row) : cells row d.sKeyName = some (d.rowKey row) := by
  obtain ⟨f, hf, -⟩ := hb.key
  rw [rowKey_eq hf, cells, hf]
  rfl

/-- The key can be sent. -/
theorem Belongs.rowKey_accepts (hb : Belongs E db d T row) :
    E.Accepts db d.sTableName d.sKeyName (d.rowKey row) := by
  obtain ⟨f, hf, -⟩ := hb.key
  rw [rowKey_eq hf]
  exact hb.texts ⟨d.sKeyName, f⟩ (UMap.mem_entries.mpr hf) (Or.inr (Or.inr rfl))

theorem mark_notMem {reserved : List Str} {w : Str} (h : IsName reserved w) : 0 ∉ w ∧ 39 ∉ w ∧ 59 ∉ w :=
  ⟨h.notMem (by decide), h.notMem (by decide), h.notMem (by decide)⟩

/-! ### A new row -/

theorem mem_insertItems {i : Str × Str} (h : i ∈ (SqlCall.commitInsert d.sTableName row).items ord) :
    ∃ e ∈ row.rowList.entries, i = (e.1, e.2.sData) := by
  obtain ⟨e, he, rfl⟩ := List.mem_map.mp h
  exact ⟨e, ord.mem_order.mp he, rfl⟩

theorem nodup_insertItems : (((SqlCall.commitInsert d.sTableName row).items ord).map (·.1)).Nodup := by
  have hkeys := UMap.nodupKeys_order ord row.rowList
  show (((ord.order row.rowList.entries).map fun iter => (iter.1, iter.2.sData)).map _).Nodup
  rw [List.map_map]
  exact hkeys

/-- The columns of an insertion are columns of the table. -/
theorem Belongs.insertItem (hb : Belongs E db d T row) (hT : E.Editable db d.sTableName T)
    {i : Str × Str} (h : i ∈ (SqlCall.commitInsert d.sTableName row).items ord) :
    i.1 ∈ T.columns ∧ IsIdentifier E.reserved i.1 := by
  obtain ⟨e, he, rfl⟩ := mem_insertItems h
  exact ⟨hb.columns e he, hT.columns _ (hb.columns e he)⟩

/-- They take the texts of the row. -/
theorem Belongs.insertTakes (hb : Belongs E db d T row) (hT : E.Editable db d.sTableName T)
    (hnew : row.bInsert = true) (ord : HashOrder) :
    T.Takes E.reserved (E.takes db d.sTableName)
      ((SqlCall.commitInsert d.sTableName row).items ord) := by
  refine ⟨nodup_insertItems, fun i hi => hb.insertItem hT hi, fun i hi => ?_⟩
  obtain ⟨e, he, rfl⟩ := mem_insertItems hi
  exact (hb.texts e he (Or.inl hnew)).2.2

theorem plain_insert (hT : E.Editable db d.sTableName T) (hb : Belongs E db d T row)
    (hnew : row.bInsert = true) :
    (SqlCall.commitInsert d.sTableName row).Plain ord := by
  constructor
  · intro n hn
    rcases List.mem_append.mp hn with hn | hn
    · rw [List.mem_singleton.mp hn]
      exact mark_notMem hT.name.1
    · obtain ⟨i, hi, rfl⟩ := List.mem_map.mp hn
      exact mark_notMem (hb.insertItem hT hi).2.1
  · intro v hv
    rw [SqlCall.values, List.append_nil] at hv
    obtain ⟨i, hi, rfl⟩ := List.mem_map.mp hv
    obtain ⟨e, he, rfl⟩ := mem_insertItems hi
    obtain ⟨h0, h39, -⟩ := hb.texts e he (Or.inl hnew)
    exact ⟨h0, h39⟩

/-- The statement for a new row is read as the insertion of its fields. -/
theorem read_insertSql (hT : E.Editable db d.sTableName T) (hb : Belongs E db d T row)
    (hnew : row.bInsert = true) (ord : HashOrder) :
    SqlTables.read E.reserved (cstr (insertSql ord d.sTableName row)) =
      some (.insert d.sTableName (((SqlCall.commitInsert d.sTableName row).items ord).map (·.1))
        (((SqlCall.commitInsert d.sTableName row).items ord).map (·.2))) := by
  have hne : (SqlCall.commitInsert d.sTableName row).items ord ≠ [] := by
    intro hnil
    have hlook : ((SqlCall.commitInsert d.sTableName row).items ord).lookup d.sKeyName =
        some (d.rowKey row) :=
      (lookup_items d.sTableName row d.sKeyName).trans (cells_key hb)
    rw [hnil] at hlook
    cases hlook
  have hcode : code (cstr (insertSql ord d.sTableName row)) =
      some ((SqlCall.commitInsert d.sTableName row).cut ord id) :=
        SqlCall.code_plain rfl (plain_insert hT hb hnew)
  unfold SqlTables.read
  rw [hcode, Option.bind_some, SqlCall.parse_insert hne hT.name.1 fun i hi => (hb.insertItem hT hi).2.1]

/-! ### A row that is not new -/

theorem mem_walked {i : Str × Str} (h : i ∈ row.walked ord) :
    ∃ e ∈ row.rowList.entries, e.2.bModify = true ∧ i = (e.1, e.2.sData) := by
  obtain ⟨e, he, rfl⟩ := List.mem_map.mp h
  obtain ⟨he, hm⟩ := List.mem_filter.mp he
  exact ⟨e, ord.mem_order.mp he, hm, rfl⟩

/-- The key of a row is not modified. -/
theorem Belongs.walked_ne (hb : Belongs E db d T row) {i : Str × Str} (hi : i ∈ row.walked ord) :
    i.1 ≠ d.sKeyName := by
  obtain ⟨e, he, hm, rfl⟩ := mem_walked hi
  obtain ⟨f, hf, hclean⟩ := hb.key
  intro hkey
  have hlook : row.rowList.lookup d.sKeyName = some e.2 := UMap.mem_entries.mp (hkey ▸ he)
  rw [hf] at hlook
  obtain rfl := Option.some.inj hlook
  rw [hclean] at hm
  cases hm

/-- The columns of an update are columns of the table, and take its texts. -/
theorem Belongs.walkedItem (hb : Belongs E db d T row) {i : Str × Str} (hi : i ∈ row.walked ord) :
    i.1 ∈ T.columns ∧ E.Accepts db d.sTableName i.1 i.2 := by
  obtain ⟨e, he, hm, rfl⟩ := mem_walked hi
  exact ⟨hb.columns e he, hb.texts e he (Or.inr (Or.inl hm))⟩

theorem plain_modify (hT : E.Editable db d.sTableName T) (hkey : T.key = d.sKeyName)
    (hb : Belongs E db d T row) :
    (SqlCall.commitModify d.sTableName d.sKeyName row).Plain ord := by
  constructor
  · intro n hn
    rcases List.mem_append.mp hn with hn | hn
    · rcases List.mem_cons.mp hn with rfl | hn
      · exact mark_notMem hT.name.1
      · rw [List.mem_singleton.mp hn, ← hkey]
        exact mark_notMem (hT.columns _ hT.key).1
    · obtain ⟨i, hi, rfl⟩ := List.mem_map.mp hn
      exact mark_notMem (hT.columns _ (hb.walkedItem hi).1).1
  · intro v hv
    rcases List.mem_append.mp hv with hv | hv
    · obtain ⟨i, hi, rfl⟩ := List.mem_map.mp hv
      obtain ⟨-, h0, h39, -⟩ := hb.walkedItem hi
      exact ⟨h0, h39⟩
    · rw [List.mem_singleton.mp hv]
      obtain ⟨h0, h39, -⟩ := hb.rowKey_accepts
      exact ⟨h0, h39⟩

/-- The statement for an old row is cut at its values. -/
theorem code_modifySql (hT : E.Editable db d.sTableName T) (hkey : T.key = d.sKeyName)
    (hb : Belongs E db d T row) {sqlStr : Str}
    (hsql : modifySql ord d.sTableName d.sKeyName row = some sqlStr) :
    code (cstr sqlStr) = some ((SqlCall.commitModify d.sTableName d.sKeyName row).cut ord id) := by
  have hsent : (SqlCall.commitModify d.sTableName d.sKeyName row).text ord = some (cstr sqlStr) := by
    show (modifySql ord d.sTableName d.sKeyName row).map cstr = _
    rw [hsql]
    rfl
  exact SqlCall.code_plain hsent (plain_modify hT hkey hb)

/-! ### What the server does -/

/-- What the server has under the key of a row behind its statement. -/
def serverAfter (ord : HashOrder) (row : DBDataRow) (before : Option NullRow) : Option NullRow :=
  if row.bInsert = true then before.or (some (cells row))
  else
    match row.walked ord with
    | [i] => before.map fun r c => ([i].lookup c).or (r c)
    | _ => before

/-- A server takes a new row whose key is not there, and an old one with one modified field. -/
def taken (ord : HashOrder) (row : DBDataRow) (before : Option NullRow) : Bool :=
  if row.bInsert = true then before.isNone else (row.walked ord).length = 1

/-- The table behind the statements of rows: each has done its part under its key. -/
structure Settled (ord : HashOrder) (d : DBDataSet) (rows : List DBDataRow) (T T' : Table) : Prop where
  shape : T'.columns = T.columns ∧ T'.key = T.key
  other : ∀ k ∉ rows.map d.rowKey, T'.rows.lookup k = T.rows.lookup k
  server : ∀ row ∈ rows, T'.rows.lookup (d.rowKey row) =
    serverAfter ord row (T.rows.lookup (d.rowKey row))

/-- A statement that is refused leaves the table. -/
theorem settled_refused (h : serverAfter ord row (T.rows.lookup (d.rowKey row)) =
    T.rows.lookup (d.rowKey row)) :
    Settled ord d [row] T T := by
  refine ⟨⟨rfl, rfl⟩, fun _ _ => rfl, fun r hr => ?_⟩
  rw [List.mem_singleton.mp hr, h]

/-- A statement that is carried out changes the row under the key. -/
theorem settled_sets {r : NullRow} (hsets : T.Sets T' (d.rowKey row) r)
    (h : serverAfter ord row (T.rows.lookup (d.rowKey row)) = some r) : Settled ord d [row] T T' := by
  refine ⟨⟨hsets.columns, hsets.key⟩, fun k hk => ?_, fun r hr => ?_⟩
  · rw [List.map_singleton, List.mem_singleton] at hk
    exact hsets.other k hk
  · rw [List.mem_singleton.mp hr, h, hsets.self]

variable (hT : E.tables s db d.sTableName = some T) (hedit : E.Editable db d.sTableName T)
  (hkey : T.key = d.sKeyName) (hb : Belongs E db d T row)
    (hapart : E.Apart db d.sTableName T (d.rowKey row))
include hT hedit hkey hb hapart

theorem exec_insert (hnew : row.bInsert = true) :
    (E.exec s db (cstr (insertSql ord d.sTableName row))).2 =
      taken ord row (T.rows.lookup (d.rowKey row)) ∧
      ∃ T', E.tables (E.exec s db (cstr (insertSql ord d.sTableName row))).1 =
        (E.tables s).put db d.sTableName T' ∧ Settled ord d [row] T T' := by
  have hread := read_insertSql hedit hb hnew ord
  have htakes := hb.insertTakes hedit hnew ord
  have hlook : ((SqlCall.commitInsert d.sTableName row).items ord).lookup T.key =
      some (d.rowKey row) := by
    rw [hkey]
    exact (lookup_items d.sTableName row d.sKeyName).trans (cells_key hb)
  unfold taken
  rw [if_pos hnew]
  by_cases hmem : d.rowKey row ∈ T.rows
  · obtain ⟨hflag, htables⟩ := E.duplicate hread hedit.name hT htakes hlook hmem
    obtain ⟨r, hr⟩ := UMap.exists_lookup hmem
    refine ⟨by rw [hflag, hr]; rfl, T, ?_, settled_refused ?_⟩
    · rw [htables, Database.put_eq_self hT]
    · rw [serverAfter, if_pos hnew, hr]
      rfl
  · have hnone : T.rows.lookup (d.rowKey row) = none := AList.lookup_eq_none.mpr hmem
    have hunlike : ∀ k' ∈ T.rows, E.same db d.sTableName k' (d.rowKey row) = false := by
      intro k' hk'
      refine Bool.eq_false_iff.mpr fun hsame => hmem ?_
      rw [← hapart k' hk' hsame]
      exact hk'
    have hrest : ∀ c ∈ T.columns, c ∉ ((SqlCall.commitInsert d.sTableName row).items ord).map (·.1) →
        E.optional db d.sTableName c = true := by
      intro c hc hnot
      refine hedit.optional c hc fun hck => hnot ?_
      obtain ⟨f, hf, -⟩ := hb.key
      have hfield := ord.mem_order.mpr (UMap.mem_entries.mpr hf)
      exact List.mem_map.mpr ⟨_, List.mem_map.mpr ⟨_, hfield, rfl⟩, (hck.trans hkey).symm⟩
    obtain ⟨hflag, T', htables, hsets⟩ := E.insert hread hedit.name hT htakes hrest hlook hunlike
    refine ⟨by rw [hflag, hnone]; rfl, T', htables, settled_sets hsets ?_⟩
    rw [serverAfter, if_pos hnew, hnone, Option.none_or]
    congr 1
    funext c
    exact (lookup_items d.sTableName row c).symm

theorem exec_update (hold : row.bInsert = false) (hmem : d.rowKey row ∈ T.rows) {sqlStr : Str}
    (hsql : modifySql ord d.sTableName d.sKeyName row = some sqlStr) :
    (E.exec s db (cstr sqlStr)).2 = taken ord row (T.rows.lookup (d.rowKey row)) ∧
      ∃ T', E.tables (E.exec s db (cstr sqlStr)).1 = (E.tables s).put db d.sTableName T' ∧
        Settled ord d [row] T T' := by
  have hcode := code_modifySql hedit hkey hb hsql
  have hkeyName : IsIdentifier E.reserved d.sKeyName := hkey ▸ hedit.columns _ hedit.key
  have hname : ∀ i ∈ row.walked ord, IsIdentifier E.reserved i.1 := fun i hi =>
    hedit.columns _ (hb.walkedItem hi).1
  unfold taken
  rw [hold, if_neg Bool.false_ne_true]
  cases hw : row.walked ord with
  | nil => exact absurd hw (SqlCall.modifySql_eq ord d.sTableName d.sKeyName hsql).1
  | cons i l =>
    have hi : i ∈ row.walked ord := hw ▸ List.mem_cons_self
    cases l with
    | nil =>
      have hread : SqlTables.read E.reserved (cstr sqlStr) =
          some (.update d.sTableName [i] T.key (d.rowKey row)) := by
        unfold SqlTables.read
        rw [hcode, Option.bind_some,
          SqlCall.parse_modify hw hedit.name.1 hkeyName.1 (hname i hi).1, hkey]
        rfl
      have htakes : T.Takes E.reserved (E.takes db d.sTableName) [i] := by
        refine ⟨List.nodup_singleton _, fun j hj => ?_, fun j hj => ?_⟩
        · rw [List.mem_singleton.mp hj]
          exact ⟨(hb.walkedItem hi).1, hname i hi⟩
        · rw [List.mem_singleton.mp hj]
          exact (hb.walkedItem hi).2.2.2
      have hne : ∀ j ∈ [i], j.1 ≠ T.key := by
        intro j hj
        rw [List.mem_singleton.mp hj, hkey]
        exact hb.walked_ne hi
      obtain ⟨r, hr⟩ := UMap.exists_lookup hmem
      obtain ⟨hflag, T', htables, hsets⟩ := E.update hread hedit.name hT htakes hne (hkey ▸ hkeyName)
        (hkey ▸ hb.rowKey_accepts.2.2) hr hapart
      refine ⟨hflag, T', htables, settled_sets hsets ?_⟩
      rw [serverAfter, hold, if_neg Bool.false_ne_true, hw, hr]
      rfl
    | cons j l =>
      obtain ⟨ts, htokens⟩ :=
        SqlCall.tokens_modify_more hw hedit.name.1 hkeyName.1 fun i hi => (hname i hi).1
      obtain ⟨hflag, htables⟩ := E.blanks hcode htokens
      refine ⟨by rw [hflag]; simp, T, ?_, settled_refused ?_⟩
      · rw [htables, Database.put_eq_self hT]
      · rw [serverAfter, hold, if_neg Bool.false_ne_true, hw]

/-- The statement of a row does its part. -/
theorem exec_row (hthere : row.bInsert = false → d.rowKey row ∈ T.rows) {sqlStr : Str}
    (hsql : rowSql ord d row = some sqlStr) :
    (E.exec s db (cstr sqlStr)).2 = taken ord row (T.rows.lookup (d.rowKey row)) ∧
      ∃ T', E.tables (E.exec s db (cstr sqlStr)).1 = (E.tables s).put db d.sTableName T' ∧
        Settled ord d [row] T T' := by
  unfold rowSql at hsql
  cases hnew : row.bInsert with
  | true =>
    rw [if_pos hnew] at hsql
    cases hsql
    exact exec_insert hT hedit hkey hb hapart hnew
  | false =>
    rw [if_neg (Bool.eq_false_iff.mp hnew)] at hsql
    exact exec_update hT hedit hkey hb hapart hnew (hthere hnew) hsql

end Run

end DBDataSet

end FuServer
