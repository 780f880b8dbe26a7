import FuServer.Lib.SqlToken
import FuServer.Model.DataSet

/-!
# The literals of the built statements

The builders of DBSqlManager put each value between two quotes as it is.
`SqlCall.cut` is the statement each of them means; `literals_iff` says when
the text the server gets reads as that statement.
-/

namespace FuServer

open Bytes SqlToken

/-- A call that builds a statement from values. -/
inductive SqlCall
  | queryKey (tableName keyName tkeyData : Str)
  | queryCondition (tableName : Str) (condition : UMap Str Str)
  | commitModify (tableName keyName : Str) (row : DBDataRow)
  | commitInsert (tableName : Str) (row : DBDataRow)

namespace SqlCall

/-- The text that reaches the server, if the call sends one. -/
def text (ord : HashOrder) : SqlCall → Option Str
  | queryKey tableName keyName tkeyData => some (cstr (DBDataSet.querySql tableName keyName tkeyData))
  | queryCondition tableName condition =>
    if condition.entries = [] then none
    else some (cstr (DBDataSet.queryConditionSql ord tableName condition))
  | commitModify tableName keyName row => (DBDataSet.modifySql ord tableName keyName row).map cstr
  | commitInsert tableName row => some (cstr (DBDataSet.insertSql ord tableName row))

/-! ## What the statements mean -/

/-- The columns with their values, in the order they are written. -/
def items (ord : HashOrder) : SqlCall → List (Str × Str)
  | queryKey _ _ _ => []
  | queryCondition _ condition => (ord.order condition.entries).map fun iter => (iter.1, iter.2)
  | commitModify _ _ row =>
    ((ord.order row.rowList.entries).filter (·.2.bModify)).map fun iter => (iter.1, iter.2.sData)
  | commitInsert _ row => (ord.order row.rowList.entries).map fun iter => (iter.1, iter.2.sData)

/-- The value of the key column of a row. -/
def keyData (keyName : Str) (row : DBDataRow) : Str :=
  ((row.atField keyName).rowList.lookup keyName).elim [] (·.sData)

/-- The names in the statement: the table, the key column, the columns. -/
def names (ord : HashOrder) (call : SqlCall) : List Str :=
  (match call with
    | queryKey tableName keyName tkeyData => if tkeyData = [] then [tableName] else [tableName, keyName]
    | queryCondition tableName _ => [tableName]
    | commitModify tableName keyName _ => [tableName, keyName]
    | commitInsert tableName _ => [tableName]) ++ (call.items ord).map (·.1)

/-- The values in the statement, in the order they are written. -/
def values (ord : HashOrder) (call : SqlCall) : List Str :=
  (call.items ord).map (·.2) ++
    match call with
    | queryKey _ _ tkeyData => if tkeyData = [] then [] else [tkeyData]
    | queryCondition _ _ => []
    | commitModify _ keyName row => [keyData keyName row]
    | commitInsert _ _ => []

/-- `n=` before its value. -/
def assignments (f : Str → Str) (l : List (Str × Str)) : List (Str × Str) :=
  l.map fun i => (f i.1 ++ lit "=", f i.2)

/-- The statement cut at its literals, with `f` applied to each name and value. -/
def cut (ord : HashOrder) (f : Str → Str) (call : SqlCall) : Cut :=
  match call with
  | queryKey tableName keyName tkeyData =>
    if tkeyData = [] then (lit "select * from " ++ f tableName ++ lit ";", [])
    else
      (lit "select * from " ++ f tableName ++ lit " where " ++ f keyName ++ lit "=",
        [(f tkeyData, lit ";")])
  | queryCondition tableName _ =>
    listed (lit ", ") (lit "select * from " ++ f tableName ++ lit " where ")
      (assignments f (call.items ord)) (lit " ", [])
  | commitModify tableName keyName row =>
    listed (lit " ") (lit "update " ++ f tableName ++ lit " set ") (assignments f (call.items ord))
      (lit " where " ++ f keyName ++ lit "=", [(f (keyData keyName row), lit ";")])
  | commitInsert tableName _ =>
    let l := call.items ord
    if l = [] then (lit "insert into " ++ f tableName ++ lit ") values);", [])
    else
      listed (lit ",")
        (lit "insert into " ++ f tableName ++ lit "(" ++ (lit ",").intercalate (l.map fun i => f i.1) ++
          lit ") values(")
        (l.map fun i => ([], f i.2)) (lit ");", [])

/-- The text reads as the statement `e`, and nothing follows a `;` outside the literals. -/
def ReadsAs (text : Str) (e : Cut) : Prop := code text = some e ∧ 59 ∉ e.codeText.dropLast

instance (text : Str) (e : Cut) : Decidable (ReadsAs text e) := inferInstanceAs (Decidable (_ ∧ _))

/-- Names without NUL, quote or `;`, values without NUL or quote. -/
def Plain (ord : HashOrder) (call : SqlCall) : Prop :=
  (∀ n ∈ call.names ord, 0 ∉ n ∧ 39 ∉ n ∧ 59 ∉ n) ∧ ∀ v ∈ call.values ord, 0 ∉ v ∧ 39 ∉ v

/-! ## The text as a cut -/

/-- A condition query that is sent has a condition. -/
theorem items_ne_nil {ord : HashOrder} {tableName : Str} {condition : UMap Str Str} {sent : Str}
    (h : (queryCondition tableName condition).text ord = some sent) :
    (queryCondition tableName condition).items ord ≠ [] := by
  intro hnil
  unfold text at h
  dsimp only at h
  split at h
  · cases h
  · next hc =>
    have hlen := congrArg List.length hnil
    simp only [items, List.length_map, (ord.perm _).length_eq] at hlen
    exact hc (List.length_eq_zero_iff.mp hlen)

/-- The last separator gives way to `c`. -/
theorem setLast_flatMap (init pre : Str) (a c : UInt8) {l : List Str} (h : l ≠ []) :
    DBDataSet.setLast (init ++ l.flatMap fun x => pre ++ x ++ [a]) c =
      init ++ (pre ++ ([a] ++ pre).intercalate l ++ [c]) := by
  unfold DBDataSet.setLast
  rw [flatMap_eq_intercalate pre [a] h, ← List.append_assoc init, List.dropLast_concat]
  simp only [List.append_assoc]

theorem foldl_format {α : Type} (fmt : α → Str) (l : List α) (init : Str) :
    l.foldl (fun s iter => s ++ fmt iter) init = init ++ l.flatMap fmt := by
  rw [List.foldl_append_eq_append, List.flatMap_def]

theorem querySql_eq (ord : HashOrder) (tableName keyName tkeyData : Str) :
    DBDataSet.querySql tableName keyName tkeyData =
      render ((queryKey tableName keyName tkeyData).cut ord cstr) := by
  have hselect : fuStringFormat (lit "select * from %s") [tableName] =
      lit "select * from " ++ (cstr tableName ++ []) := rfl
  have hwhere : fuStringFormat (lit " where %s='%s'") [keyName, tkeyData] =
      lit " where " ++ (cstr keyName ++ (lit "='" ++ (cstr tkeyData ++ lit "'"))) := rfl
  unfold DBDataSet.querySql cut
  dsimp only
  rw [hselect, hwhere, List.append_nil]
  by_cases h : tkeyData = []
  · rw [if_neg (not_not.mpr h), if_pos h, render_nil]
  · rw [if_pos h, if_neg h, render_cons, render_nil]
    simp only [List.append_assoc]
    rfl

theorem map_itemText_assignments (f : Str → Str) (l : List (Str × Str)) :
    (assignments f l).map itemText = l.map fun i => f i.1 ++ lit "='" ++ f i.2 ++ lit "'" := by
  unfold assignments
  rw [List.map_map]
  apply List.map_congr_left
  intro i _
  show f i.1 ++ lit "=" ++ 39 :: f i.2 ++ [39] = _
  simp only [List.append_assoc]
  rfl

/-- Assignments that are written with `pre` before and `suf` behind each. -/
theorem flatMap_assignments (pre suf : Str) (l : List (Str × Str)) :
    (l.flatMap fun i => pre ++ (cstr i.1 ++ lit "='" ++ cstr i.2 ++ lit "'") ++ suf) =
      ((assignments cstr l).map itemText).flatMap fun x => pre ++ x ++ suf := by
  rw [map_itemText_assignments, List.flatMap_map]

theorem queryConditionSql_eq (ord : HashOrder) (tableName : Str) {condition : UMap Str Str}
    (h : (queryCondition tableName condition).items ord ≠ []) :
    DBDataSet.queryConditionSql ord tableName condition =
      render ((queryCondition tableName condition).cut ord cstr) := by
  have hselect : fuStringFormat (lit "select * from %s where") [tableName] =
      lit "select * from " ++ (cstr tableName ++ lit " where") := rfl
  have hfmt : (fun iter : Σ _ : Str, Str => fuStringFormat (lit " %s='%s',") [iter.1, iter.2]) =
      fun iter =>
      lit " " ++ (cstr iter.1 ++ lit "='" ++ cstr iter.2 ++ lit "'") ++ lit "," := by
    funext iter
    simp only [List.append_assoc]
    rfl
  have hitems : ((ord.order condition.entries).flatMap fun iter =>
      lit " " ++ (cstr iter.1 ++ lit "='" ++ cstr iter.2 ++ lit "'") ++ lit ",") =
      ((queryCondition tableName condition).items ord).flatMap fun i =>
        lit " " ++ (cstr i.1 ++ lit "='" ++ cstr i.2 ++ lit "'") ++ lit "," := by
    simp only [items, List.flatMap_map]
  unfold DBDataSet.queryConditionSql cut
  dsimp only
  have hne : assignments cstr ((queryCondition tableName condition).items ord) ≠ [] := by
    simpa [assignments] using h
  rw [hselect, foldl_format, hfmt, hitems, flatMap_assignments, show lit "," = [44] from rfl,
    setLast_flatMap _ _ _ _ (by simpa using hne), render_listed _ _ hne, render_nil]
  simp only [List.append_assoc]
  rfl

theorem modifySql_eq (ord : HashOrder) (tableName keyName : Str) {row : DBDataRow} {sqlStr : Str}
    (h : DBDataSet.modifySql ord tableName keyName row = some sqlStr) :
    (commitModify tableName keyName row).items ord ≠ [] ∧
      sqlStr = render ((commitModify tableName keyName row).cut ord cstr) := by
  have hupdate : fuStringFormat (lit "update %s set ") [tableName] =
      lit "update " ++ (cstr tableName ++ lit " set ") := rfl
  have hwhere : ∀ data, fuStringFormat (lit "where %s='%s';") [keyName, data] =
      lit "where " ++ (cstr keyName ++ (lit "='" ++ (cstr data ++ lit "';"))) := fun _ => rfl
  have hfmt : (fun iter : Σ _ : Str,
    DBDataField => fuStringFormat (lit "%s='%s' ") [iter.1, iter.2.sData]) =
      fun iter => [] ++ (cstr iter.1 ++ lit "='" ++ cstr iter.2.sData ++ lit "'") ++ lit " " := by
    funext iter
    simp only [List.append_assoc, List.nil_append]
    rfl
  have hitems : (((ord.order row.rowList.entries).filter (·.2.bModify)).flatMap fun iter =>
      [] ++ (cstr iter.1 ++ lit "='" ++ cstr iter.2.sData ++ lit "'") ++ lit " ") =
      ((commitModify tableName keyName row).items ord).flatMap fun i =>
        [] ++ (cstr i.1 ++ lit "='" ++ cstr i.2 ++ lit "'") ++ lit " " := by
    simp only [items, List.flatMap_map]
  unfold DBDataSet.modifySql at h
  dsimp only at h
  split at h
  · cases h
  · next hne =>
    have hne' : (commitModify tableName keyName row).items ord ≠ [] := by simpa [items] using hne
    refine ⟨hne', ?_⟩
    have hassign : assignments cstr ((commitModify tableName keyName row).items ord) ≠ [] := by
      simpa [assignments] using hne'
    rw [← Option.some.inj h, hupdate, hwhere, foldl_format, hfmt, hitems, flatMap_assignments,
      flatMap_eq_intercalate _ _ (by simpa using hassign), List.append_nil]
    unfold cut
    dsimp only
    rw [render_listed _ _ hassign, render_cons, render_nil]
    simp only [List.append_assoc, List.nil_append]
    rfl

theorem insertSql_eq (ord : HashOrder) (tableName : Str) (row : DBDataRow) :
    DBDataSet.insertSql ord tableName row = render ((commitInsert tableName row).cut ord cstr) := by
  have hinsert : fuStringFormat (lit "insert into %s") [tableName] =
      lit "insert into " ++ (cstr tableName ++ []) := rfl
  have hkey : (fun iter : Σ _ : Str, DBDataField => fuStringFormat (lit "%s,") [iter.1]) =
      fun iter => [] ++ cstr iter.1 ++ lit "," := rfl
  have hdata : (fun iter : Σ _ : Str, DBDataField => fuStringFormat (lit "'%s',") [iter.2.sData]) =
      fun iter => [] ++ itemText ([], cstr iter.2.sData) ++ lit "," := by
    funext iter
    simp only [itemText, List.append_assoc, List.nil_append]
    rfl
  have hkeys : ((ord.order row.rowList.entries).flatMap fun iter => [] ++ cstr iter.1 ++ lit ",") =
      (((commitInsert tableName row).items ord).map fun i => cstr i.1).flatMap
        fun x => [] ++ x ++ lit "," := by
    simp only [items, List.map_map, List.flatMap_map]
    rfl
  have hdatas : ((ord.order row.rowList.entries).flatMap fun iter =>
      [] ++ itemText ([], cstr iter.2.sData) ++ lit ",") =
      ((((commitInsert tableName row).items ord).map fun i => ([], cstr i.2)).map itemText).flatMap
        fun x => [] ++ x ++ lit "," := by
    simp only [items, List.map_map, List.flatMap_map]
    rfl
  unfold DBDataSet.insertSql cut
  dsimp only
  rw [hinsert, foldl_format, foldl_format, hkey, hdata, hkeys, hdatas, List.append_nil]
  by_cases h : (commitInsert tableName row).items ord = []
  · rw [if_pos h, h, render_nil]
    simp only [List.append_assoc]
    rfl
  · rw [if_neg h, show lit "," = [44] from rfl, setLast_flatMap _ _ _ _ (by simpa using h),
      setLast_flatMap _ _ _ _ (by simpa using h), render_listed _ _ (by simpa using h), render_nil]
    simp only [List.append_assoc, List.nil_append]
    rfl

/-! ## Names and values -/

theorem values_cut (ord : HashOrder) (f : Str → Str) (call : SqlCall) :
    (call.cut ord f).values = (call.values ord).map f := by
  cases call with
  | queryKey tableName keyName tkeyData =>
    unfold cut values items
    dsimp only
    split
    · rfl
    · rfl
  | queryCondition tableName condition =>
    unfold cut values
    dsimp only
    rw [values_listed]
    simp [assignments, Cut.values]
  | commitModify tableName keyName row =>
    unfold cut values
    dsimp only
    rw [values_listed]
    simp [assignments, Cut.values]
  | commitInsert tableName row =>
    unfold cut values
    dsimp only
    split
    · next h => rw [h]; rfl
    · rw [values_listed]
      simp [Cut.values]

theorem spaced_cut (ord : HashOrder) (f : Str → Str) (call : SqlCall) : Spaced (call.cut ord f) := by
  have one : ∀ {c v c' : Str}, c' ≠ [] ∧ EndsQuote c' → Spaced (c, [(v, c')]) := by
    intro c v c' h p hp
    rw [List.mem_singleton.mp hp]
    exact h
  have none : ∀ {c : Str}, Spaced (c, []) := fun p hp => by cases hp
  have ends : ∀ {b : UInt8} {s : Str}, b ≠ 39 → b :: s ≠ [] ∧ EndsQuote (b :: s) :=
    fun hb => ⟨List.cons_ne_nil _ _, fun t h => hb (List.cons.inj h).1⟩
  cases call with
  | queryKey tableName keyName tkeyData =>
    unfold cut
    dsimp only
    split
    · exact none
    · exact one (ends (by decide))
  | queryCondition tableName condition =>
    exact spaced_listed _ _ (by decide) (fun _ => (ends (by decide)).2) (ends (by decide)) none
  | commitModify tableName keyName row =>
    exact spaced_listed _ _ (by decide) (fun _ => (ends (by decide)).2) (ends (by decide))
      (one (ends (by decide)))
  | commitInsert tableName row =>
    unfold cut
    dsimp only
    split
    · exact none
    · exact spaced_listed _ _ (by decide) (fun _ => (ends (by decide)).2) (ends (by decide)) none

/-- The bytes that may not stand in a name. -/
def Mark (b : UInt8) : Prop := b = 0 ∨ b = 39 ∨ b = 59

theorem Mark.notMem {b : UInt8} (hb : Mark b) {s : Str} (h : ∀ c ∈ s, c ≠ 0 ∧ c ≠ 39 ∧ c ≠ 59) :
    b ∉ s := by
  intro hm
  obtain ⟨h0, h39, h59⟩ := h b hm
  rcases hb with rfl | rfl | rfl
  · exact h0 rfl
  · exact h39 rfl
  · exact h59 rfl

/-- Up to its last byte, the code has no marks but those of the names. -/
def Framed (names : List Str) (code : (Str → Str) → Str) : Prop :=
  ∃ (body : (Str → Str) → Str) (last : UInt8), last ≠ 0 ∧ last ≠ 39 ∧
    (∀ f, code f = body f ++ [last]) ∧ ∀ f b, Mark b → (b ∈ body f ↔ ∃ n ∈ names, b ∈ f n)

theorem mem_assignments {f : Str → Str} {l : List (Str × Str)} {b : UInt8} (hb : Mark b) :
    (∃ x ∈ (assignments f l).map (·.1), b ∈ x) ↔ ∃ n ∈ l.map (·.1), b ∈ f n := by
  have heq : b ∉ lit "=" := hb.notMem (by decide +kernel)
  simp [assignments, heq]

theorem framed_queryKey (ord : HashOrder) (tableName keyName tkeyData : Str) :
    Framed ((queryKey tableName keyName tkeyData).names ord) fun f =>
      ((queryKey tableName keyName tkeyData).cut ord f).codeText := by
  unfold cut names items
  dsimp only
  split
  · refine ⟨fun f => lit "select * from " ++ f tableName, 59, by decide, by decide, fun f => ?_,
      fun f b hb => ?_⟩
    · exact List.append_nil _
    · have hselect : b ∉ lit "select * from " := hb.notMem (by decide +kernel)
      simp [hselect]
  · refine ⟨fun f => lit "select * from " ++ f tableName ++ lit " where " ++ f keyName ++ lit "=", 59,
      by decide, by decide, fun f => rfl, fun f b hb => ?_⟩
    have hselect : b ∉ lit "select * from " := hb.notMem (by decide +kernel)
    have hwhere : b ∉ lit " where " := hb.notMem (by decide +kernel)
    have heq : b ∉ lit "=" := hb.notMem (by decide +kernel)
    simp [hselect, hwhere, heq]

theorem framed_queryCondition {ord : HashOrder} {tableName : Str} {condition : UMap Str Str} {sent : Str}
    (h : (queryCondition tableName condition).text ord = some sent) :
    Framed ((queryCondition tableName condition).names ord) fun f =>
      ((queryCondition tableName condition).cut ord f).codeText := by
  have hne := items_ne_nil h
  refine ⟨fun f => lit "select * from " ++ f tableName ++ lit " where " ++ (lit ", ").intercalate
    ((assignments f ((queryCondition tableName condition).items ord)).map (·.1)),
      32, by decide, by decide,
    fun f => ?_, fun f b hb => ?_⟩
  · unfold cut
    dsimp only
    rw [codeText_listed _ _ (by simpa [assignments] using hne)]
    rfl
  · have hselect : b ∉ lit "select * from " := hb.notMem (by decide +kernel)
    have hwhere : b ∉ lit " where " := hb.notMem (by decide +kernel)
    have hcomma : b ∉ lit ", " := hb.notMem (by decide +kernel)
    simp only [List.mem_append, mem_intercalate hcomma, mem_assignments hb, hselect, hwhere, false_or,
      or_false, names, List.cons_append, List.nil_append, List.mem_cons, exists_eq_or_imp]

theorem framed_commitModify {ord : HashOrder} {tableName keyName : Str} {row : DBDataRow} {sent : Str}
    (h : (commitModify tableName keyName row).text ord = some sent) :
    Framed ((commitModify tableName keyName row).names ord) fun f =>
      ((commitModify tableName keyName row).cut ord f).codeText := by
  obtain ⟨sqlStr, hsql, -⟩ := Option.map_eq_some_iff.mp h
  obtain ⟨hne, -⟩ := modifySql_eq ord tableName keyName hsql
  refine ⟨fun f => lit "update " ++ f tableName ++ lit " set " ++ (lit " ").intercalate
    ((assignments f ((commitModify tableName keyName row).items ord)).map (·.1)) ++
      (lit " where " ++ f keyName ++ lit "="), 59, by decide, by decide, fun f => ?_, fun f b hb => ?_⟩
  · have htail : Cut.codeText (lit " where " ++ f keyName ++ lit "=",
      [(f (keyData keyName row), lit ";")]) =
        lit " where " ++ f keyName ++ lit "=" ++ [59] := rfl
    unfold cut
    dsimp only
    rw [codeText_listed _ _ (by simpa [assignments] using hne), htail]
    simp only [List.append_assoc]
  · have hupdate : b ∉ lit "update " := hb.notMem (by decide +kernel)
    have hset : b ∉ lit " set " := hb.notMem (by decide +kernel)
    have hwhere : b ∉ lit " where " := hb.notMem (by decide +kernel)
    have heq : b ∉ lit "=" := hb.notMem (by decide +kernel)
    have hblank : b ∉ lit " " := hb.notMem (by decide +kernel)
    simp only [List.mem_append, mem_intercalate hblank, mem_assignments hb, hupdate, hset, hwhere, heq,
      false_or, or_false, names, List.cons_append, List.nil_append, List.mem_cons, exists_eq_or_imp]
    exact or_assoc.trans (or_congr_right or_comm)

theorem framed_commitInsert (ord : HashOrder) (tableName : Str) (row : DBDataRow) :
    Framed ((commitInsert tableName row).names ord) fun f =>
      ((commitInsert tableName row).cut ord f).codeText := by
  by_cases hne : (commitInsert tableName row).items ord = []
  · refine ⟨fun f => lit "insert into " ++ f tableName ++ lit ") values)", 59, by decide, by decide,
      fun f => ?_, fun f b hb => ?_⟩
    · unfold cut
      dsimp only
      rw [if_pos hne]
      exact (List.append_nil _).trans (List.append_assoc _ (lit ") values)") [59]).symm
    · have hinsert : b ∉ lit "insert into " := hb.notMem (by decide +kernel)
      have hvalues : b ∉ lit ") values)" := hb.notMem (by decide +kernel)
      simp only [List.mem_append, hinsert, hvalues, false_or, or_false, names, hne, List.map_nil,
        List.append_nil, List.mem_singleton, exists_eq_left]
  · refine ⟨fun f => lit "insert into " ++ f tableName ++ lit "(" ++
      (lit ",").intercalate (((commitInsert tableName row).items ord).map fun i => f i.1) ++
        lit ") values(" ++ (lit ",").intercalate
          (((commitInsert tableName row).items ord).map fun _ => []) ++ lit ")",
            59, by decide, by decide,
      fun f => ?_, fun f b hb => ?_⟩
    · unfold cut
      dsimp only
      rw [if_neg hne, codeText_listed _ _ (by simpa using hne)]
      simp only [List.append_assoc, List.map_map]
      rfl
    · have hinsert : b ∉ lit "insert into " := hb.notMem (by decide +kernel)
      have hopen : b ∉ lit "(" := hb.notMem (by decide +kernel)
      have hvalues : b ∉ lit ") values(" := hb.notMem (by decide +kernel)
      have hclose : b ∉ lit ")" := hb.notMem (by decide +kernel)
      have hcomma : b ∉ lit "," := hb.notMem (by decide +kernel)
      simp only [List.mem_append, mem_intercalate hcomma, hinsert, hopen, hvalues, hclose, false_or,
        or_false, names, List.cons_append, List.nil_append, List.mem_cons, exists_eq_or_imp,
          List.mem_map,
        exists_exists_and_eq_and, List.not_mem_nil, and_false, exists_false]

theorem framed_cut {ord : HashOrder} {call : SqlCall} {sent : Str} (h : call.text ord = some sent) :
    Framed (call.names ord) fun f => (call.cut ord f).codeText := by
  cases call with
  | queryKey tableName keyName tkeyData => exact framed_queryKey ord tableName keyName tkeyData
  | queryCondition tableName condition => exact framed_queryCondition h
  | commitModify tableName keyName row => exact framed_commitModify h
  | commitInsert tableName row => exact framed_commitInsert ord tableName row

/-! ## Reading the text -/

/-- The cut only looks at `f` on the names and the values. -/
theorem cut_congr {ord : HashOrder} {call : SqlCall} {f g : Str → Str}
    (hnames : ∀ n ∈ call.names ord, f n = g n) (hvalues : ∀ v ∈ call.values ord, f v = g v) :
    call.cut ord f = call.cut ord g := by
  have hassign : assignments f (call.items ord) = assignments g (call.items ord) := by
    unfold assignments
    apply List.map_congr_left
    intro i hi
    rw [hnames i.1 (List.mem_append_right _ (List.mem_map_of_mem hi)),
      hvalues i.2 (List.mem_append_left _ (List.mem_map_of_mem hi))]
  cases call with
  | queryKey tableName keyName tkeyData =>
    unfold cut
    dsimp only
    by_cases hkey : tkeyData = []
    · have ht := hnames tableName (by simp [names, hkey])
      rw [if_pos hkey, if_pos hkey, ht]
    · have ht := hnames tableName (by simp [names, hkey])
      have hk := hnames keyName (by simp [names, hkey])
      have hd := hvalues tkeyData (by simp [values, items, hkey])
      rw [if_neg hkey, if_neg hkey, ht, hk, hd]
  | queryCondition tableName condition =>
    have ht := hnames tableName (by simp [names])
    unfold cut
    dsimp only
    rw [hassign, ht]
  | commitModify tableName keyName row =>
    have ht := hnames tableName (by simp [names])
    have hk := hnames keyName (by simp [names])
    have hd := hvalues (keyData keyName row) (by simp [values])
    unfold cut
    dsimp only
    rw [hassign, ht, hk, hd]
  | commitInsert tableName row =>
    have ht := hnames tableName (by simp [names])
    have hcols : ((commitInsert tableName row).items ord).map (fun i => f i.1) =
        ((commitInsert tableName row).items ord).map fun i => g i.1 := by
      apply List.map_congr_left
      intro i hi
      exact hnames i.1 (List.mem_append_right _ (List.mem_map_of_mem hi))
    have hdata : ((commitInsert tableName row).items ord).map (fun i => (([] : Str), f i.2)) =
        ((commitInsert tableName row).items ord).map fun i => ([], g i.2) := by
      apply List.map_congr_left
      intro i hi
      rw [hvalues i.2 (List.mem_append_left _ (List.mem_map_of_mem hi))]
    unfold cut
    dsimp only
    rw [ht, hcols, hdata]

/-- The text is the cut written out, with every name and value up to its first NUL. -/
theorem text_eq {ord : HashOrder} {call : SqlCall} {sent : Str} (h : call.text ord = some sent) :
    sent = cstr (render (call.cut ord cstr)) := by
  cases call with
  | queryKey tableName keyName tkeyData =>
    rw [← querySql_eq ord]
    exact (Option.some.inj h).symm
  | queryCondition tableName condition =>
    have hne := items_ne_nil h
    unfold text at h
    dsimp only at h
    split at h
    · cases h
    · rw [← queryConditionSql_eq ord tableName hne]
      exact (Option.some.inj h).symm
  | commitModify tableName keyName row =>
    obtain ⟨sqlStr, hsql, hsent⟩ := Option.map_eq_some_iff.mp h
    rw [← (modifySql_eq ord tableName keyName hsql).2]
    exact hsent.symm
  | commitInsert tableName row =>
    rw [← insertSql_eq ord]
    exact (Option.some.inj h).symm

theorem values_cut_id (ord : HashOrder) (call : SqlCall) : (call.cut ord id).values = call.values ord :=
  (values_cut ord id call).trans (List.map_id _)

/-- What is written out holds no NUL, so nothing of it is lost on the way. -/
theorem sent_eq_render {ord : HashOrder} {call : SqlCall} {sent : Str} (h : call.text ord = some sent) :
    sent = render (call.cut ord cstr) ∧ 0 ∉ sent := by
  obtain ⟨body, last, hlast0, -, hcode, hmem⟩ := framed_cut h
  have hcodeText : (call.cut ord cstr).codeText = body cstr ++ [last] := hcode cstr
  have hnoNul : NoNul (render (call.cut ord cstr)) := by
    intro b hb h0
    subst h0
    rw [mem_render (by decide), hcodeText, List.mem_append, hmem cstr 0 (Or.inl rfl), values_cut] at hb
    rcases hb with (⟨n, -, hn⟩ | hlast) | ⟨v, hv, h0⟩
    · exact noNul_cstr n 0 hn rfl
    · exact hlast0 (List.mem_singleton.mp hlast).symm
    · obtain ⟨w, -, rfl⟩ := List.mem_map.mp hv
      exact noNul_cstr w 0 h0 rfl
  have hsent : sent = render (call.cut ord cstr) := (text_eq h).trans (cstr_eq_self.mpr hnoNul)
  exact ⟨hsent, fun h0 => hnoNul 0 (hsent ▸ h0) rfl⟩

/-- Without a NUL in a name or a value the text is the statement that is meant. -/
theorem sent_eq_meant {ord : HashOrder} {call : SqlCall} {sent : Str} (h : call.text ord = some sent)
    (hnames : ∀ n ∈ call.names ord, 0 ∉ n) (hvalues : ∀ v ∈ call.values ord, 0 ∉ v) :
    sent = render (call.cut ord id) := by
  rw [(sent_eq_render h).1, cut_congr (g := id)]
  · exact fun n hn => cstr_eq_self.mpr fun c hc h0 => hnames n hn (h0 ▸ hc)
  · exact fun v hv => cstr_eq_self.mpr fun c hc h0 => hvalues v hv (h0 ▸ hc)

/-- Where a NUL or a quote stands in the statement that is meant. -/
theorem mem_codeText_iff {ord : HashOrder} {call : SqlCall} {sent : Str} (h : call.text ord = some sent)
    {b : UInt8} (hb : b = 0 ∨ b = 39) :
    b ∈ (call.cut ord id).codeText ↔ ∃ n ∈ call.names ord, b ∈ n := by
  obtain ⟨body, last, hlast0, hlast39, hcode, hmem⟩ := framed_cut h
  have hcodeText : (call.cut ord id).codeText = body id ++ [last] := hcode id
  have hmark : Mark b := hb.imp_right Or.inl
  have hne : b ≠ last := by
    rcases hb with rfl | rfl
    · exact hlast0.symm
    · exact hlast39.symm
  rw [hcodeText, List.mem_append, hmem id b hmark]
  simp [hne]

theorem semicolon_notMem_iff {ord : HashOrder} {call : SqlCall} {sent : Str}
    (h : call.text ord = some sent) :
    59 ∉ (call.cut ord id).codeText.dropLast ↔ ∀ n ∈ call.names ord, 59 ∉ n := by
  obtain ⟨body, last, -, -, hcode, hmem⟩ := framed_cut h
  have hcodeText : (call.cut ord id).codeText = body id ++ [last] := hcode id
  rw [hcodeText, List.dropLast_concat, hmem id 59 (Or.inr (Or.inr rfl))]
  simp

/-- **Which statements keep their values.**  The text a call sends reads as one
statement, each literal decoding to its value, exactly when no name and no
value brings a NUL or a quote and no name a `;`. -/
theorem literals_iff {ord : HashOrder} {call : SqlCall} {sent : Str} (h : call.text ord = some sent) :
    ReadsAs sent (call.cut ord id) ↔ call.Plain ord := by
  have hquote := mem_codeText_iff h (b := 39) (Or.inr rfl)
  have hspaced := spaced_cut ord id call
  constructor
  · rintro ⟨hread, hsingle⟩
    obtain ⟨-, hzero⟩ := sent_eq_render h
    have hnames0 : ∀ n ∈ call.names ord, 0 ∉ n := fun n hn h0 =>
      hzero (code_mem hread (Or.inl ((mem_codeText_iff h (Or.inl rfl)).mpr ⟨n, hn, h0⟩)))
    have hvalues0 : ∀ v ∈ call.values ord, 0 ∉ v := fun v hv h0 =>
      hzero (code_mem hread (Or.inr ⟨v, (values_cut_id ord call).symm ▸ hv, h0⟩))
    rw [sent_eq_meant h hnames0 hvalues0, code_render_iff hspaced, values_cut_id, hquote] at hread
    obtain ⟨hnames39, hvalues39⟩ := hread
    have hnames59 := (semicolon_notMem_iff h).mp hsingle
    constructor
    · intro n hn
      exact ⟨hnames0 n hn, fun h39 => hnames39 ⟨n, hn, h39⟩, hnames59 n hn⟩
    · intro v hv
      exact ⟨hvalues0 v hv, hvalues39 v hv⟩
  · rintro ⟨hnames, hvalues⟩
    have hmeant := sent_eq_meant h (fun n hn => (hnames n hn).1) fun v hv => (hvalues v hv).1
    constructor
    · rw [hmeant, code_render_iff hspaced, values_cut_id, hquote]
      refine ⟨?_, fun v hv => (hvalues v hv).2⟩
      rintro ⟨n, hn, h39⟩
      exact (hnames n hn).2.1 h39
    · exact (semicolon_notMem_iff h).mpr fun n hn => (hnames n hn).2.2

/-- A row with one field, new or modified, whose text is a quote. -/
def quoteRow : DBDataRow where
  rowList := UMap.insertNew (lit "name") { sData := lit "'", bModify := true } ∅

/-- A key that adds a condition of its own, and a quote as the value of each other builder. -/
theorem literals_broken :
    (∃ sent, (queryKey (lit "t") (lit "id") (lit "x' or '1'='1")).text .plain = some sent ∧
      sent = lit "select * from t where id='x' or '1'='1';" ∧
      ¬ ReadsAs sent ((queryKey (lit "t") (lit "id") (lit "x' or '1'='1")).cut .plain id)) ∧
    (∃ sent,
      (queryCondition (lit "t") (UMap.insertNew (lit "name") (lit "'") ∅)).text .plain = some sent ∧
      ¬ ReadsAs sent
        ((queryCondition (lit "t") (UMap.insertNew (lit "name") (lit "'") ∅)).cut .plain id)) ∧
    (∃ sent, (commitModify (lit "t") (lit "id") quoteRow).text .plain = some sent ∧
      ¬ ReadsAs sent ((commitModify (lit "t") (lit "id") quoteRow).cut .plain id)) ∧
    ∃ sent, (commitInsert (lit "t") quoteRow).text .plain = some sent ∧
      ¬ ReadsAs sent ((commitInsert (lit "t") quoteRow).cut .plain id) := by
  refine ⟨⟨_, rfl, by decide +kernel, by decide +kernel⟩, ⟨_, rfl, by decide +kernel⟩,
    ⟨_, rfl, by decide +kernel⟩, ⟨_, rfl, by decide +kernel⟩⟩

theorem literals_iff_plainKey :
    ReadsAs (lit "select * from t where id='ab';")
      ((queryKey (lit "t") (lit "id") (lit "ab")).cut .plain id) ↔
      (queryKey (lit "t") (lit "id") (lit "ab")).Plain .plain :=
  literals_iff (by decide +kernel)

end SqlCall

end FuServer
