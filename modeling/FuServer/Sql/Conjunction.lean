import FuServer.Lib.SqlWhere
import FuServer.Sql.Literals

/-!
# The where clause of a condition query

`QueryRecord` by condition puts a comma between its conditions.  A search
condition has no comma outside parentheses, so two conditions are no select.
-/

namespace FuServer

open Bytes SqlToken SqlWhere

namespace SqlCall

/-- The text is a select of the table, for the rows that have every listed value. -/
def SelectsConjunction (reserved : List Str) (sent tableName : Str) (condition : UMap Str Str) : Prop :=
  ∃ e cond, code sent = some e ∧ Selects reserved tableName (tokens e) cond ∧
    ∀ row : Str → Str, cond.Holds row ↔ ∀ iter ∈ condition.entries, row iter.1 = iter.2

/-- The conditions as they are listed. -/
def conditionTokens (l : List (Str × Str)) : List Token :=
  [Token.symbol 44].intercalate (l.map fun i => [.word i.1, .symbol 61, .value i.2])

theorem conditionTokens_cons_cons (x y : Str × Str) (l : List (Str × Str)) :
    conditionTokens (x :: y :: l) =
      [.word x.1, .symbol 61, .value x.2] ++ .symbol 44 :: conditionTokens (y :: l) := by
  simp [conditionTokens, List.intercalate]

theorem mem_conditionTokens {l : List (Str × Str)} {t : Token} (h : t ∈ conditionTokens l) :
    t = .symbol 44 ∨ ∃ i ∈ l, t = .word i.1 ∨ t = .symbol 61 ∨ t = .value i.2 := by
  induction l with
  | nil =>
    rw [conditionTokens] at h
    simp [List.intercalate] at h
  | cons x l ih =>
    cases l with
    | nil =>
      right
      refine ⟨x, List.mem_cons_self, ?_⟩
      simpa [conditionTokens, List.intercalate] using h
    | cons y l =>
      rw [conditionTokens_cons_cons] at h
      rcases List.mem_append.mp h with hx | h
      · right
        exact ⟨x, List.mem_cons_self, by simpa using hx⟩
      rcases List.mem_cons.mp h with h44 | hrest
      · left
        exact h44
      · rcases ih hrest with h44 | ⟨i, hi, ht⟩
        · left
          exact h44
        · right
          exact ⟨i, List.mem_cons_of_mem x hi, ht⟩

section
variable {reserved : List Str}

/-- What is listed has no reserved words and no parentheses. -/
theorem comparison_of_listed {l : List (Str × Str)} (hnames : ∀ i ∈ l, IsName reserved i.1)
    {search tail : List Token} {cond : Cond} (h : Derives reserved .search search cond)
    (heq : conditionTokens l = search ++ tail) :
    ∃ column value, (search = [.word column, .symbol 61, .value value] ∧ cond = .eq column value) ∨
      search = [.word column, .symbol 60, .symbol 62, .value value] := by
  have hlisted : ∀ t ∈ search, t ∈ conditionTokens l := by
    intro t ht
    rw [heq]
    exact List.mem_append_left tail ht
  apply h.comparison
  · intro w hw hk
    rcases mem_conditionTokens (hlisted _ hw) with h44 | ⟨i, hi, hword | h61 | hvalue⟩
    · cases h44
    · cases hword
      exact (hnames i hi).2.2.2 (List.mem_append_left reserved hk)
    · cases h61
    · cases hvalue
  · intro hm
    rcases mem_conditionTokens (hlisted _ hm) with h44 | ⟨i, hi, hword | h61 | hvalue⟩
    · exact absurd h44 (by decide)
    · cases hword
    · exact absurd h61 (by decide)
    · cases hvalue

/-- Listed conditions that are one search condition are one comparison. -/
theorem eq_singleton_of_derives {l : List (Str × Str)} (hnames : ∀ i ∈ l, IsName reserved i.1)
    {search tail : List Token} {cond : Cond} (h : Derives reserved .search search cond)
    (htail : tail = [] ∨ tail = [.symbol 59]) (heq : conditionTokens l = search ++ tail) :
    ∃ i, l = [i] ∧ cond = .eq i.1 i.2 := by
  obtain ⟨column, value, ⟨rfl, rfl⟩ | rfl⟩ := comparison_of_listed hnames h heq
  · match l with
    | [] => cases heq
    | [i] =>
      refine ⟨i, rfl, ?_⟩
      cases heq
      rfl
    | x :: y :: l =>
      -- behind the comparison is a comma
      exfalso
      rw [conditionTokens_cons_cons] at heq
      have hcomma : Token.symbol 44 :: conditionTokens (y :: l) = tail :=
        (List.append_inj heq rfl).2
      rcases htail with rfl | rfl
      · cases hcomma
      · exact absurd (List.cons.inj hcomma).1 (by decide)
  · match l with
    | [] => cases heq
    | [i] => exact absurd (List.cons.inj (List.cons.inj heq).2).1 (by decide)
    | x :: y :: l =>
      rw [conditionTokens_cons_cons] at heq
      exact absurd (List.cons.inj (List.cons.inj heq).2).1 (by decide)

end

/-! ## The text -/

section
variable {reserved : List Str} {ord : HashOrder} {tableName : Str} {condition : UMap Str Str}
    {sent : Str}
theorem cstr_of_isName {w : Str} (h : IsName reserved w) : cstr w = w := by
  rw [cstr_eq_self]
  rintro c hc rfl
  exact h.notMem (by decide) hc

theorem mem_items {i : Str × Str} (h : i ∈ (queryCondition tableName condition).items ord) :
    ⟨i.1, i.2⟩ ∈ condition.entries := by
  obtain ⟨iter, hiter, rfl⟩ := List.mem_map.mp h
  exact ord.mem_order.mp hiter

theorem items_eq_singleton {i : Str × Str} :
    (queryCondition tableName condition).items ord = [i] ↔ condition.entries = [⟨i.1, i.2⟩] := by
  constructor
  · intro h
    obtain ⟨iter, hiter, rfl⟩ := List.map_eq_singleton_iff.mp h
    have hperm := ord.perm condition.entries
    rw [hiter] at hperm
    exact hperm.singleton_eq.symm
  · intro h
    have hperm := ord.perm condition.entries
    rw [h] at hperm
    unfold items
    dsimp only
    rw [h, hperm.eq_singleton]
    rfl

/-- The text reads as it is written, its values up to their first NUL. -/
theorem code_sent (h : (queryCondition tableName condition).text ord = some sent)
    (htable : IsName reserved tableName) (hcolumns : ∀ iter ∈ condition.entries, IsName reserved iter.1)
    (hquote : ∀ iter ∈ condition.entries, 39 ∉ iter.2) :
    code sent = some ((queryCondition tableName condition).cut ord cstr) := by
  rw [(sent_eq_render h).1, code_render_iff (spaced_cut ord cstr _), values_cut]
  obtain ⟨body, last, -, hlast, hcode, hmem⟩ := framed_cut h
  have htext : ((queryCondition tableName condition).cut ord cstr).codeText = body cstr ++ [last] :=
    hcode cstr
  constructor
  · rw [htext, List.mem_append, hmem cstr 39 (Or.inr (Or.inl rfl))]
    rintro (⟨n, hn, h39⟩ | h39)
    · have hname : IsName reserved n := by
        rcases List.mem_cons.mp hn with rfl | hn
        · exact htable
        · obtain ⟨i, hi, rfl⟩ := List.mem_map.mp hn
          exact hcolumns _ (mem_items hi)
      rw [cstr_of_isName hname] at h39
      exact hname.notMem (by decide) h39
    · exact hlast (List.mem_singleton.mp h39).symm
  · intro v hv
    obtain ⟨w, hw, rfl⟩ := List.mem_map.mp hv
    have hw' : w ∈ ((queryCondition tableName condition).items ord).map (·.2) := by
      simpa [values] using hw
    obtain ⟨i, hi, rfl⟩ := List.mem_map.mp hw'
    intro h39
    exact hquote _ (mem_items hi) ((List.takeWhile_sublist _).mem h39)

theorem scan_select (htable : IsName reserved tableName) :
    scan [] (lit "select * from " ++ tableName ++ lit " where ") =
      [.word (lit "select"), .symbol 42, .word (lit "from"), .word tableName, .word (lit "where")] := by
  have hfrom : Closed (lit "select * from ") := closed_concat (c := 32) (by decide) (lit "select * from")
  have htext : lit "select * from " ++ tableName ++ lit " where " =
      lit "select * from " ++ (tableName ++ [32] ++ lit "where ") := by
    simp only [List.append_assoc]
    rfl
  rw [htext, hfrom, closed_concat (by decide) tableName, htable.scan (by decide)]
  rfl

theorem scan_assignments {l : List (Str × Str)} (hnames : ∀ i ∈ l, IsName reserved i.1) :
    ((assignments cstr l).map fun x => scan [] x.1 ++ [Token.value x.2]) =
      l.map fun i => [.word i.1, .symbol 61, .value (cstr i.2)] := by
  unfold assignments
  rw [List.map_map]
  apply List.map_congr_left
  intro i hi
  have hname := hnames i hi
  show scan [] (cstr i.1 ++ lit "=") ++ [Token.value (cstr i.2)] = _
  rw [cstr_of_isName hname, show lit "=" = [61] from rfl, hname.scan (by decide)]
  rfl

/-- What is read: a select up to its conditions, then these. -/
theorem tokens_cut (h : (queryCondition tableName condition).text ord = some sent)
    (htable : IsName reserved tableName)
    (hcolumns : ∀ iter ∈ condition.entries, IsName reserved iter.1) :
    tokens ((queryCondition tableName condition).cut ord cstr) =
      .word (lit "select") :: .symbol 42 :: .word (lit "from") :: .word tableName ::
        .word (lit "where") ::
        conditionTokens (((queryCondition tableName condition).items ord).map fun i =>
          (i.1, cstr i.2)) := by
  have hne : assignments cstr ((queryCondition tableName condition).items ord) ≠ [] := by
    simpa [assignments] using items_ne_nil h
  have hnames : ∀ i ∈ (queryCondition tableName condition).items ord, IsName reserved i.1 :=
    fun i hi => hcolumns _ (mem_items hi)
  have hsep : Closed (lit ", ") := closed_concat (c := 32) (by decide) (lit ",")
  have hhead : Closed (lit "select * from " ++ tableName ++ lit " where ") := by
    rw [show lit " where " = lit " where" ++ [32] from rfl, ← List.append_assoc]
    exact closed_concat (by decide) _
  unfold cut
  dsimp only
  rw [cstr_of_isName htable, tokens_listed hsep hhead hne, scan_select htable, scan_assignments hnames,
    show scan [] (lit ", ") = [Token.symbol 44] by decide, show tokens (lit " ", []) = [] by decide,
    List.append_nil]
  unfold conditionTokens
  rw [List.map_map]
  rfl

/-- A condition query that is a select has one condition, with what the text has for its value. -/
theorem items_of_selectsConjunction (h : (queryCondition tableName condition).text ord = some sent)
    (htable : IsName reserved tableName) (hcolumns : ∀ iter ∈ condition.entries, IsName reserved iter.1)
    (hquote : ∀ iter ∈ condition.entries, 39 ∉ iter.2)
    (hselects : SelectsConjunction reserved sent tableName condition) :
    ∃ i, (queryCondition tableName condition).items ord = [i] ∧ cstr i.2 = i.2 := by
  obtain ⟨e, cond, he, ⟨s, f, w, search, tail, -, -, -, -, hsearch, htail, hts⟩, hrow⟩ := hselects
  obtain rfl : _ = e := Option.some.inj ((code_sent h htable hcolumns hquote).symm.trans he)
  rw [tokens_cut h htable hcolumns] at hts
  simp only [List.cons.injEq] at hts
  obtain ⟨-, -, -, -, -, hlisted⟩ := hts
  have hnames : ∀ i ∈ ((queryCondition tableName condition).items ord).map fun i => (i.1, cstr i.2),
      IsName reserved i.1 := by
    intro i hi
    obtain ⟨j, hj, rfl⟩ := List.mem_map.mp hi
    exact hcolumns _ (mem_items hj)
  obtain ⟨i, hi, rfl⟩ := eq_singleton_of_derives hnames hsearch htail hlisted
  obtain ⟨j, hj, rfl⟩ := List.map_eq_singleton_iff.mp hi
  refine ⟨j, hj, ?_⟩
  -- a row of what the text asks for has what is listed
  apply (hrow fun _ => cstr j.2).mp rfl ⟨j.1, j.2⟩
  rw [items_eq_singleton.mp hj]
  exact List.mem_singleton_self _

/-- **When a condition query selects.**  With names for the table and its columns, and
values without quotes, the text selects the rows that have the listed values exactly
when there is one condition, and no NUL cuts its value. -/
theorem selectsConjunction_iff (h : (queryCondition tableName condition).text ord = some sent)
    (htable : IsName reserved tableName) (hcolumns : ∀ iter ∈ condition.entries, IsName reserved iter.1)
    (hquote : ∀ iter ∈ condition.entries, 39 ∉ iter.2) :
    SelectsConjunction reserved sent tableName condition ↔
      ∃ iter, condition.entries = [iter] ∧ 0 ∉ iter.2 := by
  constructor
  · intro hselects
    obtain ⟨i, hi, hvalue⟩ := items_of_selectsConjunction h htable hcolumns hquote hselects
    exact ⟨⟨i.1, i.2⟩, items_eq_singleton.mp hi, fun h0 => cstr_eq_self.mp hvalue 0 h0 rfl⟩
  · rintro ⟨⟨column, value⟩, hentries, hnul⟩
    have hitems : (queryCondition tableName condition).items ord = [(column, value)] :=
      items_eq_singleton.mpr hentries
    have hname : IsName reserved column := by
      apply hcolumns ⟨column, value⟩
      rw [hentries]
      exact List.mem_singleton_self _
    have hvalue : cstr value = value := cstr_eq_self.mpr fun c hc h0 => hnul (h0 ▸ hc)
    refine ⟨_, .eq column value, code_sent h htable hcolumns hquote, ?_, fun row => ?_⟩
    · rw [tokens_cut h htable hcolumns, hitems, List.map_singleton, hvalue]
      exact ⟨lit "select", lit "from", lit "where", _, [], by decide, by decide, by decide, htable,
        .ofConjunct (.ofTest (.eq hname)), Or.inl rfl, rfl⟩
    · rw [hentries]
      simp [Cond.Holds]

/-- Two conditions that no select lists. -/
def twoConditions : UMap Str Str :=
  UMap.insertNew (lit "a") (lit "1") (UMap.insertNew (lit "b") (lit "2") ∅)

theorem selectsConjunction_twoConditions :
    (queryCondition (lit "t") twoConditions).text .plain =
      some (lit "select * from t where a='1', b='2' ") ∧
      ¬ SelectsConjunction [] (lit "select * from t where a='1', b='2' ") (lit "t") twoConditions := by
  have htext : (queryCondition (lit "t") twoConditions).text .plain =
      some (lit "select * from t where a='1', b='2' ") := by decide +kernel
  refine ⟨htext, fun hselects => ?_⟩
  obtain ⟨i, hi, -⟩ := items_of_selectsConjunction htext (by decide +kernel) (by decide +kernel)
    (by decide +kernel) hselects
  have hlength : ((queryCondition (lit "t") twoConditions).items .plain).length = 2 := by decide +kernel
  rw [hi] at hlength
  cases hlength

theorem selectsConjunction_iff_twoConditions :
    SelectsConjunction [lit "order"] (lit "select * from t where a='1', b='2' ")
      (lit "t") twoConditions ↔
      ∃ iter, twoConditions.entries = [iter] ∧ 0 ∉ iter.2 := by
  have htext : (queryCondition (lit "t") twoConditions).text .plain =
      some (lit "select * from t where a='1', b='2' ") := by decide +kernel
  exact selectsConjunction_iff htext (by decide +kernel) (by decide +kernel) (by decide +kernel)

end

end SqlCall

end FuServer
