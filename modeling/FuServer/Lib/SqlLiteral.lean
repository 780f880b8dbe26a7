import Mathlib.Data.List.Forall2
import FuServer.Lib.SqlTables

/-!
# Literals with escapes

In a literal of MySQL a quote is doubled or stands behind a backslash, and a
backslash takes the byte behind it along, so a text between quotes need not be
a literal: `value` says which texts are, and of what.  A statement whose texts
all are is cut where it was put together (`code_render`).  `Updates` is what a
server owes the updates of one table; `runUpdate` is one that owes no more.
-/

namespace SqlLiteral

open Bytes SqlText SqlToken SqlTables
open SqlWhere (IsName scan tokens)

/-! ## Reading -/

/-- What a byte stands for behind a backslash. -/
def escaped (c : UInt8) : Str :=
  if c = 48 then [0]
  else if c = 98 then [8]
  else if c = 110 then [10]
  else if c = 114 then [13]
  else if c = 116 then [9]
  else if c = 90 then [26]
  else if c = 37 ∨ c = 95 then [92, c]
  else [c]

/-- What a text between quotes stands for, when it ends where it should. -/
def value : Str → Option Str
  | [] => some []
  | 39 :: 39 :: t => (value t).map (39 :: ·)
  | 92 :: c :: t => (value t).map (escaped c ++ ·)
  | c :: t => if c = 39 ∨ c = 92 then none else (value t).map (c :: ·)

mutual

/-- Outside literals. -/
def code : Str → Option Cut
  | [] => some ([], [])
  | c :: t =>
    if c = 39 then (literal t).map fun p => ([], (p.1, p.2.1) :: p.2.2)
    else (code t).map fun p => (c :: p.1, p.2)

/-- Inside a literal: its value, and what comes after it. -/
def literal : Str → Option (Str × Cut)
  | [] => none
  | 39 :: 39 :: t => (literal t).map fun p => (39 :: p.1, p.2)
  | 92 :: c :: t => (literal t).map fun p => (escaped c ++ p.1, p.2)
  | c :: t =>
    if c = 39 then (code t).map fun p => ([], p) else (literal t).map fun p => (c :: p.1, p.2)

end

example : code (lit "a='it''s', b='x\\'y';") =
    some (lit "a=", [(lit "it's", lit ", b="), (lit "x'y", lit ";")]) := by
  decide

/-- The statement a text is. -/
def read (reserved : List Str) (text : Str) : Option Stmt :=
  (code text).bind fun e => parse reserved (tokens e)

/-! ## Texts between quotes -/

theorem literal_close {t : Str} (h : EndsQuote t) :
    literal (39 :: t) = (code t).map fun p => ([], p) := by
  rw [literal, if_pos rfl]
  · intro t' _ ht'
    exact h t' ht'
  · intro c t' h39 _
    cases h39

/-- A text that is a literal is read up to the quote behind it. -/
theorem literal_append {v w t : Str} (hv : value v = some w) (ht : EndsQuote t) :
    literal (v ++ 39 :: t) = (code t).map fun p => (w, p) := by
  induction v using value.induct generalizing w with
  | case1 =>
    cases hv
    exact literal_close ht
  | case2 v ih =>
    rw [value] at hv
    obtain ⟨w', hw', rfl⟩ := Option.map_eq_some_iff.mp hv
    rw [List.cons_append, List.cons_append, literal, ih hw', Option.map_map]
    rfl
  | case3 c v ih =>
    rw [value] at hv
    obtain ⟨w', hw', rfl⟩ := Option.map_eq_some_iff.mp hv
    rw [List.cons_append, List.cons_append, literal, ih hw', Option.map_map]
    rfl
  | case4 c v hquotes hback hc =>
    rw [value, if_pos hc] at hv
    · cases hv
    · exact hquotes
    · exact hback
  | case5 c v hquotes hback hc ih =>
    obtain ⟨h39, h92⟩ := not_or.mp hc
    rw [value, if_neg hc] at hv
    · obtain ⟨w', hw', rfl⟩ := Option.map_eq_some_iff.mp hv
      rw [List.cons_append, literal, if_neg h39, ih hw', Option.map_map]
      · rfl
      · rintro t' rfl -
        exact h39 rfl
      · rintro c' t' rfl -
        exact h92 rfl
    · exact hquotes
    · exact hback

theorem code_append {c : Str} (h : 39 ∉ c) (t : Str) :
    code (c ++ t) = (code t).map fun p => (c ++ p.1, p.2) := by
  induction c with
  | nil => simp
  | cons b c ih =>
    have hb : b ≠ 39 := fun he => h (he ▸ List.mem_cons_self)
    rw [List.cons_append, code, if_neg hb, ih fun hm => h (List.mem_cons_of_mem b hm), Option.map_map]
    rfl

/-- The text between quotes is a literal. -/
def Enclosed (v : Str) : Prop := (value v).isSome = true

instance (v : Str) : Decidable (Enclosed v) := inferInstanceAs (Decidable (_ = true))

/-- What an enclosed text stands for. -/
def meant (v : Str) : Str := (value v).getD []

theorem Enclosed.value_eq {v : Str} (h : Enclosed v) : value v = some (meant v) := by
  obtain ⟨w, hw⟩ := Option.isSome_iff_exists.mp h
  rw [meant, hw, Option.getD_some]

/-- A statement with other values. -/
def mapValues (f : Str → Str) (e : Cut) : Cut := (e.1, e.2.map fun p => (f p.1, p.2))

/-- **Texts that stay between their quotes.**  A statement with such texts is cut at them. -/
theorem code_render {e : Cut} (h : Spaced e) (hcode : 39 ∉ e.codeText)
    (hvalues : ∀ v ∈ e.values, Enclosed v) :
    code (render e) = some (mapValues meant e) := by
  obtain ⟨c, l⟩ := e
  induction l generalizing c with
  | nil =>
    have hc : 39 ∉ c := by simpa [Cut.codeText] using hcode
    have htext : render (c, []) = c ++ [] := rfl
    rw [htext, code_append hc, code]
    simp [mapValues]
  | cons p l ih =>
    obtain ⟨v, c'⟩ := p
    have hquote : 39 ∉ c ∧ 39 ∉ Cut.codeText (c', l) := by simpa [Cut.codeText] using hcode
    obtain ⟨hne, hend⟩ := h (v, c') List.mem_cons_self
    have hrest := ih c' (fun p hp => h p (List.mem_cons_of_mem _ hp)) hquote.2
      fun w hw => hvalues w (List.mem_cons_of_mem _ hw)
    rw [render_cons, code_append hquote.1, code, if_pos rfl,
      literal_append (hvalues v List.mem_cons_self).value_eq (render_endsQuote hne hend), hrest]
    simp [mapValues]

theorem mapValues_listed (f : Str → Str) (sep head : Str) (items : List (Str × Str)) (tail : Cut) :
    mapValues f (listed sep head items tail) = listed sep head (items.map fun x => (x.1, f x.2))
      (mapValues f tail) := by
  induction items generalizing head with
  | nil => rfl
  | cons x items ih =>
    cases items with
    | nil => rfl
    | cons y items =>
      have hrest := ih sep
      rw [List.map_cons, List.map_cons, listed, listed,
        ← List.map_cons (f := fun x : Str × Str => (x.1, f x.2)), ← hrest]
      rfl

/-! ## Updates -/

section Update

variable {reserved : List Str} {table key val : Str} {sets : List (Str × Str)}

/-- The texts of an update stay between their quotes, and its names are names. -/
structure Readable (reserved : List Str) (table : Str) (sets : List (Str × Str))
    (key val : Str) : Prop where
  table : IsIdentifier reserved table
  key : IsIdentifier reserved key
  sets : ∀ s ∈ sets, IsIdentifier reserved s.1 ∧ Enclosed s.2
  val : Enclosed val

theorem Readable.tokens_eq (h : Readable reserved table sets key val) (hs : sets ≠ []) (sep : Str)
    (hne : sep ≠ []) (hsep : 39 ∉ sep) :
    (code (updateText sep table sets key val)).map tokens =
      some (tokens (updateCut sep table (sets.map fun s => (s.1, meant s.2)) key (meant val))) := by
  have hend : ∀ t, EndsQuote (sep ++ t) := by
    intro t t' heq
    obtain ⟨c, sep', rfl⟩ := List.exists_cons_of_ne_nil hne
    exact hsep ((List.cons.inj heq).1 ▸ List.mem_cons_self)
  rw [← render_updateCut sep table hs, code_render (spaced_updateCut hne hend _ _ _ _)
    (codeText_updateCut hsep h.table.1 hs (fun s hs => (h.sets s hs).1.1) h.key.1 val), Option.map_some]
  · unfold updateCut
    rw [mapValues_listed, List.map_map, List.map_map]
    rfl
  · rw [values_updateCut]
    intro v hv
    rcases List.mem_append.mp hv with hv | hv
    · obtain ⟨s, hs, rfl⟩ := List.mem_map.mp hv
      exact (h.sets s hs).2
    · rw [List.mem_singleton.mp hv]
      exact h.val

/-- An update with commas is read. -/
theorem Readable.read_text (h : Readable reserved table sets key val) (hs : sets ≠ []) :
    read reserved (Stmt.update table sets key val).text =
      some (.update table (sets.map fun s => (s.1, meant s.2)) key (meant val)) := by
  have htokens := h.tokens_eq hs (lit ", ") (by decide) (by decide)
  obtain ⟨e, he, htok⟩ := Option.map_eq_some_iff.mp htokens
  unfold read
  rw [text_update_eq, he, Option.bind_some, htok]
  refine parse_updateCut comma_blank h.table.1 (by simpa using hs) (fun s hm => ?_) h.key.1 _
  obtain ⟨s', hs', rfl⟩ := List.mem_map.mp hm
  exact (h.sets s' hs').1.1

/-- One with blanks is not. -/
theorem Readable.read_blanks {x y : Str × Str} (h : Readable reserved table (x :: y :: sets) key val) :
    read reserved (updateText (lit "  ") table (x :: y :: sets) key val) = none := by
  have htokens := h.tokens_eq (List.cons_ne_nil _ _) (lit "  ") (by decide) (by decide)
  obtain ⟨e, he, htok⟩ := Option.map_eq_some_iff.mp htokens
  have hnames : ∀ s ∈ (x :: y :: sets).map fun s => (s.1, meant s.2), IsName reserved s.1 := by
    intro s hm
    obtain ⟨s', hs', rfl⟩ := List.mem_map.mp hm
    exact (h.sets s' hs').1.1
  rw [List.map_cons, List.map_cons] at hnames htok
  obtain ⟨ts, hts⟩ := tokens_blankCut (SqlWhere.closed_concat (c := 32) (by decide) (lit " ")) rfl
    h.table.1 hnames h.key.1 (meant val)
  unfold read
  rw [he, Option.bind_some, htok]
  exact (congrArg (parse reserved) hts).trans (parse_blanks reserved _ _ _ _ _ _ ts)

end Update

/-- No row has changed but in columns that `touched` allows for it. -/
def OnlyChanges (touched : NullRow → Str → Prop) (rows rows' : List NullRow) : Prop :=
  List.Forall₂ (fun row row' => ∀ c, ¬ touched row c → row' c = row c) rows rows'

theorem OnlyChanges.mono {touched touched' : NullRow → Str → Prop} {rows rows' : List NullRow}
    (h : OnlyChanges touched rows rows') (hsub : ∀ row ∈ rows, ∀ c, touched row c → touched' row c) :
    OnlyChanges touched' rows rows' := by
  have hboth := (List.forall₂_and_left rows rows').mpr ⟨hsub, h⟩
  exact hboth.imp fun row row' hrow c hc => hrow.2 c fun htouched => hc (hrow.1 c htouched)

/-- What a server owes the updates of a table, as far as it runs them at all: of one with commas
only the columns that are assigned change, in rows whose value of the key column it takes for the
one given; one without a comma between two assignments is no statement.  `same` is how it compares
values of a column, by the column's type. -/
structure Updates (reserved : List Str) (same : Str → Str → Str → Prop) (table : Str)
    (run : Str → List NullRow → List NullRow) : Prop where
  update {sets : List (Str × Str)} {key val : Str} (h : Readable reserved table sets key val)
    (hs : sets ≠ [])
    (rows : List NullRow) :
    OnlyChanges (fun row c => c ∈ sets.map (·.1) ∧ ∃ k ∈ row key, same key k (meant val)) rows
      (run (Stmt.update table sets key val).text rows)
  blanks {x y : Str × Str} {sets : List (Str × Str)} {key val : Str}
    (h : Readable reserved table (x :: y :: sets) key val) (rows : List NullRow) :
    run (updateText (lit "  ") table (x :: y :: sets) key val) rows = rows

/-- A server that runs the updates it reads and compares keys byte by byte. -/
def runUpdate (reserved : List Str) (table text : Str) (rows : List NullRow) : List NullRow :=
  match read reserved text with
  | some (.update table' sets key val) =>
    if table' = table then rows.map (updateRow sets key val) else rows
  | _ => rows

theorem runUpdate_text {reserved : List Str} {table key val : Str} {sets : List (Str × Str)}
    (h : Readable reserved table sets key val) (hs : sets ≠ []) (rows : List NullRow) :
    runUpdate reserved table (Stmt.update table sets key val).text rows =
      rows.map (updateRow (sets.map fun s => (s.1, meant s.2)) key (meant val)) := by
  unfold runUpdate
  rw [h.read_text hs]
  dsimp only
  rw [if_pos rfl]

/-- It keeps to what a server owes the updates. -/
theorem runUpdate_updates (reserved : List Str) (table : Str) :
    Updates reserved (fun _ => Eq) table (runUpdate reserved table) where
  update {sets key val} h hs rows := by
    rw [runUpdate_text h hs]
    refine List.forall₂_map_right_iff.mpr (List.forall₂_same.mpr fun row _ c hc => ?_)
    unfold updateRow
    split
    · next hhit =>
      have hnone : (sets.map fun s => (s.1, meant s.2)).lookup c = none := by
        rw [List.lookup_eq_none_iff]
        intro s hs
        obtain ⟨s', hs', rfl⟩ := List.mem_map.mp hs
        have hne : c ≠ s'.1 := by
          rintro rfl
          exact hc ⟨List.mem_map_of_mem hs', _, hhit, rfl⟩
        simpa using hne
      dsimp only
      rw [hnone, Option.none_or]
    · rfl
  blanks h rows := by
    unfold runUpdate
    rw [h.read_blanks]

end SqlLiteral
