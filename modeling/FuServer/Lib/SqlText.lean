import Mathlib.Data.List.Basic
import FuServer.Lib.Bytes

/-!
# Statements as text

`insert` and `update` statements over text columns: how they are written, and
what they do to the stored rows.  A value stands between quotes and has none,
nor a backslash, so the first quote after it ends it.
-/

namespace SqlText

open Bytes

/-- A stored row: the text of each column. -/
abbrev Row := Str → Str

inductive Stmt
  | insert (table : Str) (cols vals : List Str)
  | update (table : Str) (sets : List (Str × Str)) (key val : Str)

/-- Free of quotes and backslashes. -/
def Plain (v : Str) : Prop := 39 ∉ v ∧ 92 ∉ v

instance (v : Str) : Decidable (Plain v) := inferInstanceAs (Decidable (_ ∧ _))

/-! ## Text -/

def quoted (v : Str) : Str := lit "'" ++ v ++ lit "'"

/-- The items with `, ` between them. -/
def commaSep : List Str → Str
  | [] => []
  | [x] => x
  | x :: xs => x ++ lit ", " ++ commaSep xs

/-- `c=v` -/
def setText (s : Str × Str) : Str := s.1 ++ lit "=" ++ quoted s.2

def Stmt.text : Stmt → Str
  | .insert table cols vals =>
    lit "insert into " ++ table ++ lit "(" ++ commaSep cols ++ lit ") values(" ++
      commaSep (vals.map quoted) ++ lit ");"
  | .update table sets key val =>
    lit "update " ++ table ++ lit " set " ++ commaSep (sets.map setText) ++ lit " where " ++
      setText (key, val) ++ lit ";"

theorem text_insert (table : Str) (cols vals : List Str) :
    (Stmt.insert table cols vals).text =
      lit "insert into " ++ table ++ lit "(" ++ commaSep cols ++ lit ") values(" ++
        commaSep (vals.map quoted) ++ lit ");" := rfl

theorem text_update (table : Str) (sets : List (Str × Str)) (key val : Str) :
    (Stmt.update table sets key val).text =
      lit "update " ++ table ++ lit " set " ++ commaSep (sets.map setText) ++ lit " where " ++
        setText (key, val) ++ lit ";" := rfl

/-- An update statement with `sep` between its assignments; SQL has `, `. -/
def updateText (sep table : Str) (sets : List (Str × Str)) (key val : Str) : Str :=
  lit "update " ++ table ++ lit " set " ++ sep.intercalate (sets.map setText) ++ lit " where " ++
    setText (key, val) ++ lit ";"

theorem commaSep_cons_cons (x y : Str) (xs : List Str) :
    commaSep (x :: y :: xs) = x ++ lit ", " ++ commaSep (y :: xs) := rfl

theorem commaSep_eq (xs : List Str) : commaSep xs = (lit ", ").intercalate xs := by
  induction xs with
  | nil => rfl
  | cons x xs ih =>
    cases xs with
    | nil => simp [commaSep, List.intercalate]
    | cons y xs => rw [commaSep_cons_cons, ih, intercalate_cons_cons, List.append_assoc]

theorem text_update_eq (table : Str) (sets : List (Str × Str)) (key val : Str) :
    (Stmt.update table sets key val).text = updateText (lit ", ") table sets key val := by
  rw [text_update, commaSep_eq]
  rfl

theorem noNul_of_intercalate {sep : Str} {xs : List Str} (h : NoNul (sep.intercalate xs)) :
    ∀ x ∈ xs, NoNul x := by
  induction xs with
  | nil => intro x hx; cases hx
  | cons a xs ih =>
    cases xs with
    | nil =>
      intro x hx
      obtain rfl := List.mem_singleton.mp hx
      simpa [List.intercalate] using h
    | cons b xs =>
      rw [intercalate_cons_cons, noNul_append, noNul_append] at h
      intro x hx
      rcases List.mem_cons.mp hx with rfl | hx
      · exact h.1
      · exact ih h.2.2 x hx

theorem noNul_of_commaSep {xs : List Str} (h : NoNul (commaSep xs)) : ∀ x ∈ xs, NoNul x :=
  noNul_of_intercalate (commaSep_eq xs ▸ h)

theorem noNul_of_quoted {v : Str} (h : NoNul (quoted v)) : NoNul v := by
  unfold quoted at h
  rw [noNul_append, noNul_append] at h
  exact h.1.2

theorem noNul_of_setText {s : Str × Str} (h : NoNul (setText s)) : NoNul s.1 ∧ NoNul s.2 := by
  unfold setText at h
  rw [noNul_append, noNul_append] at h
  exact ⟨h.1.1, noNul_of_quoted h.2⟩

/-- The parts of a NUL-free insert statement. -/
theorem noNul_of_insert {table : Str} {cols vals : List Str}
    (h : NoNul (Stmt.insert table cols vals).text) :
    NoNul table ∧ (∀ c ∈ cols, NoNul c) ∧ ∀ v ∈ vals, NoNul v := by
  rw [text_insert] at h
  simp only [noNul_append] at h
  refine ⟨h.1.1.1.1.1.2, noNul_of_commaSep h.1.1.1.2, fun v hv => ?_⟩
  exact noNul_of_quoted (noNul_of_commaSep h.1.2 _ (List.mem_map_of_mem hv))

/-- The parts of a NUL-free update statement. -/
theorem noNul_of_updateText {sep table : Str} {sets : List (Str × Str)} {key val : Str}
    (h : NoNul (updateText sep table sets key val)) :
    NoNul table ∧ (∀ s ∈ sets, NoNul s.1 ∧ NoNul s.2) ∧ NoNul key ∧ NoNul val := by
  unfold updateText at h
  simp only [noNul_append] at h
  refine ⟨h.1.1.1.1.1.2, fun s hs => ?_, noNul_of_setText h.1.2⟩
  exact noNul_of_setText (noNul_of_intercalate h.1.1.1.2 _ (List.mem_map_of_mem hs))

theorem noNul_of_update {table : Str} {sets : List (Str × Str)} {key val : Str}
    (h : NoNul (Stmt.update table sets key val).text) :
    NoNul table ∧ (∀ s ∈ sets, NoNul s.1 ∧ NoNul s.2) ∧ NoNul key ∧ NoNul val :=
  noNul_of_updateText (text_update_eq table sets key val ▸ h)

/-- The first quote after a value ends it. -/
theorem cut_at_quote {v w x y : Str} (hv : 39 ∉ v) (hw : 39 ∉ w)
    (h : v ++ 39 :: x = w ++ 39 :: y) : v = w ∧ x = y := by
  induction v generalizing w with
  | nil =>
    cases w with
    | nil => exact ⟨rfl, (List.cons.inj h).2⟩
    | cons b w => exact absurd ((List.cons.inj h).1 ▸ List.mem_cons_self) hw
  | cons a v ih =>
    cases w with
    | nil => exact absurd ((List.cons.inj h).1 ▸ List.mem_cons_self) hv
    | cons b w =>
      obtain ⟨hab, hrest⟩ := List.cons.inj h
      obtain ⟨hvw, hx⟩ := ih (fun hm => hv (List.mem_cons_of_mem a hm))
        (fun hm => hw (List.mem_cons_of_mem b hm)) hrest
      exact ⟨by rw [hab, hvw], hx⟩

/-! ## Execution -/

/-- The row with the listed columns set. -/
def assign (sets : List (Str × Str)) (row : Row) : Row := fun c => (sets.lookup c).getD (row c)

/-- What a statement does to the rows of its table. -/
def Stmt.exec : Stmt → List Row → List Row
  | .insert _ cols vals, rows => rows ++ [assign (cols.zip vals) fun _ => []]
  | .update _ sets key val, rows => rows.map fun row => if row key = val then assign sets row else row

/-- A stored row in which a column may be NULL. -/
abbrev NullRow := Str → Option Str

/-- What an update does to a stored row. -/
def updateRow (sets : List (Str × Str)) (key val : Str) (row : NullRow) : NullRow :=
  if row key = some val then fun c => (sets.lookup c).or (row c) else row

/-- A listed column gets the value at its place. -/
theorem lookup_zip {cols vals : List Str} (hl : vals.length = cols.length) {c : Str} (hc : c ∈ cols) :
    (cols.zip vals).lookup c = some (vals.getD (cols.idxOf c) []) := by
  induction cols generalizing vals with
  | nil => cases hc
  | cons a cols ih =>
    cases vals with
    | nil => cases hl
    | cons v vals =>
      rw [List.zip_cons_cons]
      by_cases he : c = a
      · subst he
        rw [List.lookup_cons_self, List.idxOf_cons_self]
        rfl
      · have hmem : c ∈ cols := (List.mem_cons.mp hc).resolve_left he
        rw [List.lookup_cons, List.idxOf_cons_ne _ (Ne.symm he)]
        have hbeq : (c == a) = false := by simpa using he
        rw [hbeq]
        exact ih (Nat.succ.inj hl) hmem

/-- A column that is set has one of the listed values. -/
theorem exists_lookup_of_mem {sets : List (Str × Str)} {c : Str} (hc : c ∈ sets.map (·.1)) :
    ∃ w, sets.lookup c = some w ∧ (c, w) ∈ sets := by
  induction sets with
  | nil => cases hc
  | cons s sets ih =>
    obtain ⟨a, w⟩ := s
    by_cases he : c = a
    · subst he
      exact ⟨w, List.lookup_cons_self, List.mem_cons_self⟩
    · have hmem : c ∈ sets.map (·.1) := (List.mem_cons.mp hc).resolve_left he
      obtain ⟨w', hw', hin⟩ := ih hmem
      have hbeq : (c == a) = false := by simpa using he
      refine ⟨w', ?_, List.mem_cons_of_mem _ hin⟩
      rw [List.lookup_cons, hbeq]
      exact hw'

end SqlText
