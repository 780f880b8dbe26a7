import Mathlib.Data.Fintype.Defs
import FuServer.Sql.Session

/-!
# Data sets side by side

Any number of data sets edit the tables of one server, their calls in any
order.  Sets on one table keep to rows of their own, which change hands by
`Clear` and `New`; a call of one is then none of the others' business
(`SetSession.Frame`), and each writes through as if it were alone.
-/

namespace FuServer

open Bytes Runs SqlTables

/-- Data sets on the databases of one server. -/
structure Editors (E : QueryEngine) (ι : Type) where
  sets : ι → DBDataSet
  data : E.State

namespace Editors

variable {E : QueryEngine} {ι : Type} {db : Str} {tname : ι → Str} {e : Editors E ι}

/-- One of the sets, as it sees the server. -/
def session (e : Editors E ι) (i : ι) : SetSession E := ⟨e.sets i, e.data⟩

/-- `New` brings no key like one that a set on the table has a row for. -/
def Apart (db : Str) (e : Editors E ι) (i : ι) (op : SetSessionOp) : Prop :=
  ∀ k ∈ (e.session i).brought db op, ∀ j, (e.sets j).sTableName = (e.sets i).sTableName →
    ∀ k' ∈ (e.session j).keys, ¬ E.Alike db (e.sets i).sTableName k' k

instance [Fintype ι] (db : Str) (e : Editors E ι) (i : ι) (op : SetSessionOp) :
    Decidable (e.Apart db i op) :=
  inferInstanceAs (Decidable (∀ _ ∈ _, ∀ _, _ → ∀ _ ∈ _, _))

/-- The calls of careful users, each of its own rows. -/
def Ready (db : Str) (e : Editors E ι) (a : ι × SetSessionOp) : Prop :=
  SetSession.Ready db (e.session a.1) a.2 ∧ e.Apart db a.1 a.2

instance [Fintype ι] (db : Str) (e : Editors E ι) (a : ι × SetSessionOp) : Decidable (e.Ready db a) :=
  inferInstanceAs (Decidable (_ ∧ _))

/-- Every set is one of rows of its table, and no two sets have rows with keys that are alike. -/
structure Sound (db : Str) (tname : ι → Str) (e : Editors E ι) : Prop where
  sets : ∀ i, ∃ T, SetSession.Sound db (tname i) (e.session i) T
  apart : ∀ i j, i ≠ j → tname i = tname j → ∀ k ∈ (e.session i).keys, ∀ k' ∈ (e.session j).keys,
    ¬ E.Alike db (tname i) k' k

/-- The keys of the set that is called are not like those of another one. -/
theorem Sound.keys_apart (h : Sound db tname e) {i j : ι} {op : SetSessionOp} {s : SetSession E}
    {T T' : Table} (hapart : e.Apart db i op)
    (hframe : SetSession.Frame db (tname i) (e.session i) op T s T') (hne : i ≠ j)
    (htable : tname i = tname j) :
    ∀ k ∈ s.keys, ∀ k' ∈ (e.session j).keys, ¬ E.Alike db (tname i) k' k := by
  intro k hk
  obtain ⟨Ti, hi⟩ := h.sets i
  obtain ⟨Tj, hj⟩ := h.sets j
  have hopened : (e.sets i).sTableName = tname i := hi.opened
  rcases hframe.keys k hk with hk | hk
  · exact h.apart i j hne htable k hk
  · have hsame : (e.sets j).sTableName = (e.sets i).sTableName :=
      hj.opened.trans (htable.symm.trans hopened.symm)
    rw [← hopened]
    exact hapart k hk j hsame

/-- A call of one set leaves the others as they are. -/
theorem Sound.other (h : Sound db tname e) {i j : ι} {op : SetSessionOp} {s : SetSession E}
    {T T' : Table} (hi : SetSession.Sound db (tname i) (e.session i) T)
    (hs : SetSession.Sound db (tname i) s T')
    (hframe : SetSession.Frame db (tname i) (e.session i) op T s T') (hne : j ≠ i) :
    ∃ T, SetSession.Sound db (tname j) { e.session j with data := s.data } T := by
  obtain ⟨Tj, hj⟩ := h.sets j
  have htable : E.tables e.data db (tname j) = some Tj := hj.opened ▸ hj.table
  by_cases hsame : tname j = tname i
  · have hT : E.tables e.data db (tname i) = some T := hi.opened ▸ hi.table
    have hT' : E.tables s.data db (tname i) = some T' := hs.opened ▸ hs.table
    rw [hsame] at htable
    obtain rfl : Tj = T := Option.some.inj (htable.symm.trans hT)
    have hunlike := h.apart j i hne hsame
    refine ⟨T', hj.frame (hsame ▸ hT') hframe.shape (fun k hk => hframe.rows k fun hmem => ?_)
      fun k' hk' => ?_⟩
    · exact hunlike k hk k hmem (Engine.Alike.refl k)
    · refine (hframe.mem hk').imp_right fun hmem k hk => ?_
      rw [hj.opened]
      exact hunlike k hk k' hmem
  · refine ⟨Tj, hj.frame ((hframe.tables _ hsame).trans htable) ⟨rfl,
      rfl⟩ (fun _ _ => rfl) fun _ hk' => Or.inl hk'⟩

variable [DecidableEq ι]

/-- The sets behind a call of one. -/
def moved (e : Editors E ι) (i : ι) (s : SetSession E) : Editors E ι :=
  ⟨Function.update e.sets i s.set, s.data⟩

/-- A call of one of the sets. -/
def step (db : Str) (e : Editors E ι) (a : ι × SetSessionOp) : Option (Editors E ι) :=
  (SetSession.step db (e.session a.1) a.2).map (e.moved a.1)

theorem session_moved_self (i : ι) (s : SetSession E) : (e.moved i s).session i = s := by
  show (⟨Function.update e.sets i s.set i, s.data⟩ : SetSession E) = s
  rw [Function.update_self]

theorem session_moved_of_ne {i j : ι} (h : j ≠ i) (s : SetSession E) :
    (e.moved i s).session j = { e.session j with data := s.data } := by
  show (⟨Function.update e.sets i s.set j, s.data⟩ : SetSession E) = ⟨e.sets j, s.data⟩
  rw [Function.update_of_ne h]

theorem Sound.step {a : ι × SetSessionOp} (h : Sound db tname e) (hready : e.Ready db a) :
    ∃ e', Editors.step db e a = some e' ∧ Sound db tname e' := by
  obtain ⟨i, op⟩ := a
  obtain ⟨T, hi⟩ := h.sets i
  obtain ⟨s, hstep, T', hs, hframe⟩ := SetSession.sound_step hi hready.1
  have hkeys := fun j hne htable => h.keys_apart (j := j) hready.2 hframe hne htable
  refine ⟨e.moved i s, ?_, fun j => ?_, fun j l hne htable => ?_⟩
  · unfold Editors.step
    dsimp only
    rw [hstep]
    rfl
  · by_cases hj : j = i
    · subst hj
      rw [session_moved_self]
      exact ⟨T', hs⟩
    · rw [session_moved_of_ne hj]
      exact h.other hi hs hframe hj
  · by_cases hj : j = i
    · subst hj
      rw [session_moved_self, session_moved_of_ne (Ne.symm hne)]
      exact hkeys l hne htable
    · by_cases hl : l = i
      · subst hl
        rw [session_moved_self, session_moved_of_ne hne]
        intro k hk k' hk' halike
        exact hkeys j (Ne.symm hne) htable.symm k' hk' k hk (htable ▸ halike.symm)
      · rw [session_moved_of_ne hj, session_moved_of_ne hl]
        exact h.apart j l hne htable

/-- **Writing through side by side.**  Whatever sets are opened on the tables
of a server, and however their calls interleave, with care and each set with
rows of its own, no call fails; at every moment each row that is not new is on
the server with the texts that are not modified, and each set writes through. -/
theorem sets_writeThrough {data : E.State} {T0 : ι → Table} {identity : ι → Bool}
    (hT0 : ∀ i, E.tables data db (tname i) = some (T0 i)) (hedit : ∀ i, E.Editable db (tname i) (T0 i))
    {ops : List (ι × SetSessionOp)} (hready : Within (Editors.step db) (Ready db)
      (⟨fun i => DBDataSet.new (tname i) (some ((T0 i).key, identity i)), data⟩ : Editors E ι) ops) :
    ∃ e, run (Editors.step db)
        (⟨fun i => DBDataSet.new (tname i) (some ((T0 i).key, identity i)), data⟩ : Editors E ι)
          ops = some e ∧
      ∀ i, (e.sets i).sTableName = tname i ∧
        (∃ T, E.tables e.data db (tname i) = some T ∧
          ∀ row ∈ (e.sets i).setList, row.bInsert = false → DBDataSet.Synced (e.sets i) T row) ∧
        ∀ ord, (e.session i).WritesThrough db ord := by
  have hsound : Sound db tname
      (⟨fun i => DBDataSet.new (tname i) (some ((T0 i).key, identity i)), data⟩ : Editors E ι) := by
    refine ⟨fun i => ⟨T0 i, SetSession.sound_new (hT0 i) (hedit i)⟩, fun i j _ _ k hk => ?_⟩
    exfalso
    have hnil : (DBDataSet.new (tname i) (some ((T0 i).key, identity i))).setList = [] := by
      unfold DBDataSet.new
      split
      · rfl
      · rfl
    have hk' : k ∈ (DBDataSet.new (tname i) (some ((T0 i).key, identity i))).setList.map _ := hk
    rw [hnil] at hk'
    cases hk'
  obtain ⟨e, hrun, he⟩ := run_of_within (fun _ _ h hready => h.step hready) ops _ hsound hready
  refine ⟨e, hrun, fun i => ?_⟩
  obtain ⟨T, hi⟩ := he.sets i
  exact ⟨hi.opened, ⟨T, hi.opened ▸ hi.table, hi.synced⟩, hi.writesThrough⟩

/-- Two sets just opened on the table with one row. -/
def openedTwo : Editors (.ofTables []) Bool :=
  ⟨fun _ => DBDataSet.new (lit "t") (some (SetSession.oneName.key, false)), SetSession.oneTable⟩

/-- Two sets on one table: one changes the row that is there, the other makes a
second and takes the first over. -/
def editsOfTwo : List (Bool × SetSessionOp) :=
  [(false, .newKeyData (lit "1")), (true, .newKeyData (lit "2")), (false, .write (lit "name") (lit "b")),
    (true, .write (lit "name") (lit "c")), (true, .commit .plain [true]), (false, .commit .plain [true]),
    (false, .clear), (true, .newCodition .plain (UMap.insertNew (lit "name") (lit "b") ∅)),
    (true, .write (lit "name") (lit "d"))]

theorem sets_writeThrough_two :
    Within (Editors.step (lit "game")) (Ready (lit "game")) openedTwo editsOfTwo ∧
    ∃ e, run (Editors.step (lit "game")) openedTwo editsOfTwo = some e ∧
      ∀ i, (e.sets i).sTableName = lit "t" ∧
        (∃ T, (QueryEngine.ofTables []).tables e.data (lit "game") (lit "t") = some T ∧
          ∀ row ∈ (e.sets i).setList, row.bInsert = false → DBDataSet.Synced (e.sets i) T row) ∧
        ∀ ord, (e.session i).WritesThrough (lit "game") ord := by
  have hready : Within (Editors.step (lit "game")) (Ready (lit "game")) openedTwo editsOfTwo := by
    decide +kernel
  have htable : (QueryEngine.ofTables []).tables SetSession.oneTable (lit "game") (lit "t") =
      some SetSession.oneName :=
    rfl
  exact ⟨hready, sets_writeThrough (fun _ => htable) (fun _ => SetSession.editable_oneName) hready⟩

end Editors

end FuServer
