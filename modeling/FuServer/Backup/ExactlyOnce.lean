import FuServer.Backup.Pass

/-!
# Each command once

A pass owes every pending record of a due table one command.  Because the
collection is not emptied between tables, it runs a command again for every
due table the walk meets later; `exactlyOnce_iff` says that this is the only
way a pass is not exactly once.
-/

namespace FuServer

open Bytes Decimal Outcome

theorem dropWhile_ne_of_mem {α : Type} [DecidableEq α] {a : α} {l : List α} (h : a ∈ l) :
    l.dropWhile (· ≠ a) = a :: (l.dropWhile (· ≠ a)).tail := by
  induction l with
  | nil => cases h
  | cons b l ih =>
    by_cases hb : b = a
    · subst hb
      rw [List.dropWhile_cons_of_neg (by simp)]
      rfl
    · rw [List.dropWhile_cons_of_pos (by simpa using hb)]
      exact ih ((List.mem_cons.mp h).resolve_left (Ne.symm hb))

namespace DBManager

variable {fp : FloatUnit}

/-- For each record, the texts run are the one command it is owed, or none. -/
def ExactlyOnce (m : DBManager fp) (dt : fp.Flt) (trace : List CmdRun) : Prop :=
  ∀ ref, (runsOf trace ref).map (·.1) = (m.commandOf dt ref).toList

/-- The tables the walk meets after `tname`. -/
def laterTables (m : DBManager fp) (ord : HashOrder) (tname : Str) : List Str :=
  ((ord.order m.tableSet.keys).dropWhile (· ≠ tname)).tail

/-- No due table comes after a due table that has a pending record. -/
def NoneLater (m : DBManager fp) (ord : HashOrder) (dt : fp.Flt) : Prop :=
  ∀ tname t k r, m.tableSet.lookup tname = some t → m.isDue t dt = true →
    t.recordSet.lookup k = some r → r.pending = true →
    ∀ tname' ∈ m.laterTables ord tname, m.isDueName dt tname' = false

/-- The due tables from a due table on: itself and the later ones. -/
theorem dueFrom_walk {m : DBManager fp} (ord : HashOrder) {dt : fp.Flt} {tname : Str} {t : DBTable fp}
    (hm : m.tableSet.lookup tname = some t) (hd : m.isDue t dt = true) :
    m.dueFrom dt tname (ord.order m.tableSet.keys) =
      tname :: (m.laterTables ord tname).filter (m.isDueName dt) := by
  have hmem : tname ∈ ord.order m.tableSet.keys := ord.mem_order.mpr (UMap.mem_of_lookup hm)
  have hdue : m.isDueName dt tname = true := (isDueName_of_lookup hm dt).trans hd
  unfold dueFrom
  rw [dropWhile_ne_of_mem hmem, List.filter_cons_of_pos hdue]
  rfl

/-- **When a pass is exactly once.**  On well-formed tables, whatever the server
answers, a pass runs each command owed exactly once exactly when no due table
follows, in the order of the walk, a due table that has a pending record. -/
theorem exactlyOnce_iff {m : DBManager fp} (h : m.WellFormed) (ord : HashOrder)
    (answer : Str → RecRef → Bool) (dt : fp.Flt) :
    Returns (m.update ord answer dt) (fun r => m.ExactlyOnce dt r.2) ↔ m.NoneLater ord dt := by
  obtain ⟨s, hok, inv⟩ := update_spec h ord answer dt
  rw [hok, returns_ok]
  constructor
  · intro hone tname t k r hm hd hr hp tname' hlater
    have hruns := hone (tname, k)
    dsimp only at hruns
    rw [inv.runs, expectedRuns, commandOf_of_pending hm hd hr hp] at hruns
    dsimp only at hruns
    rw [dueFrom_walk ord hm hd, List.map_map, List.map_cons] at hruns
    have hnil := List.map_eq_nil_iff.mp (List.cons.inj hruns).2
    rw [List.filter_eq_nil_iff] at hnil
    simpa using hnil tname' hlater
  · intro hnone ref
    dsimp only
    rw [inv.runs, expectedRuns]
    cases hcmd : m.commandOf dt ref with
    | none => rfl
    | some text =>
      obtain ⟨t, r, hm, hd, hr, hp, -⟩ := text_of_commandOf hcmd
      have hnil : (m.laterTables ord ref.1).filter (m.isDueName dt) = [] := by
        rw [List.filter_eq_nil_iff]
        intro tname' hlater
        rw [hnone ref.1 t ref.2 r hm hd hr hp tname' hlater]
        exact Bool.false_ne_true
      dsimp only
      rw [dueFrom_walk ord hm hd, hnil]
      rfl

/-- A record `(k, v)` waiting to be inserted. -/
def newRow (k v : Str) : DBRecord where
  fieldList := [((DBField.new dbIntT).setIsKey true).setData k, (DBField.new dbStringT).setData v]
  bInsert := true

/-- A table of an integer key and a text column, with one new row. -/
def oneNewRow (tname k v : Str) : DBTable .exactRational :=
  { (DBTable.new [lit "id", lit "name"] [dbIntT, dbStringT] 0).addRecord k (newRow k v) with
    sTableName := tname, sDBName := lit "db" }

theorem oneNewRow_wellFormed (tname k v : Str) : (oneNewRow tname k v).WellFormed := by
  have hnew : DBTable.WellFormed (DBTable.new [lit "id", lit "name"] [dbIntT, dbStringT] 0 :
      DBTable .exactRational) := DBTable.new_wellFormed rfl (by decide) (by decide)
  have hadd := hnew.addRecord (k := k) (r := newRow k v) (AList.notMem_empty k)
    ⟨rfl, _, rfl, rfl⟩
  exact hadd.named tname (lit "db")

/-- Two tables, `a` met first, each with one new row. -/
def twoTables : DBManager .exactRational where
  tableSet := UMap.insertNew (lit "a") (oneNewRow (lit "a") (lit "1") (lit "x"))
    (UMap.insertNew (lit "b") (oneNewRow (lit "b") (lit "1") (lit "y")) ∅)
  pDBLink := { selected := lit "db" }
  sCurrentDB := lit "db"
  bClose := false

/-- With both tables due, the command of the row of `a` runs again after those of `b`. -/
theorem exactlyOnce_broken :
    ¬ Returns (twoTables.update .plain (fun _ _ => true) (10 : ℚ))
      (fun r => twoTables.ExactlyOnce (10 : ℚ) r.2) := by
  rintro ⟨r, hr, hone⟩
  have htwice : (twoTables.update .plain (fun _ _ => true) (10 : ℚ)).toOption.map
      (fun r => (runsOf r.2 (lit "a", lit "1")).length) = some 2 := by decide +kernel
  have hlen := congrArg List.length (hone (lit "a", lit "1"))
  rw [hr] at htwice
  have htwo : (runsOf r.2 (lit "a", lit "1")).length = 2 := Option.some.inj htwice
  rw [List.length_map, htwo] at hlen
  have hle := Option.length_toList_le (o := twoTables.commandOf (10 : ℚ) (lit "a", lit "1"))
  omega

theorem twoTables_wellFormed : twoTables.WellFormed := by
  intro tname t hm
  have hset : twoTables.tableSet = UMap.insertNew (lit "a") (oneNewRow (lit "a") (lit "1") (lit "x"))
      (UMap.insertNew (lit "b") (oneNewRow (lit "b") (lit "1") (lit "y")) ∅) := rfl
  rw [hset, UMap.lookup_insertNew, UMap.lookup_insertNew] at hm
  split at hm
  · cases hm
    exact oneNewRow_wellFormed (lit "a") (lit "1") (lit "x")
  · split at hm
    · cases hm
      exact oneNewRow_wellFormed (lit "b") (lit "1") (lit "y")
    · cases hm

theorem exactlyOnce_iff_twoTables :
    Returns (twoTables.update .plain (fun _ _ => true) (10 : ℚ))
      (fun r => twoTables.ExactlyOnce (10 : ℚ) r.2) ↔ twoTables.NoneLater .plain (10 : ℚ) :=
  exactlyOnce_iff twoTables_wellFormed .plain _ _

end DBManager

end FuServer
