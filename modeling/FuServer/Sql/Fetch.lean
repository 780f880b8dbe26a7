import FuServer.Lib.SqlEngine
import FuServer.Sql.Collect

/-!
# Selects of a server

A server brings a result and the driver hands it out row by row, to
`st_CollectRecordSet`, which has a buffer of 255 bytes for each value.  Where
none is longer the call returns with the rows pushed (`collectSQL_iff`), and
where all are shorter they are the rows of the server.
-/

namespace FuServer

open Bytes SqlTables

namespace DBDataSet

variable {E : QueryEngine} {s : E.State} {db sqlStr : Str}

/-- The statement that hands a result out. -/
def hstmtOf (R : Result) : SqlHstmt where
  columns := R.columns
  ahead := R.rows
  ending := .noData

/-- What is collected of a select. -/
def server (E : QueryEngine) (s : E.State) (db sqlStr : Str) : Option ResultSet :=
  (E.fetch s db sqlStr).map fun R => (hstmtOf R).resultSet

/-- `ExcuteCollectSQL`, with the statement it reads. -/
def collectSQL (E : QueryEngine) (s : E.State) (db sqlStr : Str) (dataSet : DBDataSet) :
    Rounds (DBDataSet × Bool) :=
  match E.fetch s db (cstr sqlStr) with
  | none => .ok (dataSet, false)
  | some R => (hstmtOf R).stCollectRecordSet (R.rows.length + 2) dataSet

/-- No value is read past the buffer. -/
def Collects (E : QueryEngine) (s : E.State) (db sqlStr : Str) : Prop :=
  ∀ R ∈ E.fetch s db (cstr sqlStr), (hstmtOf R).Fits

instance (sqlStr : Str) : Decidable (Collects E s db sqlStr) :=
  inferInstanceAs (Decidable
    (∀ R ∈ E.fetch s db (cstr sqlStr), ∀ values ∈ R.rows, SqlHstmt.RowFits R.columns values))

/-- Every value has room in the buffer, and the null byte behind it. -/
def Short (E : QueryEngine) (s : E.State) (db sqlStr : Str) : Prop :=
  ∀ R ∈ E.fetch s db (cstr sqlStr), ∀ values ∈ R.rows, ∀ value ∈ values, ∀ text ∈ value,
    text.length ≤ 254

instance (sqlStr : Str) : Decidable (Short E s db sqlStr) :=
  inferInstanceAs (Decidable
    (∀ R ∈ E.fetch s db (cstr sqlStr), ∀ values ∈ R.rows, ∀ value ∈ values, ∀ text ∈ value, _))

/-- A result whose values are not read past the buffer is collected as a whole. -/
theorem collect_of_fits {R : Result} (hfits : (hstmtOf R).Fits) (dataSet : DBDataSet) :
    (hstmtOf R).stCollectRecordSet (R.rows.length + 2) dataSet =
      .ok (dataSet.collectRecordSet (hstmtOf R).resultSet) :=
  SqlHstmt.stCollectRecordSet_of_fits rfl hfits dataSet

/-- The call returns when no value is read past the buffer, and only then. -/
theorem collectSQL_iff {dataSet : DBDataSet} {r : DBDataSet × Bool} :
    collectSQL E s db sqlStr dataSet = .ok r ↔
      Collects E s db sqlStr ∧ r = excuteCollectSQL (server E s db) sqlStr dataSet := by
  unfold collectSQL Collects excuteCollectSQL server
  cases hfetch : E.fetch s db (cstr sqlStr) with
  | none =>
    rw [Option.map_none, and_iff_right nofun]
    exact ⟨fun h => (Except.ok.inj h).symm, fun h => congrArg _ h.symm⟩
  | some R =>
    rw [Option.map_some]
    dsimp only
    have hall : (∀ R' ∈ some R, (hstmtOf R').Fits) ↔ (hstmtOf R).Fits := by simp
    rw [hall]
    constructor
    · intro h
      have hfits : (hstmtOf R).Fits := by
        by_cases hcolumns : R.columns = []
        · intro values _ i hi
          rw [show (hstmtOf R).columns = [] from hcolumns] at hi
          cases hi
        · exact (SqlHstmt.fits_of_stCollectRecordSet hcolumns h).2
      exact ⟨hfits, Except.ok.inj (h.symm.trans (collect_of_fits hfits dataSet))⟩
    · rintro ⟨hfits, rfl⟩
      exact collect_of_fits hfits dataSet

theorem Short.collects (h : Short E s db sqlStr) : Collects E s db sqlStr := by
  intro R hR values hvalues i _ value hvalue
  refine Nat.le_succ_of_le (h R hR values hvalues (some value) ?_ value rfl)
  rw [Option.mem_def, List.getD_eq_getElem?_getD] at hvalue
  cases hget : values[i]? with
  | none =>
    rw [hget] at hvalue
    cases hvalue
  | some text =>
    rw [hget, Option.getD_some] at hvalue
    rw [← hvalue]
    exact List.mem_of_getElem? hget

/-- Values that have room are collected as they are. -/
theorem rowTexts_short {columns : List Str} {values : List (Option Str)}
    (hlen : values.length = columns.length)
    (h : ∀ value ∈ values, ∀ text ∈ value, text.length ≤ 254) :
    SqlHstmt.rowTexts columns values = values.map (·.getD []) := by
  unfold SqlHstmt.rowTexts
  apply List.ext_getElem
  · rw [List.length_map, List.length_map, List.length_range, hlen]
  · intro i hi hi'
    rw [List.length_map] at hi'
    rw [List.getElem_map, List.getElem_map, List.getElem_range, SqlHstmt.columnText,
      List.getD_eq_getElem?_getD,
      List.getElem?_eq_getElem hi', Option.getD_some]
    cases hvalue : values[i] with
    | none => rfl
    | some text =>
      have hshort := h (some text) (hvalue ▸ List.getElem_mem hi') text rfl
      show fieldText text = text
      rw [fieldText, if_pos (by omega)]

/-- The rows that a select brings. -/
theorem fetched_of_short {R : Result} (hfetch : E.fetch s db (cstr sqlStr) = some R)
    (hshort : Short E s db sqlStr) (hcolumns : R.columns ≠ [])
    (hlen : ∀ values ∈ R.rows, values.length = R.columns.length) :
    fetched (server E s db) sqlStr =
      R.rows.map fun values => DBDataRow.new (collectRow R.columns (values.map (·.getD []))) := by
  unfold fetched server
  rw [hfetch, Option.map_some]
  show (if R.columns = [] then [] else (R.rows.map (SqlHstmt.rowTexts R.columns)).map _) = _
  rw [if_neg hcolumns, List.map_map]
  apply List.map_congr_left
  intro values hvalues
  rw [Function.comp_apply, rowTexts_short (hlen values hvalues) (hshort R hfetch values hvalues)]
  rfl

/-- A select that is refused brings none. -/
theorem fetched_of_refused (hfetch : E.fetch s db (cstr sqlStr) = none) :
    fetched (server E s db) sqlStr = [] := by
  unfold fetched server
  rw [hfetch]
  rfl

end DBDataSet

end FuServer
