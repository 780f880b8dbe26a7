import FuServer.Sql.Commit

/-!
# What `New` does to a data set

Every select appends the rows it brings (`fetched`) and leaves the cursor
where it is.  `New` then settles the flags of whatever row the cursor is on,
or puts the cursor on a row of its own when the query brought none.
`keepsAndSelects_iff` says when that leaves the held rows alone and ends on
the row asked for.
-/

namespace FuServer

open Bytes Outcome

namespace DBDataSet

variable {d : DBDataSet} {server : Str → Option ResultSet}

/-! ## The cursor in range -/

def InRange (d : DBDataSet) : Prop := 0 ≤ d.setIndex ∧ d.setIndex.toNat < d.setList.length

instance (d : DBDataSet) : Decidable d.InRange := inferInstanceAs (Decidable (_ ∧ _))

theorem modifyCurRow_of_inRange (f : DBDataRow → DBDataRow) (h : d.InRange) :
    d.modifyCurRow f = .ok { d with setList := d.setList.modify d.setIndex.toNat f } := by
  unfold modifyCurRow
  rw [vecModify_of_lt f h.1 h.2]
  rfl

theorem modifyCurRow_of_not_inRange (f : DBDataRow → DBDataRow) (h : ¬ d.InRange) :
    d.modifyCurRow f = .error .outOfRange := by
  have hvec : vecModify d.setList d.setIndex f = .error .outOfRange := if_neg h
  unfold modifyCurRow
  rw [hvec]
  rfl

theorem inRange_modify {i : Nat} {f : DBDataRow → DBDataRow} :
    { d with setList := d.setList.modify i f }.InRange ↔ d.InRange := by
  unfold InRange
  dsimp only
  rw [List.length_modify]

/-! ## Selects -/

/-- The rows a statement brings. -/
def fetched (server : Str → Option ResultSet) (sqlStr : Str) : List DBDataRow :=
  match server (cstr sqlStr) with
  | none => []
  | some hstmt =>
    if hstmt.columns = [] then []
    else hstmt.rows.map fun row => DBDataRow.new (collectRow hstmt.columns row)

def append (d : DBDataSet) (rows : List DBDataRow) : DBDataSet := { d with setList := d.setList ++ rows }

theorem append_nil (d : DBDataSet) : d.append [] = d := by
  unfold append
  rw [List.append_nil]

theorem foldl_pushRow (columns : List Str) (rows : List (List Str)) (d : DBDataSet) :
    rows.foldl (fun d row => d.pushRow (collectRow columns row)) d =
      d.append (rows.map fun row => DBDataRow.new (collectRow columns row)) := by
  induction rows generalizing d with
  | nil => exact (append_nil d).symm
  | cons row rows ih =>
    rw [List.foldl_cons, ih]
    show { d with setList := (d.setList ++ [_]) ++ _ } = { d with setList := d.setList ++ (_ :: _) }
    rw [List.append_assoc]
    rfl

/-- A select appends what it brings, and succeeds if it brings anything. -/
theorem excuteCollectSQL_eq (sqlStr : Str) (d : DBDataSet) :
    excuteCollectSQL server sqlStr d =
      (d.append (fetched server sqlStr), !(fetched server sqlStr).isEmpty) := by
  unfold excuteCollectSQL fetched collectRecordSet
  cases server (cstr sqlStr) with
  | none =>
    rw [append_nil]
    rfl
  | some hstmt =>
    dsimp only
    by_cases hcols : hstmt.columns = []
    · rw [if_pos (Or.inr hcols), if_pos hcols, append_nil]
      rfl
    · by_cases hrows : hstmt.rows = []
      · rw [if_pos (Or.inl hrows), if_neg hcols, hrows, List.map_nil, append_nil]
        rfl
      · rw [if_neg (not_or.mpr ⟨hrows, hcols⟩), if_neg hcols, foldl_pushRow, List.isEmpty_map]
        simp [hrows]

/-- A fetched row is not marked for insert. -/
theorem fetched_bInsert {sqlStr : Str} : ∀ row ∈ fetched server sqlStr, row.bInsert = false := by
  unfold fetched
  cases server (cstr sqlStr) with
  | none => intro row hrow; cases hrow
  | some hstmt =>
    dsimp only
    split
    · intro row hrow
      cases hrow
    · intro row hrow
      obtain ⟨texts, -, rfl⟩ := List.mem_map.mp hrow
      rfl

/-! ## New -/

/-- The rows the query for a key brings. -/
def found (server : Str → Option ResultSet) (d : DBDataSet) (keyData : Str) : List DBDataRow :=
  fetched server (querySql d.sTableName d.sKeyName keyData)

/-- The rows the insertion of default values brings. -/
def defaulted (server : Str → Option ResultSet) (d : DBDataSet) : List DBDataRow :=
  fetched server
    (fuStringFormat (lit "set nocount on;insert into %s default values; select @@identity as NewId;")
      [d.sTableName])

/-- A new row holding only its key, marked for insert. -/
def keyRow (d : DBDataSet) (keyData : Str) : DBDataRow where
  rowList := UMap.insertNew d.sKeyName (DBDataField.new keyData) ∅
  bInsert := true

/-- Clear the flags of the row the cursor is on. -/
def settled (d : DBDataSet) (temp : Bool) : Res (DBDataSet × Bool) :=
  if d.InRange then
    .ok ({ d with setList := d.setList.modify d.setIndex.toNat (·.setIsInsert false) }, temp)
  else .error .outOfRange

theorem setFlags_eq_settled (d : DBDataSet) (temp : Bool) :
    (do
      let d ← d.setCurNewRow false
      let d ← d.setCurModify false
      return (d, temp)) = d.settled temp := by
  unfold setCurNewRow setCurModify settled
  by_cases h : d.InRange
  · have hsame : (fun row : DBDataRow => row.setModify false) = id := by
      funext row
      exact row.setModify_eq_self false
    rw [if_pos h, modifyCurRow_of_inRange _ h, ok_bind, modifyCurRow_of_inRange _ (inRange_modify.mpr h),
      ok_bind, hsame]
    dsimp only
    rw [List.modify_id]
    rfl
  · rw [if_neg h, modifyCurRow_of_not_inRange _ h]
    rfl

/-- The cursor put on a row just pushed. -/
theorem pushRow_cursor (d : DBDataSet) (row : UMap Str DBDataField) :
    { d.pushRow row with setIndex := ((d.pushRow row).setList.length : Int) - 1 } =
      d.onRow d.setList (DBDataRow.new row) [] := by
  unfold pushRow onRow
  rw [List.length_append, List.length_singleton]
  simp

/-- Everything `New` can do. -/
theorem newKeyData_eq (server : Str → Option ResultSet) (d : DBDataSet) (keyData : Str) :
    d.newKeyData server keyData =
      if d.sKeyName = [] then .ok (d, false)
      else if d.found server keyData ≠ [] then (d.append (d.found server keyData)).settled true
      else if keyData = [] then
        (d.append (d.defaulted server)).settled (!(d.defaulted server).isEmpty)
      else .ok ({ d.append [d.keyRow keyData] with setIndex := d.setList.length }, true) := by
  unfold newKeyData queryRecord newRecord
  by_cases hname : d.sKeyName = []
  · rw [if_pos hname, if_pos hname]
  · rw [if_neg hname, if_neg hname, excuteCollectSQL_eq]
    change (if (!(d.found server keyData).isEmpty) = true then _ else _) = _
    by_cases hfound : d.found server keyData = []
    swap
    · rw [if_pos (by simpa using hfound), if_pos hfound]
      exact setFlags_eq_settled _ true
    · have hnil : fetched server (querySql d.sTableName d.sKeyName keyData) = [] := hfound
      rw [if_neg (by simpa using hfound), if_neg (not_not.mpr hfound), hnil, append_nil]
      by_cases hkey : keyData = []
      · rw [if_pos hkey, if_pos hkey, excuteCollectSQL_eq]
        exact setFlags_eq_settled _ _
      · rw [if_neg hkey, if_neg hkey]
        show (setCurNewRow { d.pushRow _ with setIndex := ((d.pushRow _).setList.length : Int) - 1 }
          true >>= _) = _
        rw [pushRow_cursor, setCurNewRow, modifyCurRow_onRow]
        rfl

/-! ## The row asked for -/

/-- `New` leaves the held rows as they are, and when it returns `true` the
cursor is on a row it added: one the query brought, or else the new row. -/
def KeepsAndSelects (server : Str → Option ResultSet) (d : DBDataSet) (keyData : Str) : Prop :=
  Returns (d.newKeyData server keyData) fun r =>
    d.setList <+: r.1.setList ∧
    (r.2 = true → (d.setList.length : Int) ≤ r.1.setIndex ∧ ∃ row, r.1.curRow = .ok row ∧
      if d.found server keyData = [] then row = d.keyRow keyData else row ∈ d.found server keyData)

theorem settled_onRow {done rest : List DBDataRow} {row : DBDataRow} (temp : Bool) :
    (d.onRow done row rest).settled temp = .ok (d.onRow done (row.setIsInsert false) rest, temp) := by
  rw [← setFlags_eq_settled, setCurNewRow, modifyCurRow_onRow, ok_bind, setCurModify,
    modifyCurRow_onRow, DBDataRow.setModify_eq_self]
  rfl

/-- A cursor that stands where the rows arrive is on one of them. -/
theorem append_eq_onRow {rows : List DBDataRow} {i : Nat}
    (hi : d.setIndex = ((d.setList.length + i : Nat) : Int)) (hlt : i < rows.length) :
    d.append rows = d.onRow (d.setList ++ rows.take i) rows[i] (rows.drop (i + 1)) := by
  have hlist : d.setList ++ rows = (d.setList ++ rows.take i) ++ rows[i] :: rows.drop (i + 1) := by
    rw [List.append_assoc, List.getElem_cons_drop, List.take_append_drop]
  have hindex : d.setIndex = ((d.setList ++ rows.take i).length : Int) := by
    rw [List.length_append, List.length_take, Nat.min_eq_left (Nat.le_of_lt hlt), hi]
  unfold append onRow
  rw [← hlist, ← hindex]

/-- Settling the flags of a fetched row changes nothing. -/
theorem settled_of_fetched {rows : List DBDataRow} (hrows : ∀ row ∈ rows, row.bInsert = false)
    (hlo : (d.setList.length : Int) ≤ d.setIndex)
    (hhi : d.setIndex < (d.setList.length : Int) + rows.length) (temp : Bool) :
    ∃ row ∈ rows, (d.append rows).curRow = .ok row ∧
      (d.append rows).settled temp = .ok (d.append rows, temp) := by
  obtain ⟨i, hi⟩ : ∃ i : Nat, d.setIndex = ((d.setList.length + i : Nat) : Int) :=
    ⟨(d.setIndex - d.setList.length).toNat, by omega⟩
  have hlt : i < rows.length := by omega
  have hmem : rows[i] ∈ rows := List.getElem_mem hlt
  have hflag : rows[i].setIsInsert false = rows[i] := by
    rw [DBDataRow.setIsInsert, ← hrows rows[i] hmem]
  refine ⟨rows[i], hmem, ?_, ?_⟩
  · rw [append_eq_onRow hi hlt, curRow_onRow]
  · rw [append_eq_onRow hi hlt, settled_onRow, hflag]

/-- After a fetch the cursor has to be on a fetched row already. -/
theorem keepsAndSelects_of_found (hname : d.sKeyName ≠ []) {keyData : Str}
    (hfound : d.found server keyData ≠ []) :
    d.KeepsAndSelects server keyData ↔
      (d.setList.length : Int) ≤ d.setIndex ∧
        d.setIndex < (d.setList.length : Int) + (d.found server keyData).length := by
  unfold KeepsAndSelects
  rw [newKeyData_eq, if_neg hname, if_pos hfound]
  constructor
  · rintro ⟨r, hr, -, hsel⟩
    unfold settled at hr
    split at hr
    · next hrange =>
      cases hr
      have hlo : (d.setList.length : Int) ≤ d.setIndex := (hsel rfl).1
      have hlt : d.setIndex.toNat < (d.setList ++ d.found server keyData).length := hrange.2
      rw [List.length_append] at hlt
      exact ⟨hlo, by omega⟩
    · cases hr
  · rintro ⟨hlo, hhi⟩
    obtain ⟨row, hrow, hcur, hsettled⟩ := settled_of_fetched fetched_bInsert hlo hhi true
    refine ⟨_, hsettled, List.prefix_append _ _, fun _ => ⟨hlo, row, hcur, ?_⟩⟩
    rw [if_neg hfound]
    exact hrow

/-- **Which `New` selects the row asked for.**  A fetch leaves the cursor
behind: only a cursor that already stood where the fetched rows arrive ends on
one of them.  The new row of a miss always gets the cursor. -/
theorem keepsAndSelects_iff (hname : d.sKeyName ≠ []) {keyData : Str} (hkey : keyData ≠ []) :
    d.KeepsAndSelects server keyData ↔
      (d.found server keyData ≠ [] →
        (d.setList.length : Int) ≤ d.setIndex ∧
        d.setIndex < (d.setList.length : Int) + (d.found server keyData).length) := by
  by_cases hfound : d.found server keyData = []
  · refine iff_of_true ?_ fun h => absurd hfound h
    unfold KeepsAndSelects
    rw [newKeyData_eq, if_neg hname, if_neg (not_not.mpr hfound), if_neg hkey, returns_ok]
    refine ⟨List.prefix_append _ _, fun _ => ⟨Int.le_refl _, d.keyRow keyData, ?_, ?_⟩⟩
    · exact curRow_onRow (d := d)
    · rw [if_pos hfound]
  · rw [keepsAndSelects_of_found hname hfound]
    exact ⟨fun h _ => h, fun h => h hfound⟩

/-- A set after `New("1")` found nothing. -/
def pendingInsert : DBDataSet where
  sTableName := lit "t"
  sKeyName := lit "id"
  setList := [keyRow (new (lit "t") (some (lit "id", false))) (lit "1")]

/-- A server whose one row has the key `2`. -/
def onlySecond (sqlStr : Str) : Option ResultSet :=
  if sqlStr = lit "select * from t where id='2';" then
    some { columns := [lit "id"], rows := [[lit "2"]] }
  else some { columns := [lit "id"], rows := [] }

/-- The row of key `2` is fetched, the cursor stays on the row of key `1`, and
its insert flag is cleared. -/
theorem keepsAndSelects_broken :
    (new (lit "t") (some (lit "id", false))).newKeyData onlySecond (lit "1") =
      .ok (pendingInsert, true) ∧
    ¬ pendingInsert.KeepsAndSelects onlySecond (lit "2") ∧
    Returns (pendingInsert.newKeyData onlySecond (lit "2")) fun r =>
      r.1.setIndex = 0 ∧ r.1.setList.map (·.bInsert) = [false, false] := by
  refine ⟨rfl, ?_, by decide +kernel⟩
  rw [keepsAndSelects_of_found (by decide) (by decide +kernel)]
  decide

/-- The row of key `1` is held, and there is none of key `3`. -/
theorem keepsAndSelects_iff_held :
    pendingInsert.KeepsAndSelects onlySecond (lit "3") ↔
      (pendingInsert.found onlySecond (lit "3") ≠ [] →
        (pendingInsert.setList.length : Int) ≤ pendingInsert.setIndex ∧
        pendingInsert.setIndex <
          (pendingInsert.setList.length : Int) + (pendingInsert.found onlySecond (lit "3")).length) :=
  keepsAndSelects_iff (by decide) (by decide)

end DBDataSet

end FuServer
