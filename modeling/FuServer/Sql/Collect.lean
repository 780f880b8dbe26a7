import FuServer.Lib.Outcome
import FuServer.Model.SqlServer
import FuServer.Sql.Select

/-!
# What is collected of a result

The length that `SQLGetData` sets is what was left before the call, and
`st_CollectField` takes it for what the buffer holds: a value that does not fit
has bytes appended that are not its own.  `st_CollectRecordSet` goes on until
there is no data, and an error that stays is never that.
-/

namespace FuServer

open Bytes Outcome

/-! ## A value -/

/-- What `st_CollectField` makes of a value, when it does not read past its buffer. -/
def fieldText (value : Str) : Str :=
  if value.length < 255 then value else value.take 254 ++ [0] ++ value.drop 254

theorem stCollectFieldLoop_done (fuel : Nat) (pFieldBuf : Str) (nBytesLen : Int) (fieldStr : Str) :
    stCollectFieldLoop (fuel + 1) (.bytes []) pFieldBuf nBytesLen fieldStr = .ok fieldStr := rfl

/-- A piece is stored with the length of all that was left, and so much is appended. -/
theorem stCollectFieldLoop_piece (fuel : Nat) {left : Str} (hne : left ≠ []) {pFieldBuf : Str}
    (hbuf : pFieldBuf.length = 255) (nBytesLen : Int) (fieldStr : Str) :
    ∃ buf : Str, buf.length = 255 ∧ (∃ rest, buf = left.take 254 ++ 0 :: rest) ∧
      stCollectFieldLoop (fuel + 1) (.bytes left) pFieldBuf nBytesLen fieldStr =
        (appendBytes fieldStr buf left.length >>= fun fieldStr =>
          stCollectFieldLoop fuel (.bytes (left.drop 254)) buf left.length fieldStr) := by
  cases left with
  | nil => exact absurd rfl hne
  | cons b rest =>
    have hmin : min 254 (b :: rest).length ≤ 254 := Nat.min_le_left _ _
    refine ⟨(b :: rest).take 254 ++ [0] ++ pFieldBuf.drop ((b :: rest).take 254 ++ [0]).length, ?_,
      ⟨_, List.append_assoc _ _ _⟩, ?_⟩
    · simp only [List.length_append, List.length_take, List.length_drop, List.length_singleton, hbuf]
      omega
    · have hpos : ¬ (((b :: rest).length : Nat) : Int) ≤ 0 := by
        rw [List.length_cons]
        omega
      rw [stCollectFieldLoop]
      simp only [sqlGetData, hbuf, reduceCtorEq, if_false]
      rw [if_neg hpos]

/-- Reading within what the buffer holds of a piece. -/
theorem appendBytes_piece (fieldStr piece rest : Str) (h : (piece ++ 0 :: rest).length = 255)
    {n : Nat} (hn : n ≤ 255) :
    appendBytes fieldStr (piece ++ 0 :: rest) n = .ok (fieldStr ++ (piece ++ 0 :: rest).take n) := by
  unfold appendBytes
  rw [Int.toNat_natCast, if_pos (by omega)]

theorem appendBytes_past {fieldStr pFieldBuf : Str} {n : Nat} (h : pFieldBuf.length < n) :
    appendBytes fieldStr pFieldBuf n = .error (.fault .readPastEnd) := by
  unfold appendBytes
  rw [Int.toNat_natCast, if_neg (by omega)]

/-- A value that fits is appended as it is. -/
theorem stCollectFieldLoop_fits (fuel : Nat) {left : Str} (hlen : left.length < 255) {pFieldBuf : Str}
    (hbuf : pFieldBuf.length = 255) (nBytesLen : Int) (fieldStr : Str) :
    stCollectFieldLoop (fuel + 2) (.bytes left) pFieldBuf nBytesLen fieldStr =
      .ok (fieldStr ++ left) := by
  by_cases hne : left = []
  · rw [hne, List.append_nil, stCollectFieldLoop_done]
  · obtain ⟨buf, hlen', ⟨rest, rfl⟩, hloop⟩ :=
      stCollectFieldLoop_piece (fuel + 1) hne hbuf nBytesLen fieldStr
    have htake : left.take 254 = left := List.take_of_length_le (by omega)
    have hdrop : left.drop 254 = [] := List.drop_eq_nil_of_le (by omega)
    rw [hloop, appendBytes_piece _ _ _ hlen' (by omega), ok_bind, hdrop, stCollectFieldLoop_done, htake,
      List.take_left']
    rfl

/-- The value that fills the buffer has the NUL appended in the place of its last byte, and then that. -/
theorem stCollectField_full (fuel : Nat) {value : Str} (hlen : value.length = 255) :
    stCollectField (fuel + 3) (.bytes value) = .ok (value.take 254 ++ [0] ++ value.drop 254) := by
  have hne : value ≠ [] := by
    rintro rfl
    cases hlen
  obtain ⟨buf, hlen', ⟨rest, rfl⟩, hloop⟩ :=
    stCollectFieldLoop_piece (fuel + 2) hne
      (List.length_replicate : (List.replicate 255 (0 : UInt8)).length = 255) 0 []
  have hrest : rest = [] := by
    rw [List.length_append, List.length_cons, List.length_take] at hlen'
    exact List.length_eq_zero_iff.mp (by omega)
  unfold stCollectField
  rw [hloop, appendBytes_piece _ _ _ hlen' (by omega), ok_bind,
    stCollectFieldLoop_fits fuel (by rw [List.length_drop]; omega) hlen', hlen, hrest, List.nil_append]
  rw [List.take_of_length_le (by rw [List.length_append, List.length_take]; simp)]

/-- A value longer than the buffer is read past its end, in the first round. -/
theorem stCollectField_past (fuel : Nat) {value : Str} (hlen : 255 < value.length) :
    stCollectField (fuel + 1) (.bytes value) = .error (.fault .readPastEnd) := by
  have hne : value ≠ [] := by
    rintro rfl
    cases hlen
  obtain ⟨buf, hlen', -, hloop⟩ :=
    stCollectFieldLoop_piece fuel hne
      (List.length_replicate : (List.replicate 255 (0 : UInt8)).length = 255) 0 []
  unfold stCollectField
  rw [hloop, appendBytes_past (by omega)]
  rfl

/-- Three rounds are enough for every value that is not read past the buffer. -/
theorem stCollectField_text (fuel : Nat) {value : Str} (hlen : value.length ≤ 255) :
    stCollectField (fuel + 3) (.bytes value) = .ok (fieldText value) := by
  unfold fieldText
  by_cases hlt : value.length < 255
  · rw [if_pos hlt]
    exact stCollectFieldLoop_fits (fuel + 1) hlt List.length_replicate 0 []
  · rw [if_neg hlt]
    exact stCollectField_full fuel (by omega)

/-- With any rounds, a value that is collected at all is one of these. -/
theorem length_of_stCollectField {fuel : Nat} {value fieldStr : Str}
    (h : stCollectField fuel (.bytes value) = .ok fieldStr) : value.length ≤ 255 := by
  by_contra hlen
  cases fuel with
  | zero => cases h
  | succ fuel =>
    rw [stCollectField_past fuel (by omega)] at h
    cases h

/-- A call that has returned returns the same with more rounds. -/
theorem stCollectFieldLoop_mono (k : Nat) {fuel : Nat} {data : ColumnData} {pFieldBuf fieldStr r : Str}
    {nBytesLen : Int} (h : stCollectFieldLoop fuel data pFieldBuf nBytesLen fieldStr = .ok r) :
    stCollectFieldLoop (fuel + k) data pFieldBuf nBytesLen fieldStr = .ok r := by
  induction fuel generalizing data pFieldBuf fieldStr nBytesLen with
  | zero => cases h
  | succ fuel ih =>
    rw [Nat.add_right_comm]
    rw [stCollectFieldLoop] at h ⊢
    split at h
    · next hdata => rwa [if_pos hdata]
    · next hdata =>
      rw [if_neg hdata]
      split at h
      · next hlen => rwa [if_pos hlen]
      · next hlen =>
        rw [if_neg hlen]
        obtain ⟨fieldStr', happend, hrest⟩ := bind_eq_ok.mp h
        rw [happend, ok_bind]
        exact ih hrest

/-- The value is collected as it is, and nothing is read past the buffer. -/
def CollectedIntact (value : Str) : Prop := ∃ fuel, stCollectField fuel (.bytes value) = .ok value

/-- **Long values.**  `st_CollectField` collects the values that fit its buffer with their NUL, and
no others, as they are. -/
theorem collectedIntact_iff (value : Str) : CollectedIntact value ↔ value.length ≤ 254 := by
  constructor
  · rintro ⟨fuel, h⟩
    have htext := stCollectField_text fuel (length_of_stCollectField h)
    have hmore := stCollectFieldLoop_mono 3 h
    have hsame : fieldText value = value := by
      unfold stCollectField at htext
      rw [htext] at hmore
      exact Except.ok.inj hmore
    by_contra hlen
    have hcount := congrArg List.length hsame
    unfold fieldText at hcount
    rw [if_neg (by omega)] at hcount
    simp only [List.length_append, List.length_take, List.length_drop, List.length_singleton] at hcount
    omega
  · intro hlen
    refine ⟨3, ?_⟩
    have htext : stCollectField 3 (.bytes value) = .ok (fieldText value) :=
      stCollectField_text 0 (by omega)
    unfold fieldText at htext
    rwa [if_pos (by omega)] at htext

/-- 300 bytes are appended from a buffer of 255. -/
theorem collectedIntact_long :
    ¬ CollectedIntact (List.replicate 300 65) ∧
      ∀ fuel, stCollectField (fuel + 1) (.bytes (List.replicate 300 65)) =
        .error (.fault .readPastEnd) := by
  have hpast : ∀ fuel, stCollectField (fuel + 1) (.bytes (List.replicate 300 65)) =
      .error (.fault .readPastEnd) :=
        fun fuel => stCollectField_past fuel (by rw [List.length_replicate]; omega)
  refine ⟨?_, hpast⟩
  rintro ⟨fuel, h⟩
  have hlen := length_of_stCollectField h
  rw [List.length_replicate] at hlen
  omega

namespace SqlHstmt

/-! ## A row -/

/-- The text of a column, a NULL having none. -/
def columnText (values : List (Option Str)) (i : Nat) : Str := (values.getD i none).elim [] fieldText

/-- The texts of a fetched row. -/
def rowTexts (columns : List Str) (values : List (Option Str)) : List Str :=
  (List.range columns.length).map (columnText values)

/-- The row that a fetch comes to. -/
def rowOf (columns : List Str) (values : List (Option Str)) : DBDataRow :=
  DBDataRow.new (DBDataSet.collectRow columns (rowTexts columns values))

/-- The result as a whole, with the texts that are collected of it. -/
def resultSet (hstmt : SqlHstmt) : ResultSet where
  columns := hstmt.columns
  rows := hstmt.ahead.map (rowTexts hstmt.columns)

/-- No value of the row is longer than the buffer. -/
def RowFits (columns : List Str) (values : List (Option Str)) : Prop :=
  ∀ i < columns.length, ∀ value ∈ values.getD i none, value.length ≤ 255

instance (columns : List Str) (values : List (Option Str)) : Decidable (RowFits columns values) :=
  inferInstanceAs (Decidable (∀ i < columns.length, ∀ value ∈ values.getD i none, value.length ≤ 255))

variable {hstmt : SqlHstmt}

theorem collectRow_of_fits {values : List (Option Str)} (hrow : hstmt.row = some values)
    (hfits : RowFits hstmt.columns values) (fuel : Nat) :
    hstmt.collectRow (fuel + 3) =
      .ok (DBDataSet.collectRow hstmt.columns (rowTexts hstmt.columns values)) := by
  have hfield : ∀ c ∈ hstmt.columns.zipIdx,
      stCollectField (fuel + 3) (hstmt.columnData c.2) = .ok (columnText values c.2) := by
    intro c hc
    have hlt : c.2 < hstmt.columns.length := by simpa using List.snd_lt_of_mem_zipIdx hc
    have hvalue := hfits c.2 hlt
    unfold columnData columnText
    rw [hrow]
    dsimp only
    cases hget : values.getD c.2 none with
    | none => rfl
    | some value => exact stCollectField_text fuel (hvalue value hget)
  have hstep : ∀ c ∈ hstmt.columns.zipIdx, ∀ toRow : UMap Str DBDataField,
      (do
        let fieldStr ← stCollectField (fuel + 3) (hstmt.columnData c.2)
        return UMap.insertNew (cstr c.1) (DBDataField.new fieldStr) toRow :
          Rounds (UMap Str DBDataField)) =
        .ok (UMap.insertNew (cstr c.1) (DBDataField.new (columnText values c.2)) toRow) := by
    intro c hc toRow
    rw [hfield c hc]
    rfl
  unfold collectRow DBDataSet.collectRow rowTexts
  rw [foldlM_eq_foldl _ _ hstep, List.zip_map_right, List.foldl_map, List.zipIdx_eq_zip_range',
    ← List.range_eq_range']
  rfl

/-- A row that is collected has fitted. -/
theorem fits_of_collectRow {values : List (Option Str)} (hrow : hstmt.row = some values) {fuel : Nat}
    {toRow : UMap Str DBDataField} (h : hstmt.collectRow fuel = .ok toRow) :
    RowFits hstmt.columns values := by
  intro i hi value hvalue
  have hmem : (hstmt.columns[i], i) ∈ hstmt.columns.zipIdx := by
    rw [List.mk_mem_zipIdx_iff_getElem?]
    exact List.getElem?_eq_getElem hi
  obtain ⟨b1, b2, hstep⟩ := exists_of_foldlM_ok h _ hmem
  obtain ⟨fieldStr, hfield, -⟩ := bind_eq_ok.mp hstep
  have hdata : hstmt.columnData i = .bytes value := by
    unfold columnData
    rw [hrow]
    dsimp only
    rw [Option.mem_def.mp hvalue]
  rw [hdata] at hfield
  exact length_of_stCollectField hfield

/-! ## The rows -/

/-- Every value of the rows to come fits the buffer. -/
def Fits (hstmt : SqlHstmt) : Prop := ∀ values ∈ hstmt.ahead, RowFits hstmt.columns values

theorem ending_sqlFetch (hstmt : SqlHstmt) : hstmt.sqlFetch.1.ending = hstmt.ending := by
  unfold sqlFetch
  split <;> rfl

/-- A loop that ends has met the end of the data. -/
theorem ending_of_loop {limit fuel : Nat} {d d' : DBDataSet}
    (h : stCollectRecordSetLoop limit fuel hstmt d = .ok d') : hstmt.ending = .noData := by
  induction fuel generalizing hstmt d with
  | zero => cases h
  | succ fuel ih =>
    rw [stCollectRecordSetLoop] at h
    obtain ⟨toRow, -, h⟩ := bind_eq_ok.mp h
    dsimp only at h
    split at h
    · next hret =>
      rw [← ending_sqlFetch hstmt]
      exact ih h
    · next hret =>
      have hnone := not_not.mp hret
      unfold sqlFetch at hnone
      split at hnone
      · cases hnone
      · exact hnone

/-- And has read no row past the buffer. -/
theorem fits_of_loop {limit fuel : Nat} {d d' : DBDataSet} {values : List (Option Str)}
    (hrow : hstmt.row = some values) (h : stCollectRecordSetLoop limit fuel hstmt d = .ok d') :
    RowFits hstmt.columns values ∧ hstmt.Fits := by
  induction fuel generalizing hstmt d values with
  | zero => cases h
  | succ fuel ih =>
    rw [stCollectRecordSetLoop] at h
    obtain ⟨toRow, hcollect, h⟩ := bind_eq_ok.mp h
    refine ⟨fits_of_collectRow hrow hcollect, ?_⟩
    dsimp only at h
    obtain ⟨columns, ahead, ending, row⟩ := hstmt
    cases ahead with
    | nil =>
      intro v hv
      cases hv
    | cons next rest =>
      have hret : (sqlFetch
        { columns := columns, ahead := next :: rest, ending := ending, row := row }).2 ≠
          .noData := by simp [sqlFetch]
      rw [if_pos hret] at h
      obtain ⟨hnext, hrest⟩ := ih rfl h
      intro v hv
      rcases List.mem_cons.mp hv with rfl | hv
      · exact hnext
      · exact hrest v hv

/-- The rows that fit are pushed one by one, as long as no error comes. -/
theorem loop_of_fits {columns : List Str} {ahead : List (List (Option Str))} (limit : Nat)
    (hahead : ∀ values ∈ ahead, RowFits columns values) {values : List (Option Str)}
    (hvalues : RowFits columns values) {fuel : Nat} (hfuel : ahead.length < fuel) (d : DBDataSet) :
    stCollectRecordSetLoop (limit + 3) fuel
        { columns := columns, ahead := ahead, ending := .noData, row := some values } d =
      .ok (((values :: ahead).map (rowTexts columns)).foldl
        (fun d row => d.pushRow (DBDataSet.collectRow columns row)) d) := by
  induction ahead generalizing values fuel d with
  | nil =>
    obtain ⟨fuel, rfl⟩ := Nat.exists_eq_add_one_of_ne_zero (Nat.ne_of_gt hfuel)
    rw [stCollectRecordSetLoop, collectRow_of_fits rfl hvalues, ok_bind]
    rfl
  | cons next rest ih =>
    obtain ⟨fuel, rfl⟩ := Nat.exists_eq_add_one_of_ne_zero (Nat.ne_of_gt (Nat.zero_lt_of_lt hfuel))
    have hrest := ih (fun v hv => hahead v (List.mem_cons_of_mem next hv))
      (hahead next List.mem_cons_self)
      (Nat.lt_of_succ_lt_succ hfuel)
    rw [stCollectRecordSetLoop, collectRow_of_fits rfl hvalues, ok_bind]
    dsimp only [sqlFetch]
    rw [if_pos (by decide), hrest]
    rfl

/-- A result that fits and ends without an error is collected as a whole. -/
theorem stCollectRecordSet_of_fits (hend : hstmt.ending = .noData) (hfits : hstmt.Fits) (d : DBDataSet) :
    hstmt.stCollectRecordSet (hstmt.ahead.length + 2) d = .ok (d.collectRecordSet hstmt.resultSet) := by
  obtain ⟨columns, ahead, ending, row⟩ := hstmt
  obtain rfl : ending = .noData := hend
  unfold stCollectRecordSet DBDataSet.collectRecordSet resultSet
  cases ahead with
  | nil => simp [sqlFetch]
  | cons values rest =>
    by_cases hcolumns : columns = []
    · simp [hcolumns]
    · have hloop := loop_of_fits rest.length (fun v hv => hfits v (List.mem_cons_of_mem values hv))
        (hfits values List.mem_cons_self) (show rest.length < rest.length + 3 by omega) d
      dsimp only [sqlFetch, List.length_cons]
      rw [if_neg (by simp [hcolumns]), if_neg (by simp [hcolumns]), hloop]
      rfl

/-- A call that returns has met the end of the data, and has read no row past the buffer. -/
theorem fits_of_stCollectRecordSet (hcolumns : hstmt.columns ≠ []) {fuel : Nat} {dataSet : DBDataSet}
    {r : DBDataSet × Bool} (h : hstmt.stCollectRecordSet fuel dataSet = .ok r) :
    hstmt.ending = .noData ∧ hstmt.Fits := by
  have hpos : ¬ hstmt.columns.length ≤ 0 := by
    rw [Nat.le_zero, List.length_eq_zero_iff]
    exact hcolumns
  unfold stCollectRecordSet at h
  obtain ⟨columns, ahead, ending, row⟩ := hstmt
  cases ahead with
  | nil =>
    refine ⟨?_, fun values hvalues => by cases hvalues⟩
    dsimp only [sqlFetch] at h
    split at h
    · next hnone => exact hnone.resolve_right hpos
    · obtain ⟨d, hloop, -⟩ := bind_eq_ok.mp h
      have hend := ending_of_loop hloop
      exact hend
  | cons values rest =>
    rw [if_neg (not_or.mpr ⟨by simp [sqlFetch], hpos⟩)] at h
    obtain ⟨d, hloop, -⟩ := bind_eq_ok.mp h
    refine ⟨(ending_sqlFetch _).symm.trans (ending_of_loop hloop), fun v hv => ?_⟩
    obtain ⟨hfirst, hrest⟩ := fits_of_loop rfl hloop
    rcases List.mem_cons.mp hv with rfl | hv
    · exact hfirst
    · exact hrest v hv

/-- The call returns; it has pushed one row for each fetch, in their order, and says so only if no
error came and there was one. -/
def CollectsAll (hstmt : SqlHstmt) (dataSet : DBDataSet) : Prop :=
  ∃ fuel d b, hstmt.stCollectRecordSet fuel dataSet = .ok (d, b) ∧
    d.setList = dataSet.setList ++ hstmt.ahead.map (rowOf hstmt.columns) ∧
    (b = true → hstmt.ending = .noData ∧ hstmt.ahead ≠ [])

/-- **Result collection.**  It returns with the rows fetched exactly when they are followed by the
end of the data, and no value of theirs is read past the buffer; after an error it never returns. -/
theorem collectsAll_iff (hcolumns : hstmt.columns ≠ []) (dataSet : DBDataSet) :
    hstmt.CollectsAll dataSet ↔ hstmt.ending = .noData ∧ hstmt.Fits := by
  constructor
  · rintro ⟨fuel, d, b, hcall, -⟩
    exact fits_of_stCollectRecordSet hcolumns hcall
  · rintro ⟨hend, hfits⟩
    have hcall := stCollectRecordSet_of_fits hend hfits dataSet
    unfold DBDataSet.collectRecordSet at hcall
    by_cases hahead : hstmt.ahead = []
    · rw [if_pos (Or.inl (by simp [resultSet, hahead]))] at hcall
      refine ⟨_, dataSet, false, hcall, ?_, fun h => by cases h⟩
      rw [hahead]
      exact (List.append_nil _).symm
    · have hcols : hstmt.resultSet.columns ≠ [] := hcolumns
      rw [if_neg (not_or.mpr ⟨by simpa [resultSet] using hahead, hcols⟩),
        DBDataSet.foldl_pushRow] at hcall
      refine ⟨_, _, true, hcall, ?_, fun _ => ⟨hend, hahead⟩⟩
      show dataSet.setList ++ ((hstmt.ahead.map (rowTexts hstmt.columns)).map fun row => DBDataRow.new
        (DBDataSet.collectRow hstmt.columns row)) = _
      rw [List.map_map]
      rfl

/-- A row of an id and a name. -/
def oneRow (ending : SqlReturn) : SqlHstmt where
  columns := [lit "id", lit "name"]
  ahead := [[some (lit "1"), some (lit "x")]]
  ending := ending

theorem collectsAll_iff_oneRow :
    (oneRow .noData).CollectsAll { sTableName := lit "t" } ↔
      (oneRow .noData).ending = .noData ∧ (oneRow .noData).Fits :=
  collectsAll_iff (List.cons_ne_nil _ _) _

/-- After an error rows without texts are pushed for ever. -/
theorem collectsAll_error :
    ¬ (oneRow .error).CollectsAll { sTableName := lit "t" } ∧
      ∀ fuel r, (oneRow .error).stCollectRecordSet fuel { sTableName := lit "t" } ≠ .ok r := by
  have hnever : ∀ fuel r, (oneRow .error).stCollectRecordSet fuel { sTableName := lit "t" } ≠ .ok r := by
    intro fuel r hcall
    obtain ⟨hend, -⟩ := fits_of_stCollectRecordSet (List.cons_ne_nil _ _) hcall
    cases hend
  refine ⟨?_, hnever⟩
  rintro ⟨fuel, d, b, hcall, -⟩
  exact hnever fuel (d, b) hcall

end SqlHstmt

end FuServer
