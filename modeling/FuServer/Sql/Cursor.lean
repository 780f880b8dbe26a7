import FuServer.Lib.Runs
import FuServer.Sql.Select

/-!
# The row cursor

Any sequence of calls on one data set, with any answers of the server.  `Clear`
keeps the cursor and appending does not move it, so rows that come to an empty
set may come too few.  `cursorValid_iff` lists the calls that break the cursor.
-/

namespace FuServer

open Bytes Outcome Runs

inductive DataSetOp
  | newKeyData (server : Str → Option ResultSet) (keyData : Str)
  | newCodition (server : Str → Option ResultSet) (ord : HashOrder) (codition : UMap Str Str)
  | pushRow (row : UMap Str DBDataField)
  | index (fieldName : Str)
  | write (fieldName data : Str)
  | moveBeginRow
  | moveNextRow
  | clear
  | commit (ord : HashOrder) (answers : List Bool)
  /-- assign another set to this one -/
  | assign (set : DBDataSet)
  | assignSelf
  /-- go on with a copy of this set, made over `into` -/
  | copy (into : DBDataSet)

namespace DataSetOp

/-- The set after the call. -/
def call (d : DBDataSet) : DataSetOp → Res DBDataSet
  | newKeyData server keyData => do return (← d.newKeyData server keyData).1
  | newCodition server ord codition => .ok (d.newCodition server ord codition).1
  | pushRow row => .ok (d.pushRow row)
  | index fieldName => d.index fieldName
  | write fieldName data => d.write fieldName data
  | moveBeginRow => .ok d.moveBeginRow.1
  | moveNextRow => .ok d.moveNextRow.1
  | clear => .ok d.clear
  | commit ord answers => do return (← d.commit ord { answers := answers }).2
  | assign set => .ok (d.assign set)
  | assignSelf => .ok d.assignSelf
  | copy into => .ok (into.assign d)

/-- Calls one after the other; a fault is the end of it. -/
def step : Res DBDataSet → DataSetOp → Option (Res DBDataSet)
  | .ok d, op => some (op.call d)
  | .error _, _ => none

end DataSetOp

namespace DBDataSet

variable {d : DBDataSet}

/-- Unless the set is empty, the cursor is on one of its rows. -/
def CursorValid (d : DBDataSet) : Prop := d.setList ≠ [] → d.InRange

/-- The rows a call appends without moving the cursor. -/
def appended (d : DBDataSet) : DataSetOp → List DBDataRow
  | .newKeyData server keyData =>
    if d.found server keyData ≠ [] then d.found server keyData else d.defaulted server
  | .newCodition server ord codition =>
    if codition.entries = [] then [] else fetched server (queryConditionSql ord d.sTableName codition)
  | .pushRow row => [DBDataRow.new row]
  | _ => []

/-- The rows that come to an empty set reach up to the cursor.  `New` uses the
cursor even when no row came, unless it has none to use it for or makes a row
of its own. -/
def Keeps (d : DBDataSet) (op : DataSetOp) : Prop :=
  d.setList = [] →
    (match op with
      | .newKeyData server keyData => d.sKeyName = [] ∨ (d.found server keyData = [] ∧ keyData ≠ [])
      | _ => d.appended op = []) ∨ d.setIndex < (d.appended op).length

/-! ## One call -/

theorem inRange_append {rows : List DBDataRow} (h0 : 0 ≤ d.setIndex) (h : d.CursorValid) :
    (d.append rows).InRange ↔ (d.setList = [] → d.setIndex < rows.length) := by
  have hlen : (d.append rows).setList.length = d.setList.length + rows.length := List.length_append
  unfold InRange
  rw [hlen]
  constructor
  · rintro ⟨-, hlt⟩ hnil
    have hlt' : d.setIndex.toNat < d.setList.length + rows.length := hlt
    rw [hnil, List.length_nil] at hlt'
    omega
  · intro hempty
    refine ⟨h0, ?_⟩
    show d.setIndex.toNat < d.setList.length + rows.length
    by_cases hnil : d.setList = []
    · have := hempty hnil
      omega
    · have := (h hnil).2
      omega

theorem cursorValid_append {rows : List DBDataRow} (h0 : 0 ≤ d.setIndex) (h : d.CursorValid) :
    (d.append rows).CursorValid ↔ (d.setList = [] → rows ≠ [] → d.setIndex < rows.length) := by
  by_cases hrows : rows = []
  · subst hrows
    rw [append_nil]
    exact iff_of_true h fun _ hne => absurd rfl hne
  · have hne : (d.append rows).setList ≠ [] := by
      intro hnil
      exact hrows (List.append_eq_nil_iff.mp hnil).2
    constructor
    · intro hvalid hnil _
      exact (inRange_append h0 h).mp (hvalid hne) hnil
    · intro hempty _
      exact (inRange_append h0 h).mpr fun hnil => hempty hnil hrows

theorem returns_settled (temp : Bool) :
    Returns (do return (← d.settled temp).1) CursorValid ↔ d.InRange := by
  unfold settled
  by_cases h : d.InRange
  · rw [if_pos h]
    refine iff_of_true (returns_ok.mpr fun _ => ?_) h
    exact inRange_modify.mpr h
  · rw [if_neg h]
    exact iff_of_false not_returns_error h

theorem inRange_onRow {done rest : List DBDataRow} {row : DBDataRow} :
    (d.onRow done row rest).InRange := by
  refine ⟨Int.natCast_nonneg _, ?_⟩
  show ((done.length : Nat) : Int).toNat < (done ++ row :: rest).length
  rw [Int.toNat_natCast, List.length_append, List.length_cons]
  omega

/-- An access through the cursor leaves it where it is, on as many rows. -/
theorem modifyCurRow_ok {f : DBDataRow → DBDataRow} {d' : DBDataSet} (h : d.modifyCurRow f = .ok d') :
    d.InRange ∧ d'.InRange ∧ d'.setIndex = d.setIndex := by
  by_cases hrange : d.InRange
  · rw [modifyCurRow_of_inRange f hrange] at h
    cases h
    exact ⟨hrange, inRange_modify.mpr hrange, rfl⟩
  · rw [modifyCurRow_of_not_inRange f hrange] at h
    cases h

/-- `operator[]` makes a row where there is none. -/
theorem index_inRange (h : d.CursorValid) (fieldName : Str) :
    ∃ d', d.index fieldName = .ok d' ∧ d'.InRange := by
  unfold index
  by_cases hnil : d.setList = []
  · have hrow : ({ d with setList := [DBDataRow.new ∅], setIndex := 0 } : DBDataSet) =
        d.onRow [] (DBDataRow.new ∅) [] := rfl
    rw [if_pos hnil]
    dsimp only
    rw [hrow, modifyCurRow_onRow, ok_bind, modifyCurRow_onRow]
    exact ⟨_, rfl, inRange_onRow⟩
  · have hrange := h hnil
    rw [if_neg hnil, modifyCurRow_of_inRange _ hrange]
    exact ⟨_, rfl, inRange_modify.mpr hrange⟩

theorem write_inRange (h : d.CursorValid) (fieldName data : Str) :
    ∃ d', d.write fieldName data = .ok d' ∧ d'.InRange := by
  obtain ⟨d1, hd1, hrange⟩ := index_inRange h fieldName
  unfold write
  rw [hd1, ok_bind, modifyCurRow_of_inRange _ hrange]
  exact ⟨_, rfl, inRange_modify.mpr hrange⟩

theorem newCodition_eq {server : Str → Option ResultSet} {ord : HashOrder} {codition : UMap Str Str} :
    (d.newCodition server ord codition).1 =
      d.append (d.appended (.newCodition server ord codition)) := by
  unfold newCodition queryRecordCondition appended
  dsimp only
  split
  · exact (append_nil d).symm
  · rw [excuteCollectSQL_eq]

theorem moveNextRow_cursorValid (h0 : 0 ≤ d.setIndex) (h : d.CursorValid) :
    d.moveNextRow.1.CursorValid := by
  unfold moveNextRow
  split
  · next hlt =>
    intro hne
    refine ⟨?_, ?_⟩
    · show 0 ≤ d.setIndex + 1
      omega
    · show (d.setIndex + 1).toNat < d.setList.length
      omega
  · exact h

theorem zero_cursorValid (h : d.setIndex = 0) : d.CursorValid := by
  intro hne
  rw [InRange, h]
  exact ⟨Int.le_refl 0, List.length_pos_iff.mpr hne⟩

theorem moveBeginRow_cursorValid (h : d.CursorValid) : d.moveBeginRow.1.CursorValid := by
  unfold moveBeginRow
  split
  · exact h
  · exact zero_cursorValid rfl

theorem commit_cursorValid (ord : HashOrder) (answers : List Bool) :
    ∃ d', DataSetOp.call d (.commit ord answers) = .ok d' ∧ d'.CursorValid ∧
      (0 ≤ d.setIndex → 0 ≤ d'.setIndex) := by
  obtain ⟨setIndex, hcommit, hnil, hcons⟩ := commit_eq ord { answers := answers } d
  have hlen := length_commitRows (d := d) ord d.setList { answers := answers }
  unfold DataSetOp.call
  dsimp only
  rw [hcommit]
  refine ⟨_, rfl, fun hne => ?_, fun h0 => ?_⟩
  · have hrows : d.setList ≠ [] := by
      intro h
      rw [h] at hne
      exact hne rfl
    obtain ⟨hlo, hhi⟩ := hcons hrows
    exact ⟨hlo, by show setIndex.toNat < _; rw [hlen]; exact hhi⟩
  · show 0 ≤ setIndex
    by_cases hrows : d.setList = []
    · rw [hnil hrows]
      exact h0
    · exact (hcons hrows).1

theorem newKeyData_cursorValid_iff (h0 : 0 ≤ d.setIndex) (h : d.CursorValid)
    (server : Str → Option ResultSet) (keyData : Str) :
    Returns (DataSetOp.call d (.newKeyData server keyData)) CursorValid ↔
      d.Keeps (.newKeyData server keyData) := by
  unfold DataSetOp.call Keeps appended
  dsimp only
  rw [newKeyData_eq]
  by_cases hname : d.sKeyName = []
  · rw [if_pos hname]
    exact iff_of_true (returns_ok.mpr h) fun _ => Or.inl (Or.inl hname)
  · rw [if_neg hname]
    by_cases hfound : d.found server keyData = []
    · rw [if_neg (not_not.mpr hfound), if_neg (not_not.mpr hfound)]
      by_cases hkey : keyData = []
      · rw [if_pos hkey, returns_settled, inRange_append h0 h]
        constructor
        · intro hlt hnil
          exact Or.inr (hlt hnil)
        · intro hk hnil
          rcases hk hnil with (hn | ⟨-, hk'⟩) | hlt
          · exact absurd hn hname
          · exact absurd hkey hk'
          · exact hlt
      · rw [if_neg hkey]
        refine iff_of_true (returns_ok.mpr fun _ => ?_) fun _ => Or.inl (Or.inr ⟨hfound, hkey⟩)
        exact inRange_onRow (d := d)
    · rw [if_pos hfound, if_pos hfound, returns_settled, inRange_append h0 h]
      constructor
      · intro hlt hnil
        exact Or.inr (hlt hnil)
      · intro hk hnil
        rcases hk hnil with (hn | ⟨hf, -⟩) | hlt
        · exact absurd hn hname
        · exact absurd hf hfound
        · exact hlt

/-- **One call.**  From a valid cursor a call goes through and leaves a valid
cursor exactly when it keeps the cursor within the rows. -/
theorem call_cursorValid_iff (h0 : 0 ≤ d.setIndex) (h : d.CursorValid) (op : DataSetOp) :
    Returns (op.call d) CursorValid ↔ d.Keeps op := by
  have idle : ∀ {d' : DBDataSet}, op.call d = .ok d' → d'.CursorValid → d.appended op = [] →
      (∀ server keyData, op ≠ .newKeyData server keyData) →
      (Returns (op.call d) CursorValid ↔ d.Keeps op) := by
    intro d' hcall hvalid happ hop
    rw [hcall]
    refine iff_of_true (returns_ok.mpr hvalid) fun _ => Or.inl ?_
    cases op <;> first | exact happ | exact absurd rfl (hop _ _)
  cases op with
  | newKeyData server keyData => exact newKeyData_cursorValid_iff h0 h server keyData
  | newCodition server ord codition =>
    unfold DataSetOp.call Keeps
    dsimp only
    rw [returns_ok, newCodition_eq, cursorValid_append h0 h]
    exact imp_congr_right fun _ => or_iff_not_imp_left.symm
  | pushRow row =>
    unfold DataSetOp.call Keeps
    dsimp only
    rw [returns_ok, show d.pushRow row = d.append [DBDataRow.new row] from rfl, cursorValid_append h0 h]
    exact imp_congr_right fun _ => or_iff_not_imp_left.symm
  | index fieldName =>
    obtain ⟨d', hd', hrange⟩ := index_inRange h fieldName
    exact idle hd' (fun _ => hrange) rfl (by simp)
  | write fieldName data =>
    obtain ⟨d', hd', hrange⟩ := write_inRange h fieldName data
    exact idle hd' (fun _ => hrange) rfl (by simp)
  | moveBeginRow => exact idle rfl (moveBeginRow_cursorValid h) rfl (by simp)
  | moveNextRow => exact idle rfl (moveNextRow_cursorValid h0 h) rfl (by simp)
  | clear => exact idle rfl (fun hne => absurd rfl hne) rfl (by simp)
  | commit ord answers =>
    obtain ⟨d', hd', hvalid, -⟩ := commit_cursorValid (d := d) ord answers
    exact idle hd' hvalid rfl (by simp)
  | assign set => exact idle rfl (zero_cursorValid rfl) rfl (by simp)
  | assignSelf => exact idle rfl (zero_cursorValid rfl) rfl (by simp)
  | copy into => exact idle rfl (zero_cursorValid rfl) rfl (by simp)

/-! ## Sequences of calls -/

theorem settled_setIndex {temp : Bool} {r : DBDataSet × Bool} (h : d.settled temp = .ok r) :
    r.1.setIndex = d.setIndex := by
  unfold settled at h
  split at h
  · cases h
    rfl
  · cases h

theorem index_setIndex {d' : DBDataSet} {fieldName : Str} (h0 : 0 ≤ d.setIndex)
    (h : d.index fieldName = .ok d') : 0 ≤ d'.setIndex := by
  unfold index at h
  split at h
  · obtain ⟨d1, h1, h2⟩ := bind_eq_ok.mp h
    rw [(modifyCurRow_ok h2).2.2, (modifyCurRow_ok h1).2.2]
  · rw [(modifyCurRow_ok h).2.2]
    exact h0

/-- No call makes the cursor negative. -/
theorem call_setIndex {op : DataSetOp} {d' : DBDataSet} (h0 : 0 ≤ d.setIndex)
    (h : op.call d = .ok d') : 0 ≤ d'.setIndex := by
  cases op with
  | newKeyData server keyData =>
    unfold DataSetOp.call at h
    dsimp only at h
    rw [newKeyData_eq] at h
    obtain ⟨r, hr, hd⟩ := bind_eq_ok.mp h
    cases hd
    split at hr
    · cases hr
      exact h0
    · split at hr
      · rw [settled_setIndex hr]
        exact h0
      · split at hr
        · rw [settled_setIndex hr]
          exact h0
        · cases hr
          exact Int.natCast_nonneg _
  | newCodition server ord codition =>
    cases h
    rw [newCodition_eq]
    exact h0
  | index fieldName => exact index_setIndex h0 h
  | write fieldName data =>
    obtain ⟨d1, h1, h2⟩ := bind_eq_ok.mp h
    rw [(modifyCurRow_ok h2).2.2]
    exact index_setIndex h0 h1
  | moveBeginRow =>
    cases h
    unfold moveBeginRow
    split
    · exact h0
    · exact Int.le_refl 0
  | moveNextRow =>
    cases h
    unfold moveNextRow
    split
    · show 0 ≤ d.setIndex + 1
      omega
    · exact h0
  | commit ord answers =>
    obtain ⟨d1, h1, -, hindex⟩ := commit_cursorValid (d := d) ord answers
    rw [h1] at h
    cases h
    exact hindex h0
  | pushRow row => cases h; exact h0
  | clear => cases h; exact h0
  | assign set => cases h; exact Int.le_refl 0
  | assignSelf => cases h; exact Int.le_refl 0
  | copy into => cases h; exact Int.le_refl 0

/-- No call so far has used the cursor outside the rows, and it is on a row if there is one. -/
def Sound (s : Res DBDataSet) : Prop := Returns s CursorValid

/-- The next call keeps the cursor within the rows. -/
def Allowed (s : Res DBDataSet) (op : DataSetOp) : Prop := ∀ d, s = .ok d → d.Keeps op

theorem new_setIndex (tname : Str) (attr : Option (Str × Bool)) : (new tname attr).setIndex = 0 := by
  unfold new
  split
  · rfl
  · split
    · rfl
    · rfl

theorem sound_step {s s' : Res DBDataSet} {op : DataSetOp} (h0 : ∀ d, s = .ok d → 0 ≤ d.setIndex)
    (h : Sound s) (hs : DataSetOp.step s op = some s') : Sound s' ↔ Allowed s op := by
  obtain ⟨d, rfl, hd⟩ := h
  cases hs
  unfold Sound
  rw [call_cursorValid_iff (h0 d rfl) hd op]
  constructor
  · intro hk d' hd'
    cases hd'
    exact hk
  · intro hk
    exact hk d rfl

/-- **The row cursor.**  Over any sequence of calls on a new data set the cursor
stays valid, and is never used outside the rows, exactly when every call keeps
it within the rows: nothing comes to an empty set below the cursor that `Clear`
left behind, and no `New("")` comes back empty-handed there. -/
theorem cursorValid_iff (tname : Str) (attr : Option (Str × Bool)) (ops : List DataSetOp) :
    Always DataSetOp.step Sound (.ok (new tname attr)) ops ↔
      EachStep DataSetOp.step Allowed (.ok (new tname attr)) ops := by
  have hindex := new_setIndex tname attr
  refine always_iff_eachStep (J := fun s => ∀ d, s = .ok d → 0 ≤ d.setIndex) (D := fun _ _ => True)
    (fun s op s' h0 _ hs d' hd' => ?_) (fun s op s' h0 h _ hs => sound_step h0 h hs) ops _ ?_ ?_
    (eachStep_of_forall ops _ fun _ _ _ => trivial)
  · cases s with
    | error e => cases hs
    | ok d =>
      obtain rfl := Option.some.inj hs
      exact call_setIndex (h0 d rfl) hd'
  · intro d hd
    cases hd
    exact Int.le_of_eq hindex.symm
  · exact returns_ok.mpr (zero_cursorValid hindex)

/-- Two rows, the cursor on the second, then `Clear` and one row again. -/
def refill : List DataSetOp :=
  [.pushRow ∅, .pushRow ∅, .moveNextRow, .clear, .pushRow ∅]

/-- No row and none to be had: `New("")` settles the flags of a row that is not there. -/
def emptyHanded : List DataSetOp := [.newKeyData (fun _ => none) []]

theorem cursorValid_broken :
    ¬ Always DataSetOp.step Sound (.ok (new (lit "t") none)) refill ∧
    ¬ Always DataSetOp.step Sound (.ok (new (lit "t") (some (lit "id", true)))) emptyHanded := by
  constructor
  · refine not_always_of_any (b := fun s => s.toOption.any fun d => d.setList ≠ [] ∧ ¬ d.InRange) ?_
      (by decide +kernel)
    rintro s hs ⟨d, rfl, hd⟩
    obtain ⟨hne, hrange⟩ : d.setList ≠ [] ∧ ¬ d.InRange := of_decide_eq_true hs
    exact hrange (hd hne)
  · refine not_always_of_any (b := fun s => s.toOption.isNone) ?_ (by decide +kernel)
    rintro s hs ⟨d, rfl, -⟩
    cases hs

end DBDataSet

end FuServer
