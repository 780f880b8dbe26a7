import FuServer.Cache.KeyOrder
import FuServer.Cache.Loading
import FuServer.Lib.Runs
import FuServer.Utils.Increment

/-!
# Generated keys

A key-less `InsertDB` takes the greatest key so far and adds one to it as
text.  `fu_str_increment` carries into one more digit and stops there, so a
key that ends in `99` is followed by one that ends in `00` with nothing above
it changed.  `autoKey_iff` says that these are the only keys it goes wrong on.
-/

namespace FuServer

open Bytes Decimal Compare Outcome Runs

/-! ## Adding one to a text -/

/-- The units digit, and what is carried out of it. -/
theorem fuStrIncrement_units (s : Str) {c : UInt8} (hc : isDigit c = true) :
    fuStrIncrement 1 (s ++ [c]) =
      incrementLoop [49] 0 (s ++ [digitByte ((digitVal c + 1) % 10)]) (s.length - 1)
        ((digitVal c + 1) / 10 : Nat) := by
  have hone : fuIntToStr 1 = [49] := by decide
  have hidx : (((s ++ [c]).length : Nat) : Int) - 1 = (s.length : Int) := by
    rw [List.length_append, List.length_singleton]
    omega
  have hlast : (s ++ [c]).getLast? = some c := by simp
  unfold fuStrIncrement
  rw [hlast, hone, hidx]
  simp only [hc, Bool.not_true, Bool.false_eq_true, if_false, List.length_singleton]
  exact incrementLoop_slot [49] (a := 49) rfl (by decide) (incrementSlot_digit s hc []) 0

/-- No carry: the last digit goes up by one. -/
theorem fuStrIncrement_digit (s : Str) {c : UInt8} (hc : isDigit c = true) (h9 : digitVal c < 9) :
    fuStrIncrement 1 (s ++ [c]) = s ++ [digitByte (digitVal c + 1)] := by
  have h0 : (digitVal c + 1) / 10 = 0 := Nat.div_eq_of_lt (by omega)
  have hm : (digitVal c + 1) % 10 = digitVal c + 1 := Nat.mod_eq_of_lt (by omega)
  rw [fuStrIncrement_units s hc, h0, hm]
  rfl

/-- A carry: the tens digit goes up by one, modulo ten, and nothing above it changes. -/
theorem fuStrIncrement_carry (s : Str) {b : UInt8} (hb : isDigit b = true) :
    fuStrIncrement 1 (s ++ [b, 57]) = s ++ [digitByte ((digitVal b + 1) % 10), 48] := by
  have happ : s ++ [b, 57] = (s ++ [b]) ++ [57] := by simp
  have hidx : (((s ++ [b]).length : Nat) : Int) - 1 = (s.length : Int) := by
    rw [List.length_append, List.length_singleton]
    omega
  have hval : digitVal 57 = 9 := by decide
  rw [happ, fuStrIncrement_units (s ++ [b]) (by decide), hval, hidx, List.append_assoc]
  exact incrementLoop_last [49] (incrementSlot_digit s hb [digitByte 0])

/-- The numerals of one ten differ in the last digit only. -/
theorem numeral_units (p : Nat) :
    ∃ s, value s = p ∧ ∀ e, e < 10 → numeral (10 * p + e) = s ++ [digitByte e] := by
  by_cases hp : p = 0
  · subst hp
    refine ⟨[], rfl, fun e he => ?_⟩
    rw [Nat.mul_zero, Nat.zero_add, numeral_of_lt he]
    rfl
  · refine ⟨numeral p, value_numeral p, fun e he => ?_⟩
    have h10 : 10 ≤ 10 * p + e := by omega
    rw [numeral_of_le h10, show (10 * p + e) / 10 = p by omega, show (10 * p + e) % 10 = e by omega]

/-- Unless the numeral ends in 99, the next text is the next numeral. -/
theorem fuStrIncrement_numeral {n : Nat} (h : n % 100 ≠ 99) :
    fuStrIncrement 1 (numeral n) = numeral (n + 1) := by
  obtain ⟨s, hs, hnum⟩ := numeral_units (n / 10)
  have hn := hnum (n % 10) (by omega)
  rw [show 10 * (n / 10) + n % 10 = n by omega] at hn
  have hdig : isDigit (digitByte (n % 10)) = true := isDigit_digitByte (by omega)
  have hval : digitVal (digitByte (n % 10)) = n % 10 := digitVal_digitByte (by omega)
  by_cases h9 : n % 10 < 9
  · have hn1 := hnum (n % 10 + 1) (by omega)
    rw [show 10 * (n / 10) + (n % 10 + 1) = n + 1 by omega] at hn1
    rw [hn, fuStrIncrement_digit s hdig (by omega), hval, hn1]
  · have h9' : n % 10 = 9 := by omega
    by_cases hp : n / 10 = 0
    · obtain rfl : n = 9 := by omega
      decide
    · -- the carry goes into the tens digit, which is not a nine
      obtain ⟨s', hs', hnum'⟩ := numeral_units (n / 100)
      have hq := hnum' (n / 10 % 10) (by omega)
      have hq1 := hnum' (n / 10 % 10 + 1) (by omega)
      rw [show 10 * (n / 100) + n / 10 % 10 = n / 10 by omega] at hq
      rw [show 10 * (n / 100) + (n / 10 % 10 + 1) = (n + 1) / 10 by omega] at hq1
      have hb : isDigit (digitByte (n / 10 % 10)) = true := isDigit_digitByte (by omega)
      have hbv : digitVal (digitByte (n / 10 % 10)) = n / 10 % 10 := digitVal_digitByte (by omega)
      rw [numeral_of_le (n := n) (by omega), hq, h9', List.append_assoc]
      show fuStrIncrement 1 (s' ++ [digitByte (n / 10 % 10), 57]) = _
      rw [fuStrIncrement_carry s' hb, hbv, numeral_of_le (n := n + 1) (by omega), hq1,
        show (n + 1) % 10 = 0 by omega, show (n / 10 % 10 + 1) % 10 = n / 10 % 10 + 1 by omega,
        List.append_assoc]
      rfl

/-- A numeral that ends in 99 loses both digits. -/
theorem value_fuStrIncrement_99 {n : Nat} (h : n % 100 = 99) :
    value (fuStrIncrement 1 (numeral n)) = n - 99 := by
  obtain ⟨s, hs, hnum⟩ := numeral_units (n / 100)
  have hq := hnum 9 (by omega)
  rw [show 10 * (n / 100) + 9 = n / 10 by omega] at hq
  rw [numeral_of_le (n := n) (by omega), hq, show n % 10 = 9 by omega, List.append_assoc]
  show value (fuStrIncrement 1 (s ++ [57, 57])) = _
  rw [fuStrIncrement_carry s (by decide), value_append, hs]
  show n / 100 * 100 + 0 = n - 99
  omega

/-! ## Comparing keys -/

theorem dbCompareDataKey_numeral (fp : FloatUnit) {iType : UInt16} (hi : isIntegerType iType = true)
    {a b : Nat} (ha : a < 2 ^ 63) (hb : b < 2 ^ 63) :
    dbCompareDataKey fp (numeral a) (numeral b) iType > 0 ↔ b < a := by
  have hcmp := congrFun₂ (dbCompareDataKey_integer fp hi) (numeral a) (numeral b)
  rw [hcmp, gt_iff_lt, byMeasure_pos, fuStrToInteger_numeral ha, fuStrToInteger_numeral hb]
  omega

namespace DBTable

variable {fp : FloatUnit}

/-! ## The tracked maximum -/

/-- A table with an integer key, all of whose keys are canonical numerals, and
whose tracked maximum is the greatest of them. -/
structure AutoKeyed (t : DBTable fp) : Prop where
  schema : SchemaOk t
  integer : isIntegerType t.keyType = true
  canonical : ∀ k ∈ t.recordSet, Canonical k
  tracked : (t.recordSet = ∅ ∧ t.sMaxKey = []) ∨
    (t.sMaxKey ∈ t.recordSet ∧ ∀ k ∈ t.recordSet, value k ≤ value t.sMaxKey)

/-- The greatest key there is. -/
def Greatest (t : DBTable fp) (k : Str) : Prop :=
  k ∈ t.recordSet ∧ ∀ k' ∈ t.recordSet, value k' ≤ value k

/-- Every key is below the bound that keeps keys inside a `long long`. -/
def Bounded (t : DBTable fp) : Prop := ∀ k ∈ t.recordSet, value k < 2 ^ 62

instance (t : DBTable fp) : Decidable t.Bounded :=
  inferInstanceAs (Decidable (∀ k ∈ t.recordSet, value k < 2 ^ 62))

theorem nextKey_of_integer {t : DBTable fp} (hi : isIntegerType t.keyType = true) :
    t.nextKey = fuStrIncrement 1 t.sMaxKey := by
  unfold nextKey
  rw [hi, Bool.true_or, if_pos rfl]

/-- The generated key when the greatest one does not end in 99: a numeral above all keys. -/
theorem nextKey_above {t : DBTable fp} (h : AutoKeyed t) (hb : t.Bounded)
    (hc : ∀ k, t.Greatest k → value k % 100 ≠ 99) :
    ∃ n, t.nextKey = numeral n ∧ n < 2 ^ 63 ∧ ∀ k ∈ t.recordSet, value k < n := by
  rw [nextKey_of_integer h.integer]
  rcases h.tracked with ⟨hempty, hmax⟩ | ⟨hmem, hmax⟩
  · refine ⟨1, ?_, by omega, fun k hk => ?_⟩
    · rw [hmax]
      decide
    · rw [hempty] at hk
      exact absurd hk (AList.notMem_empty k)
  · have hn : t.sMaxKey = numeral (value t.sMaxKey) := h.canonical _ hmem
    have hlt := hb _ hmem
    have h99 := hc _ ⟨hmem, hmax⟩
    refine ⟨value t.sMaxKey + 1, ?_, by omega, fun k hk => ?_⟩
    · rw [← fuStrIncrement_numeral h99, ← hn]
    · have := hmax k hk
      omega

/-- The generated key when the greatest one ends in 99: below it. -/
theorem nextKey_below {t : DBTable fp} (h : AutoKeyed t) {k : Str} (hk : t.Greatest k)
    (h99 : value k % 100 = 99) : value t.nextKey < value k := by
  rw [nextKey_of_integer h.integer]
  rcases h.tracked with ⟨hempty, -⟩ | ⟨hmem, hmax⟩
  · have := hk.1
    rw [hempty] at this
    exact absurd this (AList.notMem_empty k)
  · have heq : value t.sMaxKey = value k := Nat.le_antisymm (hk.2 _ hmem) (hmax k hk.1)
    have hn : t.sMaxKey = numeral (value t.sMaxKey) := h.canonical _ hmem
    have hval := value_fuStrIncrement_99 (n := value t.sMaxKey) (by rw [heq]; exact h99)
    rw [← hn] at hval
    omega

/-- Adding a record under a canonical key keeps the maximum tracked. -/
theorem autoKeyed_addRecord {t : DBTable fp} (h : AutoKeyed t) (hb : t.Bounded) {n : Nat}
    (hn : n < 2 ^ 63) (r : DBRecord) : AutoKeyed (t.addRecord (numeral n) r) := by
  have hs := addRecord_same t (numeral n) r
  have hkt : (t.addRecord (numeral n) r).keyType = t.keyType := rfl
  refine ⟨h.schema.of_same hs, by rw [hkt]; exact h.integer, fun k hk => ?_, Or.inr ?_⟩
  · rw [addRecord_recordSet, UMap.mem_insertNew] at hk
    rcases hk with rfl | hk
    · exact canonical_numeral n
    · exact h.canonical k hk
  · rw [addRecord_recordSet, addRecord_sMaxKey]
    rcases h.tracked with ⟨hempty, hmax⟩ | ⟨hmem, hmax⟩
    · rw [if_pos hmax, ite_self]
      refine ⟨UMap.mem_insertNew.mpr (Or.inl rfl), fun k hk => ?_⟩
      rw [hempty, UMap.mem_insertNew] at hk
      rcases hk with rfl | hk
      · exact Nat.le_refl _
      · exact absurd hk (AList.notMem_empty k)
    · have hb' : t.sMaxKey = numeral (value t.sMaxKey) := h.canonical _ hmem
      have hlt := hb _ hmem
      have hne : t.sMaxKey ≠ [] := by rw [hb']; exact numeral_ne_nil _
      have hcmp := dbCompareDataKey_numeral fp h.integer hn (b := value t.sMaxKey) (by omega)
      rw [← hb'] at hcmp
      rw [if_neg hne]
      by_cases hbn : value t.sMaxKey < n
      · rw [if_pos (hcmp.mpr hbn)]
        refine ⟨UMap.mem_insertNew.mpr (Or.inl rfl), fun k hk => ?_⟩
        rw [value_numeral]
        rcases UMap.mem_insertNew.mp hk with rfl | hk
        · rw [value_numeral]
        · have := hmax k hk
          omega
      · rw [if_neg fun hgt => hbn (hcmp.mp hgt)]
        refine ⟨UMap.mem_insertNew.mpr (Or.inr hmem), fun k hk => ?_⟩
        rcases UMap.mem_insertNew.mp hk with rfl | hk
        · rw [value_numeral]
          omega
        · exact hmax k hk

end DBTable

namespace DBManager

variable {fp : FloatUnit}

/-! ## Runs of InsertDB -/

def insertStep (tname : Str) (m : DBManager fp) (dataList : UMap Str Str) : Option (DBManager fp) :=
  match m.insertDB tname dataList with
  | .ok (m', _) => some m'
  | .error _ => none

/-- The calls considered: keys stay below `2 ^ 62`, and an explicit key is canonical and new. -/
def FreshCall (tname : Str) (m : DBManager fp) (dataList : UMap Str Str) : Prop :=
  ∀ t ∈ m.tableSet.lookup tname, t.Bounded ∧
    ∀ k ∈ dataList.lookup t.keyName, Canonical k ∧ value k < 2 ^ 62 ∧ k ∉ t.recordSet

/-- A key-less call returns a key that was not there and exceeds every key that was. -/
def FreshKey (tname : Str) (m : DBManager fp) (dataList : UMap Str Str) : Prop :=
  ∀ t ∈ m.tableSet.lookup tname, t.keyName ∉ dataList →
    Returns (m.insertDB tname dataList) fun r =>
      r.2 ≠ [] ∧ r.2 ∉ t.recordSet ∧ ∀ k ∈ t.recordSet, value k < value r.2

/-- A key-less call does not meet a table whose greatest key ends in 99. -/
def NotAfter99 (tname : Str) (m : DBManager fp) (dataList : UMap Str Str) : Prop :=
  ∀ t ∈ m.tableSet.lookup tname, t.keyName ∉ dataList → ∀ k, t.Greatest k → value k % 100 ≠ 99

instance (tname : Str) (m : DBManager fp) (d : UMap Str Str) : Decidable (FreshCall tname m d) :=
  inferInstanceAs (Decidable (∀ t ∈ m.tableSet.lookup tname, t.Bounded ∧
    ∀ k ∈ d.lookup t.keyName, Canonical k ∧ value k < 2 ^ 62 ∧ k ∉ t.recordSet))

instance (tname : Str) (m : DBManager fp) (d : UMap Str Str) : Decidable (FreshKey tname m d) :=
  inferInstanceAs (Decidable (∀ t ∈ m.tableSet.lookup tname, t.keyName ∉ d →
    Returns (m.insertDB tname d) fun r =>
      r.2 ≠ [] ∧ r.2 ∉ t.recordSet ∧ ∀ k ∈ t.recordSet, value k < value r.2))

theorem newKey_given {t : DBTable fp} {d : UMap Str Str} {k : Str}
    (h : d.lookup t.keyName = some k) : t.newKey d = k := by
  unfold DBTable.newKey
  rw [h]
  rfl

theorem newKey_generated {t : DBTable fp} {d : UMap Str Str} (h : t.keyName ∉ d) :
    t.newKey d = t.nextKey := by
  unfold DBTable.newKey
  rw [AList.lookup_eq_none.mpr h]
  rfl

/-- One key-less call: the returned key is good exactly when the greatest key does not end in 99. -/
theorem freshKey_iff {m : DBManager fp} {tname : Str} {t : DBTable fp} (hn : tname ≠ [])
    (hm : m.tableSet.lookup tname = some t) (h : t.AutoKeyed) (d : UMap Str Str)
    (hd : FreshCall tname m d) : FreshKey tname m d ↔ NotAfter99 tname m d := by
  have hb := (hd t hm).1
  have only : ∀ t' ∈ m.tableSet.lookup tname, t' = t := fun t' ht' => by
    rw [hm] at ht'
    cases ht'
    rfl
  constructor
  · intro hfresh t' ht' hkey k hk h99
    obtain rfl := only t' ht'
    have hlow := DBTable.nextKey_below h hk h99
    have hret := hfresh t' hm hkey
    rw [insertDB_eq hn hm h.schema d, returns_ok] at hret
    by_cases hr : t'.Refuses d
    · rw [if_pos hr] at hret
      exact hret.1 rfl
    · rw [if_neg hr, newKey_generated hkey] at hret
      have hgt : value k < value t'.nextKey := hret.2.2 k hk.1
      omega
  · intro hc t' ht' hkey
    obtain rfl := only t' ht'
    obtain ⟨n, hnum, -, habove⟩ := DBTable.nextKey_above h hb (hc t' hm hkey)
    have hval : value t'.nextKey = n := by rw [hnum, value_numeral]
    have hnot : t'.nextKey ∉ t'.recordSet := by
      intro hmem
      have := habove _ hmem
      omega
    have hnil : t'.nextKey ≠ [] := by rw [hnum]; exact numeral_ne_nil n
    have hr : ¬ t'.Refuses d := by
      rintro (hmem | ⟨-, h0⟩)
      · exact hnot (by rw [← newKey_generated hkey]; exact hmem)
      · exact hnil (by rw [← newKey_generated hkey]; exact h0)
    rw [insertDB_eq hn hm h.schema d, returns_ok, if_neg hr, newKey_generated hkey]
    refine ⟨hnil, hnot, fun k' hk' => ?_⟩
    rw [hval]
    exact habove k' hk'

/-- An allowed call keeps the maximum tracked. -/
theorem autoKeyed_step {m m' : DBManager fp} {tname : Str} {t : DBTable fp} (hn : tname ≠ [])
    (hm : m.tableSet.lookup tname = some t) (h : t.AutoKeyed) {d : UMap Str Str}
    (hd : FreshCall tname m d) (hc : NotAfter99 tname m d) (hs : insertStep tname m d = some m') :
    ∃ t', m'.tableSet.lookup tname = some t' ∧ t'.AutoKeyed := by
  obtain ⟨hb, hgiven⟩ := hd t hm
  have hnew : ∃ n, t.newKey d = numeral n ∧ n < 2 ^ 63 := by
    by_cases hkey : t.keyName ∈ d
    · obtain ⟨k, hk⟩ := UMap.exists_lookup hkey
      obtain ⟨hcan, hlt, -⟩ := hgiven k hk
      exact ⟨value k, by rw [newKey_given hk]; exact hcan, by omega⟩
    · obtain ⟨n, hnum, hlt, -⟩ := DBTable.nextKey_above h hb (hc t hm hkey)
      exact ⟨n, by rw [newKey_generated hkey, hnum], hlt⟩
  obtain ⟨n, hnum, hlt⟩ := hnew
  unfold insertStep at hs
  rw [insertDB_eq hn hm h.schema d] at hs
  by_cases hr : t.Refuses d
  · rw [if_pos hr] at hs
    cases hs
    exact ⟨t, hm, h⟩
  · rw [if_neg hr] at hs
    cases hs
    refine ⟨_, lookup_putTable_self hm _, ?_⟩
    rw [hnum]
    exact DBTable.autoKeyed_addRecord h hb hlt _

/-- **Generated keys over runs.**  From an empty table with an integer key, in
every run of insertions whose explicit keys are new and canonical, each
key-less call returns a new greatest key exactly when none of them meets a
table whose greatest key ends in 99. -/
theorem autoKey_iff {m : DBManager fp} {tname : Str} {t : DBTable fp} (hn : tname ≠ [])
    (hm : m.tableSet.lookup tname = some t) (h : t.SchemaOk) (hi : isIntegerType t.keyType = true)
    (hempty : t.recordSet = ∅) (hmax : t.sMaxKey = []) (calls : List (UMap Str Str))
    (hd : EachStep (insertStep tname) (FreshCall tname) m calls) :
    EachStep (insertStep tname) (FreshKey tname) m calls ↔
      EachStep (insertStep tname) (NotAfter99 tname) m calls := by
  apply eachStep_congr
    (J := fun m => ∃ t, m.tableSet.lookup tname = some t ∧ t.AutoKeyed)
    (D := FreshCall tname)
  · rintro m d m' ⟨t, hm, ht⟩ hd hc hs
    exact autoKeyed_step hn hm ht hd hc hs
  · rintro m d m' ⟨t, hm, ht⟩ hd -
    exact freshKey_iff hn hm ht d hd
  · refine ⟨t, hm, h, hi, fun k hk => ?_, Or.inl ⟨hempty, hmax⟩⟩
    rw [hempty] at hk
    exact absurd hk (AList.notMem_empty k)
  · exact hd

/-- The data of a row whose key is given as text. -/
def keyed (k : Str) : UMap Str Str := UMap.insertNew (lit "id") k ∅

/-- After the key 199 the next generated key is 100. -/
theorem autoKey_broken :
    EachStep (insertStep (lit "t")) (FreshCall (lit "t")) oneTable [keyed (lit "199"), ∅] ∧
    ¬ EachStep (insertStep (lit "t")) (FreshKey (lit "t")) oneTable [keyed (lit "199"), ∅] := by
  decide +kernel

theorem autoKey_iff_short_run :
    EachStep (insertStep (lit "t")) (FreshKey (lit "t")) oneTable [keyed (lit "8"), ∅, ∅] ↔
      EachStep (insertStep (lit "t")) (NotAfter99 (lit "t")) oneTable [keyed (lit "8"), ∅, ∅] :=
  autoKey_iff (t := DBTable.new [lit "id", lit "name"] [dbIntT, dbStringT] 0) (by decide) rfl
    (DBTable.new_schemaOk rfl (by decide) (by decide)) rfl rfl rfl _ (by decide +kernel)

end DBManager

end FuServer
