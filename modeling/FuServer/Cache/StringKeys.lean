import FuServer.Cache.KeyBounds
import FuServer.Cache.AutoKey

/-!
# Generated string keys

The next key is made by adding one to the number at the end of the greatest
key, and which key is the greatest is decided byte by byte.  The two agree as
long as the number keeps its digits and its carry; where it ends in a nine
that has no digit before it, or another nine, the next key is below the
greatest one, which then stays, and the same key is made again.
-/

namespace FuServer

open Bytes Decimal Compare Outcome Runs

/-! ## The next text -/

/-- The text ends in a nine with no digit, or another nine, before it. -/
def RollsOver (m : Str) : Prop :=
  m.getLast? = some 57 ∧ ∀ b ∈ m.dropLast.getLast?, isDigit b = true → b = 57

instance (m : Str) : Decidable (RollsOver m) := inferInstanceAs (Decidable (_ ∧ _))

theorem rollsOver_append {s : Str} {c : UInt8} :
    RollsOver (s ++ [c]) ↔ c = 57 ∧ ∀ b ∈ s.getLast?, isDigit b = true → b = 57 := by
  simp [RollsOver]

/-- A nine with no digit before it becomes a one and a zero. -/
theorem fuStrIncrement_lone {s : Str} (hs : ∀ b ∈ s.getLast?, isDigit b = false) :
    fuStrIncrement 1 (s ++ [57]) = s ++ [49, 48] := by
  have hnine : ∀ c ∈ [(57 : UInt8)], isDigit c = true := by
    intro c hc
    rw [List.mem_singleton.mp hc]
    decide
  have hsum : padded (sumWidth 1 (numeral 1).length (value [57]) 1)
      (sumValue (numeral 1).length (value [57]) 1) =
      [49, 48] := by decide
  have hnumber := fuStrIncrement_number 1 hs hnine (List.cons_ne_nil _ _)
  rw [List.length_singleton, hsum] at hnumber
  exact hnumber

/-- A digit that is not a nine goes up. -/
theorem lt_digitByte_succ {c : UInt8} (hc : isDigit c = true) (h9 : digitVal c < 9) :
    c < digitByte (digitVal c + 1) := by
  rw [isDigit_iff] at hc
  rw [UInt8.lt_iff_toNat_lt]
  simp only [digitVal, digitByte, UInt8.toNat_ofNat'] at h9 ⊢
  omega

theorem eq_nine {c : UInt8} (hc : isDigit c = true) (h9 : ¬ digitVal c < 9) : c = 57 := by
  have hlt := digitVal_lt hc
  rw [← digitByte_digitVal hc, show digitVal c = 9 by omega]
  rfl

theorem strCompare_cons_gt {a b : UInt8} (h : b < a) (s t : Str) : strCompare (a :: s) (b :: t) = 1 := by
  have hnot : ¬ a < b := fun hab => UInt8.lt_irrefl a (UInt8.lt_trans hab h)
  rw [strCompare, if_neg hnot, if_pos h]

/-- Behind a nine the digit before it decides. -/
theorem strCompare_fuStrIncrement_nine (s : Str) :
    strCompare (fuStrIncrement 1 (s ++ [57])) (s ++ [57]) > 0 ↔ ¬ RollsOver (s ++ [57]) := by
  rw [rollsOver_append]
  by_cases hs : ∃ b ∈ s.getLast?, isDigit b = true
  · obtain ⟨b, hb, hdig⟩ := hs
    obtain ⟨s, rfl⟩ := List.getLast?_eq_some_iff.mp hb
    rw [List.append_assoc, List.singleton_append, fuStrIncrement_carry s hdig, strCompare_append]
    by_cases hb9 : b = 57
    · -- two zeros for two nines
      subst hb9
      have hlast : ∀ b' ∈ (s ++ [57]).getLast?, isDigit b' = true → b' = 57 := by simp
      exact iff_of_false (by decide) fun hnot => hnot ⟨rfl, hlast⟩
    · have h9 : digitVal b < 9 := by
        by_contra h
        exact hb9 (eq_nine hdig h)
      rw [Nat.mod_eq_of_lt (by omega), strCompare_cons_gt (lt_digitByte_succ hdig h9)]
      exact iff_of_true (by decide) fun h => hb9 (h.2 b (by simp) hdig)
  · have hs' : ∀ b ∈ s.getLast?, isDigit b = false := by
      intro b hb
      by_contra h
      exact hs ⟨b, hb, by simpa using h⟩
    rw [fuStrIncrement_lone hs', strCompare_append]
    refine iff_of_false (by decide) fun hnot => hnot ⟨rfl, fun b hb hdig => ?_⟩
    exact absurd ⟨b, hb, hdig⟩ hs

/-- The next text is above the text unless this rolls over. -/
theorem strCompare_fuStrIncrement {m : Str} (hm : m ≠ []) :
    strCompare (fuStrIncrement 1 m) m > 0 ↔ ¬ RollsOver m := by
  cases m using List.reverseRecOn with
  | nil => exact absurd rfl hm
  | append_singleton s c =>
    by_cases hc : isDigit c = true
    · by_cases h9 : digitVal c < 9
      · -- the last digit goes up
        have hne : c ≠ 57 := fun h => absurd h9 (by rw [h]; decide)
        rw [rollsOver_append, fuStrIncrement_digit s hc h9, strCompare_append,
          strCompare_cons_gt (lt_digitByte_succ hc h9)]
        exact iff_of_true (by decide) fun h => hne h.1
      · rw [eq_nine hc h9]
        exact strCompare_fuStrIncrement_nine s
    · -- a number is put behind it
      have hlast : ∀ b ∈ (s ++ [c]).getLast?, isDigit b = false := by simpa using hc
      have hne : c ≠ 57 := fun h => hc (by rw [h]; decide)
      have hend := strCompare_append (s ++ [c]) (numeral 1) []
      rw [List.append_nil] at hend
      have htext := fuStrIncrement_text 1 hlast
      rw [show ((1 : Nat) : Int) = 1 from rfl] at htext
      rw [rollsOver_append, htext, hend]
      exact iff_of_true (by decide) fun h => hne h.1

namespace InsertArgs

variable {fp : FloatUnit}

/-- The call gives no key. -/
def Keyless (t : DBTable fp) : InsertArgs → Prop
  | byKey key => key = []
  | byRecord _ => False
  | byName dataList => t.keyName ∉ dataList
  | byList _ => False
  | byIndex dataList => t.iPriKeyIndex ∉ dataList

/-- A call without a key inserts under the next one. -/
theorem insert_keyless {t : DBTable fp} (h : t.SchemaOk) {args : InsertArgs} (hk : args.Keyless t)
    (hne : t.nextKey ≠ []) : ∃ r, args.insert t = .ok (t.enter t.nextKey r) := by
  have hkey : ∃ r, t.insertRecordKey [] = .ok (t.enter t.nextKey r) := by
    refine ⟨{ fieldList := t.buildFields (t.keyOnlyField t.nextKey) }, ?_⟩
    rw [DBTable.insertRecordKey_eq h, if_pos rfl, if_neg hne]
  cases args with
  | byKey key =>
    obtain rfl : key = [] := hk
    exact hkey
  | byRecord pRecord => exact absurd hk id
  | byName dataList =>
    have hlook : dataList.lookup t.keyName = none := AList.lookup_eq_none.mpr hk
    show ∃ r, t.insertRecord dataList = _
    rw [DBTable.insertRecord_eq h, hlook]
    by_cases hl : dataList.entries = []
    · rw [if_pos hl]
      exact hkey
    · rw [if_neg hl]
      exact ⟨_, rfl⟩
  | byList dataList => exact absurd hk id
  | byIndex dataList =>
    have hlook : dataList.lookup t.iPriKeyIndex = none := AList.lookup_eq_none.mpr hk
    show ∃ r, t.insertRecordIndexed dataList = _
    rw [DBTable.insertRecordIndexed_eq h, hlook]
    exact ⟨_, rfl⟩

end InsertArgs

namespace DBTable

variable {fp : FloatUnit}

/-! ## Runs of inserts -/

/-- No key is above the tracked maximum. -/
def MaxTracked (t : DBTable fp) : Prop := ∀ k ∈ t.recordSet, strCompare k t.sMaxKey ≤ 0

/-- A call without a key makes one that is above the maximum and new, and that is the maximum next. -/
def MakesGreatest (t : DBTable fp) (args : InsertArgs) : Prop :=
  args.Keyless t → t.sMaxKey ≠ [] → Returns (args.insert t) fun r =>
    ∃ k, r.2 = some k ∧ dbCompareDataKey fp k t.sMaxKey dbStringT > 0 ∧ k ∉ t.recordSet ∧ r.1.sMaxKey = k

/-- A call without a key does not meet a maximum that rolls over. -/
def NotAtNine (t : DBTable fp) (args : InsertArgs) : Prop :=
  args.Keyless t → t.sMaxKey ≠ [] → ¬ RollsOver t.sMaxKey

/-- Any insert that returns, refused or not. -/
def anyInsert (t : DBTable fp) (args : InsertArgs) : Option (DBTable fp) :=
  match args.insert t with
  | .ok (t', _) => some t'
  | .error _ => none

theorem dbCompareDataKey_string (fp : FloatUnit) (x y : Str) :
    dbCompareDataKey fp x y dbStringT = strCompare x y :=
  congrFun₂ (dbCompareDataKey_bytes fp (by decide) (by decide)) x y

theorem nextKey_string {t : DBTable fp} (hs : t.keyType = dbStringT) :
    t.nextKey = fuStrIncrement 1 t.sMaxKey := by
  unfold nextKey
  rw [hs, beq_self_eq_true, Bool.or_true, if_pos rfl]

/-- The greatest key stays tracked. -/
theorem maxTracked_addRecord {t : DBTable fp} (hs : t.keyType = dbStringT) (ht : t.MaxTracked) (k : Str)
    (r : DBRecord) : (t.addRecord k r).MaxTracked := by
  have hpre := isPreorder_strCompare
  intro k' hk'
  rw [addRecord_sMaxKey, hs, dbCompareDataKey_string]
  have hmem := UMap.mem_insertNew.mp hk'
  by_cases hmax : t.sMaxKey = []
  · -- an unset maximum is below every key
    rw [if_pos hmax, ite_self]
    rcases hmem with rfl | hmem
    · exact (hpre.self k').le
    · have hnil := ht k' hmem
      have hk : strCompare [] k ≤ 0 := strCompare_nil_nonpos k
      rw [hmax] at hnil
      exact hpre.trans k' [] k hnil hk
  · rw [if_neg hmax]
    by_cases hgt : strCompare k t.sMaxKey > 0
    · rw [if_pos hgt]
      rcases hmem with rfl | hmem
      · exact (hpre.self k').le
      · have hle := (hpre.nonneg_iff k t.sMaxKey).mp (Int.le_of_lt hgt)
        exact hpre.trans k' t.sMaxKey k (ht k' hmem) hle
    · rw [if_neg hgt]
      rcases hmem with rfl | hmem
      · exact Int.not_lt.mp hgt
      · exact ht k' hmem

/-- The key made, where it is above the maximum. -/
theorem makesGreatest_of_above {t : DBTable fp} (h : t.SchemaOk) (hs : t.keyType = dbStringT)
    (ht : t.MaxTracked) {args : InsertArgs} (hk : args.Keyless t) (hmax : t.sMaxKey ≠ [])
    (hgt : strCompare t.nextKey t.sMaxKey > 0) :
    Returns (args.insert t) fun r =>
      ∃ k, r.2 = some k ∧ dbCompareDataKey fp k t.sMaxKey dbStringT > 0 ∧ k ∉ t.recordSet ∧
        r.1.sMaxKey = k := by
  have hne : t.nextKey ≠ [] := by
    intro hnil
    rw [hnil] at hgt
    cases hm : t.sMaxKey with
    | nil => exact hmax hm
    | cons c m =>
      rw [hm] at hgt
      exact absurd hgt (by decide : ¬ (-1 : Int) > 0)
  have hnew : t.nextKey ∉ t.recordSet := fun hmem => absurd hgt (Int.not_lt.mpr (ht _ hmem))
  obtain ⟨r, hr⟩ := InsertArgs.insert_keyless h hk hne
  rw [hr, returns_ok]
  unfold enter
  rw [if_neg hnew]
  refine ⟨t.nextKey, rfl, ?_, hnew, ?_⟩
  · rw [dbCompareDataKey_string]
    exact hgt
  · rw [addRecord_sMaxKey, if_neg hmax, hs, dbCompareDataKey_string, if_pos hgt]

theorem makesGreatest_iff {t : DBTable fp} (h : t.SchemaOk) (hs : t.keyType = dbStringT)
    (ht : t.MaxTracked)
    (args : InsertArgs) : t.MakesGreatest args ↔ t.NotAtNine args := by
  constructor
  · intro hmakes hk hmax hroll
    obtain ⟨⟨t', answer⟩, hins, k, rfl, hgt, hnew, -⟩ := hmakes hk hmax
    -- what is made is the next text
    have hnil : t.nextKey ≠ [] := by
      rw [nextKey_string hs]
      exact fuStrIncrement_ne_nil _
    obtain ⟨r, hr⟩ := InsertArgs.insert_keyless h hk hnil
    rw [hins] at hr
    unfold enter at hr
    split at hr
    · cases hr
    · cases hr
      rw [dbCompareDataKey_string, nextKey_string hs] at hgt
      exact (strCompare_fuStrIncrement hmax).mp hgt hroll
  · intro hnot hk hmax
    have hgt := (strCompare_fuStrIncrement hmax).mpr (hnot hk hmax)
    rw [← nextKey_string hs] at hgt
    exact makesGreatest_of_above h hs ht hk hmax hgt

theorem anyInsert_kept {t t' : DBTable fp} (h : t.SchemaOk) (hs : t.keyType = dbStringT)
    (ht : t.MaxTracked) {args : InsertArgs} (hstep : anyInsert t args = some t') :
    t'.SchemaOk ∧ t'.keyType = dbStringT ∧ t'.MaxTracked := by
  unfold anyInsert at hstep
  split at hstep
  · next t1 answer hins =>
    cases hstep
    rcases InsertArgs.insert_cases h hins with ⟨-, rfl⟩ | ⟨k, r, -, rfl⟩
    · exact ⟨h, hs, ht⟩
    · exact ⟨h.of_same (addRecord_same t k r), hs, maxTracked_addRecord hs ht k r⟩
  · cases hstep

/-- **Generated string keys.**  The key made from a maximum is above it exactly when the maximum
does not roll over.  In every run of inserts, from any table whose maximum is tracked, the keys made
are new and move the maximum exactly when none of them is made from one that does. -/
theorem stringKey_iff {t : DBTable fp} (h : t.SchemaOk) (hs : t.keyType = dbStringT) :
    (t.sMaxKey ≠ [] →
      (Returns t.priKeyIncrement (fun k => dbCompareDataKey fp k t.sMaxKey dbStringT > 0) ↔
        ¬ RollsOver t.sMaxKey)) ∧
    (t.MaxTracked → ∀ calls : List InsertArgs,
      EachStep anyInsert MakesGreatest t calls ↔ EachStep anyInsert NotAtNine t calls) := by
  constructor
  · intro hmax
    rw [priKeyIncrement_eq h, returns_ok, nextKey_string hs, dbCompareDataKey_string]
    exact strCompare_fuStrIncrement hmax
  · intro ht calls
    refine eachStep_congr (J := fun t => t.SchemaOk ∧ t.keyType = dbStringT ∧ t.MaxTracked)
      (D := fun _ _ => True)
      ?_ ?_ calls t ⟨h, hs, ht⟩ (eachStep_of_forall calls t fun _ _ _ => trivial)
    · rintro t args t' ⟨h, hs, ht⟩ - - hstep
      exact anyInsert_kept h hs ht hstep
    · rintro t args t' ⟨h, hs, ht⟩ - -
      exact makesGreatest_iff h hs ht args

/-- An empty table with a string key. -/
def stringKeyed : DBTable .exactRational := DBTable.new [lit "id"] [dbStringT] 0

/-- A table with the rows `7` and `k8`. -/
theorem stringKey_iff_twoRows :
    ∃ t, (anyInsert stringKeyed (.byKey (lit "7"))).bind (anyInsert · (.byKey (lit "k8"))) = some t ∧
      (t.sMaxKey ≠ [] →
        (Returns t.priKeyIncrement (fun k => dbCompareDataKey .exactRational k t.sMaxKey dbStringT > 0) ↔
          ¬ RollsOver t.sMaxKey)) ∧
      (t.MaxTracked → ∀ calls : List InsertArgs,
        EachStep anyInsert MakesGreatest t calls ↔ EachStep anyInsert NotAtNine t calls) :=
  ⟨_, rfl, stringKey_iff ⟨rfl, rfl, by decide, by decide⟩ rfl⟩

/-- After the key 9 the next one is 10, which is below it, and is made a second time. -/
theorem stringKey_repeats :
    (∃ t, anyInsert stringKeyed (.byKey (lit "9")) = some t ∧ t.sMaxKey = lit "9" ∧
      ¬ Returns t.priKeyIncrement (fun k => dbCompareDataKey .exactRational k t.sMaxKey dbStringT > 0) ∧
      Returns (InsertArgs.insert t (.byKey [])) fun r =>
        r.2 = some (lit "10") ∧ r.1.sMaxKey = lit "9" ∧ r.1.priKeyIncrement = .ok (lit "10")) := by
  refine ⟨_, rfl, rfl, ?_, ?_⟩ <;> decide +kernel

end DBTable

end FuServer
