import FuServer.Cache.Safety
import FuServer.Cache.Scan

/-!
# A query against the records that match

`InBounds` says what a query asks of a column, in one sentence for all choices
of bounds.  A scan answers with the matching records except one: in the round in
which both iterators are on one record, a maximum without a minimum is not
looked at.  A lookup by key answers with the record of that spelling; a scan
would compare by value.
-/

namespace FuServer

open Bytes Outcome

namespace DBTable

variable {fp : FloatUnit}

/-! ## The rule -/

/-- The field meets the bounds: equal to an equality key, else within each bound that is given. -/
def InBounds (fp : FloatUnit) (b : Bounds) (f : DBField) : Prop :=
  if b.dataEquKey ≠ [] then dbCompareDataKey fp f.sData b.dataEquKey f.usType = 0
  else (b.dataMinkey ≠ [] → dbCompareDataKey fp f.sData b.dataMinkey f.usType ≥ 0) ∧
    (b.dataMaxkey ≠ [] → dbCompareDataKey fp f.sData b.dataMaxkey f.usType ≤ 0)

instance (b : Bounds) : DecidablePred (InBounds fp b) := fun f => by
  unfold InBounds
  infer_instance

/-- The record's field in the column meets the bounds. -/
def Matches (fp : FloatUnit) (fieldIndex : Int) (b : Bounds) (r : DBRecord) : Prop :=
  Returns (r.getField fieldIndex) (InBounds fp b)

instance (fieldIndex : Int) (b : Bounds) : DecidablePred (Matches fp fieldIndex b) := fun r =>
  inferInstanceAs (Decidable (Returns (r.getField fieldIndex) (InBounds fp b)))

/-- A maximum is the only bound. -/
def Bounds.OnlyMax (b : Bounds) : Prop := b.dataEquKey = [] ∧ b.dataMinkey = [] ∧ b.dataMaxkey ≠ []

instance (b : Bounds) : Decidable b.OnlyMax := inferInstanceAs (Decidable (_ ∧ _ ∧ _))

/-- Some bound is given. -/
def Bounds.Given (b : Bounds) : Prop := ¬ (b.dataEquKey = [] ∧ b.dataMinkey = [] ∧ b.dataMaxkey = [])

instance (b : Bounds) : Decidable b.Given := inferInstanceAs (Decidable (¬ _))

/-- The scan's test of one record is the rule, but for a lone maximum where the iterators meet. -/
theorem scanFlags_eq {b : Bounds} (hb : b.Given) (f : DBField) (same : Bool) :
    (scanFlags fp b f f same).1 = true ↔ InBounds fp b f ∧ ¬ (same = true ∧ b.OnlyMax) := by
  unfold Bounds.Given at hb
  unfold scanFlags InBounds Bounds.OnlyMax
  dsimp only
  by_cases hequ : b.dataEquKey = []
  · by_cases hmin : b.dataMinkey = []
    · have hmax : b.dataMaxkey ≠ [] := fun hmax => hb ⟨hequ, hmin, hmax⟩
      cases same with
      | true => simp [hequ, hmin, hmax]
      | false => simp [hequ, hmin, hmax]
    · by_cases hmax : b.dataMaxkey = []
      · simp [hequ, hmin, hmax]
      · simp [hequ, hmin, hmax]
  · simp [hequ]

theorem matchRecord_iff {b : Bounds} (hb : b.Given) (fieldIndex : Int) (r : DBRecord) (same : Bool) :
    matchRecord fp fieldIndex b same r = true ↔
      Matches fp fieldIndex b r ∧ ¬ (same = true ∧ b.OnlyMax) := by
  unfold Matches
  cases hf : r.getField fieldIndex with
  | error e =>
    have hno : matchRecord fp fieldIndex b same r = false := by
      unfold matchRecord
      rw [hf]
    rw [hno]
    exact iff_of_false Bool.false_ne_true fun h => not_returns_error h.1
  | ok f => rw [matchRecord_of_ok hf, scanFlags_eq hb, returns_ok]

/-! ## The scanned records and the matching ones -/

/-- The record in the middle, where two walks from both ends meet. -/
def middle (records : List DBRecord) : Option DBRecord :=
  if records.length % 2 = 1 then records[records.length / 2]? else none

theorem middle_eq_some {records : List DBRecord} {r : DBRecord} :
    middle records = some r ↔ ∃ i, 2 * i + 1 = records.length ∧ records[i]? = some r := by
  unfold middle
  constructor
  · intro h
    split at h
    · exact ⟨records.length / 2, by omega, h⟩
    · cases h
  · rintro ⟨i, hi, hr⟩
    have hhalf : records.length / 2 = i := by omega
    rw [if_pos (by omega), hhalf]
    exact hr

/-- A filter as one over the records with their places. -/
theorem filter_eq_zipIdx (p : DBRecord → Bool) (records : List DBRecord) :
    records.filter p = (records.zipIdx.filter fun e => p e.1).map (·.1) := by
  have hfst : records.zipIdx.map (·.1) = records := List.zipIdx_map_fst 0 records
  calc records.filter p
    _ = (records.zipIdx.map (·.1)).filter p := by rw [hfst]
    _ = _ := List.filter_map

/-- A stronger test keeps as many elements only if it keeps the same ones. -/
theorem length_filter_eq_iff {α : Type} {p q : α → Bool} {l : List α}
    (h : ∀ a, p a = true → q a = true) :
    (l.filter p).length = (l.filter q).length ↔ ∀ a ∈ l, q a = true → p a = true := by
  have hsub : (l.filter p).Sublist (l.filter q) := List.monotone_filter_right l h
  constructor
  · intro hlen a ha hq
    have hmem : a ∈ l.filter q := List.mem_filter.mpr ⟨ha, hq⟩
    rw [← hsub.eq_of_length hlen] at hmem
    exact (List.mem_filter.mp hmem).2
  · intro hall
    congr 1
    apply List.filter_congr
    intro a ha
    exact Bool.eq_iff_iff.mpr ⟨h a, hall a ha⟩

theorem scanned_subset {b : Bounds} (hb : b.Given) (fieldIndex : Int) (records : List DBRecord) :
    ((scanned fp fieldIndex b records).length = (records.filter (Matches fp fieldIndex b)).length ↔
        ¬ (b.OnlyMax ∧ ∃ r ∈ middle records, Matches fp fieldIndex b r)) ∧
      (scanned fp fieldIndex b records).Sublist (records.filter (Matches fp fieldIndex b)) := by
  let p : DBRecord × Nat → Bool :=
    fun e => matchRecord fp fieldIndex b (2 * e.2 + 1 == records.length) e.1
  let q : DBRecord × Nat → Bool := fun e => decide (Matches fp fieldIndex b e.1)
  have himp : ∀ e, p e = true → q e = true := by
    intro e he
    exact decide_eq_true ((matchRecord_iff hb _ _ _).mp he).1
  have hfilter := filter_eq_zipIdx (fun r => decide (Matches fp fieldIndex b r)) records
  have hscanned : scanned fp fieldIndex b records = (records.zipIdx.filter p).map (·.1) := rfl
  rw [hfilter, hscanned]
  refine ⟨?_, (List.monotone_filter_right _ himp).map _⟩
  rw [List.length_map, List.length_map, length_filter_eq_iff himp]
  constructor
  · rintro hall ⟨hmax, r, hr, hmatch⟩
    obtain ⟨i, hi, hget⟩ := middle_eq_some.mp hr
    have hmem : (r, i) ∈ records.zipIdx := List.mk_mem_zipIdx_iff_getElem?.mpr hget
    have hp := hall (r, i) hmem (decide_eq_true hmatch)
    exact ((matchRecord_iff hb _ _ _).mp hp).2 ⟨beq_iff_eq.mpr hi, hmax⟩
  · rintro hno ⟨r, i⟩ hmem hq
    have hmatch : Matches fp fieldIndex b r := of_decide_eq_true hq
    refine (matchRecord_iff hb _ _ _).mpr ⟨hmatch, ?_⟩
    rintro ⟨hi, hmax⟩
    have hget := List.mk_mem_zipIdx_iff_getElem?.mp hmem
    exact hno ⟨hmax, r, middle_eq_some.mpr ⟨i, beq_iff_eq.mp hi, hget⟩, hmatch⟩

/-! ## The result flag -/

/-- One round: the flag is set with the first row that is added. -/
theorem round_flag (f1 f2 : Bool) (first last : List Str) (found : Bool × List (List Str)) :
    let found01 := if f1 then (true, found.2 ++ [first]) else found
    let found02 := if f2 then (true, found01.2 ++ [last]) else found01
    ∃ rows, found02.2 = found.2 ++ rows ∧ (found02.1 = true ↔ found.1 = true ∨ rows ≠ []) := by
  cases f1 with
  | true =>
    cases f2 with
    | true => exact ⟨[first, last], by simp⟩
    | false => exact ⟨[first], by simp⟩
  | false =>
    cases f2 with
    | true => exact ⟨[last], by simp⟩
    | false => exact ⟨[], by simp⟩

theorem scanLoop_flag {fieldIndex : Int} {b : Bounds} {records : List DBRecord}
    (fuel beginIndex endIndex : Nat) {found r : Bool × List (List Str)}
    (h : scanLoop fp fieldIndex b records fuel beginIndex endIndex found = .ok r) :
    ∃ rows, r.2 = found.2 ++ rows ∧ (r.1 = true ↔ found.1 = true ∨ rows ≠ []) := by
  induction fuel generalizing beginIndex endIndex found with
  | zero =>
    cases h
    exact ⟨[], by simp⟩
  | succ fuel ih =>
    obtain ⟨temp, recordList⟩ := found
    rw [scanLoop] at h
    obtain ⟨iter01, -, h⟩ := bind_eq_ok.mp h
    obtain ⟨iter02, -, h⟩ := bind_eq_ok.mp h
    obtain ⟨pField01, -, h⟩ := bind_eq_ok.mp h
    obtain ⟨pField02, -, h⟩ := bind_eq_ok.mp h
    generalize scanFlags fp b pField01 pField02 (beginIndex + 1 == endIndex) = flags at h
    obtain ⟨rows, hrows, hflag⟩ := round_flag flags.1 (!(beginIndex + 1 == endIndex) && flags.2)
      iter01.checkDataList iter02.checkDataList (temp, recordList)
    dsimp only at h
    split at h
    · obtain ⟨rows', hrows', hflag'⟩ := ih (beginIndex + 1) (endIndex - 1) h
      refine ⟨rows ++ rows', ?_, ?_⟩
      · rw [hrows', hrows, List.append_assoc]
      · rw [hflag', hflag, or_assoc]
        simp only [ne_eq, List.append_eq_nil_iff, not_and_or]
    · cases h
      exact ⟨rows, hrows, hflag⟩

theorem queryRecord_flag {t : DBTable fp} {ord : HashOrder} {fieldName : Str} {b : Bounds}
    {recordList : List (List Str)} {r : Bool × List (List Str)}
    (h : t.queryRecord ord fieldName b recordList = .ok r) :
    r.1 = true ↔ r.2 ≠ recordList := by
  unfold queryRecord at h
  dsimp only at h
  split at h
  · cases hl : t.recordSet.lookup b.dataEquKey with
    | none =>
      rw [hl] at h
      cases h
      simp
    | some record =>
      rw [hl] at h
      cases h
      simp
  · split at h
    · obtain ⟨rows, hrows, hflag⟩ := scanLoop_flag _ _ _ h
      rw [hflag, hrows]
      simp
    · cases h
      simp

/-! ## Queries -/

/-- `recordList` gains the rows of the records that pass, each once, and the result says whether
there is one. -/
def AnswersWith (records : List DBRecord) (pass : DBRecord → Prop) [DecidablePred pass]
    (recordList : List (List Str)) (r : Bool × List (List Str)) : Prop :=
  ∃ rows : List DBRecord, rows.Perm (records.filter pass) ∧
    r.2 = recordList ++ rows.map (·.checkDataList) ∧ (r.1 = true ↔ rows ≠ [])

/-- The table's records, as the map holds them. -/
def records (t : DBTable fp) : List DBRecord := t.recordSet.entries.map (·.2)

/-- The records in the order of the walk. -/
def walk (t : DBTable fp) (ord : HashOrder) : List DBRecord :=
  (ord.order t.recordSet.entries).map (·.2)

theorem walk_perm (t : DBTable fp) (ord : HashOrder) : (t.walk ord).Perm t.records :=
  (ord.perm t.recordSet.entries).map _

/-- **The scan finds every match once**, unless a maximum is the only bound and the
record in the middle of the walk meets it. -/
theorem queryRecord_scan_iff {t : DBTable fp} (h : SchemaOk t) (hw : t.FullWidth) (ord : HashOrder)
    {fieldName : Str} (hf : fieldName ∈ t.fieldNameList) {b : Bounds} (hb : b.Given)
    (hscan : ¬ (t.getFieldIndex fieldName = t.iPriKeyIndex ∧ b.dataEquKey ≠ []))
    (recordList : List (List Str)) :
    Returns (t.queryRecord ord fieldName b recordList)
        (AnswersWith t.records (Matches fp (t.getFieldIndex fieldName) b) recordList) ↔
      ¬ (b.OnlyMax ∧ ∃ r ∈ middle (t.walk ord), Matches fp (t.getFieldIndex fieldName) b r) := by
  obtain ⟨found, hfound⟩ := queryRecord_ok h hw ord hf b recordList
  obtain ⟨rows, hrows, hlist⟩ := queryRecord_rows hfound
  have hflag := queryRecord_flag hfound
  have hanswered : t.answered ord fieldName b =
      scanned fp (t.getFieldIndex fieldName) b (t.walk ord) := if_neg hscan
  rw [hanswered] at hrows
  obtain ⟨hlen, hsub⟩ := @scanned_subset fp b hb (t.getFieldIndex fieldName) (t.walk ord)
  have hperm := (walk_perm t ord).filter fun r => decide (Matches fp (t.getFieldIndex fieldName) b r)
  rw [hfound, returns_ok, ← hlen]
  constructor
  · rintro ⟨rows', hrows', hlist', -⟩
    have hsame : rows.map (·.checkDataList) = rows'.map (·.checkDataList) :=
      List.append_cancel_left (hlist.symm.trans hlist')
    have hcount := congrArg List.length hsame
    rw [List.length_map, List.length_map] at hcount
    rw [← hrows.length_eq, hcount, hrows'.length_eq, hperm.length_eq]
  · intro heq
    refine ⟨rows, ?_, hlist, ?_⟩
    · rw [hsub.eq_of_length heq] at hrows
      exact hrows.trans hperm
    · rw [hflag, hlist]
      simp

/-- A record of an `id` and an `age`. -/
def aged (id age : Str) : DBRecord where
  fieldList := [((DBField.new dbIntT).setIsKey true).setData id, (DBField.new dbIntT).setData age]

/-- Three of them, keyed by their `id`. -/
def threeAges : DBTable .exactRational :=
  (((new [lit "id", lit "age"] [dbIntT, dbIntT] 0 : DBTable .exactRational).addRecord (lit "1")
    (aged (lit "1") (lit "20"))).addRecord (lit "2") (aged (lit "2") (lit "30"))).addRecord (lit "3")
    (aged (lit "3") (lit "40"))

theorem threeAges_wellFormed : threeAges.WellFormed := by
  have hnew : WellFormed (new [lit "id", lit "age"] [dbIntT, dbIntT] 0 : DBTable .exactRational) :=
    new_wellFormed rfl (by decide) (by decide)
  refine ((hnew.addRecord ?_ ?_).addRecord ?_ ?_).addRecord ?_ ?_
  · decide
  · exact ⟨rfl, _, rfl, rfl⟩
  · decide
  · exact ⟨rfl, _, rfl, rfl⟩
  · decide
  · exact ⟨rfl, _, rfl, rfl⟩

theorem queryRecord_scan_iff_age :
    Returns (threeAges.queryRecord .plain (lit "age") ⟨[], lit "30", lit "50"⟩ [])
        (AnswersWith threeAges.records
          (Matches .exactRational (threeAges.getFieldIndex (lit "age")) ⟨[], lit "30", lit "50"⟩) []) ↔
      ¬ ((⟨[], lit "30", lit "50"⟩ : Bounds).OnlyMax ∧ ∃ r ∈ middle (threeAges.walk .plain),
        Matches .exactRational (threeAges.getFieldIndex (lit "age")) ⟨[], lit "30", lit "50"⟩ r) :=
  queryRecord_scan_iff threeAges_wellFormed.schema threeAges_wellFormed.fullWidth .plain (by decide)
    (by decide)
    (by decide) []

/-- All three are at most 50; the one in the middle is not found. -/
theorem queryRecord_misses_middle :
    ¬ Returns (threeAges.queryRecord .plain (lit "age") ⟨[], [], lit "50"⟩ [])
        (AnswersWith threeAges.records
          (Matches .exactRational (threeAges.getFieldIndex (lit "age")) ⟨[], [], lit "50"⟩) []) ∧
      threeAges.queryRecord .plain (lit "age") ⟨[], [], lit "50"⟩ [] =
        .ok (true, [[lit "3", lit "40"], [lit "1", lit "20"]]) := by
  have hres : threeAges.queryRecord .plain (lit "age") ⟨[], [], lit "50"⟩ [] =
      .ok (true, [[lit "3", lit "40"], [lit "1", lit "20"]]) := by decide
  refine ⟨?_, hres⟩
  rw [hres, returns_ok]
  rintro ⟨rows, hrows, hlist, -⟩
  have hthree : (threeAges.records.filter
      (Matches .exactRational (threeAges.getFieldIndex (lit "age")) ⟨[], [], lit "50"⟩)).length =
        3 := by decide
  have htwo := congrArg List.length hlist
  rw [List.nil_append, List.length_map, hrows.length_eq, hthree] at htwo
  exact absurd htwo (by decide)

/-! ## The lookup by key -/

/-- The two texts are read as one number; texts of other types never are. -/
def SameNumber (fp : FloatUnit) (iType : UInt16) (a b : Str) : Prop :=
  if isIntegerType iType then fuStrToInteger a = fuStrToInteger b
  else if iType == dbFloatT || iType == dbDoubleT then
    fp.dblLt (fp.dblAbs (fp.dblSub (fuStrToDouble fp a) (fuStrToDouble fp b))) fp.dblEps = true
  else a = b

theorem dbCompareDataKey_eq_zero {iType : UInt16} {a b : Str} :
    dbCompareDataKey fp a b iType = 0 ↔ SameNumber fp iType a b := by
  unfold dbCompareDataKey SameNumber
  dsimp only
  split
  · split
    · next heq => exact iff_of_true rfl heq
    · next hne =>
      refine iff_of_false ?_ hne
      split <;> decide
  · split
    · split
      · next heq => exact iff_of_true rfl heq
      · next hne =>
        refine iff_of_false ?_ hne
        split <;> decide
    · exact strCompare_eq_zero

/-- The record's key field compares equal to the key. -/
def KeyEquals (t : DBTable fp) (k : Str) (r : DBRecord) : Prop :=
  Returns (r.getField t.iPriKeyIndex) fun f => dbCompareDataKey fp f.sData k t.keyType = 0

instance (t : DBTable fp) (k : Str) : DecidablePred (t.KeyEquals k) := fun r =>
  inferInstanceAs (Decidable (Returns (r.getField t.iPriKeyIndex) _))

/-- The key's number has one spelling among the keys of the table, that of the request. -/
def SpelledOnce (t : DBTable fp) (k : Str) : Prop :=
  ∀ k' ∈ t.recordSet, SameNumber fp t.keyType k' k ↔ k' = k

theorem keyEquals_iff {t : DBTable fp} {k k' : Str} {r : DBRecord} (hr : t.KeyedBy k' r) :
    t.KeyEquals k r ↔ SameNumber fp t.keyType k' k := by
  obtain ⟨-, f, hf, rfl⟩ := hr
  unfold KeyEquals
  rw [hf, returns_ok, dbCompareDataKey_eq_zero]

/-- The key can be read off the row. -/
theorem KeyedBy.checkDataList {t : DBTable fp} {k : Str} {r : DBRecord} (hr : t.KeyedBy k r) :
    r.checkDataList[t.iPriKeyIndex.toNat]? = some k := by
  obtain ⟨-, f, hf, rfl⟩ := hr.keyField
  rw [DBRecord.checkDataList, List.getElem?_map, hf]
  rfl

theorem mem_records {t : DBTable fp} {r : DBRecord} :
    r ∈ t.records ↔ ∃ k, t.recordSet.lookup k = some r := by
  unfold records
  rw [List.mem_map]
  constructor
  · rintro ⟨⟨k, r⟩, he, rfl⟩
    exact ⟨k, UMap.mem_entries.mp he⟩
  · rintro ⟨k, hk⟩
    exact ⟨⟨k, r⟩, UMap.mem_entries.mpr hk, rfl⟩

/-- With one spelling a number, the records whose key compares equal are the one under the key. -/
theorem filter_keyEquals {t : DBTable fp} (ha : t.KeysAgree) {k : Str} (hk : t.SpelledOnce k) :
    t.records.filter (t.KeyEquals k) = (t.recordSet.lookup k).toList := by
  have hsame : ∀ e ∈ t.recordSet.entries, decide (t.KeyEquals k e.2) = decide (e.1 = k) := by
    rintro ⟨k', r⟩ he
    have hlook := UMap.mem_entries.mp he
    exact decide_eq_decide.mpr ((keyEquals_iff (ha k' r hlook)).trans (hk k' (UMap.mem_of_lookup hlook)))
  unfold records
  rw [List.filter_map]
  show (t.recordSet.entries.filter fun e => decide (t.KeyEquals k e.2)).map _ = _
  rw [List.filter_congr hsame, UMap.filter_key t.recordSet.nodupKeys k, List.map_map]
  exact List.map_id _

theorem queryRecord_key {t : DBTable fp} (ord : HashOrder) {fieldName : Str}
    (hf : t.getFieldIndex fieldName = t.iPriKeyIndex) {b : Bounds} (hb : b.dataEquKey ≠ [])
    (recordList : List (List Str)) :
    t.queryRecord ord fieldName b recordList = .ok ((t.recordSet.lookup b.dataEquKey).isSome,
      recordList ++ (t.recordSet.lookup b.dataEquKey).toList.map (·.checkDataList)) := by
  unfold queryRecord
  dsimp only
  rw [if_pos ⟨hf, hb⟩]
  cases t.recordSet.lookup b.dataEquKey with
  | none => rw [Option.toList_none, List.map_nil, List.append_nil, Option.isSome_none]
  | some record => rfl

/-- Records that the scan would answer with and that have the rows of the lookup are the lookup's
record. -/
theorem spelledOnce_of_rows {t : DBTable fp} (ha : t.KeysAgree) {k : Str} {rows : List DBRecord}
    (hrows : rows.Perm (t.records.filter (t.KeyEquals k)))
    (hlist : (t.recordSet.lookup k).toList.map (·.checkDataList) = rows.map (·.checkDataList)) :
    t.SpelledOnce k := by
  have hmem : ∀ k' r, t.recordSet.lookup k' = some r → (r ∈ rows ↔ SameNumber fp t.keyType k' k) := by
    intro k' r hr
    rw [hrows.mem_iff, List.mem_filter, decide_eq_true_iff, keyEquals_iff (ha k' r hr)]
    exact and_iff_right (mem_records.mpr ⟨k', hr⟩)
  -- a row of the lookup has the key `k` in its key column
  have hkey : ∀ k' r, t.recordSet.lookup k' = some r → r ∈ rows → k' = k := by
    intro k' r hr hrow
    have hrowMem : r.checkDataList ∈ rows.map (·.checkDataList) := List.mem_map_of_mem hrow
    rw [← hlist] at hrowMem
    obtain ⟨r0, hr0, hsame⟩ := List.mem_map.mp hrowMem
    have htext := (ha k r0 (Option.mem_toList.mp hr0)).checkDataList
    rw [hsame, (ha k' r hr).checkDataList] at htext
    exact Option.some.inj htext
  intro k' hk'
  obtain ⟨r, hr⟩ := UMap.exists_lookup hk'
  rw [← hmem k' r hr]
  constructor
  · exact hkey k' r hr
  · rintro rfl
    have hrow : r.checkDataList ∈ rows.map (·.checkDataList) := by
      rw [← hlist, hr]
      exact List.mem_singleton_self _
    -- the row of the lookup is that of some record, which is under `k'` too
    obtain ⟨r', hr', -⟩ := List.mem_map.mp hrow
    obtain ⟨k'', hr''⟩ := mem_records.mp (List.mem_filter.mp (hrows.mem_iff.mp hr')).1
    obtain rfl := hkey k'' r' hr'' hr'
    rw [hr] at hr''
    rw [Option.some.inj hr'']
    exact hr'

/-- **The lookup agrees with the scan** exactly when the number of the requested key has
one spelling in the table. -/
theorem queryRecord_key_iff {t : DBTable fp} (h : t.WellFormed) (ord : HashOrder) {fieldName : Str}
    (hf : t.getFieldIndex fieldName = t.iPriKeyIndex) {b : Bounds} (hb : b.dataEquKey ≠ [])
    (recordList : List (List Str)) :
    Returns (t.queryRecord ord fieldName b recordList)
        (AnswersWith t.records (t.KeyEquals b.dataEquKey) recordList) ↔
      t.SpelledOnce b.dataEquKey := by
  rw [queryRecord_key ord hf hb, returns_ok]
  constructor
  · rintro ⟨rows, hrows, hlist, -⟩
    exact spelledOnce_of_rows h.agree hrows (List.append_cancel_left hlist)
  · intro hk
    refine ⟨_, ?_, rfl, ?_⟩
    · rw [filter_keyEquals h.agree hk]
    · cases t.recordSet.lookup b.dataEquKey <;> simp

theorem queryRecord_key_iff_age :
    Returns (threeAges.queryRecord .plain (lit "id") ⟨lit "2", [], []⟩ [])
        (AnswersWith threeAges.records (threeAges.KeyEquals (lit "2")) []) ↔
      threeAges.SpelledOnce (lit "2") :=
  queryRecord_key_iff threeAges_wellFormed .plain rfl (by decide) []

/-- Asked for `02`, the lookup finds nothing; the key `2` is the same number. -/
theorem queryRecord_spelling :
    ¬ Returns (threeAges.queryRecord .plain (lit "id") ⟨lit "02", [], []⟩ [])
        (AnswersWith threeAges.records (threeAges.KeyEquals (lit "02")) []) ∧
      threeAges.records.filter (threeAges.KeyEquals (lit "02")) = [aged (lit "2") (lit "30")] := by
  have hmatch : threeAges.records.filter (threeAges.KeyEquals (lit "02")) =
      [aged (lit "2") (lit "30")] := by
    decide
  refine ⟨?_, hmatch⟩
  rintro ⟨r, hr, rows, hrows, hlist, -⟩
  cases hr
  rw [hmatch] at hrows
  have hone := hrows.length_eq
  have hnone := congrArg List.length hlist
  rw [List.nil_append, List.length_map, hone] at hnone
  exact absurd hnone (by decide)

end DBTable

end FuServer
