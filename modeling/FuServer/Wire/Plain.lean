import FuServer.Cache.Store
import FuServer.Wire.ReplyMatch

/-!
# Texts without a NUL

The wire and the commands end a text at its first NUL.  If what is loaded and
what is written have none, the tables never have one, the keys the cache makes
up included, and so the replies have none.
-/

namespace FuServer

open Bytes Decimal Outcome KeyedStore

/-! ## Keys that are made up -/

theorem noNul_set {s : Str} (h : NoNul s) (i : Nat) {c : UInt8} (hc : c ≠ 0) : NoNul (s.set i c) := by
  intro x hx
  rcases List.mem_or_eq_of_mem_set hx with hmem | rfl
  · exact h x hmem
  · exact hc

theorem noNul_putDigit {s : Str} (h : NoNul s) (i : Nat) (toAddData : Int) :
    NoNul (putDigit s i toAddData) := by
  refine noNul_set h i fun hzero => ?_
  have hdigit : 0 < ((toAddData.tmod 10 + 48) % 256).toNat ∧
      ((toAddData.tmod 10 + 48) % 256).toNat < 256 := by
    have h1 := Int.lt_tmod_of_pos toAddData (show (0 : Int) < 10 by decide)
    have h2 := Int.tmod_lt_of_pos toAddData (show (0 : Int) < 10 by decide)
    omega
  have hval := congrArg UInt8.toNat hzero
  rw [UInt8.toNat_ofNat', Nat.mod_eq_of_lt (by omega)] at hval
  change ((toAddData.tmod 10 + 48) % 256).toNat = 0 at hval
  omega

theorem noNul_incrementSlot {s : Str} (h : NoNul s) (toKeyIndex : Int) :
    NoNul (incrementSlot s toKeyIndex).1 := by
  have hzero : (48 : UInt8) ≠ 0 := by decide
  unfold incrementSlot
  split
  · dsimp only
    split
    · exact h
    · intro x hx
      rcases List.eq_or_mem_of_mem_insertIdx hx with rfl | hmem
      · exact hzero
      · exact h x hmem
  · intro x hx
    rcases List.mem_cons.mp hx with rfl | hmem
    · exact hzero
    · exact h x hmem

theorem noNul_incrementLoop (addKey : Str) (j : Nat) {s : Str} (h : NoNul s) (toKeyIndex carry : Int) :
    NoNul (incrementLoop addKey j s toKeyIndex carry) := by
  induction j generalizing s toKeyIndex carry with
  | zero =>
    unfold incrementLoop
    split
    · exact h
    · exact noNul_putDigit (noNul_incrementSlot h toKeyIndex) _ _
  | succ j ih =>
    unfold incrementLoop
    exact ih (noNul_putDigit (noNul_incrementSlot h toKeyIndex) _ _) _ _

theorem noNul_fuStrIncrement {s : Str} (h : NoNul s) : NoNul (fuStrIncrement 1 s) := by
  have hone : NoNul (fuIntToStr 1) := by decide
  unfold fuStrIncrement
  dsimp only
  split
  · exact noNul_append.mpr ⟨h, hone⟩
  · split
    · exact noNul_append.mpr ⟨h, hone⟩
    · exact noNul_incrementLoop _ _ h _ _

namespace DBTable

variable {fp : FloatUnit}

/-- No text of the table has a NUL. -/
structure Plain (t : DBTable fp) : Prop where
  names : ∀ c ∈ t.fieldNameList, NoNul c
  maxKey : NoNul t.sMaxKey
  texts : ∀ k r, t.recordSet.lookup k = some r → ∀ f ∈ r.fieldList, NoNul f.sData

section Plain

variable {t : DBTable fp}

theorem Plain.key (h : t.Plain) (ha : t.KeysAgree) {k : Str} {r : DBRecord}
    (hr : t.recordSet.lookup k = some r) :
    NoNul k := by
  obtain ⟨-, f, hf, rfl⟩ := ha k r hr
  exact h.texts _ r hr f (List.mem_of_getElem? (vecAt_eq_ok.mp hf).2)

theorem Plain.addRecord (h : t.Plain) {k : Str} {r : DBRecord} (hk : NoNul k)
    (hr : ∀ f ∈ r.fieldList, NoNul f.sData) : (t.addRecord k r).Plain := by
  refine ⟨h.names, ?_, fun k' r' hr' => ?_⟩
  · rw [addRecord_sMaxKey]
    have hmax : NoNul (if t.sMaxKey = [] then k else t.sMaxKey) := by
      split
      · exact hk
      · exact h.maxKey
    generalize (if t.sMaxKey = [] then k else t.sMaxKey) = sMaxKey at hmax ⊢
    split
    · exact hk
    · exact hmax
  · rw [addRecord_recordSet, UMap.lookup_insertNew] at hr'
    split at hr'
    · cases hr'
      exact hr
    · exact h.texts k' r' hr'

theorem Plain.putRecord (h : t.Plain) {k : Str} {r : DBRecord} (hr : ∀ f ∈ r.fieldList, NoNul f.sData) :
    (t.putRecord k r).Plain := by
  refine ⟨h.names, h.maxKey, fun k' r' hr' => ?_⟩
  rw [lookup_putRecord] at hr'
  split at hr'
  · obtain ⟨-, -, rfl⟩ := Option.map_eq_some_iff.mp hr'
    exact hr
  · exact h.texts k' r' hr'

/-! ## What is written -/

/-- The texts of a name map have no NUL. -/
def PlainData (d : UMap Str Str) : Prop := ∀ e ∈ d.entries, NoNul e.2

instance (d : UMap Str Str) : Decidable (PlainData d) :=
  inferInstanceAs (Decidable (∀ e ∈ d.entries, NoNul e.2))

theorem PlainData.lookup {d : UMap Str Str} (h : PlainData d) {c data : Str}
    (hc : d.lookup c = some data) :
    NoNul data :=
  h _ (UMap.mem_entries.mpr hc)

/-- A made-up key has no NUL when the greatest key has none. -/
theorem Plain.newKey (h : t.Plain) (htype : isIntegerType t.keyType = true ∨ t.keyType = dbStringT)
    {d : UMap Str Str}
    (hd : PlainData d) : NoNul (t.newKey d) := by
  unfold DBTable.newKey
  cases hk : d.lookup t.keyName with
  | some k => exact hd.lookup hk
  | none =>
    have hnext : (isIntegerType t.keyType || t.keyType == dbStringT) = true := by
      rcases htype with hi | hs
      · rw [hi, Bool.true_or]
      · rw [hs]
        rfl
    show NoNul t.nextKey
    rw [nextKey, if_pos hnext]
    exact noNul_fuStrIncrement h.maxKey

theorem noNul_newRecord {d : UMap Str Str} (hk : NoNul (t.newKey d)) (hd : PlainData d) :
    ∀ f ∈ (t.newRecord d).fieldList, NoNul f.sData := by
  intro f hf
  unfold newRecord buildFields at hf
  obtain ⟨i, -, rfl⟩ := List.mem_map.mp hf
  split
  · unfold keyOnlyField
    dsimp only
    split
    · exact hk
    · exact fun c hc => absurd hc List.not_mem_nil
  · unfold namedField
    dsimp only
    split
    · exact hk
    · split
      · next data hdata => exact hd.lookup hdata
      · exact fun c hc => absurd hc List.not_mem_nil

theorem noNul_assignAt {r : DBRecord} (h : ∀ f ∈ r.fieldList, NoNul f.sData) (i : Nat) {sData : Str}
    (hs : NoNul sData) : ∀ f ∈ (assignAt r i sData).fieldList, NoNul f.sData := by
  intro f hf
  obtain ⟨j, hj⟩ := List.getElem?_of_mem hf
  change (r.fieldList.modify i (·.resetData sData))[j]? = some f at hj
  rw [List.getElem?_modify] at hj
  obtain ⟨g, hg, rfl⟩ := Option.map_eq_some_iff.mp hj
  split
  · exact hs
  · exact h g (List.mem_of_getElem? hg)

theorem noNul_foldl_assignNamed (t : DBTable fp) (dataList : List (Σ _ : Str, Str))
    (hd : ∀ e ∈ dataList, NoNul e.2) {r : DBRecord} (h : ∀ f ∈ r.fieldList, NoNul f.sData) :
    ∀ f ∈ (dataList.foldl t.assignNamed r).fieldList, NoNul f.sData := by
  induction dataList generalizing r with
  | nil => exact h
  | cons e dataList ih =>
    rw [List.foldl_cons]
    refine ih (fun e' he' => hd e' (List.mem_cons_of_mem e he')) ?_
    unfold assignNamed
    split
    · exact noNul_assignAt h _ (hd e List.mem_cons_self)
    · exact h

/-! ## What is loaded -/

/-- The texts of a row have no NUL. -/
def PlainRow (row : List (Option Str)) : Prop := ∀ data ∈ row, ∀ text ∈ data, NoNul text

instance (row : List (Option Str)) : Decidable (PlainRow row) :=
  inferInstanceAs (Decidable (∀ data ∈ row, ∀ text ∈ data, NoNul text))

theorem noNul_rowRecord {fields : List MysqlField} {row : List (Option Str)}
    (hlen : row.length = fields.length)
    (h : PlainRow row) : ∀ f ∈ (rowRecord fields row).fieldList, NoNul f.sData := by
  intro f hf
  have hmem : f.sData ∈ (rowRecord fields row).fieldList.map (·.sData) := List.mem_map_of_mem hf
  rw [rowRecord_sData hlen] at hmem
  obtain ⟨data, hdata, heq⟩ := List.mem_map.mp hmem
  rw [← heq]
  cases data with
  | none => exact fun c hc => absurd hc List.not_mem_nil
  | some text => exact h _ hdata text rfl

theorem noNul_rowKey (iPriKeyIndex : Int) {row : List (Option Str)} (h : PlainRow row) :
    NoNul (rowKey iPriKeyIndex row) := by
  unfold rowKey
  rw [List.getD_eq_getElem?_getD]
  cases hrow : row[iPriKeyIndex.toNat]? with
  | none => exact fun c hc => absurd hc List.not_mem_nil
  | some data =>
    cases data with
    | none => exact fun c hc => absurd hc List.not_mem_nil
    | some text => exact h _ (List.mem_of_getElem? hrow) text rfl

theorem Plain.checkToTable {fields : List MysqlField} {rows : List (List (Option Str))}
    (hrows : ∀ row ∈ rows, row.length = fields.length ∧ PlainRow row) {t t' : DBTable fp} (h : t.Plain)
    (hs : SchemaOk t) (hf : fields.length = t.fieldNameList.length)
    (ht : FuServer.checkToTable fields rows t = .ok (some t')) : t'.Plain := by
  induction rows generalizing t with
  | nil =>
    cases ht
    exact h
  | cons row rows ih =>
    obtain ⟨hlen, hplain⟩ := hrows row List.mem_cons_self
    rw [FuServer.checkToTable] at ht
    dsimp only at ht
    generalize fields.foldl (fun b f => if f.priKey then f.autoIncrement else b) t.bAutoIncrement =
      auto at ht
    have h0 : SchemaOk { t with bAutoIncrement := auto } := hs.of_same ⟨rfl, rfl, rfl, rfl, rfl, rfl⟩
    have hp0 : Plain { t with bAutoIncrement := auto } := ⟨h.names, h.maxKey, h.texts⟩
    have hf0 : fields.length =
        ({ t with bAutoIncrement := auto } : DBTable fp).fieldNameList.length := hf
    generalize ({ t with bAutoIncrement := auto } : DBTable fp) = t0 at ht h0 hp0 hf0
    obtain ⟨⟨t1, o⟩, hinsert, ht⟩ := bind_eq_ok.mp ht
    rw [insertRow_eq h0 hlen hf0] at hinsert
    cases o with
    | none => cases ht
    | some k =>
      split at hinsert
      · cases hinsert
      · unfold enter at hinsert
        split at hinsert
        · cases hinsert
        · cases hinsert
          exact ih (fun row' hr => hrows row' (List.mem_cons_of_mem row hr))
            (hp0.addRecord (noNul_rowKey _ hplain) (noNul_rowRecord hlen hplain))
            (h0.of_same (addRecord_same t0 _ _)) hf0 ht

end Plain

end DBTable

namespace DBManager

open DBTable

variable {fp : FloatUnit}

/-- No text of a table has a NUL. -/
def Plain (m : DBManager fp) : Prop := ∀ tname t, m.tableSet.lookup tname = some t → t.Plain

/-- No text that the call writes or loads has a NUL. -/
def PlainCall : ManagerCall fp → Prop
  | .load _ _ reply => (∀ fields ∈ reply.info, ∀ f ∈ fields, NoNul f.name) ∧
      ∀ res ∈ reply.select, ∀ row ∈ res.rows, PlainRow row
  | .insert _ d => PlainData d
  | .modify _ _ d => PlainData d
  | .query _ _ _ _ => True
  | .update _ _ _ => True
  | .close => True

instance (c : ManagerCall fp) : Decidable (PlainCall c) :=
  match c with
  | .load _ _ reply => inferInstanceAs (Decidable ((∀ fields ∈ reply.info, ∀ f ∈ fields, NoNul f.name) ∧
      ∀ res ∈ reply.select, ∀ row ∈ res.rows, PlainRow row))
  | .insert _ d => inferInstanceAs (Decidable (PlainData d))
  | .modify _ _ d => inferInstanceAs (Decidable (PlainData d))
  | .query _ _ _ _ => isTrue trivial
  | .update _ _ _ => isTrue trivial
  | .close => isTrue trivial

/-- No text of the reply has a NUL. -/
def PlainReply : KeyedStore.Reply Str Str → Prop
  | .inserted k => ∀ key ∈ k, NoNul key
  | .found ok names rows => ok = true → (∀ c ∈ names, NoNul c) ∧ ∀ row ∈ rows, ∀ text ∈ row, NoNul text
  | _ => True

section Calls

variable {m m' : DBManager fp} {S : Store Str Str UInt16 Str}

theorem Plain.of_tables (h : m.Plain) (hset : m'.tableSet = m.tableSet) : m'.Plain := by
  intro tname t ht
  rw [hset] at ht
  exact h tname t ht

theorem Plain.putTable (h : m.Plain) {t : DBTable fp} (ht : t.Plain) (tname : Str) :
    (m.putTable tname t).Plain := by
  intro tname' t' hm'
  rw [lookup_putTable] at hm'
  split at hm'
  · obtain ⟨-, -, rfl⟩ := Option.map_eq_some_iff.mp hm'
    exact ht
  · exact h tname' t' hm'

theorem plain_loadTable (h : m.Plain) {dbname tname : Str} {reply : LoadReply} {b : Bool}
    (hs : reply.Servable) (hc : PlainCall (.load dbname tname reply : ManagerCall fp))
    (hload : m.loadTable dbname tname reply = .ok (m', b)) : m'.Plain := by
  have hset := enterDB_tableSet m dbname reply.useOk
  rcases loadTable_exits hload with ⟨-, rfl | rfl⟩ | ⟨fields, res, t, -, hnot, -, hinfo, hkey, hsel,
    hrows, rfl⟩
  · exact h
  · exact h.of_tables hset
  · obtain rfl := hs.consistent fields hinfo res hsel
    have hnew : DBTable.Plain (DBTable.new (checkFieldInfo res.fields).1 (checkFieldInfo res.fields).2.1
        (checkFieldInfo res.fields).2.2 : DBTable fp) := by
      refine ⟨fun c hmem => ?_, fun c hc => absurd hc List.not_mem_nil, fun k r hr => by cases hr⟩
      obtain ⟨f, hf, rfl⟩ := List.mem_map.mp hmem
      exact hc.1 _ hinfo f hf
    have hplain := DBTable.Plain.checkToTable
      (fun row hr => ⟨res.width row hr, hc.2 res hsel row hr⟩) hnew
      (new_checkFieldInfo fp hkey).schema (length_checkFieldInfo res.fields).1.symm hrows
    intro tname' t' hm'
    rw [UMap.lookup_insertNew, hset] at hm'
    split at hm'
    · cases hm'
      exact ⟨hplain.names, hplain.maxKey, hplain.texts⟩
    · exact h tname' t' hm'

theorem plain_insertDB (h : m.Plain) (hst : m.Stores S) {tname k : Str} {d : UMap Str Str}
    (hd : PlainData d)
    (hins : m.insertDB tname d = .ok (m', k)) : m'.Plain ∧ NoNul k := by
  rcases insertDB_cases hst.wellFormed hins with ⟨rfl, rfl⟩ | ⟨t, ht, hr, rfl, rfl⟩
  · exact ⟨h, fun c hc => absurd hc List.not_mem_nil⟩
  · obtain ⟨s, hS⟩ := Option.ne_none_iff_exists'.mp fun hnone =>
      (hst.absent tname).mp hnone (UMap.mem_of_lookup ht)
    have hkey := (h tname t ht).newKey (hst.present tname t s ht hS).loaded.keyType hd
    have htexts : ∀ f ∈ ((t.newRecord d).setIsInsert true).fieldList, NoNul f.sData :=
      noNul_newRecord hkey hd
    exact ⟨h.putTable ((h tname t ht).addRecord hkey htexts) tname, hkey⟩

theorem plain_modifyDB (h : m.Plain) (hst : m.Stores S) {tname k : Str} {d : UMap Str Str}
    (hd : PlainData d) {ok : Bool}
    (hmod : m.modifyDB tname k d = .ok (m', ok)) : m'.Plain := by
  rcases modifyDB_cases hst.wellFormed hmod with ⟨rfl, -⟩ | ⟨t, r, ht, hr, -, -, rfl⟩
  · exact h
  · have htexts := noNul_foldl_assignNamed t d.entries hd ((h tname t ht).texts k r hr)
    exact h.putTable ((h tname t ht).putRecord htexts) tname

theorem plain_queryDB (h : m.Plain) {ord : HashOrder} {tname fieldName : Str} {b : Bounds}
    {rows : List (List Str)} {names : List Str}
    (hquery : m.queryDB ord [] [] tname fieldName b = .ok (true, rows, names)) :
    (∀ c ∈ names, NoNul c) ∧ ∀ row ∈ rows, ∀ text ∈ row, NoNul text := by
  obtain ⟨equ, lo, hi⟩ := b
  obtain ⟨t, ht, rfl, l, hl, rfl⟩ := queryDB_found (q := ⟨0, tname, fieldName, equ, lo, hi⟩) hquery
  refine ⟨(h tname t ht).names, fun row hrow text htext => ?_⟩
  obtain ⟨r, hr, rfl⟩ := List.mem_map.mp hrow
  obtain ⟨k, hk⟩ := mem_answered (hl.mem_iff.mp hr)
  obtain ⟨f, hf, rfl⟩ := List.mem_map.mp htext
  exact (h tname t ht).texts k r hk f hf

theorem plain_update (h : m.Plain) (hst : m.Stores S) {ord : HashOrder}
    {answer : Str → RecRef → Bool} {dt : fp.Flt} {trace : List CmdRun}
    (hup : m.update ord answer dt = .ok (m', trace)) : m'.Plain := by
  obtain ⟨s, hok, inv⟩ := update_spec hst.wellFormed ord answer dt
  rw [hok] at hup
  cases hup
  intro tname t' ht'
  by_cases hmem : tname ∈ ord.order m.tableSet.keys
  · obtain ⟨t, t1, h0, h1, ⟨⟨rs, hrest⟩, hrec⟩⟩ := inv.after tname hmem
    obtain rfl : t1 = t' := Option.some.inj (h1.symm.trans ht')
    have hp := h tname t h0
    rw [hrest]
    refine ⟨hp.names, hp.maxKey, fun k r hr => ?_⟩
    have hr1 : t1.recordSet.lookup k = some r := by
      rw [hrest]
      exact hr
    rw [hrec k] at hr1
    obtain ⟨r0, hr0, rfl⟩ := Option.map_eq_some_iff.mp hr1
    split
    · exact hp.texts k r0 hr0
    · exact hp.texts k r0 hr0
  · rw [inv.before tname hmem] at ht'
    exact h tname t' ht'

/-- A call that brings in no NUL leaves none, in the tables and in its reply. -/
theorem plain_manage (h : m.Plain) (hst : m.Stores S) {c : ManagerCall fp} (hok : m.Orderly c)
    (hc : PlainCall c) {reply : KeyedStore.Reply Str Str} (hs : m.manage c = some (m', reply)) :
    m'.Plain ∧ PlainReply reply := by
  cases c with
  | load dbname tname lr =>
    obtain ⟨ok, hres, rfl⟩ := manage_load hs
    exact ⟨plain_loadTable h hok.2 hc hres, trivial⟩
  | insert tname d =>
    obtain ⟨k, hres, rfl⟩ := manage_insert hs
    obtain ⟨hm', hk⟩ := plain_insertDB h hst hc hres
    refine ⟨hm', fun key hkey => ?_⟩
    split at hkey
    · cases hkey
    · cases hkey
      exact hk
  | modify tname k d =>
    obtain ⟨ok, hres, rfl⟩ := manage_modify hs
    exact ⟨plain_modifyDB h hst hc hres, trivial⟩
  | query ord tname fieldName b =>
    obtain ⟨ok, rows, names, hres, rfl, rfl⟩ := manage_query hs
    refine ⟨h, fun htrue => ?_⟩
    rw [htrue] at hres
    exact plain_queryDB h hres
  | update ord answer dt =>
    obtain ⟨trace, hres, rfl⟩ := manage_update hs
    exact ⟨plain_update h hst hres, trivial⟩
  | close =>
    cases hs
    exact ⟨h.of_tables rfl, trivial⟩

end Calls

theorem plain_createLink (dbname : Str) : (createLink dbname : DBManager fp).Plain :=
  fun _ _ h => by cases h

end DBManager

end FuServer
