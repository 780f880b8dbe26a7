import FuServer.Model.Protocol

/-!
# The wire protocol round-trips

Each reader is paired with its writer by the rules of the codec library, up to
the messages themselves.  A map is written in the order its hash layout gives
and comes back as the same map, not as the same list.
-/

namespace FuServer

open Bytes Codec UtilsSerialize

/-- A serializer holding a buffer, with its iterator. -/
abbrev buffer : Str → Nat → UtilsSerialize := UtilsSerialize.mk

/-! ## Integers and strings -/

theorem intOfBytes_intBytes (x : Int32) :
    ∃ b0 b1 b2 b3, intBytes x = [b0, b1, b2, b3] ∧ intOfBytes b0 b1 b2 b3 = x := by
  refine ⟨_, _, _, _, rfl, ?_⟩
  have hlt : x.toUInt32.toNat < 4294967296 := x.toUInt32.toNat_lt
  unfold intOfBytes
  simp only [UInt8.toNat_ofNat']
  have hsum : x.toUInt32.toNat % 2 ^ 8 + 256 * (x.toUInt32.toNat / 256 % 2 ^ 8) +
      65536 * (x.toUInt32.toNat / 65536 % 2 ^ 8) + 16777216 * (x.toUInt32.toNat / 16777216 % 2 ^ 8) =
      x.toUInt32.toNat := by
    omega
  rw [hsum, UInt32.ofNat_toNat]
  rfl

theorem roundTrips_int (x : Int32) : RoundTrips buffer (fun d => d.inputInt x) outputInt x := by
  obtain ⟨b0, b1, b2, b3, hbytes, hval⟩ := intOfBytes_intBytes x
  refine ⟨intBytes x, fun buf i => rfl, fun before after => ?_⟩
  have hdrop : (before ++ intBytes x ++ after ++ [0]).drop before.length =
      b0 :: b1 :: b2 :: b3 :: (after ++ [0]) := by
    rw [List.append_assoc, List.append_assoc, List.drop_left, hbytes]
    rfl
  unfold outputInt
  dsimp only
  rw [hdrop]
  dsimp only
  rw [hval, List.length_append, hbytes]
  rfl

theorem roundTrips_string {s : Str} (h : NoNul s) :
    RoundTrips buffer (fun d => d.inputString s) outputString s := by
  refine ⟨s ++ [0], fun buf i => rfl, fun before after => ?_⟩
  have hdrop : cstr ((before ++ (s ++ [0]) ++ after).drop before.length) = s := by
    rw [List.append_assoc, List.drop_left, List.append_assoc]
    exact cstr_append_nul h after
  have hle : before.length ≤ (before ++ (s ++ [0]) ++ after).length := by
    simp only [List.length_append]
    omega
  unfold outputString
  dsimp only
  rw [if_pos hle, hdrop, List.length_append, List.length_append]
  rfl

/-! ## Containers -/

theorem roundTrips_size {size : Nat} (h : size < 2 ^ 31) :
    RoundTrips buffer (inputSize size) outputInt (Int32.ofNat size) ∧
      (Int32.ofNat size).toNatClampNeg = size :=
  ⟨roundTrips_int (Int32.ofNat size), Int32.toNatClampNeg_ofNat_of_lt h⟩

/-- A size and as many items, one loop against the other. -/
theorem roundTrips_forTo {α item : Type} {p : UtilsSerialize → item → UtilsSerialize}
    {b : α → Out α} {g : α → item → α} {l : List item} (hl : l.length < 2 ^ 31) (acc : α)
    (h : ∀ acc, ∀ x ∈ l, RoundTrips buffer (fun d => p d x) (b acc) (g acc x)) :
    RoundTrips buffer (fun d => l.foldl p d) (forTo (Int32.ofNat l.length) b acc)
      (l.foldl g acc) := by
  unfold forTo
  rw [(roundTrips_size hl).2]
  exact RoundTrips.times l acc h

/-- A list of strings that fits on the wire. -/
def FitsStrings (l : List Str) : Prop := l.length < 2 ^ 31 ∧ ∀ s ∈ l, NoNul s

instance (l : List Str) : Decidable (FitsStrings l) := inferInstanceAs (Decidable (_ ∧ _))

theorem roundTrips_strings {l : List Str} (h : FitsStrings l) :
    RoundTrips buffer (inputStrings l) (forTo (Int32.ofNat l.length) pushString []) l := by
  have hloop := roundTrips_forTo (p := inputString) (b := pushString)
    (g := fun acc x => acc ++ [x]) h.1 [] fun acc x hx => (roundTrips_string (h.2 x hx)).map _
  rw [List.foldl_append_eq_append, List.nil_append, ← List.flatMap_def, List.flatMap_singleton'] at hloop
  exact hloop

theorem roundTrips_record {l : List Str} (h : FitsStrings l) (acc : List (List Str)) :
    RoundTrips buffer (fun d => inputRecord d l) (pushRecord acc) (acc ++ [l]) :=
  (roundTrips_size h.1).1.bind ((roundTrips_strings h).map _)

theorem roundTrips_records {l : List (List Str)} (hl : l.length < 2 ^ 31)
    (h : ∀ fieldList ∈ l, FitsStrings fieldList) :
    RoundTrips buffer (fun d => l.foldl inputRecord d) (forTo (Int32.ofNat l.length) pushRecord [])
      l := by
  have hloop := roundTrips_forTo (p := inputRecord) (b := pushRecord)
    (g := fun acc x => acc ++ [x]) hl [] fun acc x hx => roundTrips_record (h x hx) acc
  rw [List.foldl_append_eq_append, List.nil_append, ← List.flatMap_def, List.flatMap_singleton'] at hloop
  exact hloop

/-- A map of strings that fits on the wire. -/
def FitsPairs (m : UMap Str Str) : Prop :=
  m.entries.length < 2 ^ 31 ∧ ∀ e ∈ m.entries, NoNul e.1 ∧ NoNul e.2

/-- The map that comes back: the entries inserted in the order they were met. -/
def received (ord : HashOrder) (m : UMap Str Str) : UMap Str Str :=
  (ord.order m.entries).foldl (fun acc e => UMap.insertNew e.1 e.2 acc) ∅

theorem lookup_received (ord : HashOrder) (m : UMap Str Str) (k : Str) :
    (received ord m).lookup k = m.lookup k := by
  unfold received
  rw [UMap.lookup_foldl_insertNew, AList.lookup_empty, Option.none_or, UMap.dlookup_order]

theorem roundTrips_pair {e : Σ _ : Str, Str} (h : NoNul e.1 ∧ NoNul e.2) (acc : UMap Str Str) :
    RoundTrips buffer (fun d => (d.inputString e.1).inputString e.2) (insertPair acc)
      (UMap.insertNew e.1 e.2 acc) :=
  (roundTrips_string h.1).bind
    (f := fun firstStr => do
      let secondStr ← outputString
      return UMap.insertNew firstStr secondStr acc)
    ((roundTrips_string h.2).map _)

theorem roundTrips_pairs (ord : HashOrder) {m : UMap Str Str} (h : FitsPairs m) :
    RoundTrips buffer (inputPairs ord m) (forTo (Int32.ofNat m.entries.length) insertPair ∅)
      (received ord m) := by
  have hlen : (ord.order m.entries).length = m.entries.length := (ord.perm m.entries).length_eq
  have hloop := roundTrips_forTo (l := ord.order m.entries)
    (p := fun d iter => (d.inputString iter.1).inputString iter.2) (b := insertPair)
    (g := fun acc e => UMap.insertNew e.1 e.2 acc) (by rw [hlen]; exact h.1) ∅ fun acc e he =>
      roundTrips_pair (h.2 e (ord.mem_order.mp he)) acc
  rw [hlen] at hloop
  exact hloop

/-! ## Messages -/

inductive Message
  | error (dStruct : DbProtError)
  | scLoadtable (dStruct : DbScLoadtable)
  | csLoadtable (dStruct : DbCsLoadtable)
  | scQuery (dStruct : DbScQuery)
  | csQuery (dStruct : DbCsQuery)
  | scModify (dStruct : DbScModify)
  | csModify (dStruct : DbCsModify)
  | scInsert (dStruct : DbScInsert)
  | csInsert (dStruct : DbCsInsert)

namespace Message

def protId : Message → Int32
  | error d => d.protId
  | scLoadtable d => d.protId
  | csLoadtable d => d.protId
  | scQuery d => d.protId
  | csQuery d => d.protId
  | scModify d => d.protId
  | csModify d => d.protId
  | scInsert d => d.protId
  | csInsert d => d.protId

def serialize (ord : HashOrder) : Message → UtilsSerialize → UtilsSerialize
  | error d => serializeProtError d
  | scLoadtable d => serializeProtScLoadtable d
  | csLoadtable d => serializeProtCsLoadtable d
  | scQuery d => serializeProtScQuery d
  | csQuery d => serializeProtCsQuery d
  | scModify d => serializeProtScModify d
  | csModify d => serializeProtCsModify ord d
  | scInsert d => serializeProtScInsert d
  | csInsert d => serializeProtCsInsert ord d

/-- The reader of the same kind of message, into a fresh struct; the integers of
a fresh struct hold anything. -/
def unserializeMatching (junk : Int32) : Message → Out Message
  | error _ => do return error (← unserializeProtError ⟨junk, junk⟩)
  | scLoadtable _ => do return scLoadtable (← unserializeProtScLoadtable ⟨junk⟩)
  | csLoadtable _ => do return csLoadtable (← unserializeProtCsLoadtable { protId := junk })
  | scQuery _ => do return scQuery (← unserializeProtScQuery { protId := junk })
  | csQuery _ => do return csQuery (← unserializeProtCsQuery { protId := junk })
  | scModify _ => do return scModify (← unserializeProtScModify ⟨junk⟩)
  | csModify _ => do return csModify (← unserializeProtCsModify { protId := junk })
  | scInsert _ => do return scInsert (← unserializeProtScInsert { protId := junk })
  | csInsert _ => do return csInsert (← unserializeProtCsInsert { protId := junk })

/-- No NUL in the strings, and container sizes that an `int` holds. -/
def Fits : Message → Prop
  | error _ => True
  | scLoadtable _ => True
  | csLoadtable d => NoNul d.dbname ∧ NoNul d.tname
  | scQuery d => FitsStrings d.fieldNameList ∧ d.recordList.length < 2 ^ 31 ∧
      ∀ fieldList ∈ d.recordList, FitsStrings fieldList
  | csQuery d => NoNul d.tname ∧ NoNul d.fieldName ∧ NoNul d.dataEquKey ∧ NoNul d.dataMinKey ∧
      NoNul d.dataMaxKey
  | scModify _ => True
  | csModify d => NoNul d.tname ∧ NoNul d.dataKey ∧ FitsPairs d.dataList
  | scInsert d => NoNul d.dataKey
  | csInsert d => NoNul d.tname ∧ FitsPairs d.dataList

/-- Equal messages, maps compared as maps. -/
def Same : Message → Message → Prop
  | csModify a, csModify b => a.protId = b.protId ∧ a.tname = b.tname ∧ a.dataKey = b.dataKey ∧
      ∀ k, a.dataList.lookup k = b.dataList.lookup k
  | csInsert a, csInsert b => a.protId = b.protId ∧ a.tname = b.tname ∧
      ∀ k, a.dataList.lookup k = b.dataList.lookup k
  | a, b => a = b

/-- The id and then the message, as the receiver reads them. -/
def receive (junk : Int32) (m : Message) : Out (Int32 × Message) := do
  let protId ← unserializeDbProtid
  let m' ← m.unserializeMatching junk
  return (protId, m')

end Message

/-- The message id that stands before every message. -/
theorem roundTrips_receive {m m' : Message} {junk : Int32} {w : UtilsSerialize → UtilsSerialize}
    (h : RoundTrips buffer w (m.unserializeMatching junk) m') (protId : Int32) :
    RoundTrips buffer (andThen (serializeDbProtid protId) w) (m.receive junk) (protId, m') :=
  (roundTrips_int protId).bind (h.map fun m' => (protId, m'))

theorem roundTrips_error (d fresh : DbProtError) :
    RoundTrips buffer (andThen (·.inputInt d.protId) (·.inputInt d.code)) (unserializeProtError fresh)
      d :=
  (roundTrips_int d.protId).bind ((roundTrips_int d.code).map _)

theorem roundTrips_scLoadtable (d fresh : DbScLoadtable) :
    RoundTrips buffer (·.inputInt d.protId) (unserializeProtScLoadtable fresh) d :=
  (roundTrips_int d.protId).map _

theorem roundTrips_csLoadtable {d : DbCsLoadtable} (hdb : NoNul d.dbname) (ht : NoNul d.tname)
    (fresh : DbCsLoadtable) :
    RoundTrips buffer
      (andThen (·.inputInt d.protId) (andThen (·.inputString d.dbname) (·.inputString d.tname)))
      (unserializeProtCsLoadtable fresh) d :=
  (roundTrips_int d.protId).bind ((roundTrips_string hdb).bind ((roundTrips_string ht).map _))

theorem roundTrips_scQuery {d : DbScQuery} (hnames : FitsStrings d.fieldNameList)
    (hsize : d.recordList.length < 2 ^ 31) (hrecords : ∀ l ∈ d.recordList, FitsStrings l)
    (junk : Int32) :
    RoundTrips buffer
      (andThen (·.inputInt d.protId) (andThen (inputSize d.fieldNameList.length)
        (andThen (inputStrings d.fieldNameList) (andThen (inputSize d.recordList.length)
          fun s => d.recordList.foldl inputRecord s))))
      (unserializeProtScQuery { protId := junk }) d :=
  (roundTrips_int d.protId).bind ((roundTrips_size hnames.1).1.bind ((roundTrips_strings hnames).bind
    ((roundTrips_size hsize).1.bind ((roundTrips_records hsize hrecords).map _))))

theorem roundTrips_csQuery {d : DbCsQuery} (ht : NoNul d.tname) (hf : NoNul d.fieldName)
    (he : NoNul d.dataEquKey) (hlo : NoNul d.dataMinKey) (hhi : NoNul d.dataMaxKey)
    (fresh : DbCsQuery) :
    RoundTrips buffer
      (andThen (·.inputInt d.protId) (andThen (·.inputString d.tname)
        (andThen (·.inputString d.fieldName) (andThen (·.inputString d.dataEquKey)
          (andThen (·.inputString d.dataMinKey) (·.inputString d.dataMaxKey))))))
      (unserializeProtCsQuery fresh) d :=
  (roundTrips_int d.protId).bind ((roundTrips_string ht).bind ((roundTrips_string hf).bind
    ((roundTrips_string he).bind ((roundTrips_string hlo).bind ((roundTrips_string hhi).map _)))))

theorem roundTrips_scModify (d fresh : DbScModify) :
    RoundTrips buffer (·.inputInt d.protId) (unserializeProtScModify fresh) d :=
  (roundTrips_int d.protId).map _

theorem roundTrips_csModify (ord : HashOrder) {d : DbCsModify} (ht : NoNul d.tname)
    (hk : NoNul d.dataKey) (hd : FitsPairs d.dataList) (junk : Int32) :
    RoundTrips buffer
      (andThen (·.inputInt d.protId) (andThen (·.inputString d.tname)
        (andThen (·.inputString d.dataKey) (andThen (inputSize d.dataList.entries.length)
          (inputPairs ord d.dataList)))))
      (unserializeProtCsModify { protId := junk })
      { d with dataList := received ord d.dataList } :=
  (roundTrips_int d.protId).bind ((roundTrips_string ht).bind ((roundTrips_string hk).bind
    ((roundTrips_size hd.1).1.bind ((roundTrips_pairs ord hd).map _))))

theorem roundTrips_scInsert {d : DbScInsert} (hk : NoNul d.dataKey) (fresh : DbScInsert) :
    RoundTrips buffer (andThen (·.inputInt d.protId) (·.inputString d.dataKey))
      (unserializeProtScInsert fresh) d :=
  (roundTrips_int d.protId).bind ((roundTrips_string hk).map _)

theorem roundTrips_csInsert (ord : HashOrder) {d : DbCsInsert} (ht : NoNul d.tname)
    (hd : FitsPairs d.dataList) (junk : Int32) :
    RoundTrips buffer
      (andThen (·.inputInt d.protId) (andThen (·.inputString d.tname)
        (andThen (inputSize d.dataList.entries.length) (inputPairs ord d.dataList))))
      (unserializeProtCsInsert { protId := junk })
      { d with dataList := received ord d.dataList } :=
  (roundTrips_int d.protId).bind ((roundTrips_string ht).bind
    ((roundTrips_size hd.1).1.bind ((roundTrips_pairs ord hd).map _)))

/-! ## The protocol -/

/-- Every message is its id and a body that the matching reader reads back. -/
theorem roundTrips_body (ord : HashOrder) (junk : Int32) {m : Message} (h : m.Fits) :
    ∃ w m', (∀ d, m.serialize ord d = w (serializeDbProtid m.protId d)) ∧
      RoundTrips buffer w (m.unserializeMatching junk) m' ∧ m.Same m' := by
  cases m with
  | error d => exact ⟨_, _, fun _ => rfl, (roundTrips_error d _).map _, rfl⟩
  | scLoadtable d => exact ⟨_, _, fun _ => rfl, (roundTrips_scLoadtable d _).map _, rfl⟩
  | csLoadtable d =>
    exact ⟨_, _, fun _ => rfl, (roundTrips_csLoadtable h.1 h.2 _).map _, rfl⟩
  | scQuery d =>
    obtain ⟨hnames, hsize, hrecords⟩ := h
    exact ⟨_, _, fun _ => rfl, (roundTrips_scQuery hnames hsize hrecords junk).map _, rfl⟩
  | csQuery d =>
    obtain ⟨ht, hf, he, hlo, hhi⟩ := h
    exact ⟨_, _, fun _ => rfl, (roundTrips_csQuery ht hf he hlo hhi _).map _, rfl⟩
  | scModify d => exact ⟨_, _, fun _ => rfl, (roundTrips_scModify d _).map _, rfl⟩
  | csModify d =>
    obtain ⟨ht, hk, hd⟩ := h
    have hlook := fun k => (lookup_received ord d.dataList k).symm
    exact ⟨_, _, fun _ => rfl, (roundTrips_csModify ord ht hk hd junk).map _, rfl, rfl, rfl, hlook⟩
  | scInsert d => exact ⟨_, _, fun _ => rfl, (roundTrips_scInsert h _).map _, rfl⟩
  | csInsert d =>
    obtain ⟨ht, hd⟩ := h
    have hlook := fun k => (lookup_received ord d.dataList k).symm
    exact ⟨_, _, fun _ => rfl, (roundTrips_csInsert ord ht hd junk).map _, rfl, rfl, hlook⟩

/-- **The wire protocol round-trips.**  Written into an empty serializer, with
any bytes after it, a message that fits is read back under its id, and the
iterator stands where those bytes start. -/
theorem receive_serialize (ord : HashOrder) (junk : Int32) {m : Message} (h : m.Fits) (s : Str) :
    let sent := m.serialize ord {}
    ∃ m', m.receive junk { sent with dataString := sent.dataString ++ s } =
        .ok ((m.protId, m'), ⟨sent.dataString ++ s, sent.dataString.length⟩) ∧ m.Same m' := by
  intro sent
  obtain ⟨w, m', hw, hbody, hsame⟩ := roundTrips_body ord junk h
  obtain ⟨buf, hwrite, hread⟩ := (roundTrips_receive hbody m.protId).read
  have hsent : sent = ⟨buf, 0⟩ := (hw {}).trans hwrite
  rw [hsent]
  exact ⟨m', hread s, hsame⟩

/-- A query answer of one column and two rows. -/
def queryAnswer : Message :=
  .scQuery { protId := 101, fieldNameList := [lit "id"], recordList := [[lit "1"], [lit "2"]] }

theorem receive_serialize_queryAnswer :
    let sent := queryAnswer.serialize .plain {}
    ∃ m', queryAnswer.receive 7 { sent with dataString := sent.dataString ++ lit "rest" } =
        .ok ((queryAnswer.protId, m'), ⟨sent.dataString ++ lit "rest", sent.dataString.length⟩) ∧
      queryAnswer.Same m' := by
  have hfits : queryAnswer.Fits := ⟨by decide, by decide, by decide⟩
  exact receive_serialize .plain 7 hfits (lit "rest")

end FuServer
