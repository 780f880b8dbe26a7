import FuServer.Lib.Served
import FuServer.Wire.Plain

/-!
# The server and its clients

Requests go as texts to `NotifyRecvFinish`, replies come back as texts.  The
network is taken to hand over each text whole and in order, and the calls on
the manager to run one at a time.  `clients_served`: whatever the order in
which the server gets to its clients, it is a store of keyed tables to them,
and `answered_before` says that the store's order is that of time.
-/

namespace FuServer

open Bytes Codec UtilsSerialize Outcome KeyedStore Runs Served

/-! ## Requests -/

/-- What the four calls of a client send. -/
inductive ClientRequest
  | query (d : DbCsQuery)
  | modify (d : DbCsModify)
  | insert (d : DbCsInsert)
  | loadtable (d : DbCsLoadtable)

/-- The request behind an id. -/
def readRequestOf (protId : Int32) : Out DbRequest :=
  if protId = protocolDbCToSQuery then do
    let dInStruct ← unserializeProtCsQuery { protId := 0 }
    return .query dInStruct
  else if protId = protocolDbCToSModify then do
    let dInStruct ← unserializeProtCsModify { protId := 0 }
    return .modify dInStruct
  else if protId = protocolDbCToSInsert then do
    let dInStruct ← unserializeProtCsInsert { protId := 0 }
    return .insert dInStruct
  else if protId = protocolDbCToSLoadtable then do
    let dInStruct ← unserializeProtCsLoadtable { protId := 0 }
    return .loadtable dInStruct
  else return .other protId

theorem readRequestOf_query : readRequestOf protocolDbCToSQuery = do
    let dInStruct ← unserializeProtCsQuery { protId := 0 }
    return .query dInStruct :=
  if_pos rfl

theorem readRequestOf_modify : readRequestOf protocolDbCToSModify = do
    let dInStruct ← unserializeProtCsModify { protId := 0 }
    return .modify dInStruct := by
  rw [readRequestOf, if_neg (by decide), if_pos rfl]

theorem readRequestOf_insert : readRequestOf protocolDbCToSInsert = do
    let dInStruct ← unserializeProtCsInsert { protId := 0 }
    return .insert dInStruct := by
  rw [readRequestOf, if_neg (by decide), if_neg (by decide), if_pos rfl]

theorem readRequestOf_loadtable : readRequestOf protocolDbCToSLoadtable = do
    let dInStruct ← unserializeProtCsLoadtable { protId := 0 }
    return .loadtable dInStruct := by
  rw [readRequestOf, if_neg (by decide), if_neg (by decide), if_neg (by decide), if_pos rfl]

/-- A text of an id and a body is read by the id. -/
theorem readRequest_of_roundTrips {protId : Int32} {w : UtilsSerialize → UtilsSerialize}
    {r : DbRequest} {text : Str} (h : RoundTrips buffer w (readRequestOf protId) r)
    (htext : (w (serializeDbProtid protId {})).dataString = text) :
    ∃ s, DBServer.readRequest ⟨text, 0⟩ = .ok (r, s) := by
  have hwhole : RoundTrips buffer (andThen (serializeDbProtid protId) w) DBServer.readRequest r :=
    (roundTrips_int protId).bind h
  obtain ⟨buf, hwrite, hread⟩ := hwhole.read
  have hbuf : buf = text := (congrArg UtilsSerialize.dataString hwrite).symm.trans htext
  have hall := hread []
  rw [List.append_nil, hbuf] at hall
  exact ⟨_, hall⟩

namespace ClientRequest

/-- The text that is sent; `ord` is the order of the client's maps. -/
def text (ord : HashOrder) : ClientRequest → Str
  | query d => (serializeProtCsQuery d {}).dataString
  | modify d => (serializeProtCsModify ord d {}).dataString
  | insert d => (serializeProtCsInsert ord d {}).dataString
  | loadtable d => (serializeProtCsLoadtable d {}).dataString

/-- The id is that of the call, no string has a NUL, an `int` holds the size of the map. -/
def Sendable : ClientRequest → Prop
  | query d => d.protId = protocolDbCToSQuery ∧ NoNul d.tname ∧ NoNul d.fieldName ∧ NoNul d.dataEquKey ∧
      NoNul d.dataMinKey ∧ NoNul d.dataMaxKey
  | modify d => d.protId = protocolDbCToSModify ∧ NoNul d.tname ∧ NoNul d.dataKey ∧ FitsPairs d.dataList
  | insert d => d.protId = protocolDbCToSInsert ∧ NoNul d.tname ∧ FitsPairs d.dataList
  | loadtable d => d.protId = protocolDbCToSLoadtable ∧ NoNul d.dbname ∧ NoNul d.tname

instance (m : UMap Str Str) : Decidable (FitsPairs m) :=
  inferInstanceAs (Decidable (_ ∧ ∀ e ∈ m.entries, _))

instance (req : ClientRequest) : Decidable req.Sendable :=
  match req with
  | query d => inferInstanceAs
      (Decidable (d.protId = protocolDbCToSQuery ∧ NoNul d.tname ∧ NoNul d.fieldName ∧
      NoNul d.dataEquKey ∧ NoNul d.dataMinKey ∧ NoNul d.dataMaxKey))
  | modify d => inferInstanceAs
      (Decidable (d.protId = protocolDbCToSModify ∧ NoNul d.tname ∧ NoNul d.dataKey ∧
      FitsPairs d.dataList))
  | insert d => inferInstanceAs
      (Decidable (d.protId = protocolDbCToSInsert ∧ NoNul d.tname ∧ FitsPairs d.dataList))
  | loadtable d => inferInstanceAs
      (Decidable (d.protId = protocolDbCToSLoadtable ∧ NoNul d.dbname ∧ NoNul d.tname))

/-- What the server asks its manager for. -/
def call {fp : FloatUnit} (ord : HashOrder) (reply : LoadReply) :
    ClientRequest → DBManager.ManagerCall fp
  | query d => .query ord d.tname d.fieldName d.bounds
  | modify d => .modify d.tname d.dataKey d.dataList
  | insert d => .insert d.tname d.dataList
  | loadtable d => .load d.dbname d.tname reply

/-- The request as the server reads it: a map comes in the order it was written in. -/
def arrived (ord : HashOrder) : ClientRequest → ClientRequest
  | query d => query d
  | modify d => modify { d with dataList := received ord d.dataList }
  | insert d => insert { d with dataList := received ord d.dataList }
  | loadtable d => loadtable d

def toDbRequest : ClientRequest → DbRequest
  | query d => .query d
  | modify d => .modify d
  | insert d => .insert d
  | loadtable d => .loadtable d

/-- What is sent is read. -/
theorem readRequest_text {req : ClientRequest} (h : req.Sendable) (ord : HashOrder) :
    ∃ s, DBServer.readRequest ⟨req.text ord, 0⟩ = .ok ((req.arrived ord).toDbRequest, s) := by
  cases req with
  | query d =>
    obtain ⟨hid, ht, hf, he, hlo, hhi⟩ := h
    have hbody := (roundTrips_csQuery ht hf he hlo hhi { protId := 0 }).map DbRequest.query
    rw [← readRequestOf_query] at hbody
    exact readRequest_of_roundTrips hbody (by rw [← hid]; rfl)
  | modify d =>
    obtain ⟨hid, ht, hk, hd⟩ := h
    have hbody := (roundTrips_csModify ord ht hk hd 0).map DbRequest.modify
    rw [← readRequestOf_modify] at hbody
    exact readRequest_of_roundTrips hbody (by rw [← hid]; rfl)
  | insert d =>
    obtain ⟨hid, ht, hd⟩ := h
    have hbody := (roundTrips_csInsert ord ht hd 0).map DbRequest.insert
    rw [← readRequestOf_insert] at hbody
    exact readRequest_of_roundTrips hbody (by rw [← hid]; rfl)
  | loadtable d =>
    obtain ⟨hid, hdb, ht⟩ := h
    have hbody := (roundTrips_csLoadtable hdb ht { protId := 0 }).map DbRequest.loadtable
    rw [← readRequestOf_loadtable] at hbody
    exact readRequest_of_roundTrips hbody (by rw [← hid]; rfl)

theorem mem_keys_received {ord : HashOrder} {m : UMap Str Str} {c : Str}
    (h : c ∈ (received ord m).keys) :
    c ∈ m.keys := by
  obtain ⟨v, hv⟩ := UMap.exists_lookup (AList.mem_keys.mpr h)
  rw [lookup_received] at hv
  exact AList.mem_keys.mp (UMap.mem_of_lookup hv)

theorem plainData_received {ord : HashOrder} {m : UMap Str Str} (h : DBTable.PlainData m) :
    DBTable.PlainData (received ord m) := by
  intro e he
  have hlook := UMap.mem_entries.mp he
  rw [lookup_received] at hlook
  exact h.lookup hlook

section Arrived

variable {fp : FloatUnit} {ord cord : HashOrder} {reply : LoadReply}

theorem request_arrived (req : ClientRequest) :
    DBManager.request ((req.arrived cord).call ord reply : DBManager.ManagerCall fp) =
      DBManager.request (req.call ord reply : DBManager.ManagerCall fp) := by
  cases req with
  | query d => rfl
  | modify d =>
    show Request.call d.tname (.modify d.dataKey fun c => (received cord d.dataList).lookup c) = _
    simp only [lookup_received]
    rfl
  | insert d =>
    show Request.call d.tname (.insert fun c => (received cord d.dataList).lookup c) = _
    simp only [lookup_received]
    rfl
  | loadtable d => rfl

theorem orderly_arrived {m : DBManager fp} {req : ClientRequest} (h : m.Orderly (req.call ord reply)) :
    m.Orderly ((req.arrived cord).call ord reply) := by
  cases req with
  | query d => exact h
  | modify d => exact fun t ht c hc => h t ht c (mem_keys_received hc)
  | insert d =>
    intro hn
    obtain ⟨t, ht, hkey⟩ := h hn
    refine ⟨t, ht, ?_⟩
    show (received cord d.dataList).lookup t.keyName ≠ some []
    rw [lookup_received]
    exact hkey
  | loadtable d => exact h

theorem plainCall_arrived {req : ClientRequest}
    (h : DBManager.PlainCall (req.call ord reply : DBManager.ManagerCall fp)) :
    DBManager.PlainCall ((req.arrived cord).call ord reply : DBManager.ManagerCall fp) := by
  cases req with
  | query d => exact h
  | modify d => exact plainData_received h
  | insert d => exact plainData_received h
  | loadtable d => exact h

end Arrived

end ClientRequest

/-! ## Replies -/

/-- The reply a client reads for an answer of the store. -/
def told : KeyedStore.Reply Str Str → Option Reply
  | .inserted (some k) => some (.insert ⟨protocolDbSToCInsert, k⟩)
  | .inserted none => some (.error ⟨protocolDbSToCError, errorCodeInsert⟩)
  | .modified true => some (.modify ⟨protocolDbSToCModify⟩)
  | .modified false => some (.error ⟨protocolDbSToCError, errorCodeModify⟩)
  | .found true names rows =>
    some (.query { protId := protocolDbSToCQuery, fieldNameList := names, recordList := rows })
  | .found false _ _ => some (.error ⟨protocolDbSToCError, errorCodeQuery⟩)
  | .loaded true => some (.loadtable ⟨protocolDbSToCLoadtable⟩)
  | .loaded false => some (.error ⟨protocolDbSToCError, errorCodeLoaddb⟩)
  | .flushed => none

/-- The client reads the text as the reply. -/
def Reads (text : Str) (r : Reply) : Prop := ∃ s, readReply ⟨text, 0⟩ = .ok (r, s)

/-- An `int` counts the names and the rows of an answer that finds something. -/
def Counted : KeyedStore.Reply Str Str → Prop
  | .found ok names rows => ok = true → names.length < 2 ^ 31 ∧ rows.length < 2 ^ 31 ∧
      ∀ row ∈ rows, row.length < 2 ^ 31
  | _ => True

section Serve

variable {fp : FloatUnit} {m m' : DBManager fp}

/-- The text the server sends for a call is read as what the call returned. -/
theorem serveRequest_told {ord : HashOrder} {reply : LoadReply} {req : ClientRequest}
    {answer : KeyedStore.Reply Str Str} (h : m.manage (req.call ord reply) = some (m', answer))
    (hplain : DBManager.PlainReply answer) (hcount : Counted answer) :
    ∃ text r, DBServer.serveRequest m ord reply req.toDbRequest = .ok (m', some text) ∧
      told answer = some r ∧ Reads text r := by
  cases req with
  | query d =>
    obtain ⟨ok, rows, names, hres, rfl, rfl⟩ := DBManager.manage_query h
    have hserve : DBServer.serveRequest m' ord reply (.query d) = .ok (m', some
        (if ok = true then queryText names rows else DBServer.errorText errorCodeQuery)) := by
      show (m'.queryDB ord [] [] d.tname d.fieldName d.bounds >>= _) = _
      rw [hres, ok_bind]
      cases ok <;> rfl
    cases ok with
    | true =>
      obtain ⟨hnames, hrows⟩ := hplain rfl
      obtain ⟨hn, hr, hw⟩ := hcount rfl
      exact ⟨_, _, hserve, rfl, readReply_queryText
        ⟨⟨hn, hnames⟩, hr, fun row hrow => ⟨hw row hrow, hrows row hrow⟩⟩⟩
    | false => exact ⟨_, _, hserve, rfl, readReply_errorText errorCodeQuery⟩
  | modify d =>
    obtain ⟨ok, hres, rfl⟩ := DBManager.manage_modify h
    have hserve : DBServer.serveRequest m ord reply (.modify d) = .ok (m', some
        (if ok = true then (serializeProtScModify ⟨protocolDbSToCModify⟩ {}).dataString
          else DBServer.errorText errorCodeModify)) := by
      show (m.modifyDB d.tname d.dataKey d.dataList >>= _) = _
      rw [hres, ok_bind]
      cases ok <;> rfl
    cases ok with
    | true => exact ⟨_, _, hserve, rfl, ⟨_, decoded_modify.1⟩⟩
    | false => exact ⟨_, _, hserve, rfl, readReply_errorText errorCodeModify⟩
  | insert d =>
    obtain ⟨k, hres, rfl⟩ := DBManager.manage_insert h
    have hserve : DBServer.serveRequest m ord reply (.insert d) = .ok (m', some
        (if k ≠ [] then (serializeProtScInsert ⟨protocolDbSToCInsert, k⟩ {}).dataString
          else DBServer.errorText errorCodeInsert)) := by
      show (m.insertDB d.tname d.dataList >>= _) = _
      rw [hres, ok_bind]
      dsimp only
      split <;> rfl
    by_cases hk : k = []
    · rw [if_neg (not_not.mpr hk)] at hserve
      rw [if_pos hk]
      exact ⟨_, _, hserve, rfl, readReply_errorText errorCodeInsert⟩
    · rw [if_pos hk] at hserve
      rw [if_neg hk] at hplain ⊢
      exact ⟨_, _, hserve, rfl, ⟨_, (decoded_insert (hplain k rfl)).1⟩⟩
  | loadtable d =>
    obtain ⟨ok, hres, rfl⟩ := DBManager.manage_load h
    have hserve : DBServer.serveRequest m ord reply (.loadtable d) = .ok (m', some
        (if ok = true then loadText else DBServer.errorText errorCodeLoaddb)) := by
      show (m.loadTable d.dbname d.tname reply >>= _) = _
      rw [hres, ok_bind]
      cases ok <;> rfl
    cases ok with
    | true => exact ⟨_, _, hserve, rfl, ⟨_, readReply_loadText⟩⟩
    | false => exact ⟨_, _, hserve, rfl, readReply_errorText errorCodeLoaddb⟩

/-! ## One operation -/

/-- What the server does: serve a client's text, run a pass of `Update`, close. -/
inductive ServerOp (fp : FloatUnit)
  | serve (ord : HashOrder) (reply : LoadReply) (clientOrd : HashOrder) (req : ClientRequest)
  | update (ord : HashOrder) (answer : Str → RecRef → Bool) (dt : fp.Flt)
  | close

namespace ServerOp

/-- What the operation asks of the manager. -/
def call : ServerOp fp → DBManager.ManagerCall fp
  | serve ord reply _ req => req.call ord reply
  | update ord answer dt => .update ord answer dt
  | close => .close

/-- The call the manager gets: a request is read off its text. -/
def arrived : ServerOp fp → DBManager.ManagerCall fp
  | serve ord reply clientOrd req => (req.arrived clientOrd).call ord reply
  | update ord answer dt => .update ord answer dt
  | close => .close

end ServerOp

/-- The server after an operation, and the texts sent back to the client. -/
def serverStep (m : DBManager fp) : ServerOp fp → Option (DBManager fp × List Str)
  | .serve ord reply clientOrd req =>
    match DBServer.notifyRecvFinish m ord reply (req.text clientOrd) with
    | .ok (m', text) => some (m', text.toList)
    | .error _ => none
  | .update ord answer dt =>
    match m.update ord answer dt with
    | .ok (m', _) => some (m', [])
    | .error _ => none
  | .close => some ({ m with bClose := true }, [])

/-- An `int` counts the columns and the records of the table that is queried. -/
def Room (m : DBManager fp) : DBManager.ManagerCall fp → Prop
  | .query _ tname _ _ => ∀ t ∈ m.tableSet.lookup tname,
      t.fieldNameList.length < 2 ^ 31 ∧ t.recordSet.entries.length < 2 ^ 31
  | _ => True

/-- What the server can be asked to do: the request arrives as it was sent, it is orderly, and
neither it nor what it loads has a NUL or more than an `int` counts. -/
def Fair (m : DBManager fp) (op : ServerOp fp) : Prop :=
  (match op with
    | .serve _ _ _ req => req.Sendable
    | _ => True) ∧ m.Orderly op.call ∧ DBManager.PlainCall op.call ∧ Room m op.call

instance (m : DBManager fp) (c : DBManager.ManagerCall fp) : Decidable (Room m c) :=
  match c with
  | .query _ tname _ _ => inferInstanceAs (Decidable (∀ t ∈ m.tableSet.lookup tname,
      t.fieldNameList.length < 2 ^ 31 ∧ t.recordSet.entries.length < 2 ^ 31))
  | .load _ _ _ => isTrue trivial
  | .insert _ _ => isTrue trivial
  | .modify _ _ _ => isTrue trivial
  | .update _ _ _ => isTrue trivial
  | .close => isTrue trivial

instance (m : DBManager fp) (op : ServerOp fp) : Decidable (Fair m op) :=
  match op with
  | .serve ord reply _ req =>
    inferInstanceAs (Decidable (req.Sendable ∧ m.Orderly (req.call ord reply) ∧
      DBManager.PlainCall (req.call ord reply : DBManager.ManagerCall fp) ∧ Room m (req.call ord reply)))
  | .update ord answer dt =>
    inferInstanceAs (Decidable (True ∧ m.Orderly (.update ord answer dt) ∧
      DBManager.PlainCall (.update ord answer dt : DBManager.ManagerCall fp) ∧
        Room m (.update ord answer dt)))
  | .close =>
    inferInstanceAs (Decidable (True ∧ m.Orderly .close ∧
      DBManager.PlainCall (.close : DBManager.ManagerCall fp) ∧
      Room m .close))

/-- A step of the store, and the texts that tell its answer. -/
def StoreStep (S : Store Str Str UInt16 Str) (op : ServerOp fp) (texts : List Str)
    (S' : Store Str Str UInt16 Str) :
    Prop :=
  ∃ answer, KeyedStore.Step [] S (DBManager.request op.call) answer S' ∧
    List.Forall₂ Reads texts (told answer).toList

/-- The tables are those of the store and have no NUL. -/
def Stands (m : DBManager fp) (S : Store Str Str UInt16 Str) : Prop := m.Stores S ∧ m.Plain

theorem length_answered_le (t : DBTable fp) (ord : HashOrder) (fieldName : Str) (b : DBTable.Bounds) :
    (t.answered ord fieldName b).length ≤ t.recordSet.entries.length := by
  unfold DBTable.answered
  split
  · cases hr : t.recordSet.lookup b.dataEquKey with
    | none => exact Nat.zero_le _
    | some r =>
      have hmem := UMap.mem_entries.mpr hr
      exact List.length_pos_of_mem hmem
  · have hlen : ((ord.order t.recordSet.entries).map (·.2)).length = t.recordSet.entries.length := by
      rw [List.length_map, (ord.perm t.recordSet.entries).length_eq]
    rw [← hlen]
    unfold DBTable.scanned
    rw [List.length_map]
    have hle := List.length_filter_le (fun e => DBTable.matchRecord fp (t.getFieldIndex fieldName) b
      (2 * e.2 + 1 == ((ord.order t.recordSet.entries).map (·.2)).length) e.1)
      ((ord.order t.recordSet.entries).map (·.2)).zipIdx
    rw [List.length_zipIdx] at hle
    exact hle

/-- Where there is room, an answer can be counted. -/
theorem counted_of_room {S : Store Str Str UInt16 Str} (h : m.Stores S) {c : DBManager.ManagerCall fp}
    {answer : KeyedStore.Reply Str Str} (hroom : Room m c) (hs : m.manage c = some (m', answer)) :
    Counted answer := by
  cases c with
  | query ord tname fieldName b =>
    obtain ⟨ok, rows, names, hres, rfl, rfl⟩ := DBManager.manage_query hs
    rintro rfl
    obtain ⟨equ, lo, hi⟩ := b
    obtain ⟨t, ht, rfl, l, hl, rfl⟩ := queryDB_found (q := ⟨0, tname, fieldName, equ, lo, hi⟩) hres
    obtain ⟨hcolumns, hrecords⟩ := hroom t ht
    have hle := length_answered_le t ord fieldName ⟨equ, lo, hi⟩
    refine ⟨hcolumns, ?_, fun row hrow => ?_⟩
    · rw [List.length_map, hl.length_eq]
      exact Nat.lt_of_le_of_lt hle hrecords
    · obtain ⟨r, hr, rfl⟩ := List.mem_map.mp hrow
      obtain ⟨k, hk⟩ := mem_answered (hl.mem_iff.mp hr)
      rw [DBRecord.checkDataList, List.length_map, (h.wellFormed tname t ht).width hk]
      exact hcolumns
  | load dbname tname lr =>
    obtain ⟨ok, -, rfl⟩ := DBManager.manage_load hs
    exact trivial
  | insert tname d =>
    obtain ⟨k, -, rfl⟩ := DBManager.manage_insert hs
    exact trivial
  | modify tname k d =>
    obtain ⟨ok, -, rfl⟩ := DBManager.manage_modify hs
    exact trivial
  | update ord answer dt =>
    obtain ⟨trace, -, rfl⟩ := DBManager.manage_update hs
    exact trivial
  | close =>
    cases hs
    exact trivial

/-- One operation of the server is the call it makes on its manager, and a step of the store, told by the
texts it sends. -/
theorem serverStep_manages (m : DBManager fp) (S : Store Str Str UInt16 Str) (op : ServerOp fp)
    (h : Stands m S) (hok : Fair m op) :
    ∃ m' texts S' answer, serverStep m op = some (m', texts) ∧ m.manage op.arrived = some (m', answer) ∧
      StoreStep S op texts S' ∧ Stands m' S' := by
  obtain ⟨hst, hplain⟩ := h
  obtain ⟨hsend, horder, hcall, hroom⟩ := hok
  cases op with
  | serve ord reply clientOrd req =>
    have horder' : m.Orderly ((req.arrived clientOrd).call ord reply) :=
      ClientRequest.orderly_arrived horder
    obtain ⟨m', answer, S', hrun, hstep, hst'⟩ := DBManager.refines_call hst horder'
    rw [ClientRequest.request_arrived] at hstep
    obtain ⟨hplain', hreply⟩ :=
      DBManager.plain_manage hplain hst horder' (ClientRequest.plainCall_arrived hcall) hrun
    have hroom' : Room m ((req.arrived clientOrd).call ord reply) := by
      cases req <;> exact hroom
    obtain ⟨text, r, hserve, htold, hreads⟩ :=
      serveRequest_told hrun hreply (counted_of_room hst hroom' hrun)
    obtain ⟨s, hread⟩ := ClientRequest.readRequest_text hsend clientOrd
    refine ⟨m', [text], S', answer, ?_, hrun, ⟨answer, hstep, ?_⟩, hst', hplain'⟩
    · have hnotify : DBServer.notifyRecvFinish m ord reply (req.text clientOrd) =
          .ok (m', some text) := by
        unfold DBServer.notifyRecvFinish
        rw [hread, ok_bind]
        exact hserve
      unfold serverStep
      dsimp only
      rw [hnotify]
      rfl
    · rw [htold]
      exact .cons hreads .nil
  | update ord answer dt =>
    obtain ⟨m', r, S', hrun, hstep, hst'⟩ := DBManager.refines_call hst horder
    obtain ⟨hplain', -⟩ := DBManager.plain_manage hplain hst horder hcall hrun
    obtain ⟨trace, hup, rfl⟩ := DBManager.manage_update hrun
    refine ⟨m', [], S', _, ?_, hrun, ⟨_, hstep, .nil⟩, hst', hplain'⟩
    unfold serverStep
    dsimp only
    rw [hup]
  | close =>
    obtain ⟨m', r, S', hrun, hstep, hst'⟩ := DBManager.refines_call hst horder
    obtain ⟨hplain', -⟩ := DBManager.plain_manage hplain hst horder hcall hrun
    cases hrun
    exact ⟨_, [], S', _, rfl, rfl, ⟨_, hstep, .nil⟩, hst', hplain'⟩

theorem serverStep_refines (m : DBManager fp) (S : Store Str Str UInt16 Str) (op : ServerOp fp)
    (h : Stands m S) (hok : Fair m op) :
    ∃ m' texts S', serverStep m op = some (m', texts) ∧ StoreStep S op texts S' ∧ Stands m' S' := by
  obtain ⟨m', texts, S', answer, hserve, -, hrest⟩ := serverStep_manages m S op h hok
  exact ⟨m', texts, S', hserve, hrest⟩

/-! ## All clients -/

/-- What the server does for what a client sends. -/
def ServerOp.ofClient (env : HashOrder × LoadReply) (r : HashOrder × ClientRequest) : ServerOp fp :=
  .serve env.1 env.2 r.1 r.2

theorem ClientRequest.request_call_ne_flush {ord : HashOrder} {reply : LoadReply} (req : ClientRequest) :
    DBManager.request (req.call ord reply : DBManager.ManagerCall fp) ≠ .flush := by
  cases req with
  | query d =>
    show (if _ then _ else _) ≠ _
    split <;> nofun
  | modify d => nofun
  | insert d => nofun
  | loadtable d => nofun

theorem told_isSome {answer : KeyedStore.Reply Str Str} (h : answer ≠ .flushed) :
    (told answer).isSome := by
  cases answer with
  | inserted k => cases k <;> rfl
  | modified ok => cases ok <;> rfl
  | found ok names rows => cases ok <;> rfl
  | loaded ok => cases ok <;> rfl
  | flushed => exact absurd rfl h

/-- A client is sent one text for a request. -/
theorem length_serve_sent {env : HashOrder × LoadReply} {r : HashOrder × ClientRequest}
    {S S' : Store Str Str UInt16 Str} {texts : List Str}
    (h : StoreStep S (ServerOp.ofClient env r : ServerOp fp) texts S') :
    texts.length = 1 := by
  obtain ⟨answer, hstep, htexts⟩ := h
  obtain ⟨r, hr⟩ := Option.isSome_iff_exists.mp
    (told_isSome (hstep.answered (r.2.request_call_ne_flush)))
  rw [htexts.length_eq, hr]
  rfl

/-- So it is all along a history. -/
theorem length_sent {ι : Type} [DecidableEq ι] {m : DBManager fp}
    {n : Net ι (DBManager fp) (ServerOp fp) (HashOrder × ClientRequest) Str}
    {S S' : Store Str Str UInt16 Str} (hsound : Sound serverStep ServerOp.ofClient m n)
    (hspec : SpecRun StoreStep S (n.history.map (·.op)) (n.history.map (·.sent)) S') :
    ∀ e ∈ n.history, e.client ≠ none → e.sent.length = 1 := by
  intro e he hclient
  obtain ⟨c, hc⟩ := Option.ne_none_iff_exists'.mp hclient
  obtain ⟨env, henv⟩ := hsound.ops e he c hc
  obtain ⟨S1, S2, hstep⟩ := hspec.exists_step he
  rw [henv] at hstep
  exact length_serve_sent hstep

/-- **The clients share one store.**  In every order in which requests are sent and served, in
which passes of `Update` come between them and replies are taken, nothing fails: what the
server does from a new connection on is a run of a store from no tables, each text it sends
tells what the store answers, and each client is served what it sent, in that order. -/
theorem DBServer.clients_served {ι : Type} [DecidableEq ι] (dbname : Str)
    (evs : List (Event ι (ServerOp fp) (HashOrder × ClientRequest) (HashOrder × LoadReply)))
    (hok : Within (netStep serverStep ServerOp.ofClient) (Allowed ServerOp.ofClient Fair)
      (start (DBManager.createLink dbname)) evs) :
    ∃ n, run (netStep serverStep ServerOp.ofClient) (start (DBManager.createLink dbname)) evs = some n ∧
      Sound serverStep ServerOp.ofClient (DBManager.createLink dbname) n ∧
      ∃ S, SpecRun StoreStep (fun _ => none) (n.history.map (·.op)) (n.history.map (·.sent)) S ∧
        Stands n.server S :=
  have hstart : Stands (DBManager.createLink dbname : DBManager fp) fun _ => none :=
    ⟨DBManager.stores_createLink dbname, DBManager.plain_createLink dbname⟩
  served_refines serverStep_refines hstart evs hok

/-- Of two clients one loads a table and the other puts a row in before the first is told. -/
def twoClients : List (Event Bool (ServerOp .exactRational) (HashOrder × ClientRequest)
    (HashOrder × LoadReply)) :=
  [.send false (.plain, .loadtable ⟨protocolDbCToSLoadtable, lit "db", lit "t"⟩),
    .send true (.plain, .insert ⟨protocolDbCToSInsert, lit "t",
      UMap.insertNew (lit "name") (lit "x") ∅⟩),
    .serve false (.plain, DBManager.rowReply), .serve true (.plain, DBManager.rowReply), .take false,
    .own (.update .plain (fun _ _ => true) (10 : ℚ))]

/-- Then the first asks for a row and takes the answer. -/
def oneAsks : List (Event Bool (ServerOp .exactRational) (HashOrder × ClientRequest)
    (HashOrder × LoadReply)) :=
  [.send false (.plain, .query ⟨protocolDbCToSQuery, lit "t", lit "id", lit "2", [], []⟩),
    .serve false (.plain, DBManager.rowReply), .take false, .take true, .own .close]

theorem DBServer.clients_served_two :
    ∃ n, run (netStep serverStep ServerOp.ofClient) (start (DBManager.createLink (lit "db")))
      (twoClients ++ oneAsks) =
        some n ∧ Sound serverStep ServerOp.ofClient (DBManager.createLink (lit "db")) n ∧
      ∃ S, SpecRun StoreStep (fun _ => none) (n.history.map (·.op)) (n.history.map (·.sent)) S ∧
        Stands n.server S :=
  DBServer.clients_served (lit "db") (twoClients ++ oneAsks) (by decide +kernel)

/-- **What is answered stays answered.**  Take any moment of a run.  A text some client has been
handed by then is the one text sent for the request of its that has the same number, and in the order
of the store that request stands before every request any client sends later. -/
theorem DBServer.answered_before {ι : Type} [DecidableEq ι] (dbname : Str)
    (evs1 evs2 : List (Event ι (ServerOp fp) (HashOrder × ClientRequest) (HashOrder × LoadReply)))
    (hok : Within (netStep serverStep ServerOp.ofClient) (Allowed ServerOp.ofClient Fair)
      (start (DBManager.createLink dbname)) (evs1 ++ evs2) ) :
    ∃ n1 n2, run (netStep serverStep ServerOp.ofClient) (start (DBManager.createLink dbname)) evs1 =
      some n1 ∧
      run (netStep serverStep ServerOp.ofClient) n1 evs2 = some n2 ∧
      ∀ i k text, (n1.handed i)[k]? = some text →
        ∃ p r op, (n1.asked i)[k]? = some r ∧ place i k p n2.history ∧
          n2.history[p]? = some ⟨some (i, r), op, [text]⟩ ∧
          ∀ j l q, (n1.asked j).length ≤ l → place j l q n2.history → p < q := by
  have hstart : Stands (DBManager.createLink dbname : DBManager fp) fun _ => none :=
    ⟨DBManager.stores_createLink dbname, DBManager.plain_createLink dbname⟩
  obtain ⟨n2, hrun, hsound, S, hspec, -⟩ := served_refines serverStep_refines hstart (evs1 ++ evs2) hok
  rw [run_append] at hrun
  obtain ⟨n1, hrun1, hrun2⟩ := Option.bind_eq_some_iff.mp hrun
  have hsound1 := sound_run (sound_start _) hrun1
  have hgrows := history_grows_run hrun2
  have hone : ∀ e ∈ n1.history, e.client ≠ none → e.sent.length = 1 := fun e he =>
    length_sent hsound hspec e (hgrows.subset he)
  refine ⟨n1, n2, hrun1, hrun2, fun i k text htext => ?_⟩
  obtain ⟨p, r, op, hasked, hentry, hplace⟩ := hsound1.answered hone htext
  have hlt : p < n1.history.length := (List.getElem?_eq_some_iff.mp hentry).1
  have hplace2 := place_grows hplace hgrows
  refine ⟨p, r, op, hasked, hplace2, ?_, fun j l q hlater hq => ?_⟩
  · obtain ⟨rest, hrest⟩ := hgrows
    rw [← hrest, List.getElem?_append_left hlt, hentry]
  · exact order_respects_time hsound1 hrun2 hone (List.getElem?_eq_some_iff.mp htext).1 hlater hplace2 hq

theorem DBServer.answered_before_two :
    ∃ n1 n2, run (netStep serverStep ServerOp.ofClient)
      (start (DBManager.createLink (lit "db"))) twoClients = some n1 ∧
      run (netStep serverStep ServerOp.ofClient) n1 oneAsks = some n2 ∧
      ∀ i k text, (n1.handed i)[k]? = some text →
        ∃ p r op, (n1.asked i)[k]? = some r ∧ place i k p n2.history ∧
          n2.history[p]? = some ⟨some (i, r), op, [text]⟩ ∧
          ∀ j l q, (n1.asked j).length ≤ l → place j l q n2.history → p < q :=
  DBServer.answered_before (lit "db") twoClients oneAsks (by decide +kernel)

end Serve

end FuServer
