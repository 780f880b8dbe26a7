import FuServer.Cache.LoadRows
import FuServer.Cache.Matches
import FuServer.Wire.QueryReply

/-!
# Replies and their decoders

What `NotifyRecvFinish` sends is written by one switch and read by another.  A
reply is `Decoded` if the client reads all of it, by the case of its leading id,
and gets what the manager returned.  The replies of the query, modify and insert
calls and the error reply are; the reply to a load that went through is written
as an insert's struct and read as a load's, one byte shorter.
-/

namespace FuServer

open Bytes Codec UtilsSerialize Outcome

/-- `NotifyRecvText` has a case for the id; its reader takes exactly the bytes there are and gets
`told`. -/
def Decoded (text : Str) (told : Reply) : Prop :=
  readReply ⟨text, 0⟩ = .ok (told, ⟨text, text.length⟩) ∧ (∀ protId, told ≠ .other protId) ∧
    ∀ c : DBClient, c.notifyRecvText text = .ok (c.take told)

/-- What is written and read back by a pair of the codec is decoded. -/
theorem decoded_of_roundTrips {w : UtilsSerialize → UtilsSerialize} {told : Reply} {text : Str}
    (h : RoundTrips buffer w readReply told) (htext : (w {}).dataString = text)
    (hcase : ∀ protId, told ≠ .other protId) : Decoded text told := by
  obtain ⟨buf, hwrite, hread⟩ := h.read
  have hbuf : buf = text := (congrArg UtilsSerialize.dataString hwrite).symm.trans htext
  have hall := hread []
  rw [List.append_nil, hbuf] at hall
  refine ⟨hall, hcase, fun c => ?_⟩
  rw [DBClient.notifyRecvText_eq]
  exact congrArg (Except.map fun r => c.take r.1) hall

/-! ## The five replies -/

theorem decoded_errorText (errorcode : Int32) :
    Decoded (DBServer.errorText errorcode) (.error ⟨protocolDbSToCError, errorcode⟩) :=
  decoded_of_roundTrips (roundTrips_readReply_error errorcode) rfl nofun

/-- An `int` has to hold the sizes that are sent. -/
theorem decoded_queryText_iff (names : List Str) (rows : List (List Str)) :
    Decoded (queryText names rows)
      (.query { protId := protocolDbSToCQuery, fieldNameList := names, recordList := rows }) ↔
      FitsReply names rows := by
  constructor
  · rintro ⟨hread, -, -⟩
    exact yields_readReply _ _ _ hread
  · intro h
    exact decoded_of_roundTrips (roundTrips_readReply_query (d :=
      { protId := protocolDbSToCQuery, fieldNameList := names, recordList := rows }) h) rfl nofun

theorem decoded_modify :
    Decoded (serializeProtScModify ⟨protocolDbSToCModify⟩ {}).dataString
      (.modify ⟨protocolDbSToCModify⟩) :=
  decoded_of_roundTrips roundTrips_readReply_modify rfl nofun

theorem decoded_insert {dataKey : Str} (h : NoNul dataKey) :
    Decoded (serializeProtScInsert ⟨protocolDbSToCInsert, dataKey⟩ {}).dataString
      (.insert ⟨protocolDbSToCInsert, dataKey⟩) :=
  decoded_of_roundTrips (roundTrips_readReply_insert h) rfl nofun

/-- The reply to a load that went through. -/
def loadText : Str := (serializeProtScInsert { protId := protocolDbSToCLoadtable } {}).dataString

/-- The NUL of the empty key stays behind. -/
theorem readReply_loadText :
    readReply ⟨loadText, 0⟩ = .ok (.loadtable ⟨protocolDbSToCLoadtable⟩, ⟨loadText, 8⟩) := rfl

theorem not_decoded_loadText (told : Reply) : ¬ Decoded loadText told := by
  rintro ⟨hread, -, -⟩
  rw [readReply_loadText] at hread
  have hend := congrArg (fun p => p.2.iterator) (Except.ok.inj hread)
  change 8 = loadText.length at hend
  exact absurd hend (by decide)

/-! ## Serving -/

section Serving

variable {fp : FloatUnit} {m : DBManager fp}

/-- The reply a request is due, as the client keeps it: what the manager returned, or the error
code of the call. -/
def replyDue (m : DBManager fp) (ord : HashOrder) (reply : LoadReply) : DbRequest → Res Reply
  | .query q => do
    let temp ← m.queryDB ord [] [] q.tname q.fieldName q.bounds
    return if temp.1 then
        .query { protId := protocolDbSToCQuery, fieldNameList := temp.2.2, recordList := temp.2.1 }
      else .error ⟨protocolDbSToCError, errorCodeQuery⟩
  | .modify d => do
    let temp ← m.modifyDB d.tname d.dataKey d.dataList
    return if temp.2 then
      .modify ⟨protocolDbSToCModify⟩ else .error ⟨protocolDbSToCError, errorCodeModify⟩
  | .insert d => do
    let temp ← m.insertDB d.tname d.dataList
    return if temp.2 ≠ [] then .insert ⟨protocolDbSToCInsert, temp.2⟩
      else .error ⟨protocolDbSToCError, errorCodeInsert⟩
  | .loadtable d => do
    let temp ← m.loadTable d.dbname d.tname reply
    return if temp.2 then
      .loadtable ⟨protocolDbSToCLoadtable⟩ else .error ⟨protocolDbSToCError, errorCodeLoaddb⟩
  | .other protId => .ok (.other protId)

/-- One reply is sent, and it is decoded to the one that is due. -/
def RepliesOnce (due : Res Reply) (r : DBManager fp × Option Str) : Prop :=
  ∃ text told, r.2 = some text ∧ due = .ok told ∧ Decoded text told

theorem repliesOnce_some (m' : DBManager fp) (text : Str) (told : Reply) :
    RepliesOnce (.ok told) (m', some text) ↔ Decoded text told := by
  constructor
  · rintro ⟨_, _, htext, htold, hd⟩
    cases htext
    cases htold
    exact hd
  · intro hd
    exact ⟨text, told, rfl, rfl, hd⟩

/-- A call whose every result is answered is answered when it returns. -/
theorem repliesOnce_bind {α : Type} {call : Res α} {send : α → Res (DBManager fp × Option Str)}
    {due : α → Res Reply} (h : ∀ a, call = .ok a → Returns (send a) (RepliesOnce (due a))) :
    Returns (call >>= send) (RepliesOnce (call >>= due)) ↔ ∃ a, call = .ok a := by
  cases hcall : call with
  | error e =>
    refine iff_of_false not_returns_error ?_
    rintro ⟨a, ha⟩
    cases ha
  | ok a =>
    rw [ok_bind, ok_bind]
    exact iff_of_true (h a hcall) ⟨a, rfl⟩

/-- The strings the reply carries are free of NUL. -/
def CarriesPlain (m : DBManager fp) (ord : HashOrder) : DbRequest → Prop
  | .query q => ∀ t ∈ m.tableSet.lookup q.tname, (∀ name ∈ t.fieldNameList, NoNul name) ∧
      ∀ r ∈ t.answered ord q.fieldName q.bounds, ∀ text ∈ r.checkDataList, NoNul text
  | .insert d => ∀ t ∈ m.tableSet.lookup d.tname, NoNul (t.newKey d.dataList)
  | _ => True

/-- If the query finds records, an `int` holds the number of columns and that of the records. -/
def CountsFit (m : DBManager fp) (ord : HashOrder) (q : DbCsQuery) : Prop :=
  q.fieldName ≠ [] → q.tname ≠ [] → ¬ (q.dataEquKey = [] ∧ q.dataMinKey = [] ∧ q.dataMaxKey = []) →
    ∀ t ∈ m.tableSet.lookup q.tname, t.answered ord q.fieldName q.bounds ≠ [] →
      t.fieldNameList.length < 2 ^ 31 ∧ (t.answered ord q.fieldName q.bounds).length < 2 ^ 31

/-- No unknown name that goes unnoticed, for a query, a modification and an insertion; for
a load, that it is refused. -/
def Answerable (m : DBManager fp) (ord : HashOrder) (reply : LoadReply) : DbRequest → Prop
  | .query q => m.Guarded (.query q.tname q.fieldName q.bounds) ∧ CountsFit m ord q
  | .modify d => m.Guarded (.modify d.tname d.dataKey d.dataList)
  | .insert d => m.Guarded (.insert d.tname d.dataList)
  | .loadtable d => m.RefusesLoad d.dbname d.tname reply
  | .other _ => False

/-! ### A query -/

theorem mem_answered {t : DBTable fp} {ord : HashOrder} {fieldName : Str} {b : DBTable.Bounds}
    {r : DBRecord}
    (h : r ∈ t.answered ord fieldName b) : ∃ k, t.recordSet.lookup k = some r := by
  unfold DBTable.answered at h
  split at h
  · exact ⟨_, Option.mem_toList.mp h⟩
  · unfold DBTable.scanned at h
    obtain ⟨e, he, rfl⟩ := List.mem_map.mp h
    obtain ⟨entry, hentry, heq⟩ :=
      List.mem_map.mp (List.fst_mem_of_mem_zipIdx (List.mem_of_mem_filter he))
    rw [← heq]
    exact ⟨_, UMap.mem_entries.mp (ord.mem_order.mp hentry)⟩

/-- With strings free of NUL only the sizes are left to check. -/
theorem answerFits_iff {t : DBTable fp} (hw : t.FullWidth) {ord : HashOrder} {q : DbCsQuery}
    (hnames : ∀ name ∈ t.fieldNameList, NoNul name)
    (htexts : ∀ r ∈ t.answered ord q.fieldName q.bounds, ∀ text ∈ r.checkDataList, NoNul text) :
    AnswerFits t ord q ↔
      t.fieldNameList.length < 2 ^ 31 ∧ (t.answered ord q.fieldName q.bounds).length < 2 ^ 31 := by
  constructor
  · intro h
    exact ⟨h.names.1, h.count⟩
  · rintro ⟨hcolumns, hcount⟩
    refine ⟨⟨hcolumns, hnames⟩, hcount, fun r hr => ⟨?_, htexts r hr⟩⟩
    obtain ⟨k, hk⟩ := mem_answered hr
    rw [DBRecord.checkDataList, List.length_map, hw k r hk]
    exact hcolumns

/-- A query that reaches its table finds something exactly when it answers with records. -/
theorem queryDB_finds_iff {ord : HashOrder} {q : DbCsQuery} {r : Bool × List (List Str) × List Str}
    (h : m.queryDB ord [] [] q.tname q.fieldName q.bounds = .ok r) :
    r.1 = true ↔ q.fieldName ≠ [] ∧ q.tname ≠ [] ∧
      ¬ (q.dataEquKey = [] ∧ q.dataMinKey = [] ∧ q.dataMaxKey = []) ∧
      ∃ t ∈ m.tableSet.lookup q.tname, t.answered ord q.fieldName q.bounds ≠ [] := by
  unfold DBManager.queryDB at h
  split at h
  · next hn =>
    cases h
    refine iff_of_false Bool.false_ne_true ?_
    rintro ⟨hn1, hn2, -⟩
    exact not_or.mpr ⟨hn1, hn2⟩ hn
  · next hn =>
    obtain ⟨hn1, hn2⟩ := not_or.mp hn
    split at h
    · next hb =>
      cases h
      refine iff_of_false Bool.false_ne_true ?_
      rintro ⟨-, -, hb', -⟩
      exact hb' hb
    · next hb =>
      cases hm : m.tableSet.lookup q.tname with
      | none =>
        rw [hm] at h
        cases h
        simp
      | some t =>
        rw [hm] at h
        obtain ⟨found, hfound, hret⟩ := bind_eq_ok.mp h
        obtain ⟨l, hperm, hrows⟩ := DBTable.queryRecord_rows hfound
        have hflag := DBTable.queryRecord_flag hfound
        have hne : found.2 ≠ [] ↔ t.answered ord q.fieldName q.bounds ≠ [] := by
          rw [hrows, List.nil_append, ne_eq, List.map_eq_nil_iff, ← List.length_eq_zero_iff,
            hperm.length_eq,
            List.length_eq_zero_iff]
        cases hret
        show found.1 = true ↔ _
        rw [hflag, hne]
        constructor
        · intro hans
          exact ⟨hn1, hn2, hb, t, rfl, hans⟩
        · rintro ⟨-, -, -, t', ht', hans⟩
          cases ht'
          exact hans

theorem serve_query (h : m.WellFormed) (ord : HashOrder) (reply : LoadReply) {q : DbCsQuery}
    (hplain : CarriesPlain m ord (.query q)) :
    Returns (DBServer.serveRequest m ord reply (.query q))
      (RepliesOnce (replyDue m ord reply (.query q))) ↔
      Answerable m ord reply (.query q) := by
  have hreturns := DBManager.queryDB_returns_iff h ord q.tname q.fieldName q.bounds
  show Returns (m.queryDB ord [] [] q.tname q.fieldName q.bounds >>= _)
      (RepliesOnce (m.queryDB ord [] [] q.tname q.fieldName q.bounds >>= _)) ↔
    m.Guarded _ ∧ CountsFit m ord q
  rw [← hreturns]
  cases hres : m.queryDB ord [] [] q.tname q.fieldName q.bounds with
  | error e =>
    refine iff_of_false not_returns_error ?_
    rintro ⟨⟨r, hr⟩, -⟩
    cases hr
  | ok temp =>
    obtain ⟨found, rows, names⟩ := temp
    have hfinds := queryDB_finds_iff hres
    rw [ok_bind, ok_bind, and_iff_right ⟨_, rfl⟩]
    cases found with
    | false =>
      refine iff_of_true
        (returns_ok.mpr ((repliesOnce_some m _ _).mpr (decoded_errorText errorCodeQuery))) ?_
      intro hn1 hn2 hb t hm hne
      exact absurd (hfinds.mpr ⟨hn1, hn2, hb, t, hm, hne⟩) Bool.false_ne_true
    | true =>
      obtain ⟨t, hm, rfl, l, hl, rfl⟩ := queryDB_found hres
      obtain ⟨hn1, hn2, hb, t', hm', hne⟩ := hfinds.mp rfl
      have hcounts : CountsFit m ord q ↔
          t.fieldNameList.length < 2 ^ 31 ∧ (t.answered ord q.fieldName q.bounds).length < 2 ^ 31 := by
        constructor
        · intro hfit
          cases hm.symm.trans hm'
          exact hfit hn1 hn2 hb t hm hne
        · intro hfit _ _ _ u hu _
          cases hm.symm.trans hu
          exact hfit
      obtain ⟨hnames, htexts⟩ := hplain t hm
      rw [hcounts, ← answerFits_iff (h q.tname t hm).fullWidth hnames htexts, ← fitsReply_iff hl,
        ← decoded_queryText_iff]
      exact returns_ok.trans (repliesOnce_some m _ _)

/-! ### The other calls -/

theorem serve_modify (h : m.WellFormed) (ord : HashOrder) (reply : LoadReply) (d : DbCsModify) :
    Returns (DBServer.serveRequest m ord reply (.modify d))
      (RepliesOnce (replyDue m ord reply (.modify d))) ↔
      Answerable m ord reply (.modify d) := by
  have hreturns := DBManager.modifyDB_returns_iff h d.tname d.dataKey d.dataList
  unfold DBServer.serveRequest replyDue Answerable
  dsimp only
  rw [← hreturns]
  apply repliesOnce_bind
  rintro ⟨m', done⟩ -
  cases done with
  | false => exact returns_ok.mpr ((repliesOnce_some m' _ _).mpr (decoded_errorText errorCodeModify))
  | true => exact returns_ok.mpr ((repliesOnce_some m' _ _).mpr decoded_modify)

/-- A key that `InsertDB` answers with is the one it inserted under. -/
theorem insertDB_key {m' : DBManager fp} {tname k : Str} {d : UMap Str Str} (h : m.WellFormed)
    (hres : m.insertDB tname d = .ok (m', k)) (hk : k ≠ []) :
    ∃ t, m.tableSet.lookup tname = some t ∧ k = t.newKey d := by
  by_cases hn : tname = []
  · rw [DBManager.insertDB, if_pos hn] at hres
    cases hres
    exact absurd rfl hk
  · cases hm : m.tableSet.lookup tname with
    | none =>
      rw [DBManager.insertDB, if_neg hn, hm] at hres
      cases hres
    | some t =>
      rw [DBManager.insertDB_eq hn hm (h tname t hm).schema d] at hres
      split at hres
      · cases hres
        exact absurd rfl hk
      · cases hres
        exact ⟨t, rfl, rfl⟩

theorem serve_insert (h : m.WellFormed) (ord : HashOrder) (reply : LoadReply) {d : DbCsInsert}
    (hplain : CarriesPlain m ord (.insert d)) :
    Returns (DBServer.serveRequest m ord reply (.insert d))
      (RepliesOnce (replyDue m ord reply (.insert d))) ↔
      Answerable m ord reply (.insert d) := by
  have hreturns := DBManager.insertDB_returns_iff h d.tname d.dataList
  unfold DBServer.serveRequest replyDue Answerable
  dsimp only
  rw [← hreturns]
  apply repliesOnce_bind
  rintro ⟨m', k⟩ hres
  dsimp only
  by_cases hk : k = []
  · rw [if_neg (not_not.mpr hk), if_neg (not_not.mpr hk)]
    exact returns_ok.mpr ((repliesOnce_some m' _ _).mpr (decoded_errorText errorCodeInsert))
  · obtain ⟨t, hm, rfl⟩ := insertDB_key h hres hk
    rw [if_pos hk, if_pos hk]
    exact returns_ok.mpr ((repliesOnce_some m' _ _).mpr (decoded_insert (hplain t hm)))

theorem serve_loadtable (ord : HashOrder) {reply : LoadReply} (hc : reply.Consistent)
    (d : DbCsLoadtable) :
    Returns (DBServer.serveRequest m ord reply (.loadtable d))
        (RepliesOnce (replyDue m ord reply (.loadtable d))) ↔
      Answerable m ord reply (.loadtable d) := by
  have hrefused := DBManager.loadTable_refused_iff hc m d.dbname d.tname
  unfold DBServer.serveRequest replyDue Answerable
  dsimp only
  rw [← hrefused]
  cases hres : m.loadTable d.dbname d.tname reply with
  | error e => exact iff_of_false not_returns_error not_returns_error
  | ok temp =>
    obtain ⟨m', loaded⟩ := temp
    rw [ok_bind, ok_bind, returns_ok]
    cases loaded with
    | false =>
      exact iff_of_true
        (returns_ok.mpr ((repliesOnce_some m' _ _).mpr (decoded_errorText errorCodeLoaddb))) rfl
    | true =>
      refine iff_of_false (fun hr => ?_) (fun hfalse => absurd hfalse (by simp))
      exact not_decoded_loadText _ ((repliesOnce_some m' _ _).mp (returns_ok.mp hr))

/-- **Replies and decoders match**, for every request but the loads that go through, the
calls that an unknown name makes fault, and the query replies with more names or rows than
an `int` counts. -/
theorem replyMatched_iff (h : m.WellFormed) (ord : HashOrder) {reply : LoadReply} (hc : reply.Consistent)
    {buf : Str} {request : DbRequest} {d : UtilsSerialize}
    (hread : DBServer.readRequest ⟨buf, 0⟩ = .ok (request, d)) (hplain : CarriesPlain m ord request) :
    Returns (DBServer.notifyRecvFinish m ord reply buf) (RepliesOnce (replyDue m ord reply request)) ↔
      Answerable m ord reply request := by
  unfold DBServer.notifyRecvFinish
  rw [hread, ok_bind]
  cases request with
  | query q => exact serve_query h ord reply hplain
  | modify d => exact serve_modify h ord reply d
  | insert d => exact serve_insert h ord reply hplain
  | loadtable d => exact serve_loadtable ord hc d
  | other protId =>
    refine iff_of_false ?_ id
    rintro ⟨r, hr, text, told, htext, -⟩
    cases hr
    cases htext

end Serving

/-! ## A load -/

/-- The load of table `t` of the database `game`. -/
def loadGame : DbCsLoadtable :=
  { protId := protocolDbCToSLoadtable, dbname := lit "game", tname := lit "t" }

def loadGameText : Str := (serializeProtCsLoadtable loadGame {}).dataString

theorem replyMatched_iff_oneRow :
    Returns (DBServer.notifyRecvFinish DBManager.oneRow .plain DBManager.rowReply rowOneText)
        (RepliesOnce (replyDue DBManager.oneRow .plain DBManager.rowReply (.query rowOne))) ↔
      Answerable DBManager.oneRow .plain DBManager.rowReply (.query rowOne) := by
  obtain ⟨d, hread⟩ := readRequest_rowOne
  have hc : DBManager.rowReply.Consistent := by
    intro fields hfields res hres
    cases hfields
    cases hres
    rfl
  refine replyMatched_iff DBManager.oneRow_wellFormed .plain hc hread ?_
  intro t ht
  cases ht
  decide

/-- The table is loaded, and the last byte of the reply is left over. -/
theorem load_reply_unread :
    (∃ d, DBServer.readRequest ⟨loadGameText, 0⟩ = .ok (.loadtable loadGame, d)) ∧
      (∃ m', DBServer.notifyRecvFinish
        (DBManager.createLink (lit "db") : DBManager .exactRational) .plain
        DBManager.rowReply loadGameText = .ok (m', some loadText)) ∧
      ¬ Returns (DBServer.notifyRecvFinish
        (DBManager.createLink (lit "db") : DBManager .exactRational) .plain
          DBManager.rowReply loadGameText)
        (RepliesOnce (replyDue (DBManager.createLink (lit "db") : DBManager .exactRational) .plain
          DBManager.rowReply (.loadtable loadGame))) := by
  refine ⟨⟨_, rfl⟩, ⟨_, rfl⟩, ?_⟩
  rintro ⟨r, hr, text, told, htext, -, hd⟩
  cases hr
  cases htext
  exact not_decoded_loadText told hd

end FuServer
