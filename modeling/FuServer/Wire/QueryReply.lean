import FuServer.Cache.Scan
import FuServer.Wire.Replies

/-!
# Rows on their way to the client

A table holds its texts with their lengths, the wire ends them with a NUL.
`rowsSeen_iff` says which query replies the client decodes to the rows that
the server found.
-/

namespace FuServer

open Bytes Codec UtilsSerialize Outcome

/-! ## What a client can decode -/

theorem yields_outputString : Yields outputString NoNul := by
  intro s a s' h
  unfold outputString at h
  split at h
  · cases h
    exact noNul_cstr _
  · cases h

theorem yields_any {α : Type} (r : Out α) : Yields r fun _ => True := fun _ _ _ _ => trivial

/-- A loop that appends one item a round. -/
theorem yields_forTo {α : Type} {body : List α → Out (List α)} {P : α → Prop}
    (h : ∀ acc, Yields (body acc) fun acc' => ∃ x, P x ∧ acc' = acc ++ [x]) (size : Int32) :
    Yields (forTo size body []) fun l => l.length < 2 ^ 31 ∧ ∀ x ∈ l, P x := by
  have hround : ∀ n acc, (acc.length = n ∧ ∀ x ∈ acc, P x) →
      Yields (body acc) fun acc' => acc'.length = n + 1 ∧ ∀ x ∈ acc', P x := by
    rintro n acc ⟨hlen, hall⟩ s acc' s' hs
    obtain ⟨x, hx, rfl⟩ := h acc s acc' s' hs
    refine ⟨by rw [List.length_append, hlen, List.length_singleton], fun y hy => ?_⟩
    rcases List.mem_append.mp hy with hmem | hmem
    · exact hall y hmem
    · rw [List.mem_singleton.mp hmem]
      exact hx
  intro s l s' hs
  have hloop := Yields.times hround size.toNatClampNeg 0 []
    ⟨rfl, fun _ hmem => absurd hmem List.not_mem_nil⟩
  obtain ⟨hlen, hall⟩ := hloop s l s' hs
  have hsize := size.toNatClampNeg_lt
  exact ⟨by omega, hall⟩

theorem yields_strings (size : Int32) : Yields (forTo size pushString []) FitsStrings :=
  yields_forTo (fun _ => yields_outputString.bind fun s hs => yields_pure ⟨s, hs, rfl⟩) size

/-- A query reply that the wire can carry. -/
def FitsReply (names : List Str) (rows : List (List Str)) : Prop :=
  FitsStrings names ∧ rows.length < 2 ^ 31 ∧ ∀ fieldList ∈ rows, FitsStrings fieldList

theorem yields_records (size : Int32) :
    Yields (forTo size pushRecord []) fun rows =>
      rows.length < 2 ^ 31 ∧ ∀ fieldList ∈ rows, FitsStrings fieldList :=
  yields_forTo (fun _ => (yields_any _).bind fun fieldSize _ =>
    (yields_strings fieldSize).bind fun l hl => yields_pure ⟨l, hl, rfl⟩) size

theorem yields_scQuery :
    Yields (unserializeProtScQuery { protId := 0 }) fun d => FitsReply d.fieldNameList d.recordList :=
  (yields_any _).bind fun _ _ => (yields_any _).bind fun nameSize _ =>
    (yields_strings nameSize).bind fun _ hnames => (yields_any _).bind fun recordSize _ =>
      (yields_records recordSize).bind fun _ hrows => yields_pure ⟨hnames, hrows⟩

/-- The lists of a query reply; other replies have none. -/
def Reply.lists : Reply → List Str × List (List Str)
  | .query d => (d.fieldNameList, d.recordList)
  | _ => ([], [])

theorem yields_readReply : Yields readReply fun r => FitsReply r.lists.1 r.lists.2 := by
  have hnone : FitsReply [] [] := ⟨by decide, by decide, by simp⟩
  refine (yields_any _).bind fun protId _ => ?_
  unfold readReplyOf
  split
  · exact yields_scQuery.bind fun d hd => yields_pure hd
  · split
    · exact (yields_any _).bind fun d _ => yields_pure hnone
    · split
      · exact (yields_any _).bind fun d _ => yields_pure hnone
      · split
        · exact (yields_any _).bind fun d _ => yields_pure hnone
        · split
          · exact (yields_any _).bind fun d _ => yields_pure hnone
          · exact yields_pure hnone

/-- Right after `SendQueryDB` the query slot holds the lists of what comes. -/
theorem DBClient.take_sendQueryDB (c : DBClient) (r : Reply) :
    ((c.sendQueryDB.take r).queryRef.fieldNameList, (c.sendQueryDB.take r).queryRef.recordList) =
      r.lists := by
  cases r <;> rfl

/-! ## The reply -/

/-- The text of a query reply. -/
def queryText (names : List Str) (rows : List (List Str)) : Str :=
  (serializeProtScQuery
    { protId := protocolDbSToCQuery, fieldNameList := names, recordList := rows } {}).dataString

/-- After a call to `SendQueryDB` the client reads from `text` the names and the rows. -/
def DBClient.Sees (c : DBClient) (text : Str) (names : List Str) (rows : List (List Str)) : Prop :=
  Returns (c.sendQueryDB.notifyRecvText text) fun c' =>
    c'.queryRef.fieldNameList = names ∧ c'.queryRef.recordList = rows

theorem roundTrips_readReply_query {d : DbScQuery} (h : FitsReply d.fieldNameList d.recordList) :
    RoundTrips buffer
      (andThen (serializeDbProtid protocolDbSToCQuery) (andThen (·.inputInt d.protId)
        (andThen (inputSize d.fieldNameList.length) (andThen (inputStrings d.fieldNameList)
          (andThen (inputSize d.recordList.length) fun s => d.recordList.foldl inputRecord s)))))
      readReply (.query d) := by
  refine (roundTrips_int protocolDbSToCQuery).bind ?_
  rw [readReplyOf_query]
  exact (roundTrips_scQuery h.1 h.2.1 h.2.2 0).map Reply.query

theorem readReply_queryText {names : List Str} {rows : List (List Str)} (h : FitsReply names rows) :
    ∃ s, readReply ⟨queryText names rows, 0⟩ =
      .ok (.query { protId := protocolDbSToCQuery, fieldNameList := names, recordList := rows }, s) := by
  obtain ⟨buf, hwrite, hread⟩ := (roundTrips_readReply_query (d :=
    { protId := protocolDbSToCQuery, fieldNameList := names, recordList := rows }) h).read
  have htext : queryText names rows = buf := congrArg UtilsSerialize.dataString hwrite
  have hbuf := hread []
  rw [List.append_nil] at hbuf
  rw [htext]
  exact ⟨_, hbuf⟩

/-- A query reply is seen exactly when the wire can carry it. -/
theorem sees_iff_fits (c : DBClient) (names : List Str) (rows : List (List Str)) :
    c.Sees (queryText names rows) names rows ↔ FitsReply names rows := by
  unfold DBClient.Sees
  rw [DBClient.notifyRecvText_eq]
  constructor
  · rintro ⟨c', hc', hnames, hrows⟩
    cases hr : readReply ⟨queryText names rows, 0⟩ with
    | error e =>
      rw [hr] at hc'
      cases hc'
    | ok p =>
      rw [hr] at hc'
      cases hc'
      have hlists := c.take_sendQueryDB p.1
      rw [hnames, hrows] at hlists
      have hfits : FitsReply p.1.lists.1 p.1.lists.2 := yields_readReply _ p.1 p.2 hr
      rw [← hlists] at hfits
      exact hfits
  · intro h
    obtain ⟨s, hs⟩ := readReply_queryText h
    rw [hs]
    show Returns (.ok _) _
    exact returns_ok.mpr ⟨rfl, rfl⟩

/-! ## From the table to the client -/

/-- The column bounds of a query. -/
def DbCsQuery.bounds (d : DbCsQuery) : DBTable.Bounds := ⟨d.dataEquKey, d.dataMinKey, d.dataMaxKey⟩

section Found

variable {fp : FloatUnit}

/-- The names of the columns and the texts of the records the query matches are
free of NUL, and an `int` holds their numbers. -/
structure AnswerFits (t : DBTable fp) (ord : HashOrder) (q : DbCsQuery) : Prop where
  names : FitsStrings t.fieldNameList
  count : (t.answered ord q.fieldName q.bounds).length < 2 ^ 31
  texts : ∀ r ∈ t.answered ord q.fieldName q.bounds, FitsStrings r.checkDataList

theorem queryDB_found {m : DBManager fp} {ord : HashOrder} {q : DbCsQuery} {rows : List (List Str)}
    {names : List Str}
    (h : m.queryDB ord [] [] q.tname q.fieldName q.bounds = .ok (true, rows, names)) :
    ∃ t, m.tableSet.lookup q.tname = some t ∧ names = t.fieldNameList ∧
      ∃ l : List DBRecord, l.Perm (t.answered ord q.fieldName q.bounds) ∧
        rows = l.map (·.checkDataList) := by
  unfold DBManager.queryDB at h
  split at h
  · cases h
  · split at h
    · cases h
    · cases hm : m.tableSet.lookup q.tname with
      | none =>
        rw [hm] at h
        cases h
      | some t =>
        rw [hm] at h
        obtain ⟨⟨temp, recordList⟩, hfound, hret⟩ := bind_eq_ok.mp h
        obtain ⟨l, hperm, hrows⟩ := DBTable.queryRecord_rows hfound
        cases hret
        exact ⟨t, rfl, List.nil_append _, l, hperm, hrows⟩

/-- The wire can carry the rows of the matched records exactly when these fit. -/
theorem fitsReply_iff {t : DBTable fp} {ord : HashOrder} {q : DbCsQuery} {l : List DBRecord}
    (hl : l.Perm (t.answered ord q.fieldName q.bounds)) :
    FitsReply t.fieldNameList (l.map (·.checkDataList)) ↔ AnswerFits t ord q := by
  constructor
  · rintro ⟨hnames, hcount, htexts⟩
    rw [List.length_map, hl.length_eq] at hcount
    exact ⟨hnames, hcount, fun r hr => htexts _ (List.mem_map_of_mem (hl.mem_iff.mpr hr))⟩
  · rintro ⟨hnames, hcount, htexts⟩
    refine ⟨hnames, ?_, fun row hrow => ?_⟩
    · rw [List.length_map, hl.length_eq]
      exact hcount
    · obtain ⟨r, hr, rfl⟩ := List.mem_map.mp hrow
      exact htexts r (hl.mem_iff.mp hr)

/-- The server sends what the query found. -/
theorem notifyRecvFinish_query {m : DBManager fp} {ord : HashOrder} {buf : Str} {q : DbCsQuery}
    {d : UtilsSerialize} (hread : DBServer.readRequest ⟨buf, 0⟩ = .ok (.query q, d))
    {rows : List (List Str)} {names : List Str}
    (hfound : m.queryDB ord [] [] q.tname q.fieldName q.bounds = .ok (true, rows, names))
    (reply : LoadReply) :
    DBServer.notifyRecvFinish m ord reply buf = .ok (m, some (queryText names rows)) := by
  unfold DBServer.notifyRecvFinish
  rw [hread, ok_bind]
  show (m.queryDB ord [] [] q.tname q.fieldName q.bounds).bind _ = _
  rw [hfound]
  rfl

/-- **Which rows reach the client.**  A query that the server answers with rows
is decoded to the same names and rows exactly when the names and the texts of
the matched records are free of NUL and an `int` holds their numbers. -/
theorem rowsSeen_iff {m : DBManager fp} {ord : HashOrder} {buf : Str} {q : DbCsQuery}
    {d : UtilsSerialize} (hread : DBServer.readRequest ⟨buf, 0⟩ = .ok (.query q, d))
    {rows : List (List Str)} {names : List Str}
    (hfound : m.queryDB ord [] [] q.tname q.fieldName q.bounds = .ok (true, rows, names))
    (reply : LoadReply) (c : DBClient) :
    ∃ t text, m.tableSet.lookup q.tname = some t ∧
      DBServer.notifyRecvFinish m ord reply buf = .ok (m, some text) ∧
      (c.Sees text names rows ↔ AnswerFits t ord q) := by
  obtain ⟨t, hm, rfl, l, hperm, rfl⟩ := queryDB_found hfound
  refine ⟨t, _, hm, notifyRecvFinish_query hread hfound reply, ?_⟩
  rw [sees_iff_fits, fitsReply_iff hperm]

end Found

/-! ## A field with a NUL -/

/-- A table of ids and bytes, with one row. -/
def blobTable (data : Str) : LoadReply :=
  let fields := [⟨lit "id", .long, true, false⟩, ⟨lit "data", .blob, false, false⟩]
  { useOk := true
    info := some fields
    select := some ⟨fields, [[some (lit "1"), some data]], by simp [fields]⟩ }

/-- The query for the row with id 1. -/
def rowOne : DbCsQuery :=
  { protId := 201, tname := lit "t", fieldName := lit "id", dataEquKey := lit "1" }

def rowOneText : Str := (serializeProtCsQuery rowOne {}).dataString

/-- The manager once the table has been loaded. -/
def blobManager (data : Str) : DBManager .exactRational :=
  match (DBManager.createLink (lit "d")).loadTable [] (lit "t") (blobTable data) with
  | .ok (m, _) => m
  | .error _ => DBManager.createLink (lit "d")

theorem readRequest_rowOne :
    ∃ d, DBServer.readRequest ⟨rowOneText, 0⟩ = .ok (.query rowOne, d) := ⟨_, rfl⟩

theorem queryDB_rowOne (c : UInt8) (data : Str) :
    (blobManager (c :: data)).queryDB .plain [] [] rowOne.tname rowOne.fieldName rowOne.bounds =
      .ok (true, [[lit "1", c :: data]], [lit "id", lit "data"]) := rfl

theorem rowsSeen_oneRow :
    ∃ t text, (blobManager (lit "a")).tableSet.lookup rowOne.tname = some t ∧
      DBServer.notifyRecvFinish (blobManager (lit "a")) .plain (blobTable []) rowOneText =
        .ok (blobManager (lit "a"), some text) ∧
      ((DBClient.new fun _ => 0).Sees text [lit "id", lit "data"] [[lit "1", lit "a"]] ↔
        AnswerFits t .plain rowOne) := by
  obtain ⟨d, hread⟩ := readRequest_rowOne
  exact rowsSeen_iff hread (queryDB_rowOne 97 []) (blobTable []) (DBClient.new fun _ => 0)

/-- A loaded field with a NUL inside: the row is found and sent, and the client reads another. -/
theorem rowsSeen_broken :
    (DBManager.createLink (lit "d")).loadTable [] (lit "t") (blobTable [97, 0, 98]) =
      .ok (blobManager [97, 0, 98], true) ∧
    (blobManager [97, 0, 98]).queryDB .plain [] [] rowOne.tname rowOne.fieldName rowOne.bounds =
      .ok (true, [[lit "1", [97, 0, 98]]], [lit "id", lit "data"]) ∧
    ∃ text, DBServer.notifyRecvFinish (blobManager [97, 0, 98]) .plain (blobTable []) rowOneText =
        .ok (blobManager [97, 0, 98], some text) ∧
      ¬ (DBClient.new fun _ => 0).Sees text [lit "id", lit "data"] [[lit "1", [97, 0, 98]]] := by
  obtain ⟨d, hread⟩ := readRequest_rowOne
  have hfound := queryDB_rowOne 97 [0, 98]
  refine ⟨rfl, hfound, _, notifyRecvFinish_query hread hfound (blobTable []), ?_⟩
  rw [sees_iff_fits]
  rintro ⟨-, -, htexts⟩
  have hrow := htexts _ List.mem_cons_self
  revert hrow
  decide

end FuServer
