import FuServer.Model.Server
import FuServer.Wire.RoundTrip

/-!
# Replies

`NotifyRecvText` reads a reply into the client's slots.  Here the reply is read
by itself first, and `take` puts it where `NotifyRecvText` leaves it.
-/

namespace FuServer

open Bytes Codec UtilsSerialize Outcome

inductive Reply
  | query (d : DbScQuery)
  | modify (d : DbScModify)
  | insert (d : DbScInsert)
  | loadtable (d : DbScLoadtable)
  | error (d : DbProtError)
  | other (protId : Int32)
deriving DecidableEq

/-- The reply behind an id. -/
def readReplyOf (protId : Int32) : Out Reply :=
  if protId = protocolDbSToCQuery then do
    let d ← unserializeProtScQuery { protId := 0 }
    return .query d
  else if protId = protocolDbSToCModify then do
    let d ← unserializeProtScModify ⟨0⟩
    return .modify d
  else if protId = protocolDbSToCInsert then do
    let d ← unserializeProtScInsert { protId := 0 }
    return .insert d
  else if protId = protocolDbSToCLoadtable then do
    let d ← unserializeProtScLoadtable ⟨0⟩
    return .loadtable d
  else if protId = protocolDbSToCError then do
    let d ← unserializeProtError ⟨0, 0⟩
    return .error d
  else return .other protId

/-- The reply a text holds. -/
def readReply : Out Reply := do
  let protId ← unserializeDbProtid
  readReplyOf protId

theorem readReplyOf_query :
    readReplyOf protocolDbSToCQuery = do
      let d ← unserializeProtScQuery { protId := 0 }
      return .query d :=
  if_pos rfl

theorem readReplyOf_modify :
    readReplyOf protocolDbSToCModify = do
      let d ← unserializeProtScModify ⟨0⟩
      return .modify d := by
  rw [readReplyOf, if_neg (by decide), if_pos rfl]

theorem readReplyOf_insert :
    readReplyOf protocolDbSToCInsert = do
      let d ← unserializeProtScInsert { protId := 0 }
      return .insert d := by
  rw [readReplyOf, if_neg (by decide), if_neg (by decide), if_pos rfl]

theorem readReplyOf_error :
    readReplyOf protocolDbSToCError = do
      let d ← unserializeProtError ⟨0, 0⟩
      return .error d := by
  rw [readReplyOf, if_neg (by decide), if_neg (by decide), if_neg (by decide), if_neg (by decide),
    if_pos rfl]

namespace DBClient

/-- A reply in its slot; a query's lists are appended to those already there. -/
def take (c : DBClient) : Reply → DBClient
  | .query d => { c with queryRef :=
      { protId := d.protId
        fieldNameList := c.queryRef.fieldNameList ++ d.fieldNameList
        recordList := c.queryRef.recordList ++ d.recordList } }
  | .modify d => { c with modifyRef := d }
  | .insert d => { c with insertRef := d }
  | .loadtable d => { c with loadTableRef := d }
  | .error d => { c with iErrorCode := d.code }
  | .other _ => c

end DBClient

/-! ## Reading into a slot -/

theorem pushString_append (base l : List Str) :
    pushString (base ++ l) = (base ++ ·) <$> pushString l := by
  simp [pushString]

theorem pushRecord_append (base l : List (List Str)) :
    pushRecord (base ++ l) = (base ++ ·) <$> pushRecord l := by
  simp [pushRecord]

theorem forTo_pushString (size : Int32) (base : List Str) :
    forTo size pushString base = (base ++ ·) <$> forTo size pushString [] := by
  have h := times_map (pushString_append base) size.toNatClampNeg []
  rw [List.append_nil] at h
  exact h

theorem forTo_pushRecord (size : Int32) (base : List (List Str)) :
    forTo size pushRecord base = (base ++ ·) <$> forTo size pushRecord [] := by
  have h := times_map (pushRecord_append base) size.toNatClampNeg []
  rw [List.append_nil] at h
  exact h

/-- The query slot takes what is read behind what it holds. -/
theorem unserializeProtScQuery_slot (slot : DbScQuery) :
    unserializeProtScQuery slot = (fun d : DbScQuery =>
      { protId := d.protId
        fieldNameList := slot.fieldNameList ++ d.fieldNameList
        recordList := slot.recordList ++ d.recordList }) <$>
      unserializeProtScQuery { protId := 0 } := by
  unfold unserializeProtScQuery
  rw [map_bind]
  refine bind_congr fun protId => ?_
  rw [map_bind]
  refine bind_congr fun nameSize => ?_
  rw [forTo_pushString nameSize slot.fieldNameList, bind_map_left, map_bind]
  refine bind_congr fun fieldNameList => ?_
  rw [map_bind]
  refine bind_congr fun recordSize => ?_
  rw [forTo_pushRecord recordSize slot.recordList, bind_map_left, map_bind]
  exact bind_congr fun recordList => (map_pure _ _).symm

namespace DBClient

/-- One case of `NotifyRecvText`: what is read is put where `take` puts it. -/
theorem put_eq_take {α : Type} (c : DBClient) (read : Out α) (d : UtilsSerialize) (reply : α → Reply)
    (put : α → DBClient) (h : ∀ a, put a = c.take (reply a)) :
    (do
      let r ← read d
      return put r.1) =
      Except.map (fun r => c.take r.1) ((do
        let a ← read
        return reply a : Out Reply) d) := by
  show (read d).bind _ = Except.map _ ((read d).bind _)
  cases read d with
  | error e => rfl
  | ok r => exact congrArg Except.ok (h r.1)

/-- **A text is read, and then taken.** -/
theorem notifyRecvText_eq (c : DBClient) (pData : Str) :
    c.notifyRecvText pData = (readReply ⟨pData, 0⟩).map fun r => c.take r.1 := by
  unfold notifyRecvText readReply readReplyOf
  show _ = Except.map _ ((unserializeDbProtid ⟨pData, 0⟩).bind _)
  cases unserializeDbProtid ⟨pData, 0⟩ with
  | error e => rfl
  | ok p =>
    obtain ⟨protId, d⟩ := p
    dsimp only [Except.bind]
    rw [ok_bind]
    dsimp only
    split
    · rw [unserializeProtScQuery_slot]
      show ((unserializeProtScQuery { protId := 0 } d).map _).bind _ =
        Except.map _ ((unserializeProtScQuery { protId := 0 } d).bind _)
      cases unserializeProtScQuery { protId := 0 } d <;> rfl
    · split
      · exact c.put_eq_take (unserializeProtScModify ⟨0⟩) d .modify _ fun _ => rfl
      · split
        · exact c.put_eq_take (unserializeProtScInsert { protId := 0 }) d .insert _ fun _ => rfl
        · split
          · exact c.put_eq_take (unserializeProtScLoadtable ⟨0⟩) d .loadtable _ fun _ => rfl
          · split
            · exact c.put_eq_take (unserializeProtError ⟨0, 0⟩) d .error _ fun _ => rfl
            · rfl

end DBClient

/-! ## Reading what the server sends -/

theorem roundTrips_readReply_error (errorcode : Int32) :
    RoundTrips buffer
      (andThen (serializeDbProtid protocolDbSToCError)
        (andThen (·.inputInt protocolDbSToCError) (·.inputInt errorcode)))
      readReply (.error ⟨protocolDbSToCError, errorcode⟩) := by
  refine (roundTrips_int protocolDbSToCError).bind ?_
  rw [readReplyOf_error]
  exact (roundTrips_error ⟨protocolDbSToCError, errorcode⟩ ⟨0, 0⟩).map Reply.error

theorem roundTrips_readReply_modify :
    RoundTrips buffer
      (andThen (serializeDbProtid protocolDbSToCModify) (·.inputInt protocolDbSToCModify))
      readReply (.modify ⟨protocolDbSToCModify⟩) := by
  refine (roundTrips_int protocolDbSToCModify).bind ?_
  rw [readReplyOf_modify]
  exact (roundTrips_scModify ⟨protocolDbSToCModify⟩ ⟨0⟩).map Reply.modify

theorem roundTrips_readReply_insert {dataKey : Str} (h : NoNul dataKey) :
    RoundTrips buffer
      (andThen (serializeDbProtid protocolDbSToCInsert)
        (andThen (·.inputInt protocolDbSToCInsert) (·.inputString dataKey)))
      readReply (.insert ⟨protocolDbSToCInsert, dataKey⟩) := by
  refine (roundTrips_int protocolDbSToCInsert).bind ?_
  rw [readReplyOf_insert]
  exact (roundTrips_scInsert (d := ⟨protocolDbSToCInsert, dataKey⟩) h { protId := 0 }).map Reply.insert

theorem readReply_errorText (errorcode : Int32) :
    ∃ s, readReply ⟨DBServer.errorText errorcode, 0⟩ =
      .ok (.error ⟨protocolDbSToCError, errorcode⟩, s) := by
  obtain ⟨buf, hwrite, hread⟩ := (roundTrips_readReply_error errorcode).read
  have htext : DBServer.errorText errorcode = buf := congrArg UtilsSerialize.dataString hwrite
  have hbuf := hread []
  rw [List.append_nil] at hbuf
  rw [htext]
  exact ⟨_, hbuf⟩

/-- The key of an insertion arrives up to its first NUL. -/
theorem readReply_insert (dataKey : Str) :
    ∃ s, readReply ⟨(serializeProtScInsert ⟨protocolDbSToCInsert, dataKey⟩ {}).dataString, 0⟩ =
      .ok (.insert ⟨protocolDbSToCInsert, cstr dataKey⟩, s) := by
  obtain ⟨buf, hwrite, hread⟩ := (roundTrips_readReply_insert (noNul_cstr dataKey)).read
  obtain ⟨rest, hrest⟩ := cstr_split dataKey
  have htext : (serializeProtScInsert ⟨protocolDbSToCInsert, dataKey⟩ {}).dataString = buf ++ rest := by
    have hbuf : intBytes protocolDbSToCInsert ++ intBytes protocolDbSToCInsert ++
        (cstr dataKey ++ [0]) = buf := congrArg UtilsSerialize.dataString hwrite
    show intBytes protocolDbSToCInsert ++ intBytes protocolDbSToCInsert ++ (dataKey ++ [0]) = _
    rw [hrest, ← hbuf]
    simp only [List.append_assoc, List.singleton_append]
  rw [htext]
  exact ⟨_, hread rest⟩

end FuServer
