import Mathlib.Data.List.Forall2
import FuServer.Game.Outcomes

/-!
# Messages and read callbacks

A read callback hands everything that has arrived to one `RecvProt`, which
reads the first value of it and keeps nothing for the next callback.
`dispatched_iff` says which cuts of the byte stream bring every message to the
game logic.
-/

namespace FuServer

open Bytes Outcome

/-! ## The reader -/

/-- `Json::Reader::parse`, as far as messages go: it takes a complete leading
object whatever follows, fails on a truncated one, and returns an object only
where a text of it stands.  `isText v text` says that `text` is the object `v`
written out, from its opening to its closing brace. -/
structure JsonReader where
  parse : Str → Option Json
  isText : Json → Str → Prop
  closed : ∀ v text, isText v text → text.getLast? = some 125
  accepts : ∀ v text rest, isText v text → parse (text ++ rest) = some v
  truncated : ∀ v text piece, isText v text → piece <+: text → piece ≠ text →
    parse (piece ++ [0]) = none
  starts : ∀ v text s, isText v text → parse s = some v → ∃ text', isText v text' ∧ text' <+: s

variable (R : JsonReader) (protList : List Json)

/-- A message of the protocol, written out: `RecvProt` takes its value under its id. -/
structure ProtMessage where
  protId : Int
  value : Json
  text : Str
  isText : R.isText value text
  taken : FUProtocol.recvProt (fun _ => some value) protList text = .ok (protId, value)
  known : 0 ≤ protId

/-! ## Arrivals -/

/-- What one read callback comes to: the game logic is given a message, or an
error is reported. -/
inductive Arrival
  | dispatched (protId : Int) (value : Json)
  | refused (code : Int)

def arrival (parse : Str → Option Json) (recvStr : Str) : JsonRes Arrival := do
  let received ← FUProtocol.recvProt parse protList (recvStr ++ [0])
  if received.1 < 0 then return .refused received.1
  else return .dispatched received.1 received.2

variable {R protList}

/-- A dispatched message goes to the registered logics, and no error is sent. -/
theorem readFinish_of_dispatched {parse : Str → Option Json} {recvStr : Str} {protId : Int}
    {value : Json} (h : arrival protList parse recvStr = .ok (.dispatched protId value))
    (regGameLogicList : List GameBaseLogic) :
    FUNetServer.readFinish parse protList regGameLogicList recvStr =
      FUNetServer.dispatch protId value 0 regGameLogicList := by
  obtain ⟨received, hrecv, harrived⟩ := bind_eq_ok.mp h
  unfold FUNetServer.readFinish FUNetServer.checkProtocolBuffer
  rw [hrecv, ok_bind]
  split at harrived
  · cases harrived
  · next hneg =>
    cases harrived
    rw [if_neg hneg]

/-- A refused read ends in an error reply or a log line. -/
theorem readFinish_of_refused {parse : Str → Option Json} {recvStr : Str} {code : Int}
    (h : arrival protList parse recvStr = .ok (.refused code))
    (regGameLogicList : List GameBaseLogic) :
    FUNetServer.readFinish parse protList regGameLogicList recvStr =
      if code = -1 then do
        let sent ← FUProtocol.sendError protList 100
        return .errorReply 100 sent
      else if code = -2 then do
        let sent ← FUProtocol.sendError protList 101
        return .errorReply 101 sent
      else return .dropped code := by
  obtain ⟨received, hrecv, harrived⟩ := bind_eq_ok.mp h
  unfold FUNetServer.readFinish FUNetServer.checkProtocolBuffer
  rw [hrecv, ok_bind]
  split at harrived
  · next hneg =>
    cases harrived
    rw [if_pos hneg]
  · cases harrived

theorem recvProt_congr {parse parse' : Str → Option Json} {buf buf' : Str}
    (h : parse buf = parse' buf') :
    FUProtocol.recvProt parse protList buf = FUProtocol.recvProt parse' protList buf' := by
  unfold FUProtocol.recvProt
  rw [h]

/-- A nonnegative id comes with the value that was parsed. -/
theorem parse_of_recvProt {parse : Str → Option Json} {buf : Str} {protId : Int} {value : Json}
    (h : FUProtocol.recvProt parse protList buf = .ok (protId, value)) (hpos : 0 ≤ protId) :
    parse buf = some value := by
  unfold FUProtocol.recvProt at h
  cases hp : parse buf with
  | none =>
    rw [hp] at h
    cases h
    exact absurd hpos (by decide)
  | some v =>
    rw [hp] at h
    obtain ⟨pIdValue, -, h⟩ := bind_eq_ok.mp h
    cases pIdValue with
    | none =>
      cases h
      rfl
    | some pIdValue =>
      obtain ⟨pDataValue, -, h⟩ := bind_eq_ok.mp h
      cases pDataValue with
      | none =>
        cases h
        rfl
      | some pDataValue =>
        obtain ⟨s, -, h⟩ := bind_eq_ok.mp h
        obtain ⟨pValue, -, h⟩ := bind_eq_ok.mp h
        cases pValue with
        | none =>
          cases h
          rfl
        | some pValue =>
          cases h
          rfl

/-- A read dispatches a message exactly when its value is parsed off it. -/
theorem arrival_eq_iff (m : ProtMessage R protList) (recvStr : Str) :
    arrival protList R.parse recvStr = .ok (.dispatched m.protId m.value) ↔
      R.parse (recvStr ++ [0]) = some m.value := by
  constructor
  · intro h
    obtain ⟨⟨protId, value⟩, hrecv, harrived⟩ := bind_eq_ok.mp h
    split at harrived
    · cases harrived
    · next hneg =>
      cases harrived
      exact parse_of_recvProt hrecv m.known
  · intro h
    have hrecv : FUProtocol.recvProt R.parse protList (recvStr ++ [0]) = .ok (m.protId, m.value) :=
      (recvProt_congr h).trans m.taken
    unfold arrival
    rw [hrecv, ok_bind, if_neg (by simpa using m.known)]
    rfl

/-- The text that ends in a brace stands in front of the appended NUL. -/
theorem prefix_of_prefix_append_nul {text s : Str} (hlast : text.getLast? = some 125)
    (h : text <+: s ++ [0]) : text <+: s := by
  rcases List.prefix_concat_iff.mp h with heq | hpre
  · rw [heq, List.getLast?_concat] at hlast
    exact absurd hlast (by decide)
  · exact hpre

/-- The read starts with a complete text of the message. -/
def StartsWith (recvStr : Str) (m : ProtMessage R protList) : Prop :=
  ∃ text, R.isText m.value text ∧ text <+: recvStr

theorem parse_eq_iff (m : ProtMessage R protList) (recvStr : Str) :
    R.parse (recvStr ++ [0]) = some m.value ↔ StartsWith recvStr m := by
  constructor
  · intro h
    obtain ⟨text, htext, hpre⟩ := R.starts m.value m.text (recvStr ++ [0]) m.isText h
    exact ⟨text, htext, prefix_of_prefix_append_nul (R.closed m.value text htext) hpre⟩
  · rintro ⟨text, htext, rest, rfl⟩
    rw [List.append_assoc]
    exact R.accepts m.value text (rest ++ [0]) htext

/-! ## The stream -/

/-- The reads bring the game logic these messages, in order and once each, and
nothing else comes of them. -/
def Dispatched (reads : List Str) (msgs : List (ProtMessage R protList)) : Prop :=
  reads.mapM (arrival protList R.parse) = .ok (msgs.map fun m => .dispatched m.protId m.value)

theorem dispatches_iff (m : ProtMessage R protList) (recvStr : Str) :
    arrival protList R.parse recvStr = .ok (.dispatched m.protId m.value) ↔ StartsWith recvStr m :=
  (arrival_eq_iff m recvStr).trans (parse_eq_iff m recvStr)

theorem Dispatched.starts {reads : List Str} {msgs : List (ProtMessage R protList)}
    (h : Dispatched reads msgs) : List.Forall₂ StartsWith reads msgs := by
  have h := List.forall₂_map_right_iff.mp (mapM_eq_ok_iff.mp h)
  exact h.imp fun recvStr m hm => (dispatches_iff m recvStr).mp hm

theorem dispatched_of_starts {reads : List Str} {msgs : List (ProtMessage R protList)}
    (h : List.Forall₂ StartsWith reads msgs) : Dispatched reads msgs := by
  refine mapM_eq_ok_iff.mpr (List.forall₂_map_right_iff.mpr ?_)
  exact h.imp fun recvStr m hm => (dispatches_iff m recvStr).mpr hm

/-- **Which cuts dispatch the messages.**  The game logic is given exactly the
messages, in order, and no error is reported, exactly when there are as many
reads as messages and each read starts with a complete text of its message. -/
theorem dispatched_iff (reads : List Str) (msgs : List (ProtMessage R protList)) :
    Dispatched reads msgs ↔ List.Forall₂ StartsWith reads msgs :=
  ⟨fun h => h.starts, dispatched_of_starts⟩

/-- One message a read. -/
theorem dispatched_texts (msgs : List (ProtMessage R protList)) :
    Dispatched (msgs.map (·.text)) msgs := by
  refine dispatched_of_starts (List.forall₂_map_left_iff.mpr (List.forall₂_same.mpr fun m _ => ?_))
  exact ⟨m.text, m.isText, List.prefix_rfl⟩

/-- Messages that share a read, or a message spread over more reads, are not dispatched. -/
theorem not_dispatched_of_length {reads : List Str} {msgs : List (ProtMessage R protList)}
    (h : reads.length ≠ msgs.length) : ¬ Dispatched reads msgs :=
  fun hd => h hd.starts.length_eq

/-- The first read of a stream has to hold the whole first message. -/
theorem Dispatched.first {recvStr : Str} {reads : List Str} {m : ProtMessage R protList}
    {msgs : List (ProtMessage R protList)} (h : Dispatched (recvStr :: reads) (m :: msgs))
    (hcut : (recvStr :: reads).flatten = ((m :: msgs).map (·.text)).flatten) :
    m.text <+: recvStr := by
  have hread : recvStr <+: (recvStr :: reads).flatten := ⟨_, rfl⟩
  have htext : m.text <+: (recvStr :: reads).flatten := by
    rw [hcut]
    exact ⟨_, rfl⟩
  rcases List.prefix_or_prefix_of_prefix htext hread with hpre | hpre
  · exact hpre
  · by_cases heq : recvStr = m.text
    · exact heq ▸ List.prefix_rfl
    · have hparse := (parse_eq_iff m recvStr).mpr (List.forall₂_cons.mp h.starts).1
      rw [R.truncated m.value m.text recvStr m.isText hpre heq] at hparse
      cases hparse

/-! ## Shared and split reads -/

/-- A reader that knows one text, which ends in a brace. -/
def JsonReader.only (text : Str) (v : Json) (h : text.getLast? = some 125) : JsonReader where
  parse := readsOnly text v
  isText v' text' := v' = v ∧ text' = text
  closed := by
    rintro v' text' ⟨-, rfl⟩
    exact h
  accepts := by
    rintro v' text' rest ⟨rfl, rfl⟩
    unfold readsOnly
    rw [if_pos (List.isPrefixOf_iff_prefix.mpr (List.prefix_append _ _))]
  truncated := by
    rintro v' text' piece ⟨rfl, rfl⟩ hpre hne
    unfold readsOnly
    rw [if_neg]
    intro hfull
    have hback := prefix_of_prefix_append_nul h (List.isPrefixOf_iff_prefix.mp hfull)
    exact hne (hpre.eq_of_length_le hback.length_le)
  starts := by
    rintro v' text' s ⟨rfl, rfl⟩ hparse
    unfold readsOnly at hparse
    split at hparse
    · next hpre => exact ⟨text', ⟨rfl, rfl⟩, List.isPrefixOf_iff_prefix.mp hpre⟩
    · cases hparse

/-- A message with id 1001 and empty data. -/
def loginText : Str := lit "\x7b\"msgId\":1001,\"msgData\":\x7b\x7d\x7d"

def loginValue : Json := .obj [(lit "msgData", .obj []), (lit "msgId", .num (lit "1001"))]

def loginReader : JsonReader := JsonReader.only loginText loginValue (by decide)

theorem taken_login :
    FUProtocol.recvProt (fun _ => some loginValue) globalProt.protList loginText =
      .ok (1001, loginValue) := by
  have hlisted : (globalProt.entry (lit "1001")).isSome = true := rfl
  have hnumber : atoi (lit "1001") = 1001 := by decide
  have hrecv : FUProtocol.recvProt (fun _ => some loginValue) globalProt.protList loginText = do
      let s ← (Json.num (lit "1001")).asString
      return (if (globalProt.entry s).isSome then atoi s else -2, loginValue) :=
    ProtFiles.recvProt_of_members (v := loginValue) rfl trivial rfl rfl
  rw [hrecv]
  show Except.ok (if (globalProt.entry (lit "1001")).isSome then atoi (lit "1001") else -2,
    loginValue) = _
  rw [if_pos hlisted, hnumber]

def loginMessage : ProtMessage loginReader globalProt.protList where
  protId := 1001
  value := loginValue
  text := loginText
  isText := ⟨rfl, rfl⟩
  taken := taken_login
  known := by decide

/-- Two messages in one read, and one message in two. -/
theorem dispatched_broken :
    [loginText ++ loginText].flatten = ([loginMessage, loginMessage].map (·.text)).flatten ∧
    ¬ Dispatched [loginText ++ loginText] [loginMessage, loginMessage] ∧
    [loginText.take 9, loginText.drop 9].flatten = ([loginMessage].map (·.text)).flatten ∧
    ¬ Dispatched [loginText.take 9, loginText.drop 9] [loginMessage] :=
  ⟨rfl, not_dispatched_of_length (by decide), rfl, not_dispatched_of_length (by decide)⟩

end FuServer
