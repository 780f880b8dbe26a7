import FuServer.Client.Calls
import FuServer.Wire.Service

/-!
# Clients that wait for their answers

Each client is one thread that calls, resets its slot and polls, and one that
puts what arrives into the slots.  `calls_linearize`: what a call returns is
what the store answers to it, and a call that has returned stands in the
store's order before every call made later, whoever makes it.  An answer that
is put into its slot before the reset is lost, and its call then never
returns; and a call that is made with the error code of another still set
returns at once, so after a failed call a client is to make a query.
-/

namespace FuServer

open Bytes Outcome KeyedStore Runs Served

/-! ## What a call returns -/

def ClientRequest.kind : ClientRequest → RequestKind
  | query _ => .query
  | modify _ => .modify
  | insert _ => .insert
  | loadtable _ => .loadtable

/-- The struct a call returns a reference to. -/
inductive SlotRef
  | query (ref : DbScQuery)
  | modify (ref : DbScModify)
  | insert (ref : DbScInsert)
  | loadtable (ref : DbScLoadtable)
deriving DecidableEq

namespace SlotRef

def protId : SlotRef → Int32
  | query ref => ref.protId
  | modify ref => ref.protId
  | insert ref => ref.protId
  | loadtable ref => ref.protId

/-- The id is still that of a slot without a reply. -/
def Failed (ref : SlotRef) : Prop := ref.protId = -1

instance (ref : SlotRef) : Decidable ref.Failed := inferInstanceAs (Decidable (_ = _))

end SlotRef

def DBClient.slot (c : DBClient) : RequestKind → SlotRef
  | .query => .query c.queryRef
  | .modify => .modify c.modifyRef
  | .insert => .insert c.insertRef
  | .loadtable => .loadtable c.loadTableRef

namespace RequestKind

/-- What a reset leaves in the slot. -/
def blank : RequestKind → SlotRef
  | query => .query { protId := -1, fieldNameList := [], recordList := [] }
  | modify => .modify ⟨-1⟩
  | insert => .insert { protId := -1, dataKey := [] }
  | loadtable => .loadtable ⟨-1⟩

/-- What a call returns when a reply comes. -/
def heard (kind : RequestKind) : Reply → SlotRef
  | .query d => .query d
  | .modify d => .modify d
  | .insert d => .insert d
  | .loadtable d => .loadtable d
  | .error _ => kind.blank
  | .other _ => kind.blank

/-- What a call returns for an answer of the store: its data under the id of the kind, or no reply. -/
def returned (kind : RequestKind) (answer : KeyedStore.Reply Str Str) : SlotRef :=
  (told answer).elim kind.blank kind.heard

theorem failed_blank (kind : RequestKind) : kind.blank.Failed := by cases kind <;> rfl

end RequestKind

namespace DBClient

theorem slot_resetSlot (c : DBClient) (kind : RequestKind) :
    (c.resetSlot kind).slot kind = kind.blank := by
  cases kind <;> rfl

theorem protId_slot (c : DBClient) (kind : RequestKind) : (c.slot kind).protId = c.slotProtId kind := by
  cases kind <;> rfl

/-- An error code outlasts a reset only where no query is made. -/
theorem iErrorCode_of_resetSlot {c : DBClient} {kind : RequestKind}
    (h : 0 < (c.resetSlot kind).iErrorCode) :
    kind ≠ .query ∧ 0 < c.iErrorCode := by
  by_cases hkind : kind = .query
  · subst hkind
    exact absurd (show (0 : Int32) < -1 from h) (by decide)
  · rw [iErrorCode_resetSlot c hkind] at h
    exact ⟨hkind, h⟩

/-- With no reply in its slot a call only returns on an error code. -/
theorem iErrorCode_of_blank {c : DBClient} {kind : RequestKind} (hslot : c.slot kind = kind.blank)
    {exit : Exit} (h : c.checkWhileReturn kind = some exit) : 0 < c.iErrorCode := by
  have hid : c.slotProtId kind ≠ kind.toProtId := by
    rw [← protId_slot, hslot, kind.failed_blank]
    cases kind <;> decide
  unfold checkWhileReturn at h
  rw [if_neg hid] at h
  split at h
  · next hcode => exact hcode
  · cases h

/-- An empty slot takes the reply of its kind, and keeps off an error. -/
theorem slot_take {c : DBClient} {kind : RequestKind} {r : Reply} (h : AnswerTo kind r)
    (hslot : c.slot kind = kind.blank) :
    (c.take r).slot kind = kind.heard r := by
  cases h with
  | query names rows =>
    injection hslot with hslot
    show SlotRef.query {
      protId := protocolDbSToCQuery
      fieldNameList := c.queryRef.fieldNameList ++ names
      recordList := c.queryRef.recordList ++ rows } = _
    rw [hslot]
    rfl
  | modify => rfl
  | insert dataKey => rfl
  | loadtable => rfl
  | error _ => exact hslot

theorem notifyRecvText_reads {text : Str} {r : Reply} (h : Reads text r) (c : DBClient) :
    c.notifyRecvText text = .ok (c.take r) := by
  obtain ⟨s, hs⟩ := h
  rw [notifyRecvText_eq, hs]
  rfl

end DBClient

/-! ## The answers of the store -/

section Answers

variable {fp : FloatUnit}

/-- The store answers a request by its kind. -/
theorem answerTo_told {ord : HashOrder} {reply : LoadReply} {req : ClientRequest}
    {S S' : Store Str Str UInt16 Str} {answer : KeyedStore.Reply Str Str} {r : Reply}
    (h : KeyedStore.Step [] S (DBManager.request (req.call ord reply : DBManager.ManagerCall fp))
      answer S')
    (hr : told answer = some r) : AnswerTo req.kind r := by
  have inserted : ∀ k, told (.inserted k) = some r → AnswerTo .insert r := by
    intro k hk
    cases k with
    | none =>
      cases hk
      exact .error (by decide)
    | some k =>
      cases hk
      exact .insert k
  have modified : ∀ ok, told (.modified ok) = some r → AnswerTo .modify r := by
    intro ok hok
    cases ok with
    | false =>
      cases hok
      exact .error (by decide)
    | true =>
      cases hok
      exact .modify
  have found : ∀ ok names rows, told (.found ok names rows) = some r → AnswerTo .query r := by
    intro ok names rows hok
    cases ok with
    | false =>
      cases hok
      exact .error (by decide)
    | true =>
      cases hok
      exact .query names rows
  have loaded : ∀ ok, told (.loaded ok) = some r → AnswerTo .loadtable r := by
    intro ok hok
    cases ok with
    | false =>
      cases hok
      exact .error (by decide)
    | true =>
      cases hok
      exact .loadtable
  cases req with
  | query d =>
    unfold ClientRequest.call DBManager.request at h
    dsimp only at h
    split at h
    · cases h
      exact found _ _ _ hr
    · generalize hc : TableCall.select _ _ _ = c at h
      cases h with
      | call _ step =>
        cases step with
        | insert _ => cases hc
        | modify _ => cases hc
        | find _ => exact found _ _ _ hr
        | scan _ _ _ => exact found _ _ _ hr
      | missing _ =>
        subst hc
        exact found _ _ _ hr
  | modify d =>
    cases h with
    | call _ step =>
      cases step
      exact modified _ hr
    | missing _ => exact modified _ hr
  | insert d =>
    cases h with
    | call _ step =>
      cases step
      exact inserted _ hr
    | missing _ => exact inserted _ hr
  | loadtable d =>
    unfold ClientRequest.call DBManager.request at h
    dsimp only at h
    generalize reply.held d.dbname = held at h
    cases h with
    | load _ => exact loaded _ hr
    | notLoaded _ => exact loaded _ hr

/-- A client is sent one text for a request, and reads from it an answer to its call. -/
theorem exists_reply {env : HashOrder × LoadReply} {r : HashOrder × ClientRequest}
    {S S' : Store Str Str UInt16 Str} {text : Str}
    (h : StoreStep S (ServerOp.ofClient env r : ServerOp fp) [text] S') :
    ∃ reply, Reads text reply ∧ AnswerTo r.2.kind reply := by
  obtain ⟨answer, hstep, htexts⟩ := h
  obtain ⟨reply, htold⟩ :=
    Option.isSome_iff_exists.mp (told_isSome (hstep.answered (r.2.request_call_ne_flush)))
  rw [htold] at htexts
  cases htexts with
  | cons hreads _ => exact ⟨reply, hreads, answerTo_told hstep htold⟩

end Answers

/-! ## Clients at work -/

/-- Where the call of a client stands. -/
inductive Standing
  | idle
  | sent (kind : RequestKind)
  | polling (kind : RequestKind)
deriving DecidableEq

/-- A client, its call, and what its calls have returned. -/
structure Caller where
  client : DBClient
  standing : Standing := .idle
  returned : List SlotRef := []

structure Site (ι : Type) (fp : FloatUnit) where
  net : Net ι (DBManager fp) (ServerOp fp) (HashOrder × ClientRequest) Str
  callers : ι → Caller

/-- A client calls, resets its slot, polls once, or puts a text that has come into its slot; the server
serves a client, or does something of its own. -/
inductive SiteEvent (ι : Type) (fp : FloatUnit)
  | call (i : ι) (ord : HashOrder) (req : ClientRequest)
  | reset (i : ι)
  | poll (i : ι)
  | recv (i : ι)
  | serve (i : ι) (ord : HashOrder) (reply : LoadReply)
  | own (op : ServerOp fp)

section Sites

variable {ι : Type} [DecidableEq ι] {fp : FloatUnit}

namespace Site

def setCaller (s : Site ι fp) (i : ι) (c : Caller) : Site ι fp :=
  { s with callers := Function.update s.callers i c }

/-- What the event does to the lines and to the server. -/
def netEvent (s : Site ι fp)
    (e : Event ι (ServerOp fp) (HashOrder × ClientRequest) (HashOrder × LoadReply)) :
    Option (Site ι fp) :=
  (netStep serverStep ServerOp.ofClient s.net e).map fun net => { s with net := net }

def step (s : Site ι fp) : SiteEvent ι fp → Option (Site ι fp)
  | .call i ord req =>
    match (s.callers i).standing with
    | .idle => (s.setCaller i { s.callers i with standing := .sent req.kind }).netEvent
      (.send i (ord, req))
    | _ => none
  | .reset i =>
    match (s.callers i).standing with
    | .sent kind =>
      some (s.setCaller i { s.callers i with
        client := (s.callers i).client.resetSlot kind
        standing := .polling kind })
    | _ => none
  | .poll i =>
    match (s.callers i).standing with
    | .polling kind =>
      match (s.callers i).client.checkWhileReturn kind with
      | some _ =>
        some (s.setCaller i { s.callers i with
          standing := .idle
          returned := (s.callers i).returned ++ [(s.callers i).client.slot kind] })
      | none => some s
    | _ => none
  | .recv i =>
    match s.net.replies i with
    | [] => none
    | text :: _ =>
      match (s.callers i).client.notifyRecvText text with
      | .ok client => (s.setCaller i { s.callers i with client := client }).netEvent (.take i)
      | .error _ => none
  | .serve i ord reply => s.netEvent (.serve i (ord, reply))
  | .own op => s.netEvent (.own op)

/-- New clients, and a server with no tables. -/
def start (dbname : Str) (junk : ι → RequestKind → Int32) : Site ι fp where
  net := Served.start (DBManager.createLink dbname)
  callers := fun i => { client := DBClient.new (junk i) }

/-- What may happen: the server is fair, a client does one thing after the other and
calls for rows after a call that failed. -/
def Allowed (s : Site ι fp) : SiteEvent ι fp → Prop
  | .call i _ req =>
    (s.callers i).standing = .idle ∧
      ∀ ref ∈ (s.callers i).returned.getLast?, ref.Failed → req.kind = .query
  | .reset i =>
    ∃ kind ∈ [RequestKind.query, .modify, .insert, .loadtable],
      (s.callers i).standing = .sent kind
  | .poll i =>
    ∃ kind ∈ [RequestKind.query, .modify, .insert, .loadtable],
      (s.callers i).standing = .polling kind
  | .recv i => s.net.replies i ≠ []
  | .serve i ord reply => Served.Allowed ServerOp.ofClient Fair s.net (.serve i (ord, reply))
  | .own op => Fair s.net.server op

instance (s : Site ι fp) (e : SiteEvent ι fp) : Decidable (s.Allowed e) :=
  match e with
  | .call i _ req => inferInstanceAs (Decidable ((s.callers i).standing = .idle ∧
      ∀ ref ∈ (s.callers i).returned.getLast?, ref.Failed → req.kind = .query))
  | .reset i => inferInstanceAs (Decidable (∃ kind ∈ [RequestKind.query, .modify, .insert, .loadtable],
      (s.callers i).standing = .sent kind))
  | .poll i => inferInstanceAs (Decidable (∃ kind ∈ [RequestKind.query, .modify, .insert, .loadtable],
      (s.callers i).standing = .polling kind))
  | .recv i => inferInstanceAs (Decidable (¬ s.net.replies i = []))
  | .serve i ord reply =>
    inferInstanceAs (Decidable (Served.Allowed ServerOp.ofClient Fair s.net (.serve i (ord, reply))))
  | .own op => inferInstanceAs (Decidable (Fair s.net.server op))

/-! ### What is always so -/

/-- Where a client stands, by what it has asked and been handed.  While it waits its slot is empty;
once it has been handed its answer, it returns with that or not at all. -/
def Placed (asked : List (HashOrder × ClientRequest)) (handed : List Str) (c : Caller) : Prop :=
  match c.standing with
  | .idle => handed.length = asked.length ∧ c.returned.length = asked.length ∧
      (0 < c.client.iErrorCode → ∃ ref ∈ c.returned.getLast?, ref.Failed)
  | .sent kind => ∃ past r, asked = past ++ [r] ∧ r.2.kind = kind ∧ c.returned.length = past.length ∧
      ((handed.length = past.length ∧ (kind ≠ .query → ¬ 0 < c.client.iErrorCode)) ∨
        ∃ before text reply, handed = before ++ [text] ∧ before.length = past.length ∧ Reads text reply ∧
          (kind ≠ .query → 0 < c.client.iErrorCode → ∃ d, reply = .error d))
  | .polling kind => ∃ past r, asked = past ++ [r] ∧ r.2.kind = kind ∧ c.returned.length = past.length ∧
      ((handed.length = past.length ∧ c.client.slot kind = kind.blank ∧ ¬ 0 < c.client.iErrorCode) ∨
        ∃ before text reply, handed = before ++ [text] ∧ before.length = past.length ∧ Reads text reply ∧
          (∀ exit, c.client.checkWhileReturn kind = some exit → c.client.slot kind = kind.heard reply) ∧
          (0 < c.client.iErrorCode → ∃ d, reply = .error d))

/-- Each call that has returned did so with the text of the same number. -/
def Heard (asked : List (HashOrder × ClientRequest)) (handed : List Str)
    (returned : List SlotRef) : Prop :=
  ∀ (k : Nat) ref, returned[k]? = some ref → ∃ r text reply, asked[k]? = some r ∧
    handed[k]? = some text ∧
    Reads text reply ∧ ref = r.2.kind.heard reply

/-- The history is that of the store, and each client is in its place. -/
structure Sound (dbname : Str) (s : Site ι fp) : Prop where
  net : Refines serverStep ServerOp.ofClient StoreStep Stands (DBManager.createLink dbname)
    (fun _ => none) s.net
  placed : ∀ i, Placed (s.net.asked i) (s.net.handed i) (s.callers i)
  heard : ∀ i, Heard (s.net.asked i) (s.net.handed i) (s.callers i).returned

variable {dbname : Str} {s s' : Site ι fp}

theorem heard_append {asked asked' : List (HashOrder × ClientRequest)} {handed handed' : List Str}
    {returned : List SlotRef} (h : Heard asked handed returned) :
    Heard (asked ++ asked') (handed ++ handed') returned := by
  intro k ref hk
  obtain ⟨r, text, reply, hr, htext, hreads, href⟩ := h k ref hk
  refine ⟨r, text, reply, ?_, ?_, hreads, href⟩
  · rw [List.getElem?_append_left (List.getElem?_eq_some_iff.mp hr).1, hr]
  · rw [List.getElem?_append_left (List.getElem?_eq_some_iff.mp htext).1, htext]

theorem sound_start (dbname : Str) (junk : ι → RequestKind → Int32) :
    (start dbname junk : Site ι fp).Sound dbname := by
  refine ⟨refines_start ⟨DBManager.stores_createLink dbname, DBManager.plain_createLink dbname⟩,
    fun i => ?_,
    fun i => ?_⟩
  · refine ⟨rfl, rfl, fun hcode => ?_⟩
    exact absurd (show (0 : Int32) < -1 from hcode) (by decide)
  · intro k ref hk
    cases hk

/-- What one client does leaves the others in their places. -/
theorem Sound.move (h : s.Sound dbname) {i : ι} {c : Caller}
    {n : Net ι (DBManager fp) (ServerOp fp) (HashOrder × ClientRequest) Str}
    (hn : Refines serverStep ServerOp.ofClient StoreStep Stands (DBManager.createLink dbname)
      (fun _ => none) n)
    (hother : ∀ j, j ≠ i → n.asked j = s.net.asked j ∧ n.handed j = s.net.handed j)
    (hplaced : Placed (n.asked i) (n.handed i) c) (hheard : Heard (n.asked i) (n.handed i) c.returned) :
    (⟨n, Function.update s.callers i c⟩ : Site ι fp).Sound dbname := by
  refine ⟨hn, fun j => ?_, fun j => ?_⟩
  · show Placed _ _ (Function.update s.callers i c j)
    by_cases hj : j = i
    · subst hj
      rw [Function.update_self]
      exact hplaced
    · obtain ⟨hasked, hhanded⟩ := hother j hj
      rw [Function.update_of_ne hj]
      dsimp only
      rw [hasked, hhanded]
      exact h.placed j
  · show Heard _ _ (Function.update s.callers i c j).returned
    by_cases hj : j = i
    · subst hj
      rw [Function.update_self]
      exact hheard
    · obtain ⟨hasked, hhanded⟩ := hother j hj
      rw [Function.update_of_ne hj]
      dsimp only
      rw [hasked, hhanded]
      exact h.heard j

/-! ### One step -/

variable {asked : List (HashOrder × ClientRequest)} {handed : List Str} {c : Caller} {kind : RequestKind}

theorem placed_call (h : Placed asked handed c) (hidle : c.standing = .idle) {ord : HashOrder}
    {req : ClientRequest} (hquery : ∀ ref ∈ c.returned.getLast?, ref.Failed → req.kind = .query) :
    Placed (asked ++ [(ord, req)]) handed { c with standing := .sent req.kind } := by
  unfold Placed at h
  rw [hidle] at h
  obtain ⟨hhanded, hreturned, hcode⟩ := h
  refine ⟨asked, (ord, req), rfl, rfl, hreturned, Or.inl ⟨hhanded, fun hkind hset => hkind ?_⟩⟩
  obtain ⟨ref, href, hfailed⟩ := hcode hset
  exact hquery ref href hfailed

theorem placed_reset (h : Placed asked handed c) (hsent : c.standing = .sent kind) :
    Placed asked handed { c with client := c.client.resetSlot kind, standing := .polling kind } := by
  unfold Placed at h
  rw [hsent] at h
  obtain ⟨past, r, hasked, hkind, hreturned, h⟩ := h
  refine ⟨past, r, hasked, hkind, hreturned, ?_⟩
  rcases h with ⟨hhanded, hcode⟩ | ⟨before, text, reply, hhanded, hbefore, hreads, herror⟩
  · refine Or.inl ⟨hhanded, c.client.slot_resetSlot kind, fun hset => ?_⟩
    obtain ⟨hno, hset⟩ := DBClient.iErrorCode_of_resetSlot hset
    exact hcode hno hset
  · have hlost : 0 < (c.client.resetSlot kind).iErrorCode → ∃ d, reply = .error d := fun hset =>
      herror (DBClient.iErrorCode_of_resetSlot hset).1 (DBClient.iErrorCode_of_resetSlot hset).2
    refine Or.inr ⟨before, text, reply, hhanded, hbefore, hreads, fun exit hexit => ?_, hlost⟩
    -- the reply is gone, so only an error makes the call return
    obtain ⟨d, rfl⟩ := hlost (DBClient.iErrorCode_of_blank (c.client.slot_resetSlot kind) hexit)
    exact c.client.slot_resetSlot kind

theorem placed_poll (h : Placed asked handed c) (hheard : Heard asked handed c.returned)
    (hpolling : c.standing = .polling kind) {exit : DBClient.Exit}
    (hexit : c.client.checkWhileReturn kind = some exit) :
    Placed asked handed { c with standing := .idle, returned := c.returned ++ [c.client.slot kind] } ∧
      Heard asked handed (c.returned ++ [c.client.slot kind]) := by
  unfold Placed at h
  rw [hpolling] at h
  obtain ⟨past, r, hasked, hkind, hreturned, ⟨-, hslot, hcode⟩ |
    ⟨before, text, reply, hhanded, hbefore, hreads, href, herror⟩⟩ := h
  · exact absurd (DBClient.iErrorCode_of_blank hslot hexit) hcode
  · have hslot := href exit hexit
    refine ⟨⟨?_, ?_, fun hset => ⟨_, List.getLast?_concat .., ?_⟩⟩, fun k ref hk => ?_⟩
    · rw [hhanded, hasked, List.length_append, List.length_append, hbefore]
      rfl
    · rw [hasked, List.length_append, List.length_append, hreturned]
      rfl
    · obtain ⟨d, rfl⟩ := herror hset
      rw [hslot]
      exact kind.failed_blank
    · by_cases hlt : k < c.returned.length
      · rw [List.getElem?_append_left hlt] at hk
        exact hheard k ref hk
      · rw [List.getElem?_append_right (Nat.le_of_not_lt hlt)] at hk
        obtain ⟨hzero, rfl⟩ := List.getElem?_eq_some_iff.mp hk
        rw [List.length_singleton] at hzero
        obtain rfl : k = past.length := by omega
        refine ⟨r, text, reply, ?_, ?_, hreads, ?_⟩
        · rw [hasked, List.getElem?_concat_length]
        · rw [hhanded, ← hbefore, List.getElem?_concat_length]
        · rw [List.getElem_singleton, hslot, hkind]

/-- A client that is handed a text waits for it. -/
theorem placed_recv (h : Placed asked handed c) {r : HashOrder × ClientRequest} {text : Str}
    {reply : Reply} (hasked : asked[handed.length]? = some r) (hreads : Reads text reply)
    (hanswers : AnswerTo r.2.kind reply) :
    Placed asked (handed ++ [text]) { c with client := c.client.take reply } := by
  have hlt : handed.length < asked.length := (List.getElem?_eq_some_iff.mp hasked).1
  have herror : ¬ 0 < c.client.iErrorCode → 0 < (c.client.take reply).iErrorCode →
      ∃ d, reply = .error d := by
    intro hno hset
    rcases hanswers.iErrorCode c.client with hd | hsame
    · exact hd
    · rw [hsame] at hset
      exact absurd hset hno
  have hlast : ∀ {past : List (HashOrder × ClientRequest)} {r' : HashOrder × ClientRequest}, asked =
      past ++ [r'] →
      handed.length = past.length → r' = r := by
    rintro past r' rfl hlen
    rw [hlen, List.getElem?_concat_length] at hasked
    exact Option.some.inj hasked
  have hdone : ∀ {past : List (HashOrder × ClientRequest)} {r' : HashOrder × ClientRequest}
      {before : List Str}
      {text' : Str}, asked = past ++ [r'] → handed = before ++ [text'] →
          before.length ≠ past.length := by
    rintro past r' before text' rfl rfl hlen
    rw [List.length_append, List.length_append, hlen] at hlt
    exact Nat.lt_irrefl _ hlt
  unfold Placed at h ⊢
  dsimp only
  cases hstanding : c.standing with
  | idle =>
    rw [hstanding] at h
    exact absurd h.1 (Nat.ne_of_lt hlt)
  | sent kind =>
    rw [hstanding] at h
    obtain ⟨past, r', hpast, hkind, hreturned,
      ⟨hhanded, hcode⟩ | ⟨before, text', -, hhanded, hbefore, -⟩⟩ := h
    · obtain rfl := hlast hpast hhanded
      exact ⟨past, r', hpast, hkind, hreturned, Or.inr ⟨handed, text, reply, rfl, hhanded, hreads,
        fun hno => herror (hcode hno)⟩⟩
    · exact absurd hbefore (hdone hpast hhanded)
  | polling kind =>
    rw [hstanding] at h
    obtain ⟨past, r', hpast, hkind, hreturned,
      ⟨hhanded, hslot, hcode⟩ | ⟨before, text', -, hhanded, hbefore, -⟩⟩ := h
    · obtain rfl := hlast hpast hhanded
      refine ⟨past, r', hpast, hkind, hreturned, Or.inr ⟨handed, text, reply, rfl, hhanded, hreads,
        fun _ _ => ?_, herror hcode⟩⟩
      rw [hkind] at hanswers
      exact DBClient.slot_take hanswers hslot
    · exact absurd hbefore (hdone hpast hhanded)

/-- An event of the server leaves the clients where they are. -/
theorem Sound.netEvent (h : s.Sound dbname)
    {e : Event ι (ServerOp fp) (HashOrder × ClientRequest) (HashOrder × LoadReply)}
    (hd : Served.Allowed ServerOp.ofClient Fair s.net e)
    (hkeep : ∀ n', netStep serverStep ServerOp.ofClient s.net e = some n' →
      n'.asked = s.net.asked ∧ n'.handed = s.net.handed) :
    ∃ s', s.netEvent e = some s' ∧ s'.Sound dbname := by
  obtain ⟨n', hstep, hn'⟩ := refines_step serverStep_refines h.net hd
  obtain ⟨hasked, hhanded⟩ := hkeep n' hstep
  refine ⟨{ s with net := n' }, ?_, hn', fun i => ?_, fun i => ?_⟩
  · unfold Site.netEvent
    rw [hstep]
    rfl
  · show Placed (n'.asked i) (n'.handed i) (s.callers i)
    rw [hasked, hhanded]
    exact h.placed i
  · show Heard (n'.asked i) (n'.handed i) (s.callers i).returned
    rw [hasked, hhanded]
    exact h.heard i

theorem Sound.call (h : s.Sound dbname) {i : ι} {ord : HashOrder} {req : ClientRequest}
    (hd : s.Allowed (.call i ord req)) : ∃ s', s.step (.call i ord req) = some s' ∧ s'.Sound dbname := by
  obtain ⟨hidle, hquery⟩ := hd
  obtain ⟨n', hstep, hn'⟩ := refines_step (e := .send i (ord, req)) serverStep_refines h.net trivial
  have hplaced : Placed (s.net.asked i ++ [(ord, req)]) (s.net.handed i)
      { s.callers i with standing := .sent req.kind } := placed_call (h.placed i) hidle hquery
  have hheard : Heard (s.net.asked i ++ [(ord, req)]) (s.net.handed i ++ []) (s.callers i).returned :=
    heard_append (h.heard i)
  rw [List.append_nil] at hheard
  have hself : n'.asked i = s.net.asked i ++ [(ord, req)] ∧ n'.handed i = s.net.handed i := by
    cases hstep
    exact ⟨Function.update_self .., rfl⟩
  refine ⟨⟨n', Function.update s.callers i { s.callers i with standing := .sent req.kind }⟩, ?_,
    h.move hn' (fun j hj => ?_) ?_ ?_⟩
  · unfold step
    dsimp only
    rw [hidle]
    show (netStep serverStep ServerOp.ofClient s.net (.send i (ord, req))).map _ = _
    rw [hstep]
    rfl
  · cases hstep
    exact ⟨Function.update_of_ne hj .., rfl⟩
  · rw [hself.1, hself.2]
    exact hplaced
  · rw [hself.1, hself.2]
    exact hheard

theorem Sound.reset (h : s.Sound dbname) {i : ι} (hd : s.Allowed (.reset i)) :
    ∃ s', s.step (.reset i) = some s' ∧ s'.Sound dbname := by
  obtain ⟨kind, -, hsent⟩ := hd
  refine ⟨_, ?_, h.move h.net (fun _ _ => ⟨rfl, rfl⟩) (placed_reset (h.placed i) hsent) (h.heard i)⟩
  unfold step
  dsimp only
  rw [hsent]
  rfl

theorem Sound.poll (h : s.Sound dbname) {i : ι} (hd : s.Allowed (.poll i)) :
    ∃ s', s.step (.poll i) = some s' ∧ s'.Sound dbname := by
  obtain ⟨kind, -, hpolling⟩ := hd
  unfold step
  dsimp only
  rw [hpolling]
  dsimp only
  cases hexit : (s.callers i).client.checkWhileReturn kind with
  | none => exact ⟨s, rfl, h⟩
  | some exit =>
    obtain ⟨hplaced, hheard⟩ := placed_poll (h.placed i) (h.heard i) hpolling hexit
    exact ⟨_, rfl, h.move h.net (fun _ _ => ⟨rfl, rfl⟩) hplaced hheard⟩

theorem Sound.recv (h : s.Sound dbname) {i : ι} (hd : s.Allowed (.recv i)) :
    ∃ s', s.step (.recv i) = some s' ∧ s'.Sound dbname := by
  obtain ⟨n', hstep, hn'⟩ := refines_step (e := .take i) serverStep_refines h.net hd
  obtain ⟨text, rest, htext⟩ := List.exists_cons_of_ne_nil (show s.net.replies i ≠ [] from hd)
  have hself : n'.asked = s.net.asked ∧
      n'.handed = Function.update s.net.handed i (s.net.handed i ++ [text]) := by
    unfold netStep at hstep
    dsimp only at hstep
    rw [htext] at hstep
    cases hstep
    exact ⟨rfl, rfl⟩
  have hhanded : n'.handed i = s.net.handed i ++ [text] := by
    rw [hself.2, Function.update_self]
  -- the text has its place in the history, and there the request it answers
  have hnew : (n'.handed i)[(s.net.handed i).length]? = some text := by
    rw [hhanded, List.getElem?_concat_length]
  obtain ⟨S, hspec, -⟩ := hn'.spec
  obtain ⟨p, r, op, hasked, hentry, -⟩ := hn'.sound.answered (length_sent hn'.sound hspec) hnew
  have hmem := List.mem_of_getElem? hentry
  obtain ⟨env, henv⟩ := hn'.sound.ops _ hmem _ rfl
  obtain ⟨S1, S2, hone⟩ := hspec.exists_step hmem
  dsimp only at henv hone
  rw [henv] at hone
  obtain ⟨reply, hreads, hanswers⟩ := exists_reply hone
  rw [hself.1] at hasked
  have hheard : Heard (s.net.asked i ++ []) (s.net.handed i ++ [text]) (s.callers i).returned :=
    heard_append (h.heard i)
  rw [List.append_nil] at hheard
  refine ⟨⟨n', Function.update s.callers i
    { s.callers i with client := (s.callers i).client.take reply }⟩, ?_,
    h.move hn' (fun j hj => ?_) ?_ ?_⟩
  · unfold step
    dsimp only
    rw [htext]
    dsimp only
    rw [DBClient.notifyRecvText_reads hreads]
    show (netStep serverStep ServerOp.ofClient s.net (.take i)).map _ = _
    rw [hstep]
    rfl
  · rw [hself.1, hself.2, Function.update_of_ne hj]
    exact ⟨rfl, rfl⟩
  · rw [hself.1, hhanded]
    exact placed_recv (h.placed i) hasked hreads hanswers
  · rw [hself.1, hhanded]
    exact hheard

theorem sound_step (s : Site ι fp) (e : SiteEvent ι fp) (h : s.Sound dbname) (hd : s.Allowed e) :
    ∃ s', s.step e = some s' ∧ s'.Sound dbname := by
  cases e with
  | call i ord req => exact h.call hd
  | reset i => exact h.reset hd
  | poll i => exact h.poll hd
  | recv i => exact h.recv hd
  | serve i ord reply =>
    refine h.netEvent hd fun n' hn' => ?_
    unfold netStep at hn'
    dsimp only at hn'
    split at hn'
    · cases hn'
    · obtain ⟨p, -, rfl⟩ := Option.map_eq_some_iff.mp hn'
      exact ⟨rfl, rfl⟩
  | own op =>
    refine h.netEvent (e := .own op) hd fun n' hn' => ?_
    obtain ⟨p, -, rfl⟩ := Option.map_eq_some_iff.mp hn'
    exact ⟨rfl, rfl⟩

/-! ### Whole runs -/

/-- What a step does to the net is an event of the net, if it does anything. -/
theorem netStep_of_step {e : SiteEvent ι fp} (hs : s.step e = some s') :
    s'.net = s.net ∨ ∃ e', netStep serverStep ServerOp.ofClient s.net e' = some s'.net := by
  have event : ∀ {s0 : Site ι fp} {e'}, s0.netEvent e' = some s' → s0.net = s.net →
      ∃ e', netStep serverStep ServerOp.ofClient s.net e' = some s'.net := by
    intro s0 e' h hsame
    obtain ⟨n', hn', rfl⟩ := Option.map_eq_some_iff.mp h
    exact ⟨e', hsame ▸ hn'⟩
  unfold step at hs
  cases e with
  | call i ord req =>
    dsimp only at hs
    split at hs
    · exact Or.inr (event hs rfl)
    · cases hs
  | reset i =>
    dsimp only at hs
    split at hs
    · cases hs
      exact Or.inl rfl
    · cases hs
  | poll i =>
    dsimp only at hs
    split at hs
    · split at hs <;> cases hs <;> exact Or.inl rfl
    · cases hs
  | recv i =>
    dsimp only at hs
    split at hs
    · cases hs
    · split at hs
      · exact Or.inr (event hs rfl)
      · cases hs
  | serve i ord reply => exact Or.inr (event hs rfl)
  | own op => exact Or.inr (event hs rfl)

theorem netRun_of_run {evs : List (SiteEvent ι fp)} (hr : run step s evs = some s') :
    ∃ evs', run (netStep serverStep ServerOp.ofClient) s.net evs' = some s'.net := by
  induction evs generalizing s with
  | nil =>
    cases hr
    exact ⟨[], rfl⟩
  | cons e evs ih =>
    obtain ⟨s1, hs, hr⟩ := Option.bind_eq_some_iff.mp hr
    obtain ⟨evs', hevs⟩ := ih hr
    rcases netStep_of_step hs with hsame | ⟨e', he'⟩
    · exact ⟨evs', hsame ▸ hevs⟩
    · exact ⟨e' :: evs', Option.bind_eq_some_iff.mpr ⟨s1.net, he', hevs⟩⟩

end Site

/-- A text is read in one way. -/
theorem Reads.unique {text : Str} {r r' : Reply} (h : Reads text r) (h' : Reads text r') : r = r' := by
  obtain ⟨s, hs⟩ := h
  obtain ⟨s', hs'⟩ := h'
  rw [hs] at hs'
  cases hs'
  rfl

/-- **Calls linearize.**  Clients call, reset, poll and receive, the server serves them and runs
its passes, all in any order.  Nothing fails, and there is one run of the store, the requests in
the order of the server's history, such that at any moment each call that has returned did so with
what the store answers to it, and stands in that order before every call that is made later. -/
theorem DBClient.calls_linearize (dbname : Str) (junk : ι → RequestKind → Int32)
    (evs1 evs2 : List (SiteEvent ι fp))
    (hok : Within Site.step Site.Allowed (Site.start dbname junk) (evs1 ++ evs2)) :
    ∃ s1 s2 answers S, run Site.step (Site.start dbname junk) evs1 = some s1 ∧
      run Site.step s1 evs2 = some s2 ∧
      SpecRun (KeyedStore.Step []) (fun _ => none)
        (s2.net.history.map fun e => DBManager.request e.op.call) answers S ∧
      ∀ i k ref, (s1.callers i).returned[k]? = some ref →
        ∃ p r op text answer, (s1.net.asked i)[k]? = some r ∧ place i k p s2.net.history ∧
          s2.net.history[p]? = some ⟨some (i, r), op, [text]⟩ ∧ answers[p]? = some answer ∧
          ref = r.2.kind.returned answer ∧
          ∀ j l q, (s1.net.asked j).length ≤ l → place j l q s2.net.history → p < q := by
  obtain ⟨s2, hrun, hsound2⟩ := run_of_within Site.sound_step _ _ (Site.sound_start dbname junk) hok
  rw [run_append] at hrun
  obtain ⟨s1, hrun1, hrun2⟩ := Option.bind_eq_some_iff.mp hrun
  obtain ⟨s1', hrun1', hsound1⟩ := run_of_within Site.sound_step _ _ (Site.sound_start dbname junk)
    (within_append.mp hok).1
  obtain rfl := Option.some.inj (hrun1.symm.trans hrun1')
  obtain ⟨S, hspec, -⟩ := hsound2.net.spec
  have hretold : ∃ answers, SpecRun (KeyedStore.Step []) (fun _ => none)
      ((s2.net.history.map (·.op)).map fun op => DBManager.request op.call) answers S ∧
        List.Forall₂ (fun texts answer => List.Forall₂ Reads texts (told answer).toList)
          (s2.net.history.map (·.sent)) answers := hspec.retold fun _ _ _ _ hstep => hstep
  obtain ⟨answers, hanswers, htold⟩ := hretold
  obtain ⟨evs', hevs⟩ := Site.netRun_of_run hrun2
  have hgrows := history_grows_run hevs
  have hone : ∀ e ∈ s1.net.history, e.client ≠ none → e.sent.length = 1 := fun e he =>
    length_sent hsound2.net.sound hspec e (hgrows.subset he)
  rw [List.map_map] at hanswers
  refine ⟨s1, s2, answers, S, hrun1, hrun2, hanswers, fun i k ref hk => ?_⟩
  obtain ⟨r, text, reply, hasked, htext, hreads, href⟩ := hsound1.heard i k ref hk
  obtain ⟨p, r', op, hasked', hentry, hplace⟩ := hsound1.net.sound.answered hone htext
  obtain rfl := Option.some.inj (hasked.symm.trans hasked')
  have hlt : p < s1.net.history.length := (List.getElem?_eq_some_iff.mp hentry).1
  have hentry2 : s2.net.history[p]? = some ⟨some (i, r), op, [text]⟩ := by
    obtain ⟨rest, hrest⟩ := hgrows
    rw [← hrest, List.getElem?_append_left hlt, hentry]
  have hplace2 := place_grows hplace hgrows
  -- the answer of the store at that place is the one read from the text
  have hsent : (s2.net.history.map (·.sent))[p]? = some [text] := by
    rw [List.getElem?_map, hentry2]
    rfl
  obtain ⟨answer, hanswer, htells⟩ := getElem?_forall₂ htold hsent
  refine ⟨p, r, op, text, answer, hasked, hplace2, hentry2, hanswer, ?_, ?_⟩
  · unfold RequestKind.returned
    cases htell : told answer with
    | none =>
      rw [htell] at htells
      cases htells
    | some reply' =>
      rw [htell] at htells
      cases htells with
      | cons hreads' _ =>
        rw [href, hreads.unique hreads']
        rfl
  · intro j l q hlater hq
    exact order_respects_time hsound1.net.sound hevs hone (List.getElem?_eq_some_iff.mp htext).1
      hlater hplace2 hq

end Sites

/-- Of two clients one loads a table, then the other puts a row in, whose answer comes before its
call resets. -/
def oneLoads : List (SiteEvent Bool .exactRational) :=
  [.call false .plain (.loadtable ⟨protocolDbCToSLoadtable, lit "db", lit "t"⟩), .reset false,
    .serve false .plain DBManager.rowReply, .poll false, .recv false, .poll false,
    .call true .plain (.insert ⟨protocolDbCToSInsert, lit "t", UMap.insertNew (lit "name") (lit "x") ∅⟩),
    .serve true .plain DBManager.rowReply, .recv true, .reset true]

/-- The first asks for that row. -/
def oneLooks : List (SiteEvent Bool .exactRational) :=
  [.call false .plain (.query ⟨protocolDbCToSQuery, lit "t", lit "id", lit "2", [], []⟩), .poll true,
    .serve false .plain DBManager.rowReply, .reset false,
      .own (.update .plain (fun _ _ => true) (10 : ℚ)),
    .recv false, .poll false]

theorem DBClient.calls_linearize_two :
    ∃ s1 s2 answers S, run Site.step (Site.start (lit "db") fun _ _ => 0) oneLoads = some s1 ∧
      run Site.step s1 oneLooks = some s2 ∧
      SpecRun (KeyedStore.Step []) (fun _ => none)
        (s2.net.history.map fun e => DBManager.request e.op.call) answers S ∧
      ∀ i k ref, (s1.callers i).returned[k]? = some ref →
        ∃ p r op text answer, (s1.net.asked i)[k]? = some r ∧ place i k p s2.net.history ∧
          s2.net.history[p]? = some ⟨some (i, r), op, [text]⟩ ∧ answers[p]? = some answer ∧
          ref = r.2.kind.returned answer ∧
          ∀ j l q, (s1.net.asked j).length ≤ l → place j l q s2.net.history → p < q :=
  DBClient.calls_linearize (lit "db") (fun _ _ => 0) oneLoads oneLooks (by decide +kernel)

end FuServer
