import FuServer.Model.Dispatch

/-!
# What comes of a client's message

`RecvProt` and `FULogin` look into a parsed value before they know its type,
and jsoncpp throws on the wrong one.  `settles_iff` lists the messages for
which `CheckProtocolBuffer` returns with one of its four outcomes.
-/

namespace FuServer

open Bytes Outcome

/-! ## Shapes of values -/

namespace Json

/-- A value that can be asked for a key. -/
def IsMap : Json → Prop
  | null => True
  | obj _ => True
  | _ => False

/-- A value that can be taken for a string. -/
def IsScalar : Json → Prop
  | arr _ => False
  | obj _ => False
  | _ => True

theorem findKeyValue_of_isMap {v : Json} (h : v.IsMap) (key : Str) :
    v.findKeyValue key = .ok (v.member (cstr key)) := by
  cases v with
  | null => rfl
  | obj members => rfl
  | bool b => exact h.elim
  | num text => exact h.elim
  | str text => exact h.elim
  | arr items => exact h.elim

theorem findKeyValue_of_not_isMap {v : Json} (h : ¬ v.IsMap) (key : Str) :
    v.findKeyValue key = .error .logicError := by
  cases v with
  | null => exact absurd trivial h
  | obj members => exact absurd trivial h
  | bool b => rfl
  | num text => rfl
  | str text => rfl
  | arr items => rfl

theorem atKey_of_isMap {v : Json} (h : v.IsMap) (key : Str) :
    v.atKey key = .ok ((v.member (cstr key)).getD null) := by
  rw [atKey, findKeyValue_of_isMap h]
  rfl

theorem atKey_of_not_isMap {v : Json} (h : ¬ v.IsMap) (key : Str) :
    v.atKey key = .error .logicError := by
  rw [atKey, findKeyValue_of_not_isMap h]
  rfl

theorem asString_of_isScalar {v : Json} (h : v.IsScalar) : ∃ s, v.asString = .ok s := by
  cases v with
  | null => exact ⟨_, rfl⟩
  | bool b => exact ⟨_, rfl⟩
  | num text => exact ⟨_, rfl⟩
  | str text => exact ⟨_, rfl⟩
  | arr items => exact h.elim
  | obj members => exact h.elim

theorem asString_of_not_isScalar {v : Json} (h : ¬ v.IsScalar) : v.asString = .error .logicError := by
  cases v with
  | null => exact absurd trivial h
  | bool b => exact absurd trivial h
  | num text => exact absurd trivial h
  | str text => exact absurd trivial h
  | arr items => rfl
  | obj members => rfl

theorem lookup_cons_eq (key' key : Str) (v : Json) (members : List (Str × Json)) :
    ((key, v) :: members).lookup key' = if key' = key then some v else members.lookup key' := by
  rw [List.lookup_cons]
  by_cases h : key' = key
  · rw [if_pos h, beq_iff_eq.mpr h]
  · rw [if_neg h, beq_false_of_ne h]

theorem lookup_putMember (key key' : Str) (v : Json) (members : List (Str × Json)) :
    (putMember key v members).lookup key' = if key' = key then some v else members.lookup key' := by
  induction members with
  | nil => exact lookup_cons_eq key' key v []
  | cons m members ih =>
    obtain ⟨k, w⟩ := m
    rw [putMember]
    by_cases hk : k = key
    · subst hk
      rw [if_pos rfl, lookup_cons_eq, lookup_cons_eq]
      split
      · rfl
      · rfl
    · rw [if_neg hk, lookup_cons_eq, lookup_cons_eq, ih]
      by_cases h : key' = k
      · subst h
        rw [if_pos rfl, if_neg hk, if_pos rfl]
      · rw [if_neg h, if_neg h]

theorem assign_of_isMap {v : Json} (h : v.IsMap) (key : Str) (w : Json) :
    ∃ members, v.assign key w = .ok (obj members) ∧
      ∀ key', key' ≠ key → (obj members).member key' = v.member key' := by
  cases v with
  | null =>
    refine ⟨_, rfl, fun key' hne => ?_⟩
    show List.lookup key' [(key, w)] = none
    rw [List.lookup_cons, beq_false_of_ne hne]
    rfl
  | obj members =>
    refine ⟨_, rfl, fun key' hne => ?_⟩
    show (putMember key w members).lookup key' = members.lookup key'
    rw [lookup_putMember, if_neg hne]
  | bool b => exact h.elim
  | num text => exact h.elim
  | str text => exact h.elim
  | arr items => exact h.elim

end Json

open Json

/-! ## The protocol files -/

/-- An entry of a protocol file: a map whose message data is a map. -/
def Json.IsEntry (v : Json) : Prop := v.IsMap ∧ ∀ d, v.member (lit "msgData") = some d → d.IsMap

/-- Protocol files as the server ships them: maps of entries. -/
structure ProtFiles where
  protList : List Json
  isMap : ∀ file ∈ protList, file.IsMap
  entries : ∀ file ∈ protList, ∀ key v, file.member key = some v → v.IsEntry

namespace ProtFiles

variable (P : ProtFiles)

/-- The entry of an id in the first file that has one. -/
def entry (protId : Str) : Option Json := P.protList.findSome? fun file => file.member (cstr protId)

theorem isProtIdInList_eq (protId : Str) :
    FUProtocol.isProtIdInList P.protList protId = .ok (P.entry protId) := by
  unfold entry
  have hmap := P.isMap
  generalize P.protList = protList at hmap
  induction protList with
  | nil => rfl
  | cons file protList ih =>
    have hfile := findKeyValue_of_isMap (hmap file List.mem_cons_self) protId
    rw [FUProtocol.isProtIdInList, hfile, ok_bind, List.findSome?_cons]
    cases file.member (cstr protId) with
    | some v => rfl
    | none => exact ih fun f hf => hmap f (List.mem_cons_of_mem file hf)

theorem isEntry_of_entry {protId : Str} {v : Json} (h : P.entry protId = some v) : v.IsEntry := by
  obtain ⟨file, hfile, hv⟩ := List.exists_of_findSome?_eq_some h
  exact P.entries file hfile _ v hv

/-- A protocol made from an entry is an entry. -/
theorem createProt_ok (protId : Int) :
    ∃ r, FUProtocol.createProt P.protList protId .null = .ok r ∧ r.2.IsEntry := by
  unfold FUProtocol.createProt
  rw [isProtIdInList_eq, ok_bind]
  cases he : P.entry (fuIntToStr protId) with
  | none => exact ⟨(false, .null), rfl, trivial, fun d hd => by cases hd⟩
  | some v =>
    obtain ⟨hmap, hdata⟩ := P.isEntry_of_entry he
    obtain ⟨members, hassign, hrest⟩ := assign_of_isMap hmap (lit "msgId") (.num (fuIntToStr protId))
    dsimp only
    rw [hassign]
    refine ⟨(true, .obj members), rfl, trivial, fun d hd => hdata d ?_⟩
    rw [← hrest (lit "msgData") (by decide)]
    exact hd

theorem sendError_ok (protId : Int) : ∃ v, FUProtocol.sendError P.protList protId = .ok v := by
  obtain ⟨r, hr, -⟩ := P.createProt_ok protId
  unfold FUProtocol.sendError
  rw [hr]
  exact ⟨_, rfl⟩

theorem loginReply_ok (loginPwd : Str) : ∃ v, FULogin.loginReply P.protList loginPwd = .ok v := by
  obtain ⟨r, hr, hmap, hdata⟩ := P.createProt_ok 1002
  have hnul : cstr (lit "msgData") = lit "msgData" := by decide
  have hmsgData : ((r.2.member (lit "msgData")).getD null).IsMap := by
    cases hm : r.2.member (lit "msgData") with
    | none => exact trivial
    | some d => exact hdata d hm
  obtain ⟨members, hassign, -⟩ := assign_of_isMap hmsgData (lit "loginIn")
    (.num (if loginPwd = lit "111111" then lit "1" else lit "0"))
  obtain ⟨members', hassign', -⟩ := assign_of_isMap hmap (lit "msgData") (.obj members)
  unfold FULogin.loginReply
  rw [hr, ok_bind, atKey_of_isMap hmap, hnul, ok_bind]
  dsimp only
  rw [hassign, ok_bind, hassign']
  exact ⟨_, rfl⟩

end ProtFiles

/-! ## Dispatch -/

/-- The outcomes a message may have: an error reply 100 or 101, the first logic
that takes the id, or a log line when none does. -/
def Handling.Proper (regGameLogicList : List GameBaseLogic) : Handling → Prop
  | .errorReply protId _ => protId = 100 ∨ protId = 101
  | .handled i protId value sent =>
    (∃ pLogic, regGameLogicList[i]? = some pLogic ∧ pLogic protId value = .ok (some sent)) ∧
      ∀ pLogic ∈ regGameLogicList.take i, pLogic protId value = .ok none
  | .unhandled protId value => ∀ pLogic ∈ regGameLogicList, pLogic protId value = .ok none
  | .dropped _ => False

/-- By induction on the logics that are left, those before them having refused. -/
theorem dispatch_proper {protId : Int} {value : Json} (rest : List GameBaseLogic) :
    ∀ (pre : List GameBaseLogic) (h : Handling),
      (∀ pLogic ∈ pre, pLogic protId value = .ok none) →
      FUNetServer.dispatch protId value pre.length rest = .ok h → h.Proper (pre ++ rest) := by
  induction rest with
  | nil =>
    intro pre h hpre hd
    cases hd
    rw [List.append_nil]
    exact hpre
  | cons pLogic rest ih =>
    intro pre h hpre hd
    rw [FUNetServer.dispatch] at hd
    obtain ⟨taken, htaken, hd⟩ := bind_eq_ok.mp hd
    cases taken with
    | some sent =>
      cases hd
      refine ⟨⟨pLogic, ?_, htaken⟩, fun other hother => ?_⟩
      · rw [List.getElem?_append_right (Nat.le_refl _), Nat.sub_self]
        rfl
      · rw [List.take_left] at hother
        exact hpre other hother
    | none =>
      have hlen : pre.length + 1 = (pre ++ [pLogic]).length := by rw [List.length_append]; rfl
      dsimp only at hd
      rw [hlen] at hd
      have hproper := ih (pre ++ [pLogic]) h (fun other hother => ?_) hd
      · rw [List.append_assoc] at hproper
        exact hproper
      · rcases List.mem_append.mp hother with hmem | hmem
        · exact hpre other hmem
        · rw [List.mem_singleton.mp hmem]
          exact htaken

/-! ## Logins -/

/-- Message data whose name and password can be read. -/
def Json.IsLogin (data : Json) : Prop :=
  data.IsMap ∧ (∀ x, data.member (lit "loginName") = some x → x.IsScalar) ∧
    ∀ x, data.member (lit "loginPwd") = some x → x.IsScalar

/-- An absent member reads as the empty text. -/
theorem isScalar_getD {data : Json} {key : Str} :
    ((data.member key).getD null).IsScalar ↔ ∀ x, data.member key = some x → x.IsScalar := by
  cases data.member key with
  | none => exact iff_of_true trivial fun x hx => by cases hx
  | some y => exact ⟨fun h x hx => by cases hx; exact h, fun h => h y rfl⟩

theorem checkProtocol_login_iff (P : ProtFiles) {value data : Json} (hmap : value.IsMap)
    (hdata : value.member (lit "msgData") = some data) :
    (∃ r, FULogin.checkProtocol P.protList 1001 value = .ok r) ↔ data.IsLogin := by
  have hd : cstr (lit "msgData") = lit "msgData" := by decide
  have hn : cstr (lit "loginName") = lit "loginName" := by decide
  have hp : cstr (lit "loginPwd") = lit "loginPwd" := by decide
  unfold FULogin.checkProtocol Json.IsLogin
  rw [if_pos rfl, atKey_of_isMap hmap, ok_bind, hd, hdata, Option.getD_some, ← isScalar_getD,
    ← isScalar_getD]
  by_cases hm : data.IsMap
  · rw [atKey_of_isMap hm, atKey_of_isMap hm, ok_bind, hn, hp]
    by_cases hs : ((data.member (lit "loginName")).getD null).IsScalar
    · obtain ⟨name, hname⟩ := asString_of_isScalar hs
      rw [hname, ok_bind, ok_bind]
      by_cases hs' : ((data.member (lit "loginPwd")).getD null).IsScalar
      · obtain ⟨pwd, hpwd⟩ := asString_of_isScalar hs'
        obtain ⟨reply, hreply⟩ := P.loginReply_ok pwd
        rw [hpwd, ok_bind, hreply]
        exact iff_of_true ⟨_, rfl⟩ ⟨hm, hs, hs'⟩
      · rw [asString_of_not_isScalar hs']
        exact iff_of_false (fun ⟨r, hr⟩ => by cases hr) fun h => hs' h.2.2
    · rw [asString_of_not_isScalar hs]
      exact iff_of_false (fun ⟨r, hr⟩ => by cases hr) fun h => hs h.2.1
  · rw [atKey_of_not_isMap hm]
    exact iff_of_false (fun ⟨r, hr⟩ => by cases hr) fun h => hm h.1

theorem dispatch_login_iff (P : ProtFiles) {value data : Json} (hmap : value.IsMap)
    (hdata : value.member (lit "msgData") = some data) (protId : Int) :
    (∃ h, FUNetServer.dispatch protId value 0 (registerNetServer P.protList) = .ok h) ↔
      (protId = 1001 → data.IsLogin) := by
  unfold registerNetServer FUNetServer.dispatch
  by_cases hid : protId = 1001
  · subst hid
    rw [← checkProtocol_login_iff P hmap hdata]
    cases hc : FULogin.checkProtocol P.protList 1001 value with
    | error e =>
      refine iff_of_false (fun ⟨h, hh⟩ => by cases hh) fun h => ?_
      obtain ⟨r, hr⟩ := h rfl
      cases hr
    | ok taken =>
      rw [ok_bind]
      refine iff_of_true ?_ fun _ => ⟨taken, rfl⟩
      cases taken with
      | none => exact ⟨_, rfl⟩
      | some sent => exact ⟨_, rfl⟩
  · have hnone : FULogin.checkProtocol P.protList protId value = .ok none := by
      unfold FULogin.checkProtocol
      rw [if_neg hid]
      rfl
    rw [hnone]
    exact iff_of_true ⟨_, rfl⟩ fun h => absurd h hid

/-! ## Messages -/

namespace ProtFiles

variable (P : ProtFiles) (parse : Str → Option Json) (buf : Str)

/-- `CheckProtocolBuffer` returns, with one of the four outcomes. -/
def Settles : Prop :=
  Returns (FUNetServer.checkProtocolBuffer parse P.protList (registerNetServer P.protList) buf)
    (·.Proper (registerNetServer P.protList))

/-- A value that can be looked into: a map; if it has an id and data, the id is
no array and no object; if the id is in the list, its number is at least -2;
and the data of a login has a readable name and password. -/
def Readable (v : Json) : Prop :=
  v.IsMap ∧ ∀ pIdValue data, v.member (lit "msgId") = some pIdValue →
    v.member (lit "msgData") = some data →
    pIdValue.IsScalar ∧ ∀ s, pIdValue.asString = .ok s → (P.entry s).isSome = true →
      -2 ≤ atoi s ∧ (atoi s = 1001 → data.IsLogin)

variable {P parse buf}

theorem settles_of_raise {e : Raised}
    (h : FUProtocol.recvProt parse P.protList buf = .error e) : ¬ P.Settles parse buf := by
  unfold Settles FUNetServer.checkProtocolBuffer
  rw [h]
  exact not_returns_error

theorem settles_of_neg {protId : Int} {v : Json}
    (h : FUProtocol.recvProt parse P.protList buf = .ok (protId, v)) (hneg : protId < 0) :
    P.Settles parse buf ↔ -2 ≤ protId := by
  unfold Settles FUNetServer.checkProtocolBuffer
  rw [h, ok_bind, if_pos hneg]
  by_cases h1 : protId = -1
  · obtain ⟨sent, hsent⟩ := P.sendError_ok 100
    rw [if_pos h1, hsent]
    exact iff_of_true (returns_ok.mpr (Or.inl rfl)) (by omega)
  · rw [if_neg h1]
    by_cases h2 : protId = -2
    · obtain ⟨sent, hsent⟩ := P.sendError_ok 101
      rw [if_pos h2, hsent]
      exact iff_of_true (returns_ok.mpr (Or.inr rfl)) (by omega)
    · rw [if_neg h2]
      exact iff_of_false (fun h' => returns_ok.mp h') (by omega)

theorem settles_of_id {protId : Int} {v data : Json}
    (h : FUProtocol.recvProt parse P.protList buf = .ok (protId, v)) (hpos : 0 ≤ protId)
    (hmap : v.IsMap) (hdata : v.member (lit "msgData") = some data) :
    P.Settles parse buf ↔ (protId = 1001 → data.IsLogin) := by
  rw [← dispatch_login_iff P hmap hdata protId]
  unfold Settles FUNetServer.checkProtocolBuffer
  rw [h, ok_bind, if_neg (by simpa using hpos)]
  constructor
  · rintro ⟨out, hout, -⟩
    exact ⟨out, hout⟩
  · rintro ⟨out, hout⟩
    exact ⟨out, hout, dispatch_proper _ [] out (fun _ h => absurd h List.not_mem_nil) hout⟩

theorem recvProt_of_none (hparse : parse buf = none) :
    FUProtocol.recvProt parse P.protList buf = .ok (-1, .null) := by
  unfold FUProtocol.recvProt
  rw [hparse]

/-- `find` is called before the type is known. -/
theorem recvProt_of_not_isMap {v : Json} (hparse : parse buf = some v) (hmap : ¬ v.IsMap) :
    FUProtocol.recvProt parse P.protList buf = .error .logicError := by
  unfold FUProtocol.recvProt
  rw [hparse]
  dsimp only
  rw [findKeyValue_of_not_isMap hmap]
  rfl

/-- Without an id or without data a map is answered with -1. -/
theorem recvProt_of_missing {v : Json} (hparse : parse buf = some v) (hmap : v.IsMap)
    (h : v.member (lit "msgId") = none ∨ v.member (lit "msgData") = none) :
    FUProtocol.recvProt parse P.protList buf = .ok (-1, v) := by
  have hmsgId : cstr (lit "msgId") = lit "msgId" := by decide
  have hmsgData : cstr (lit "msgData") = lit "msgData" := by decide
  unfold FUProtocol.recvProt
  rw [hparse]
  dsimp only
  rw [findKeyValue_of_isMap hmap, findKeyValue_of_isMap hmap, ok_bind, hmsgId, hmsgData]
  cases hid : v.member (lit "msgId") with
  | none => rfl
  | some pIdValue =>
    rcases h with h | h
    · rw [hid] at h
      cases h
    · rw [h]
      rfl

theorem recvProt_of_members {v pIdValue data : Json} (hparse : parse buf = some v) (hmap : v.IsMap)
    (hid : v.member (lit "msgId") = some pIdValue) (hdata : v.member (lit "msgData") = some data) :
    FUProtocol.recvProt parse P.protList buf = do
      let s ← pIdValue.asString
      return (if (P.entry s).isSome then atoi s else -2, v) := by
  have hmsgId : cstr (lit "msgId") = lit "msgId" := by decide
  have hmsgData : cstr (lit "msgData") = lit "msgData" := by decide
  unfold FUProtocol.recvProt
  rw [hparse]
  dsimp only
  rw [findKeyValue_of_isMap hmap, findKeyValue_of_isMap hmap, ok_bind, hmsgId, hmsgData, hid, hdata]
  dsimp only
  rw [ok_bind]
  dsimp only
  cases pIdValue.asString with
  | error e => rfl
  | ok s =>
    rw [ok_bind, ok_bind, P.isProtIdInList_eq, ok_bind]
    cases P.entry s <;> rfl

theorem settles_of_members {v pIdValue data : Json} (hparse : parse buf = some v) (hmap : v.IsMap)
    (hid : v.member (lit "msgId") = some pIdValue) (hdata : v.member (lit "msgData") = some data) :
    P.Settles parse buf ↔
      pIdValue.IsScalar ∧ ∀ s, pIdValue.asString = .ok s → (P.entry s).isSome = true →
        -2 ≤ atoi s ∧ (atoi s = 1001 → data.IsLogin) := by
  have hrecv := recvProt_of_members (P := P) hparse hmap hid hdata
  by_cases hscalar : pIdValue.IsScalar
  · obtain ⟨s, hs⟩ := asString_of_isScalar hscalar
    have hone : (∀ s', pIdValue.asString = .ok s' → (P.entry s').isSome = true →
        -2 ≤ atoi s' ∧ (atoi s' = 1001 → data.IsLogin)) ↔
        ((P.entry s).isSome = true → -2 ≤ atoi s ∧ (atoi s = 1001 → data.IsLogin)) := by
      constructor
      · intro h
        exact h s hs
      · intro h s' hs'
        rw [hs] at hs'
        cases hs'
        exact h
    rw [hone]
    rw [hs, ok_bind] at hrecv
    by_cases hlisted : (P.entry s).isSome = true
    · rw [if_pos hlisted] at hrecv
      by_cases hneg : atoi s < 0
      · rw [settles_of_neg hrecv hneg]
        constructor
        · intro h
          exact ⟨hscalar, fun _ => ⟨h, fun h' => by omega⟩⟩
        · intro h
          exact (h.2 hlisted).1
      · rw [settles_of_id hrecv (by omega) hmap hdata]
        constructor
        · intro h
          exact ⟨hscalar, fun _ => ⟨by omega, h⟩⟩
        · intro h
          exact (h.2 hlisted).2
    · rw [if_neg hlisted] at hrecv
      rw [settles_of_neg hrecv (by decide)]
      exact iff_of_true (by decide) ⟨hscalar, fun h => absurd h hlisted⟩
  · rw [asString_of_not_isScalar hscalar] at hrecv
    exact iff_of_false (settles_of_raise hrecv) fun h => hscalar h.1

/-- The cases of `RecvProt` for a text that parses. -/
theorem settles_of_parse {v : Json} (hparse : parse buf = some v) :
    P.Settles parse buf ↔ P.Readable v := by
  unfold Readable
  by_cases hmap : v.IsMap
  · by_cases hmissing : v.member (lit "msgId") = none ∨ v.member (lit "msgData") = none
    · rw [settles_of_neg (recvProt_of_missing hparse hmap hmissing) (by decide)]
      refine iff_of_true (by decide) ⟨hmap, fun pIdValue data hid hdata => ?_⟩
      rcases hmissing with h | h
      · rw [hid] at h
        cases h
      · rw [hdata] at h
        cases h
    · obtain ⟨hid, hdata⟩ := not_or.mp hmissing
      obtain ⟨pIdValue, hid⟩ := Option.ne_none_iff_exists'.mp hid
      obtain ⟨data, hdata⟩ := Option.ne_none_iff_exists'.mp hdata
      rw [settles_of_members hparse hmap hid hdata]
      constructor
      · intro h
        refine ⟨hmap, fun pIdValue' data' hid' hdata' => ?_⟩
        rw [hid] at hid'
        rw [hdata] at hdata'
        cases hid'
        cases hdata'
        exact h
      · intro h
        exact h.2 pIdValue data hid hdata
  · have hraise := settles_of_raise (recvProt_of_not_isMap (P := P) hparse hmap)
    exact iff_of_false hraise fun h => hmap h.1

variable (P parse buf)

/-- **Which messages are settled.**  A received byte string leads to an error
reply 100 or 101, to the first logic that takes its id or to a log line, and
nothing is thrown, exactly when the value it parses to, if any, is readable. -/
theorem settles_iff : P.Settles parse buf ↔ ∀ v, parse buf = some v → P.Readable v := by
  cases hparse : parse buf with
  | none =>
    rw [settles_of_neg (recvProt_of_none hparse) (by decide)]
    exact iff_of_true (by decide) fun v hv => by cases hv
  | some v =>
    rw [settles_of_parse hparse]
    constructor
    · intro h v' hv'
      cases hv'
      exact h
    · intro h
      exact h v rfl

end ProtFiles

/-! ## The shipped protocols -/

theorem mem_of_member {members : List (Str × Json)} {key : Str} {v : Json}
    (h : (Json.obj members).member key = some v) : (key, v) ∈ members := by
  obtain ⟨before, after, rfl, -⟩ := List.lookup_eq_some_iff.mp h
  exact List.mem_append_right before List.mem_cons_self

/-- `prot/protErrcode.json` -/
def protErrcode : Json := .obj [
  (lit "100", .obj [
    (lit "msgId", .num (lit "100")),
    (lit "msgData", .obj [(lit "errstr", .str (lit "protocol buffer error!"))])]),
  (lit "101", .obj [
    (lit "msgId", .num (lit "101")),
    (lit "msgData", .obj [(lit "errstr", .str (lit "protocol id can not found!"))])])]

/-- `prot/protLogin.json` -/
def protLogin : Json := .obj [
  (lit "1001", .obj [
    (lit "msgId", .num (lit "1001")),
    (lit "msgData", .obj [
      (lit "loginName", .str (lit "ffy")),
      (lit "loginPwd", .str (lit "111111"))])]),
  (lit "1002", .obj [
    (lit "msgId", .num (lit "1002")),
    (lit "msgData", .obj [(lit "loginIn", .num (lit "0"))])])]

/-- An entry of the shipped files. -/
theorem isEntry_of_members (idText : Str) (data : List (Str × Json)) :
    (Json.obj [(lit "msgId", .num idText), (lit "msgData", .obj data)]).IsEntry := by
  refine ⟨trivial, fun d hd => ?_⟩
  have hdata : d = .obj data := by
    have hmem := mem_of_member hd
    simp only [List.mem_cons, List.not_mem_nil, or_false] at hmem
    rcases hmem with h | h
    · exact absurd (Prod.mk.inj h).1 (by decide)
    · exact (Prod.mk.inj h).2
  rw [hdata]
  exact trivial

/-- Both files have two of them. -/
theorem isEntry_of_pair {k k' idText idText' key : Str} {data data' : List (Str × Json)} {v : Json}
    (h : (Json.obj [(k, .obj [(lit "msgId", .num idText), (lit "msgData", .obj data)]),
      (k', .obj [(lit "msgId", .num idText'), (lit "msgData", .obj data')])]).member key = some v) :
    v.IsEntry := by
  have hmem := mem_of_member h
  simp only [List.mem_cons, List.not_mem_nil, or_false] at hmem
  rcases hmem with hv | hv
  · rw [(Prod.mk.inj hv).2]
    exact isEntry_of_members idText data
  · rw [(Prod.mk.inj hv).2]
    exact isEntry_of_members idText' data'

/-- The protocols of `globalProt.json`. -/
def globalProt : ProtFiles where
  protList := [protErrcode, protLogin]
  isMap := by
    intro file hfile
    simp only [List.mem_cons, List.not_mem_nil, or_false] at hfile
    rcases hfile with rfl | rfl
    · exact trivial
    · exact trivial
  entries := by
    intro file hfile key v hv
    simp only [List.mem_cons, List.not_mem_nil, or_false] at hfile
    rcases hfile with rfl | rfl
    · exact isEntry_of_pair hv
    · exact isEntry_of_pair hv

/-- A reader that knows one text. -/
def readsOnly (text : Str) (v : Json) (buf : Str) : Option Json :=
  if text.isPrefixOf buf then some v else none

/-- An array, an id that is an array, and a login whose data is a text. -/
theorem settles_broken :
    ¬ globalProt.Settles (readsOnly (lit "[]") (.arr [])) (lit "[]" ++ [0]) ∧
    ¬ globalProt.Settles
      (readsOnly (lit "\x7b\"msgId\":[],\"msgData\":\x7b\x7d\x7d")
        (.obj [(lit "msgData", .obj []), (lit "msgId", .arr [])]))
      (lit "\x7b\"msgId\":[],\"msgData\":\x7b\x7d\x7d" ++ [0]) ∧
    ¬ globalProt.Settles
      (readsOnly (lit "\x7b\"msgId\":1001,\"msgData\":\"\"\x7d")
        (.obj [(lit "msgData", .str []), (lit "msgId", .num (lit "1001"))]))
      (lit "\x7b\"msgId\":1001,\"msgData\":\"\"\x7d" ++ [0]) := by
  refine ⟨?_, ?_, ?_⟩
  · exact not_returns_error (e := Raised.logicError)
  · exact not_returns_error (e := Raised.logicError)
  · exact not_returns_error (e := Raised.logicError)

end FuServer
