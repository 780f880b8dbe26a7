import FuServer.Lib.Spans
import FuServer.Model.Server
import FuServer.Wire.RoundTrip

/-!
# Requests and the end of their bytes

`Output` never looks at the length of the data.  `staysInside_iff` lists the
byte strings that a request is read from without passing their end: those that
start with a whole message of the kind their id selects.
-/

namespace FuServer

open Bytes Codec UtilsSerialize Outcome

/-! ## What a reader takes -/

/-- The bytes of one string. -/
def text : Language UInt8 := {w | ∃ s, NoNul s ∧ w = s ++ [0]}

def anyInt : Language UInt8 := anyOf fun n : Int32 => {intBytes n}

/-- An `int` and as many items as it says. -/
def counted (item : Language UInt8) : Language UInt8 :=
  anyOf fun n : Int32 => {intBytes n} * item ^ n.toNatClampNeg

/-- The bytes of a request behind its id. -/
def requestBody (protId : Int32) : Language UInt8 :=
  if protId = protocolDbCToSQuery then anyInt * text * text * text * text * text
  else if protId = protocolDbCToSModify then anyInt * text * text * counted (text * text)
  else if protId = protocolDbCToSInsert then anyInt * text * counted (text * text)
  else if protId = protocolDbCToSLoadtable then anyInt * text * text
  else 1

/-- The bytes of a request: its id and what this id asks for. -/
def request : Language UInt8 := anyOf fun protId : Int32 => {intBytes protId} * requestBody protId

theorem buffer_injective (buf : Str) : Function.Injective (buffer buf) := by
  intro i j h
  injection h

theorem intBytes_intOfBytes (b0 b1 b2 b3 : UInt8) :
    intBytes (intOfBytes b0 b1 b2 b3) = [b0, b1, b2, b3] := by
  have h0 := b0.toNat_lt
  have h1 := b1.toNat_lt
  have h2 := b2.toNat_lt
  have h3 := b3.toNat_lt
  have hn : (intOfBytes b0 b1 b2 b3).toUInt32.toNat =
      b0.toNat + 256 * b1.toNat + 65536 * b2.toNat + 16777216 * b3.toNat := by
    show (UInt32.ofNat _).toNat = _
    rw [UInt32.toNat_ofNat']
    omega
  have hbyte : ∀ (n : Nat) (b : UInt8), n % 256 = b.toNat → UInt8.ofNat n = b := by
    intro n b h
    apply UInt8.toNat.inj
    rw [UInt8.toNat_ofNat']
    exact h
  unfold intBytes
  rw [hn]
  dsimp only
  rw [hbyte _ b0 (by omega), hbyte _ b1 (by omega), hbyte _ b2 (by omega), hbyte _ b3 (by omega)]

theorem moves_outputInt : Moves buffer outputInt := by
  constructor
  · intro buf i a s h
    unfold outputInt at h
    split at h
    · cases h
      exact ⟨i + 4, rfl⟩
    · cases h
  · intro buf i a j h
    unfold outputInt at h
    split at h
    · cases h
      exact Nat.le_add_right i 4
    · cases h

theorem codes_outputInt : Codes buffer outputInt fun n => {intBytes n} := by
  refine ⟨moves_outputInt, ?_, ?_⟩
  · rintro n before w after rfl
    obtain ⟨bytes, hw, hr⟩ := roundTrips_int n
    have hbytes : intBytes n = bytes := by
      have h := congrArg UtilsSerialize.dataString (hw [] 0)
      exact h
    rw [hbytes]
    exact hr before after
  · intro before rest n j h hj
    unfold outputInt at h
    have hdrop : (before ++ rest ++ [0]).drop before.length = rest ++ [0] := by
      rw [List.append_assoc, List.drop_left]
    dsimp only at h
    rw [hdrop] at h
    match rest, h, hj with
    | [], h, _ => cases h
    | [_], h, _ => cases h
    | [_, _], h, _ => cases h
    | [_, _, _], h, hj =>
      cases h
      simp at hj
    | b0 :: b1 :: b2 :: b3 :: after, h, _ =>
      cases h
      refine ⟨_, rfl, after, ?_, ?_⟩
      · rw [intBytes_intOfBytes]
        rfl
      · rw [intBytes_intOfBytes, List.length_append]
        rfl

theorem spans_outputInt : Spans buffer outputInt anyInt := by
  refine ⟨moves_outputInt, fun before w after hw => ?_, fun before rest n j h hj => ?_⟩
  · obtain ⟨n, hw⟩ := mem_anyOf.mp hw
    exact ⟨n, codes_outputInt.reads n before w after hw⟩
  · obtain ⟨w, hw, hafter⟩ := codes_outputInt.inside before rest n j h hj
    exact ⟨w, mem_anyOf.mpr ⟨n, hw⟩, hafter⟩

/-- A C string inside its buffer is followed by its NUL. -/
theorem cstr_prefix {s : Str} (h : (cstr s).length < s.length) :
    ∃ after, s = (cstr s ++ [0]) ++ after := by
  have hsplit : cstr s ++ s.dropWhile (fun c => c != 0) = s := List.takeWhile_append_dropWhile
  cases hd : s.dropWhile (fun c => c != 0) with
  | nil =>
    rw [hd, List.append_nil] at hsplit
    rw [hsplit] at h
    exact absurd h (Nat.lt_irrefl _)
  | cons c after =>
    have hc : c = 0 := by
      have hnot := List.head_dropWhile_not (fun c : UInt8 => c != 0) (l := s) (by rw [hd]; simp)
      simpa [hd] using hnot
    rw [hd, hc] at hsplit
    exact ⟨after, by rw [List.append_assoc]; exact hsplit.symm⟩

theorem spans_outputString : Spans buffer outputString text := by
  refine ⟨⟨?_, ?_⟩, ?_, ?_⟩
  · intro buf i a s h
    unfold outputString at h
    split at h
    · cases h
      exact ⟨_, rfl⟩
    · cases h
  · intro buf i a j h
    unfold outputString at h
    split at h
    · cases h
      exact Nat.le_add_right _ _
    · cases h
  · rintro before w after ⟨s, hs, rfl⟩
    obtain ⟨bytes, hw, hr⟩ := roundTrips_string hs
    have hbytes : s ++ [0] = bytes := congrArg UtilsSerialize.dataString (hw [] 0)
    rw [hbytes]
    exact ⟨s, hr before after⟩
  · intro before rest s j h hj
    unfold outputString at h
    dsimp only at h
    rw [List.drop_left] at h
    split at h
    · cases h
      rw [List.length_append] at hj
      obtain ⟨after, hafter⟩ := cstr_prefix (s := rest) (by omega)
      refine ⟨cstr rest ++ [0], ⟨cstr rest, noNul_cstr rest, rfl⟩, after, hafter, ?_⟩
      rw [List.length_append, List.length_append]
      rfl
    · cases h

/-! ## Containers -/

theorem spans_insertPair (acc : UMap Str Str) : Spans buffer (insertPair acc) (text * text) :=
  spans_outputString.bind fun _ => spans_outputString.map buffer_injective _

/-- A loop over pairs whose number is read first, and what is returned after it. -/
theorem spans_pairs {α : Type} (acc : UMap Str Str) (g : UMap Str Str → α) :
    Spans buffer
      (do
        let fieldSize ← outputInt
        let dataList ← forTo fieldSize insertPair acc
        return g dataList)
      (counted (text * text)) :=
  codes_outputInt.bind fun fieldSize =>
    (Spans.times buffer_injective spans_insertPair fieldSize.toNatClampNeg acc).map buffer_injective g

/-! ## Requests -/

theorem spans_csQuery (d : DbCsQuery) :
    Spans buffer (unserializeProtCsQuery d) (anyInt * text * text * text * text * text) := by
  have h : Spans buffer (unserializeProtCsQuery d)
      (anyInt * (text * (text * (text * (text * text))))) :=
    spans_outputInt.bind fun _ => spans_outputString.bind fun _ => spans_outputString.bind fun _ =>
      spans_outputString.bind fun _ => spans_outputString.bind fun _ =>
        spans_outputString.map buffer_injective _
  simpa only [mul_assoc] using h

theorem spans_csModify (d : DbCsModify) :
    Spans buffer (unserializeProtCsModify d) (anyInt * text * text * counted (text * text)) := by
  have h : Spans buffer (unserializeProtCsModify d)
      (anyInt * (text * (text * counted (text * text)))) :=
    spans_outputInt.bind fun _ => spans_outputString.bind fun _ => spans_outputString.bind fun _ =>
      spans_pairs d.dataList _
  simpa only [mul_assoc] using h

theorem spans_csInsert (d : DbCsInsert) :
    Spans buffer (unserializeProtCsInsert d) (anyInt * text * counted (text * text)) := by
  have h : Spans buffer (unserializeProtCsInsert d) (anyInt * (text * counted (text * text))) :=
    spans_outputInt.bind fun _ => spans_outputString.bind fun _ => spans_pairs d.dataList _
  simpa only [mul_assoc] using h

theorem spans_csLoadtable (d : DbCsLoadtable) :
    Spans buffer (unserializeProtCsLoadtable d) (anyInt * text * text) := by
  have h : Spans buffer (unserializeProtCsLoadtable d) (anyInt * (text * text)) :=
    spans_outputInt.bind fun _ => spans_outputString.bind fun _ =>
      spans_outputString.map buffer_injective _
  simpa only [mul_assoc] using h

/-- The request reader takes the words of `request`. -/
theorem spans_readRequest : Spans buffer DBServer.readRequest request := by
  refine codes_outputInt.bind fun protId => ?_
  unfold requestBody
  split
  · exact (spans_csQuery _).map buffer_injective _
  · split
    · exact (spans_csModify _).map buffer_injective _
    · split
      · exact (spans_csInsert _).map buffer_injective _
      · split
        · exact (spans_csLoadtable _).map buffer_injective _
        · exact spans_pure buffer_injective _

/-- The request is read off `buf` without a byte from behind its end.  The
iterator only moves forward, so where it stops bounds where it has been. -/
def StaysInside (buf : Str) : Prop :=
  Returns (DBServer.readRequest ⟨buf, 0⟩) fun r => r.2.iterator ≤ buf.length

/-- **Which requests are read inside their bytes.**  Exactly those that start
with a whole message of the kind their id selects; a string with another id
only needs the id. -/
theorem staysInside_iff (buf : Str) : StaysInside buf ↔ ∃ w ∈ request, w <+: buf := by
  rw [← spans_readRequest.stays_iff buf]
  constructor
  · rintro ⟨⟨r, s⟩, hr, hle⟩
    obtain ⟨j, rfl⟩ := spans_readRequest.keeps buf 0 r s hr
    exact ⟨r, j, hr, hle⟩
  · rintro ⟨r, j, hr, hle⟩
    exact ⟨(r, buffer buf j), hr, hle⟩

/-- No bytes at all, an insertion cut off in its table name, and one that
promises a field and ends. -/
theorem staysInside_broken :
    ¬ StaysInside [] ∧
    ¬ StaysInside (intBytes 203 ++ intBytes 203 ++ lit "t") ∧
    ¬ StaysInside (intBytes 203 ++ intBytes 203 ++ lit "t" ++ [0] ++ intBytes 1) := by
  refine ⟨?_, ?_, ?_⟩ <;> unfold StaysInside <;> decide

end FuServer
