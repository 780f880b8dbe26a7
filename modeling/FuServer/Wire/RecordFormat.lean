import Mathlib.Algebra.Order.BigOperators.Group.List
import FuServer.Model.RecordBytes
import FuServer.Wire.RoundTrip

/-!
# The record format

A record is an `int` with the number of its fields and the fields one behind the
other.  The size, the writer and the reader are three traversals; each is set
against `bytes`, the format itself, by the rules of the codec library.

    fields null iff empty → size + byteLength ≤ buf.length → … →
      r.serialize (buf, size) writes r.bytes, r.bytes.length = r.serializeSize, and
      unSerialize takes r.bytes back to r's fields wherever they stand      (record_roundTrip)
-/

namespace FuServer

open Bytes Codec

/-- A buffer with the offset at a place. -/
def serialAt (buf : Str) (i : Nat) : SerialBuf := ⟨buf, i⟩

/-! ## The buffer -/

theorem overwrites_putBytes (bytes : Str) : Overwrites serialAt (putBytes bytes) bytes := by
  intro before old after hold
  have hroom : (0 : Int) ≤ (before.length : Int) ∧
      ((before.length : Int)).toNat + bytes.length ≤ (before ++ old ++ after).length := by
    simp only [List.length_append]
    omega
  have htake : (before ++ old ++ after).take before.length = before := by
    rw [List.append_assoc, List.take_left]
  have hdrop : (before ++ old ++ after).drop (before.length + bytes.length) = after := by
    rw [← hold, ← List.length_append, List.drop_left]
  unfold putBytes serialAt
  dsimp only
  rw [if_pos hroom, Int.toNat_natCast, htake, hdrop, List.length_append, Int.natCast_add]

theorem readsBack_getBytes (bytes : Str) : ReadsBack serialAt (getBytes bytes.length) bytes bytes := by
  intro before after
  have hroom : (0 : Int) ≤ (before.length : Int) ∧
      ((before.length : Int)).toNat + bytes.length ≤ (before ++ bytes ++ after).length := by
    simp only [List.length_append]
    omega
  have htake : ((before ++ bytes ++ after).drop before.length).take bytes.length = bytes := by
    rw [List.append_assoc, List.drop_left, List.take_left]
  unfold getBytes serialAt
  dsimp only
  rw [if_pos hroom, Int.toNat_natCast, htake, List.length_append, Int.natCast_add]

theorem readsBack_getInt (x : Int32) : ReadsBack serialAt getInt (intBytes x) x := by
  obtain ⟨b0, b1, b2, b3, hbytes, hval⟩ := intOfBytes_intBytes x
  refine (readsBack_getBytes (intBytes x)).result ?_
  rw [hbytes]
  dsimp only
  rw [hval]

theorem readsBack_getShort (x : UInt16) : ReadsBack serialAt getShort (shortBytes x) x := by
  have hlt : x.toNat < 65536 := x.toNat_lt
  have hsum : (UInt8.ofNat x.toNat).toNat + 256 * (UInt8.ofNat (x.toNat / 256)).toNat = x.toNat := by
    simp only [UInt8.toNat_ofNat']
    omega
  refine (readsBack_getBytes (shortBytes x)).result ?_
  show (pure (UInt16.ofNat _) : Serial UInt16) = _
  rw [hsum, UInt16.ofNat_toNat]

theorem readsBack_getBool (b : Bool) : ReadsBack serialAt getBool (boolBytes b) b := by
  refine (readsBack_getBytes (boolBytes b)).result ?_
  cases b <;> rfl

/-! ## Writing at any place of a buffer -/

/-- A writer and then another come through when the one does, and from there the other. -/
theorem then_eq_ok {m m' : Serial Unit} {s : SerialBuf} {p : Unit × SerialBuf} :
    (m >>= fun _ => m') s = .ok p ↔ ∃ s1, m s = .ok ((), s1) ∧ m' s1 = .ok p := by
  show (m s).bind (fun q => m' q.2) = .ok p ↔ _
  cases hm : m s with
  | error e =>
    constructor
    · intro h
      cases h
    · rintro ⟨s1, h, -⟩
      cases h
  | ok q =>
    constructor
    · intro h
      exact ⟨q.2, rfl, h⟩
    · rintro ⟨s1, h, h'⟩
      cases h
      exact h'

/-- `m` writes `bytes`, and when it comes through it has found the room for them. -/
structure Puts (m : Serial Unit) (bytes : Str) : Prop where
  overwrites : Overwrites serialAt m bytes
  fills : ∀ s u w, m s = .ok (u, w) →
    (0 < bytes.length → 0 ≤ s.size ∧ s.size.toNat + bytes.length ≤ s.buf.length) ∧
      w.size = s.size + bytes.length ∧ w.buf.length = s.buf.length

theorem puts_putBytes (bytes : Str) : Puts (putBytes bytes) bytes := by
  refine ⟨overwrites_putBytes bytes, ?_⟩
  intro s u w h
  unfold putBytes at h
  split at h
  · next hroom =>
    cases h
    refine ⟨fun _ => hroom, rfl, ?_⟩
    simp only [List.length_append, List.length_take, List.length_drop]
    omega
  · cases h

theorem puts_pure : Puts (pure ()) [] := by
  refine ⟨overwrites_pure, ?_⟩
  intro s u w h
  cases h
  simp

theorem Puts.bind {m m' : Serial Unit} {bytes bytes' : Str} (h : Puts m bytes) (h' : Puts m' bytes') :
    Puts (m >>= fun _ => m') (bytes ++ bytes') := by
  refine ⟨h.overwrites.bind h'.overwrites, ?_⟩
  intro s u w hw
  obtain ⟨s1, hm, hm'⟩ := then_eq_ok.mp hw
  obtain ⟨hroom, hsize, hlen⟩ := h.fills s _ s1 hm
  obtain ⟨hroom', hsize', hlen'⟩ := h'.fills s1 u w hm'
  rw [List.length_append]
  refine ⟨fun hpos => ?_, ?_, ?_⟩ <;> omega

/-- What a writer of `bytes` leaves in its buffer, a reader of them finds. -/
theorem Puts.readsBack {α : Type} {m : Serial Unit} {r : Serial α} {bytes : Str} {a : α}
    (hw : Puts m bytes) (hpos : 0 < bytes.length) (hr : ReadsBack serialAt r bytes a)
    {s w : SerialBuf} {u : Unit} (h : m s = .ok (u, w)) : r ⟨w.buf, s.size⟩ = .ok (a, w) := by
  obtain ⟨hroom, -, -⟩ := hw.fills s u w h
  have hfound := hroom hpos
  -- the buffer as what stands before, at and behind the place
  obtain ⟨before, old, after, hbuf, hbefore, hold⟩ :
      ∃ before old after, s.buf = before ++ old ++ after ∧ (before.length : Int) = s.size ∧
        old.length = bytes.length := by
    refine ⟨s.buf.take s.size.toNat, (s.buf.drop s.size.toNat).take bytes.length,
      (s.buf.drop s.size.toNat).drop bytes.length, ?_, ?_, ?_⟩
    · rw [List.append_assoc, List.take_append_drop, List.take_append_drop]
    · rw [List.length_take]
      omega
    · rw [List.length_take, List.length_drop]
      omega
  have hs : s = serialAt (before ++ old ++ after) before.length := by
    show s = ⟨_, _⟩
    rw [hbefore, ← hbuf]
  have hwrites := hw.overwrites before old after hold
  have hreads := hr before after
  rw [← hs, h] at hwrites
  cases hwrites
  show r ⟨before ++ bytes ++ after, s.size⟩ = _
  rw [← hbefore]
  exact hreads

/-! ## Fields -/

namespace DBField

/-- The text that goes over the wire: as much of it as the length announces. -/
def wireText (f : DBField) : Str := if f.bNull then [] else f.sData.take f.dataLen.toNatClampNeg

/-- The bytes of a field, also of one whose length an `int` does not hold. -/
def wireBytes (f : DBField) : Str :=
  intBytes f.dataLen ++ (shortBytes f.usType ++ (shortBytes f.usIndex ++
    (boolBytes f.bKey ++ (boolBytes f.bNull ++ f.wireText))))

/-- The length announced is no more than the text has. -/
theorem dataLen_le (f : DBField) : f.dataLen.toNatClampNeg ≤ f.sData.length := by
  unfold dataLen
  split
  · exact Nat.zero_le _
  · show (Int32.ofNat f.sData.length).toInt.toNat ≤ _
    rw [Int32.toInt_ofNat']
    have hle : (f.sData.length : Int).bmod Int32.size ≤ f.sData.length := by
      have hsize : Int32.size = 4294967296 := rfl
      rw [hsize]
      unfold Int.bmod
      dsimp only
      split <;> omega
    omega

/-- A field that is not null is written only with a length that is not negative. -/
theorem dataLen_of_serialize {f : DBField} (hf : f.bNull = false) {s : SerialBuf} {p : Unit × SerialBuf}
    (h : f.serialize s = .ok p) : 0 ≤ f.dataLen := by
  unfold serialize at h
  obtain ⟨s1, -, h⟩ := then_eq_ok.mp h
  obtain ⟨s2, -, h⟩ := then_eq_ok.mp h
  obtain ⟨s3, -, h⟩ := then_eq_ok.mp h
  obtain ⟨s4, -, h⟩ := then_eq_ok.mp h
  obtain ⟨s5, -, h⟩ := then_eq_ok.mp h
  rw [hf, Bool.not_false, if_pos rfl] at h
  by_contra hneg
  rw [if_neg hneg] at h
  cases h

/-- The last step of the writer puts the text, of which a null field has none. -/
theorem serialize_eq {f : DBField} (h : f.bNull = false → 0 ≤ f.dataLen) :
    f.serialize = (do
      putBytes (intBytes f.dataLen)
      putBytes (shortBytes f.usType)
      putBytes (shortBytes f.usIndex)
      putBytes (boolBytes f.bKey)
      putBytes (boolBytes f.bNull)
      if f.bNull then pure () else putBytes f.wireText) := by
  unfold serialize wireText
  cases hf : f.bNull with
  | true => rfl
  | false =>
    rw [Bool.not_false, if_pos rfl, if_pos (h hf)]
    rfl

theorem puts_serialize {f : DBField} (h : f.bNull = false → 0 ≤ f.dataLen) :
    Puts f.serialize f.wireBytes := by
  rw [serialize_eq h]
  unfold wireBytes
  refine (puts_putBytes _).bind ((puts_putBytes _).bind ((puts_putBytes _).bind
    ((puts_putBytes _).bind ((puts_putBytes _).bind ?_))))
  cases hnull : f.bNull with
  | true =>
    unfold wireText
    rw [hnull]
    exact puts_pure
  | false => exact puts_putBytes f.wireText

/-- The field read: the attributes of `src`, and its text as far as the length written goes.  The
text of a null field is not read, and what the reused field held stays. -/
def withWire (f src : DBField) : DBField :=
  { src with sData := if src.bNull then f.sData else src.wireText }

theorem readsBack_wireBytes {f src : DBField} (h : src.bNull = false → 0 ≤ src.dataLen) :
    ReadsBack serialAt f.unSerialize src.wireBytes (f.withWire src) := by
  unfold unSerialize wireBytes withWire
  refine (readsBack_getInt _).bind
    ((readsBack_getShort src.usType).bind ((readsBack_getShort src.usIndex).bind
    ((readsBack_getBool src.bKey).bind ((readsBack_getBool src.bNull).bind ?_))))
  cases hnull : src.bNull with
  | true =>
    unfold wireText
    rw [hnull]
    exact readsBack_pure _
  | false =>
    have htext : src.wireText = src.sData.take src.dataLen.toNatClampNeg := by
      unfold wireText
      rw [hnull]
      rfl
    have hlen : src.wireText.length = src.dataLen.toNatClampNeg := by
      rw [htext, List.length_take]
      exact Nat.min_eq_left src.dataLen_le
    rw [Bool.not_false, if_pos rfl, if_pos (h hnull), ← hlen]
    refine (readsBack_getBytes src.wireText).result ?_
    rfl

theorem unSerialize_written {f src : DBField} {s w : SerialBuf} {u : Unit}
    (h : src.serialize s = .ok (u, w)) :
    f.unSerialize ⟨w.buf, s.size⟩ = .ok (f.withWire src, w) := by
  have hlen : src.bNull = false → 0 ≤ src.dataLen := fun hnull => dataLen_of_serialize hnull h
  have hpos : 0 < src.wireBytes.length := by
    unfold wireBytes
    rw [List.length_append]
    exact Nat.lt_of_lt_of_le (Nat.zero_lt_succ 3) (Nat.le_add_right _ _)
  exact (puts_serialize hlen).readsBack hpos (readsBack_wireBytes hlen) h

/-- Null exactly when there is no text, and a length that an `int` holds. -/
structure Writable (f : DBField) : Prop where
  null : f.bNull = true ↔ f.sData = []
  length : f.sData.length < 2 ^ 31

/-- The format of a field. -/
def bytes (f : DBField) : Str :=
  intBytes (Int32.ofNat f.sData.length) ++ (shortBytes f.usType ++ (shortBytes f.usIndex ++
    (boolBytes f.bKey ++ (boolBytes f.bNull ++ f.sData))))

theorem length_bytes (f : DBField) : f.bytes.length = f.sData.length + 10 := by
  simp only [bytes, List.length_append]
  have hint : (intBytes (Int32.ofNat f.sData.length)).length = 4 := rfl
  have hshort : ∀ x, (shortBytes x).length = 2 := fun _ => rfl
  have hbool : ∀ b, (boolBytes b).length = 1 := fun _ => rfl
  rw [hint, hshort, hshort, hbool, hbool]
  omega

theorem Writable.dataLen {f : DBField} (h : f.Writable) : f.dataLen = Int32.ofNat f.sData.length := by
  unfold DBField.dataLen
  split
  · next hnull => rw [h.null.mp hnull]; rfl
  · rfl

theorem Writable.toNat {f : DBField} (h : f.Writable) :
    (Int32.ofNat f.sData.length).toNatClampNeg = f.sData.length ∧ 0 ≤ Int32.ofNat f.sData.length := by
  refine ⟨Int32.toNatClampNeg_ofNat_of_lt h.length, ?_⟩
  rw [Int32.le_iff_toInt_le, Int32.toInt_ofNat_of_lt h.length]
  exact Int.natCast_nonneg _

/-- All of the text goes over the wire. -/
theorem Writable.wireText {f : DBField} (h : f.Writable) : f.wireText = f.sData := by
  unfold DBField.wireText
  split
  · next hnull => rw [h.null.mp hnull]
  · rw [h.dataLen, h.toNat.1, List.take_length]

theorem Writable.wireBytes {f : DBField} (h : f.Writable) : f.wireBytes = f.bytes := by
  unfold DBField.wireBytes bytes
  rw [h.dataLen, h.wireText]

theorem Writable.withWire {f : DBField} (h : f.Writable) : DBField.withWire {} f = f := by
  obtain ⟨sData, usType, usIndex, bKey, bNull⟩ := f
  unfold DBField.withWire
  rw [h.wireText]
  cases bNull with
  | true =>
    have hdata : sData = [] := h.null.mp rfl
    rw [hdata]
    rfl
  | false => rfl

theorem Writable.dataLen_nonneg {f : DBField} (h : f.Writable) : f.bNull = false → 0 ≤ f.dataLen := by
  intro _
  rw [h.dataLen]
  exact h.toNat.2

theorem overwrites_serialize {f : DBField} (h : f.Writable) :
    Overwrites serialAt f.serialize f.bytes := by
  have hputs := puts_serialize h.dataLen_nonneg
  rw [h.wireBytes] at hputs
  exact hputs.overwrites

/-- Whatever the new field held, it is `f` afterwards; the text of a null field is not read. -/
theorem readsBack_unSerialize {f : DBField} (h : f.Writable) :
    ReadsBack serialAt (unSerialize {}) f.bytes f := by
  have hread := readsBack_wireBytes (f := {}) h.dataLen_nonneg
  rw [h.wireBytes, h.withWire] at hread
  exact hread

theorem serializeSize_eq {f : DBField} (h : f.Writable) : f.serializeSize = f.bytes.length := by
  unfold serializeSize
  dsimp only
  rw [h.dataLen, Int32.toInt_ofNat_of_lt h.length, length_bytes]
  omega

end DBField

/-! ## Records -/

namespace DBRecord

/-- The format of a record. -/
def bytes (r : DBRecord) : Str :=
  intBytes (Int32.ofNat r.fieldList.length) ++ r.fieldList.flatMap DBField.bytes

/-- Each field is null exactly when it has no text. -/
def NullIffEmpty (r : DBRecord) : Prop := ∀ f ∈ r.fieldList, f.bNull = true ↔ f.sData = []

instance (r : DBRecord) : Decidable r.NullIffEmpty := inferInstanceAs (Decidable (∀ f ∈ r.fieldList, _))

/-- The number of bytes of the format. -/
def byteLength (r : DBRecord) : Nat := 4 + (r.fieldList.map fun f => f.sData.length + 10).sum

theorem length_bytes (r : DBRecord) : r.bytes.length = r.byteLength := by
  have hint : (intBytes (Int32.ofNat r.fieldList.length)).length = 4 := rfl
  unfold bytes byteLength
  rw [List.length_append, hint, List.length_flatMap]
  simp only [DBField.length_bytes]

/-- A record of less than 2 GiB has fewer fields than that, and shorter texts. -/
theorem writable_of_byteLength {r : DBRecord} (hr : r.NullIffEmpty) (h : r.byteLength < 2 ^ 31) :
    r.fieldList.length < 2 ^ 31 ∧ ∀ f ∈ r.fieldList, f.Writable := by
  unfold byteLength at h
  constructor
  · have hcount : r.fieldList.length * 10 ≤ (r.fieldList.map fun f => f.sData.length + 10).sum := by
      have hle := List.card_nsmul_le_sum (r.fieldList.map fun f => f.sData.length + 10) 10 (by
        intro x hx
        obtain ⟨f, -, rfl⟩ := List.mem_map.mp hx
        omega)
      rw [List.length_map] at hle
      exact hle
    omega
  · intro f hf
    refine ⟨hr f hf, ?_⟩
    have hle := List.single_le_sum (fun x _ => Nat.zero_le x) (f.sData.length + 10)
      (List.mem_map_of_mem (f := fun f : DBField => f.sData.length + 10) hf)
    omega

theorem overwrites_serialize {r : DBRecord} (h : ∀ f ∈ r.fieldList, f.Writable) :
    Overwrites serialAt r.serialize r.bytes :=
  (overwrites_putBytes _).bind (Overwrites.forM r.fieldList fun f hf =>
    DBField.overwrites_serialize (h f hf))

/-- The loop pushes the fields back one behind the other. -/
theorem foldl_pushBack (l : List DBField) (r : DBRecord) :
    l.foldl (fun r f => { r with fieldList := r.fieldList ++ [f] }) r =
      { r with fieldList := r.fieldList ++ l } := by
  induction l generalizing r with
  | nil => rw [List.foldl_nil, List.append_nil]
  | cons f l ih =>
    rw [List.foldl_cons, ih]
    dsimp only
    rw [List.append_assoc]
    rfl

theorem readsBack_unSerialize {r e : DBRecord} (hcount : r.fieldList.length < 2 ^ 31)
    (h : ∀ f ∈ r.fieldList, f.Writable) (he : e.fieldList = []) :
    ReadsBack serialAt e.unSerialize r.bytes { e with fieldList := r.fieldList } := by
  unfold unSerialize bytes
  refine (readsBack_getInt _).bind ?_
  rw [(roundTrips_size hcount).2]
  have hloop : ReadsBack serialAt (times pushField r.fieldList.length e)
      (r.fieldList.flatMap DBField.bytes)
      (r.fieldList.foldl (fun acc f => { acc with fieldList := acc.fieldList ++ [f] }) e) :=
    ReadsBack.times r.fieldList e fun acc f hf => (DBField.readsBack_unSerialize (h f hf)).result rfl
  rw [foldl_pushBack, he, List.nil_append] at hloop
  exact hloop

/-- The size traversal adds up the sizes of the fields. -/
theorem foldl_serializeSize {l : List DBField} (h : ∀ f ∈ l, f.Writable) (dataSize : Int) :
    l.foldl (fun dataSize pField => dataSize + pField.serializeSize) dataSize =
      dataSize + (l.flatMap DBField.bytes).length := by
  induction l generalizing dataSize with
  | nil => simp
  | cons f l ih =>
    rw [List.foldl_cons, ih fun g hg => h g (List.mem_cons_of_mem f hg),
      DBField.serializeSize_eq (h f List.mem_cons_self), List.flatMap_cons, List.length_append]
    omega

theorem serializeSize_eq {r : DBRecord} (h : ∀ f ∈ r.fieldList, f.Writable) :
    r.serializeSize = r.bytes.length := by
  have hint : (intBytes (Int32.ofNat r.fieldList.length)).length = 4 := rfl
  unfold serializeSize bytes
  rw [foldl_serializeSize h, List.length_append, hint]
  omega

/-- **Round trip.**  Into a buffer with the room, from any offset, `Serialize` writes as many
bytes as `SerializeSize` says and moves the offset past them; from these bytes, with
anything before and behind them, `unSerialize` rebuilds the fields and ends at the
same offset. -/
theorem record_roundTrip {r : DBRecord} (hr : r.NullIffEmpty) {buf : Str} {size : Int} (h0 : 0 ≤ size)
    (hroom : size + r.byteLength ≤ buf.length) (hint : size + r.byteLength < 2 ^ 31) :
    ∃ bytes : Str, (bytes.length : Int) = r.serializeSize ∧
      r.serialize ⟨buf, size⟩ = .ok ((), {
        buf := buf.take size.toNat ++ bytes ++ buf.drop (size.toNat + bytes.length)
        size := size + r.serializeSize }) ∧
      ∀ (before after : Str) (e : DBRecord), (before.length : Int) = size → e.fieldList = [] →
        e.unSerialize ⟨before ++ bytes ++ after, size⟩ = .ok ({ e with fieldList := r.fieldList },
          ⟨before ++ bytes ++ after, size + r.serializeSize⟩) := by
  obtain ⟨hcount, hwritable⟩ := writable_of_byteLength hr (by omega)
  have hlen := length_bytes r
  have hsize := serializeSize_eq hwritable
  obtain ⟨n, rfl⟩ := Int.eq_ofNat_of_zero_le h0
  refine ⟨r.bytes, hsize.symm, ?_, ?_⟩
  · have hbefore : (buf.take n).length = n := by
      rw [List.length_take]
      omega
    have hold : ((buf.drop n).take r.bytes.length).length = r.bytes.length := by
      rw [List.length_take, List.length_drop]
      omega
    have hbuf : buf.take n ++ (buf.drop n).take r.bytes.length ++ buf.drop (n + r.bytes.length) =
        buf := by
      rw [List.append_assoc, ← List.drop_drop, List.take_append_drop, List.take_append_drop]
    have hwrite := overwrites_serialize hwritable (buf.take n) _ (buf.drop (n + r.bytes.length)) hold
    rw [hbuf, List.length_append, hbefore] at hwrite
    rw [hsize]
    exact hwrite
  · intro before after e hbefore he
    have hread := readsBack_unSerialize hcount hwritable he before after
    rw [List.length_append] at hread
    unfold serialAt at hread
    rw [hbefore, Int.natCast_add, hbefore] at hread
    rw [hsize]
    exact hread

/-- A record of a key `7` and a null field. -/
def keyAndNull : DBRecord where
  fieldList := [(((DBField.new dbIntT).setIsKey true).setIndex 0).setData (lit "7"),
    (DBField.new dbStringT).setIndex 1]

theorem record_roundTrip_keyAndNull :
    ∃ bytes : Str, (bytes.length : Int) = keyAndNull.serializeSize ∧
      keyAndNull.serialize ⟨List.replicate 30 0, 3⟩ = .ok ((), {
        buf := (List.replicate 30 0).take (3 : Int).toNat ++ bytes ++
          (List.replicate 30 0).drop ((3 : Int).toNat + bytes.length)
        size := 3 + keyAndNull.serializeSize }) ∧
      ∀ (before after : Str) (e : DBRecord), (before.length : Int) = 3 → e.fieldList = [] →
        e.unSerialize ⟨before ++ bytes ++ after, 3⟩ = .ok ({ e with fieldList := keyAndNull.fieldList },
          ⟨before ++ bytes ++ after, 3 + keyAndNull.serializeSize⟩) :=
  record_roundTrip (by decide) (by decide) (by decide) (by decide)

end DBRecord

end FuServer
