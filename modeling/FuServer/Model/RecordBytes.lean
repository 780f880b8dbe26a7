import FuServer.Model.Protocol

/-!
# Records as bytes (DBField::Serialize, DBRecord::Serialize)

`buf` is the memory a caller gives and `size` the offset into it that every step
moves.  Outside `buf` a read or a write faults, so a `size` that has been moved
is inside it, and its `int` does not overflow for a buffer below 2 GiB.
-/

namespace FuServer

open Bytes Codec

/-! ## The buffer -/

structure SerialBuf where
  buf : Str
  size : Int
deriving DecidableEq

abbrev Serial := StateT SerialBuf Res

/-- `memcpy(buf + size, …)` and `size += …` -/
def putBytes (bytes : Str) : Serial Unit := fun s =>
  if 0 ≤ s.size ∧ s.size.toNat + bytes.length ≤ s.buf.length then
    .ok ((), {
      buf := s.buf.take s.size.toNat ++ bytes ++ s.buf.drop (s.size.toNat + bytes.length)
      size := s.size + bytes.length })
  else .error .outOfRange

/-- What stands at `buf + size`, and `size += n`. -/
def getBytes (n : Nat) : Serial Str := fun s =>
  if 0 ≤ s.size ∧ s.size.toNat + n ≤ s.buf.length then
    .ok ((s.buf.drop s.size.toNat).take n, { s with size := s.size + n })
  else .error .readPastEnd

/-- The two bytes of an `unsigned short`. -/
def shortBytes (x : UInt16) : Str := [UInt8.ofNat x.toNat, UInt8.ofNat (x.toNat / 256)]

def boolBytes (b : Bool) : Str := [if b then 1 else 0]

def getInt : Serial Int32 := do
  match ← getBytes 4 with
  | [b0, b1, b2, b3] => return intOfBytes b0 b1 b2 b3
  | _ => throw .readPastEnd

def getShort : Serial UInt16 := do
  match ← getBytes 2 with
  | [b0, b1] => return UInt16.ofNat (b0.toNat + 256 * b1.toNat)
  | _ => throw .readPastEnd

def getBool : Serial Bool := do
  match ← getBytes 1 with
  | [b] => return b != 0
  | _ => throw .readPastEnd

/-! ## DBField -/

namespace DBField

/-- `dataLen`: an `int`, 0 for a null field. -/
def dataLen (f : DBField) : Int32 := if f.bNull then 0 else Int32.ofNat f.sData.length

def serialize (f : DBField) : Serial Unit := do
  putBytes (intBytes f.dataLen)
  putBytes (shortBytes f.usType)
  putBytes (shortBytes f.usIndex)
  putBytes (boolBytes f.bKey)
  putBytes (boolBytes f.bNull)
  if !f.bNull then
    -- a negative length is a huge `size_t`
    if 0 ≤ f.dataLen then putBytes (f.sData.take f.dataLen.toNatClampNeg) else throw .outOfRange

def unSerialize (f : DBField) : Serial DBField := do
  let dataLen ← getInt
  let usType ← getShort
  let usIndex ← getShort
  let bKey ← getBool
  let bNull ← getBool
  if !bNull then
    if 0 ≤ dataLen then
      let sData ← getBytes dataLen.toNatClampNeg
      return { sData := sData, usType := usType, usIndex := usIndex, bKey := bKey, bNull := bNull }
    else throw .outOfRange
  else return { f with usType := usType, usIndex := usIndex, bKey := bKey, bNull := bNull }

def serializeSize (f : DBField) : Int :=
  let dataSize := f.dataLen.toInt
  dataSize + 4 + 2 + 2 + 1 + 1

end DBField

/-! ## DBRecord -/

namespace DBRecord

def serialize (r : DBRecord) : Serial Unit := do
  putBytes (intBytes (Int32.ofNat r.fieldList.length))
  r.fieldList.forM DBField.serialize

/-- One round of the loop of `unSerialize`: a new field, read and pushed back. -/
def pushField (r : DBRecord) : Serial DBRecord := do
  let pField ← DBField.unSerialize {}
  return { r with fieldList := r.fieldList ++ [pField] }

def unSerialize (r : DBRecord) : Serial DBRecord := do
  let numField ← getInt
  times pushField numField.toNatClampNeg r

def serializeSize (r : DBRecord) : Int :=
  r.fieldList.foldl (fun dataSize pField => dataSize + pField.serializeSize) 4

end DBRecord

end FuServer
