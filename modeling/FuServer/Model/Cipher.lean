import FuServer.Model.Protocol

/-!
# The cipher (fu_encrypt_stream, fu_unencrypt_stream)

A pointer is the list of the bytes that may be read there; a read behind them, a
division by zero and a buffer of a length that `new` does not take are faults.  The
processor takes shift counts modulo 32; `ShiftRule.checked` faults instead on a
count for which the language defines no shift.
-/

namespace FuServer

open Bytes

inductive CipherFault
  | badLength
  | dividedByZero
  | shiftCount
  | readPastEnd
deriving DecidableEq, Repr

abbrev CipherRes := Except CipherFault

inductive ShiftRule
  | reduced
  | checked
deriving DecidableEq, Repr

/-- The count of a shift. -/
def ShiftRule.count : ShiftRule → Int32 → CipherRes Int32
  | .reduced, n => .ok n
  | .checked, n => if 0 ≤ n ∧ n < 32 then .ok n else .error .shiftCount

/-- `*(int*)(pData + pos)` -/
def intAt (pData : Str) (pos : Nat) : CipherRes Int32 :=
  match pData.drop pos with
  | b0 :: b1 :: b2 :: b3 :: _ => .ok (intOfBytes b0 b1 b2 b3)
  | _ => .error .readPastEnd

/-- `memcpy` of `len` bytes from `pData + pos` -/
def bytesAt (pData : Str) (pos len : Nat) : CipherRes Str :=
  if pos + len ≤ pData.length then .ok ((pData.drop pos).take len) else .error .readPastEnd

/-- `*(int*)(pEnData + size) = op(*(int*)(pEnData + size))` -/
def onWord (op : Int32 → Int32) (size : Nat) (pEnData : Str) : Str :=
  match pEnData.drop size with
  | b0 :: b1 :: b2 :: b3 :: rest => pEnData.take size ++ intBytes (op (intOfBytes b0 b1 b2 b3)) ++ rest
  | _ => pEnData

/-- The `while` loop over the whole words, from `size` on. -/
def wordLoop (op : Int32 → Int32) (len : Int) (size : Nat) (pEnData : Str) : Str :=
  if size ≤ len - 4 then wordLoop op len (size + 4) (onWord op size pEnData) else pEnData
termination_by (len - size).toNat
decreasing_by omega

/-- `toDoData`, by which the length is divided. -/
def toDoData (seed right len : Int32) : Int32 :=
  let toDoData := (((~~~seed >>> 2) + 1) >>> right) &&& 7
  if toDoData > len then 2 else toDoData

/-- `encryKey`, which both functions work out in the same way. -/
def encryKey (shifts : ShiftRule) (seed len : Int32) : CipherRes Int32 := do
  let right ← shifts.count (seed / 3)
  let divisor := toDoData seed right len
  if divisor = 0 then throw .dividedByZero
  let leftPoint ← shifts.count (len / divisor)
  return len <<< leftPoint

/-- The new stream, and `iolen` afterwards. -/
def fuEncryptStream (shifts : ShiftRule) (pData : Str) (iolen seed : Int32) :
    CipherRes (Str × Int32) := do
  let totalLen := iolen + 8
  if iolen < 0 ∨ totalLen < 0 then throw .badLength
  let key ← encryKey shifts seed iolen
  let data ← bytesAt pData 0 iolen.toNatClampNeg
  return (intBytes seed ++ intBytes iolen ++ wordLoop (· + key) iolen.toInt 0 data, totalLen)

/-- The new buffer, and `outLen`. -/
def fuUnencryptStream (shifts : ShiftRule) (pData : Str) : CipherRes (Str × Int32) := do
  let seed ← intAt pData 0
  let datalen ← intAt pData 4
  if datalen + 1 ≤ 0 then throw .badLength
  let data ← bytesAt pData 8 datalen.toNatClampNeg
  let key ← encryKey shifts seed datalen
  return (wordLoop (· - key) datalen.toInt 0 (data ++ [0]), datalen)

/-- A `size_t` of 32 bits. -/
def fuUnencryptStreamSize (pData : Str) : CipherRes UInt32 := do
  let n ← intAt pData 4
  return n.toUInt32

end FuServer
