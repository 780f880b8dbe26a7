import Mathlib.Data.Rat.Floor
import FuServer.Lib.Decimal

/-!
# Conversions and key comparison (UtilsConvert, DBBase)

Text is read as numbers byte by byte, the way the source's loops do it;
`long long` is `Int` kept in range by `wrap64`.  Floating point is whatever
unit the toolset has: a `FloatUnit` names the operations the code uses, and
`exactRational` is the reading in which they do not round.
-/

namespace FuServer

open Bytes Decimal

/-! ## Floating point -/

/-- The `float` and `double` operations the cache uses. -/
structure FloatUnit where
  Flt : Type
  Dbl : Type
  fltOfNat : Nat → Flt
  fltAdd : Flt → Flt → Flt
  fltLe : Flt → Flt → Bool
  fltFormat : Flt → Str
  dblOfNat : Nat → Dbl
  dblAdd : Dbl → Dbl → Dbl
  dblSub : Dbl → Dbl → Dbl
  dblMul : Dbl → Dbl → Dbl
  dblAbs : Dbl → Dbl
  dblLt : Dbl → Dbl → Bool
  /-- the constant `0.1f` -/
  dblTenth : Dbl
  /-- a digit times `0.1f` -/
  dblDigitTenth : Nat → Dbl
  /-- the constant `0.00001f` -/
  dblEps : Dbl
  dblFormat : Dbl → Str

/-- `%f` of an exact rational: six decimals, ties to even. -/
def formatRational (q : ℚ) : Str :=
  let scaled := |q| * 1000000
  let low := scaled.floor.toNat
  let rest := scaled - low
  let n := if 1 < 2 * rest ∨ 2 * rest = 1 ∧ low % 2 = 1 then low + 1 else low
  let frac := numeral (n % 1000000)
  (if q < 0 then lit "-" else []) ++ numeral (n / 1000000) ++ lit "." ++
    List.replicate (6 - frac.length) 48 ++ frac

/-- Doubles read as exact rationals; `0.1f` and `0.00001f` at their single-precision values. -/
def FloatUnit.exactRational : FloatUnit where
  Flt := ℚ
  Dbl := ℚ
  fltOfNat n := n
  fltAdd a b := a + b
  fltLe a b := decide (a ≤ b)
  fltFormat := formatRational
  dblOfNat n := n
  dblAdd a b := a + b
  dblSub a b := a - b
  dblMul a b := a * b
  dblAbs a := |a|
  dblLt a b := decide (a < b)
  dblTenth := 13421773 / 134217728
  dblDigitTenth d := d * (13421773 / 134217728)
  dblEps := 2748779 / 274877906944
  dblFormat := formatRational

/-! ## Text to number -/

/-- A `long long` after wrap-around. -/
def wrap64 (x : Int) : Int := x.bmod (2 ^ 64)

def fuStrToIntegerLoop : Int → Str → Int
  | toInt, [] => toInt
  | toInt, c :: pData =>
    if isDigit c then fuStrToIntegerLoop (wrap64 (toInt * 10 + digitVal c)) pData
    else if toInt ≠ 0 ∨ c = 46 then toInt
    else fuStrToIntegerLoop toInt pData

def fuStrToInteger (pData : Str) : Int := fuStrToIntegerLoop 0 pData

/-- The digits before the first `.`, and what follows it. -/
def fuStrToDoubleHead (fp : FloatUnit) : fp.Dbl → Str → fp.Dbl × Str
  | toDouble, [] => (toDouble, [])
  | toDouble, c :: pData =>
    if c = 46 then (toDouble, pData)
    else if isDigit c then
      fuStrToDoubleHead fp (fp.dblAdd (fp.dblMul toDouble (fp.dblOfNat 10))
        (fp.dblOfNat (digitVal c))) pData
    else fuStrToDoubleHead fp toDouble pData

/-- The fraction, taken from its last byte back to its first. -/
def fuStrToDoubleFraction (fp : FloatUnit) (rest : Str) : fp.Dbl :=
  rest.foldr (fun c toLeftData =>
    if isDigit c then fp.dblAdd (fp.dblMul toLeftData fp.dblTenth) (fp.dblDigitTenth (digitVal c))
    else toLeftData) (fp.dblOfNat 0)

def fuStrToDouble (fp : FloatUnit) (pData : Str) : fp.Dbl :=
  let head := fuStrToDoubleHead fp (fp.dblOfNat 0) pData
  fp.dblAdd head.1 (fuStrToDoubleFraction fp head.2)

/-! ## Number to text -/

/-- `%d` -/
def fuIntToStr (toData : Int) : Str :=
  if toData < 0 then 45 :: numeral toData.natAbs else numeral toData.natAbs

/-- `%lld` -/
def fuLonglongToStr (toData : Int) : Str := fuIntToStr toData

/-! ## Text increment -/

/-- The digit at `toKeyIndex`, or a `0` put in for it: text, its place, the digit. -/
def incrementSlot (toKey : Str) (toKeyIndex : Int) : Str × Nat × Nat :=
  if 0 ≤ toKeyIndex then
    let c := toKey.getD toKeyIndex.toNat 0
    if isDigit c then (toKey, toKeyIndex.toNat, digitVal c)
    else (toKey.insertIdx (toKeyIndex.toNat + 1) 48, toKeyIndex.toNat + 1, 0)
  else (48 :: toKey, 0, 0)

/-- Write the low digit of `toAddData` at `i`. -/
def putDigit (toKey : Str) (i : Nat) (toAddData : Int) : Str :=
  toKey.set i (UInt8.ofNat ((toAddData.tmod 10 + 48) % 256).toNat)

/-- The loop over `j = addEndIndex, …, 0, -1`; the first argument is `j + 1`. -/
def incrementLoop (addKey : Str) : Nat → Str → Int → Int → Str
  | 0, toKey, toKeyIndex, carry =>
    -- j = -1 is the last round, so a carry out of it goes nowhere
    if carry ≤ 0 then toKey
    else
      let slot := incrementSlot toKey toKeyIndex
      putDigit slot.1 slot.2.1 (slot.2.2 + carry)
  | j + 1, toKey, toKeyIndex, carry =>
    let slot := incrementSlot toKey toKeyIndex
    let toAddData : Int := slot.2.2 + ((addKey.getD j 48).toNat - 48 + carry)
    incrementLoop addKey j (putDigit slot.1 slot.2.1 toAddData) (slot.2.1 - 1) (toAddData.tdiv 10)

def fuStrIncrement (addData : Int) (pData : Str) : Str :=
  let addKey := fuIntToStr addData
  match pData.getLast? with
  -- `len <= 0` decides here, whatever byte stands before the buffer
  | none => pData ++ addKey
  | some c =>
    if !isDigit c then pData ++ addKey
    else incrementLoop addKey addKey.length pData (pData.length - 1) 0

/-! ## Comparison of keys -/

abbrev dbIntT : UInt16 := 1
abbrev dbByteT : UInt16 := 2
abbrev dbStringT : UInt16 := 3
abbrev dbFloatT : UInt16 := 5
abbrev dbDoubleT : UInt16 := 6
abbrev dbUsintT : UInt16 := 7
abbrev dbLongT : UInt16 := 8
abbrev dbLonglongT : UInt16 := 9

/-- The type codes compared as `long long`. -/
def isIntegerType (iType : UInt16) : Bool :=
  iType == dbIntT || iType == dbByteT || iType == dbUsintT || iType == dbLongT || iType == dbLonglongT

def dbCompareDataKey (fp : FloatUnit) (data1 data2 : Str) (iType : UInt16) : Int :=
  if isIntegerType iType then
    let thisData := fuStrToInteger data1
    let otherData := fuStrToInteger data2
    if thisData = otherData then 0 else if thisData > otherData then 1 else -1
  else if iType == dbFloatT || iType == dbDoubleT then
    let thisData := fuStrToDouble fp data1
    let otherData := fuStrToDouble fp data2
    if fp.dblLt (fp.dblAbs (fp.dblSub thisData otherData)) fp.dblEps then 0
    else if fp.dblLt otherData thisData then 1 else -1
  -- strings, bools and every other code compare as bytes
  else strCompare data1 data2

end FuServer
