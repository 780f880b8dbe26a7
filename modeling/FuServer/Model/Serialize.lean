import FuServer.Model.Protocol

/-!
# The other overloads of Input and Output (UtilsSerialize)

A number is its bytes in memory, low byte first; a `long` has four of them and
a `float` or a `double` is its bits.  `Output` reads as many bytes as the type
has, wherever the iterator is.
-/

namespace FuServer

open Bytes Codec

namespace UtilsSerialize

/-- `append((char*)&toData, sizeof(toData))` -/
def inputNumber (size toData : Nat) (d : UtilsSerialize) : UtilsSerialize :=
  { d with dataString := d.dataString ++ lowBytes size toData }

/-- `toData = *(T*)(m_DataString.c_str() + m_iIterator)` and `m_iIterator += sizeof(T)` -/
def outputNumber (size : Nat) : Out Nat := fun d =>
  let bytes := ((d.dataString ++ [0]).drop d.iterator).take size
  if bytes.length = size then .ok (ofLowBytes bytes, { d with iterator := d.iterator + size })
  else .error .readPastEnd

/-! ### One overload after the other -/

def inputUInt (d : UtilsSerialize) (toData : UInt32) : UtilsSerialize := d.inputNumber 4 toData.toNat

def inputUShort (d : UtilsSerialize) (toData : UInt16) : UtilsSerialize := d.inputNumber 2 toData.toNat

def inputUChar (d : UtilsSerialize) (toData : UInt8) : UtilsSerialize := d.inputNumber 1 toData.toNat

def inputLong (d : UtilsSerialize) (toData : Int32) : UtilsSerialize :=
  d.inputNumber 4 toData.toUInt32.toNat

def inputLongLong (d : UtilsSerialize) (toData : Int64) : UtilsSerialize :=
  d.inputNumber 8 toData.toUInt64.toNat

def inputFloat (d : UtilsSerialize) (bits : UInt32) : UtilsSerialize := d.inputNumber 4 bits.toNat

def inputDouble (d : UtilsSerialize) (bits : UInt64) : UtilsSerialize := d.inputNumber 8 bits.toNat

def inputChar (d : UtilsSerialize) (toData : Int8) : UtilsSerialize :=
  d.inputNumber 1 toData.toUInt8.toNat

def inputBool (d : UtilsSerialize) (toData : Bool) : UtilsSerialize := d.inputNumber 1 toData.toNat

def outputUInt : Out UInt32 := do return UInt32.ofNat (← outputNumber 4)

def outputUShort : Out UInt16 := do return UInt16.ofNat (← outputNumber 2)

def outputUChar : Out UInt8 := do return UInt8.ofNat (← outputNumber 1)

def outputLong : Out Int32 := do return (UInt32.ofNat (← outputNumber 4)).toInt32

def outputLongLong : Out Int64 := do return (UInt64.ofNat (← outputNumber 8)).toInt64

def outputFloat : Out UInt32 := do return UInt32.ofNat (← outputNumber 4)

def outputDouble : Out UInt64 := do return UInt64.ofNat (← outputNumber 8)

def outputChar : Out Int8 := do return (UInt8.ofNat (← outputNumber 1)).toInt8

def outputBool : Out Bool := do return (← outputNumber 1) != 0

def resetString (_d : UtilsSerialize) : UtilsSerialize := { dataString := [], iterator := 0 }

def resetIterator (d : UtilsSerialize) : UtilsSerialize := { d with iterator := 0 }

end UtilsSerialize

/-! ## Values -/

/-- The types that have an overload. -/
inductive SerialType
  | int | string | uint | ushort | uchar | long | longlong | float | double | char | bool
deriving DecidableEq, Repr

/-- A value of one of them. -/
inductive SerialValue
  | int (toData : Int32)
  | string (toData : Str)
  | uint (toData : UInt32)
  | ushort (toData : UInt16)
  | uchar (toData : UInt8)
  | long (toData : Int32)
  | longlong (toData : Int64)
  | float (bits : UInt32)
  | double (bits : UInt64)
  | char (toData : Int8)
  | bool (toData : Bool)
deriving DecidableEq

namespace SerialValue

def type : SerialValue → SerialType
  | int _ => .int
  | string _ => .string
  | uint _ => .uint
  | ushort _ => .ushort
  | uchar _ => .uchar
  | long _ => .long
  | longlong _ => .longlong
  | float _ => .float
  | double _ => .double
  | char _ => .char
  | bool _ => .bool

end SerialValue

namespace UtilsSerialize

/-- `Input`, by the type of its argument. -/
def input (d : UtilsSerialize) : SerialValue → UtilsSerialize
  | .int toData => d.inputInt toData
  | .string toData => d.inputString toData
  | .uint toData => d.inputUInt toData
  | .ushort toData => d.inputUShort toData
  | .uchar toData => d.inputUChar toData
  | .long toData => d.inputLong toData
  | .longlong toData => d.inputLongLong toData
  | .float bits => d.inputFloat bits
  | .double bits => d.inputDouble bits
  | .char toData => d.inputChar toData
  | .bool toData => d.inputBool toData

/-- `Output`, by the type of its argument. -/
def output : SerialType → Out SerialValue
  | .int => do return .int (← outputInt)
  | .string => do return .string (← outputString)
  | .uint => do return .uint (← outputUInt)
  | .ushort => do return .ushort (← outputUShort)
  | .uchar => do return .uchar (← outputUChar)
  | .long => do return .long (← outputLong)
  | .longlong => do return .longlong (← outputLongLong)
  | .float => do return .float (← outputFloat)
  | .double => do return .double (← outputDouble)
  | .char => do return .char (← outputChar)
  | .bool => do return .bool (← outputBool)

/-- One after the other. -/
def outputs : List SerialType → Out (List SerialValue)
  | [] => return []
  | type :: types => do
    let toData ← output type
    let rest ← outputs types
    return toData :: rest

end UtilsSerialize

end FuServer
