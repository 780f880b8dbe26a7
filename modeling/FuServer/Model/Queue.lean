import FuServer.Lib.Alloc
import FuServer.Model.Record

/-!
# The queue (UtilsQueue)

A ring of pointers: the index it begins at, the number of pointers in it, and
the array.  What memory holds where nobody has written is an argument.  Sizes
are at least one, and every access outside an array is a fault.
-/

namespace FuServer

open Alloc

/-- The nearest `float` of a whole number, ties to even. -/
def toFloat (m : Nat) : Nat :=
  let ulp := 2 ^ (m.log2 - 23)
  let mantissa := m / ulp
  let rest := m % ulp
  if ulp < 2 * rest ∨ (ulp = 2 * rest ∧ mantissa % 2 = 1) then (mantissa + 1) * ulp else mantissa * ulp

/-- `int(m_iMaxSize*1.5f)` -/
def grownSize (iMaxSize : Int) : Int := toFloat (3 * toFloat iMaxSize.toNat) / 2

/-- `memcpy` of `count` pointers, to index `toPos` from index `fromPos`. -/
def memcpy (pArray : List Ptr) (toPos : Int) (src : List Ptr) (fromPos count : Int) : Res (List Ptr) :=
  if 0 ≤ toPos ∧ 0 ≤ fromPos ∧ 0 ≤ count ∧ toPos + count ≤ pArray.length ∧
    fromPos + count ≤ src.length then
    .ok (pArray.take toPos.toNat ++ (src.drop fromPos.toNat).take count.toNat ++
      pArray.drop (toPos + count).toNat)
  else .error .outOfRange

structure UtilsQueue where
  ibegin : Int
  iMaxSize : Int
  iDataSize : Int
  queueArray : List Ptr
deriving DecidableEq, Repr

namespace UtilsQueue

/-- `Reset` -/
def reset (junk : Nat → Ptr) (q : UtilsQueue) (size : Int) : Res UtilsQueue :=
  if size < q.iMaxSize then .ok q
  else do
    let pArray := (List.range size.toNat).map junk
    let endindex := (q.ibegin + q.iDataSize).tmod q.iMaxSize
    let pArray ←
      if q.ibegin > endindex then do
        -- a number of bytes: right for `memcpy`, four times too far for `pArray + toPos`
        let toPos := (q.iMaxSize - q.ibegin) * 4
        let pArray ← memcpy pArray 0 q.queueArray q.ibegin (q.iMaxSize - q.ibegin)
        memcpy pArray toPos q.queueArray 0 endindex
      else if q.ibegin < endindex then memcpy pArray 0 q.queueArray q.ibegin q.iDataSize
      else pure pArray
    return { q with ibegin := 0, queueArray := pArray, iMaxSize := size }

/-- The constructor. -/
def new (junk : Nat → Ptr) (size : Int) : Res UtilsQueue :=
  reset junk { ibegin := 0, iMaxSize := size, iDataSize := 0, queueArray := [] } size

/-- `PushBack`, by default with `bExtern`. -/
def pushBack (junk : Nat → Ptr) (q : UtilsQueue) (pData : Ptr) (bExtern : Bool) :
    Res (UtilsQueue × Bool) := do
  if q.iDataSize ≥ q.iMaxSize ∧ !bExtern then return (q, false)
  else do
    let q ← if q.iDataSize ≥ q.iMaxSize then q.reset junk (grownSize q.iMaxSize) else pure q
    let toIndex := (q.iDataSize + q.ibegin).tmod q.iMaxSize
    let queueArray ← vecModify q.queueArray toIndex fun _ => pData
    return ({ q with queueArray := queueArray, iDataSize := q.iDataSize + 1 }, true)

/-- `PopFront`; 0 is the null pointer. -/
def popFront (q : UtilsQueue) : Res (UtilsQueue × Ptr) :=
  if q.iDataSize ≤ 0 then .ok (q, 0)
  else do
    let pData ← vecAt q.queueArray q.ibegin
    return ({ q with ibegin := (q.ibegin + 1).tmod q.iMaxSize }, pData)

/-- A call of `Clear` so far: the queue, the rounds of the loop, the pointers deleted. -/
structure Cleared where
  queue : UtilsQueue
  rounds : Nat := 0
  deleted : List Ptr := []
deriving DecidableEq, Repr

/-- `FU_SAFE_DELETE` of the pointer popped. -/
def safeDelete (deleted : List Ptr) (pData : Ptr) : List Ptr :=
  if pData ≠ 0 then deleted ++ [pData] else deleted

/-- The loop of `Clear`, `fuel` rounds of it at most; `none` when it goes on. -/
def clearLoop : Nat → Cleared → Res (Option Cleared)
  | 0, c => .ok (if c.queue.iDataSize > 0 then none else some c)
  | fuel + 1, c =>
    if c.queue.iDataSize > 0 then do
      let r ← c.queue.popFront
      clearLoop fuel { queue := r.1, rounds := c.rounds + 1, deleted := safeDelete c.deleted r.2 }
    else .ok (some c)

/-- `Clear` -/
def clear (fuel : Nat) (q : UtilsQueue) : Res (Option Cleared) := do
  let c ← clearLoop fuel { queue := q }
  return c.map fun c => { c with queue := { c.queue with ibegin := 0, iDataSize := 0 } }

/-- `Front` -/
def front (q : UtilsQueue) : Res Ptr := if q.iDataSize ≤ 0 then .ok 0 else vecAt q.queueArray q.ibegin

/-- `Empty` -/
def empty (q : UtilsQueue) : Bool := q.iDataSize ≤ 0

end UtilsQueue

end FuServer
