import FuServer.Lib.Alloc
import FuServer.Model.Record

/-!
# The memory pool (UtilsMemPool)

The slot array with the number of blocks in it and its size.  What `malloc`
and `realloc` return is an argument: the allocator, which knows the live
blocks, and the contents of slots nobody has written.  The sizes stay below
the int limit, and the lock makes each call one step.
-/

namespace FuServer

open Alloc

structure UtilsMemPool where
  pPoolArray : List Ptr
  iPoolSize : Int
  iBufferSize : Int
deriving DecidableEq, Repr

namespace UtilsMemPool

/-- An array of `size` slots: those of `pPoolArray`, then whatever memory holds. -/
def realloc (junk : Nat → Ptr) (pPoolArray : List Ptr) (size : Int) : List Ptr :=
  (List.range size.toNat).map fun i => pPoolArray.getD i (junk i)

/-- `m_pPoolArray[i] = (int)malloc(tSize)` for the blocks of the calls, slot `i` on. -/
def fill (pPoolArray : List Ptr) : Nat → List Ptr → Res (List Ptr)
  | _, [] => .ok pPoolArray
  | i, b :: blocks => do
    let pPoolArray ← vecModify pPoolArray i fun _ => b
    fill pPoolArray (i + 1) blocks

/-- The constructor. -/
def new (A : Malloc) (live : List Ptr) (junk : Nat → Ptr) : Res UtilsMemPool := do
  let pPoolArray ← fill (realloc junk [] 100) 0 (A.blocks 30 live)
  return { pPoolArray := pPoolArray, iPoolSize := 30, iBufferSize := 100 }

/-- `Create` -/
def create (A : Malloc) (live : List Ptr) (p : UtilsMemPool) : Res (Ptr × UtilsMemPool) := do
  let p ←
    if p.iPoolSize ≤ 0 then do
      let externDataNum := p.iBufferSize.tdiv 2
      let pPoolArray ← fill p.pPoolArray 0 (A.blocks externDataNum.toNat live)
      pure { p with pPoolArray := pPoolArray, iPoolSize := externDataNum }
    else pure p
  let pData ← vecAt p.pPoolArray (p.iPoolSize - 1)
  let pPoolArray ← vecModify p.pPoolArray (p.iPoolSize - 1) fun _ => 0
  return (pData, { p with pPoolArray := pPoolArray, iPoolSize := p.iPoolSize - 1 })

/-- `ExternBuffer`, and `Extern` -/
def externBuffer (junk : Nat → Ptr) (p : UtilsMemPool) (t : Int) : UtilsMemPool :=
  let iBufferSize := p.iBufferSize * t
  { p with pPoolArray := realloc junk p.pPoolArray iBufferSize, iBufferSize := iBufferSize }

/-- `Free` -/
def free (junk : Nat → Ptr) (p : UtilsMemPool) (pData : Ptr) : Res UtilsMemPool := do
  let p := if p.iPoolSize ≥ p.iBufferSize then p.externBuffer junk 2 else p
  let pPoolArray ← vecModify p.pPoolArray p.iPoolSize fun _ => pData
  return { p with pPoolArray := pPoolArray, iPoolSize := p.iPoolSize + 1 }

/-- The blocks in the slots below `m_iPoolSize`. -/
def blocks (p : UtilsMemPool) : List Ptr := p.pPoolArray.take p.iPoolSize.toNat

end UtilsMemPool

end FuServer
