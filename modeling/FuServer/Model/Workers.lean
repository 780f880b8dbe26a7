import FuServer.Model.Record

/-!
# The start of the workers (_WaitEeventThreadProc)

The two arrays of handles are static and of a fixed size; a store outside one is a
fault.  What `CreateThread` yields is an argument.
-/

namespace FuServer

abbrev Handle := Int

/-- An array of handles and the number of its entries that are in use:
`g_EventHandleArray` and `g_iEventSize`, `g_ThreadHandleArray` and `g_iThreadSize`. -/
structure HandleTable where
  slots : List Handle := List.replicate 20 0
  size : Int := 0
deriving DecidableEq, Repr

namespace HandleTable

/-- `array[size++] = handle` -/
def store (t : HandleTable) (handle : Handle) : Res HandleTable := do
  let slots ← vecModify t.slots t.size fun _ => handle
  return { slots := slots, size := t.size + 1 }

/-- The handles that a wait on `size` and the array is made on. -/
def waited (t : HandleTable) : List Handle := t.slots.take t.size.toNat

end HandleTable

structure HandleTables where
  event : HandleTable := {}
  thread : HandleTable := {}
deriving DecidableEq, Repr

/-- `mySysInfo.dwNumberOfProcessors * 2`, a `DWORD` made an `int` -/
def nEventCount (dwNumberOfProcessors : UInt32) : Int32 := (dwNumberOfProcessors * 2).toInt32

/-- The rounds of the loop from `i` on. -/
def startWorkers (createThread : Nat → Handle) : Nat → Nat → HandleTables → Res HandleTables
  | 0, _, t => .ok t
  | rounds + 1, i, t => do
    let hThread := createThread i
    let event ← t.event.store hThread
    let thread ← t.thread.store hThread
    startWorkers createThread rounds (i + 1) { event := event, thread := thread }

/-- `_WaitEeventThreadProc` up to its first wait. -/
def waitEventThreadStart (dwNumberOfProcessors : UInt32) (hAcceptEvent hPostEvent : Handle)
    (createThread : Nat → Handle) (t : HandleTables) : Res HandleTables := do
  let event ← t.event.store hAcceptEvent
  let event ← event.store hPostEvent
  startWorkers createThread (nEventCount dwNumberOfProcessors).toNatClampNeg 0 { t with event := event }

end FuServer
