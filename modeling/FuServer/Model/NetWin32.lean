import FuServer.Model.MemPool

/-!
# The completion port server (NetServer_Win32, fu_socket_recv)

The blocks of the pool with the fields the handlers read, and the I/O requests
that are pending.  What Winsock does is an argument of each step: the sockets
`WSASocket` yields, whether a request is accepted (at once or with
`WSA_IO_PENDING`), how a request completes, what `recv` brings.  The buffers
are not encrypted, and every block's lock is free when it is taken.
-/

namespace FuServer

open Alloc Bytes

/-! ## fu_socket_recv -/

abbrev netBufferMaxsize : Nat := 64

/-- How the chunks of a socket end: the peer has closed it, or `recv` fails. -/
inductive RecvEnd
  | closed
  | failed
deriving DecidableEq, Repr

def RecvEnd.code : RecvEnd → Int
  | .closed => 0
  | .failed => -1

/-- `fu_socket_recv` on the chunks that the calls of `recv` bring: result and `recvStr`. -/
def fuSocketRecv (recvStr : Str) (chunks : List Str) (ending : RecvEnd) : Int × Str :=
  if recvStr.length > 0 ∧ recvStr.length < netBufferMaxsize then (recvStr.length, recvStr)
  else match chunks with
  | [] => (ending.code, recvStr)
  | buf :: chunks =>
    if buf = [] then (0, recvStr)
    else if buf.length < netBufferMaxsize then ((recvStr ++ buf).length, recvStr ++ buf)
    else
      -- the loop's buffer is the first one's: what that held is gone
      let recvStr := recvStr ++ (chunks.takeWhile (· ≠ [])).flatten
      (recvStr.length, recvStr)

/-! ## Blocks and steps -/

/-- `INVALID_SOCKET` -/
abbrev invalidSocket : Int := -1

inductive OpType
  | opAccept
  | opRecv
  | opSend
deriving DecidableEq, Repr

/-- `NET_OPERATION_MSG` -/
structure NetOperationMsg where
  soket : Int
  optype : OpType
  iBufferLen : Int
  pSendBuf : Option Str
deriving DecidableEq, Repr

/-- What the server's sockets go through. -/
inductive NetEvent
  /-- the socket that `WSASocket` yields for an accept -/
  | accept (sock : Int)
  | establishLink (sock : Int) (ip : Str)
  | recvFinish (sock : Int) (buf : Str)
  | sendFinish (sock : Int)
  | closeLink (sock : Int) (code : Int)
  | closesocket (sock : Int)
deriving DecidableEq, Repr

structure NetServerWin32 where
  bHeartBeat : Bool
  pool : UtilsMemPool
  /-- the contents of the blocks -/
  msgs : Ptr → NetOperationMsg
  iRepostCount : Nat := 0
  /-- the overlapped blocks of the pending requests -/
  pending : List Ptr := []
  /-- bookkeeping: the blocks out of the pool, and all that have ever been -/
  handed : List Ptr := []
  obtained : List Ptr := []
  events : List NetEvent := []

/-- A completion: the bytes transferred, the error, and what its handler meets. -/
structure Completion where
  trans : Str := []
  nError : Int := 0
  /-- the outcome of `DisposeHeartbeat` -/
  heartbeat : Bool := true
  /-- the remote address of an accepted socket -/
  ip : Str := []
  chunks : List Str := []
  ending : RecvEnd := .closed
  /-- whether the next `WSARecv` is accepted -/
  posted : Bool := true
  A : Malloc
  junk : Nat → Ptr

namespace NetServerWin32

def new (bHeartBeat : Bool) (msgs : Ptr → NetOperationMsg) (A : Malloc) (junk : Nat → Ptr) :
    Res NetServerWin32 := do
  let pool ← UtilsMemPool.new A [] junk
  return { bHeartBeat := bHeartBeat, pool := pool, msgs := msgs }

/-- `g_OperationMsgPool.Create()` -/
def createMsg (A : Malloc) (s : NetServerWin32) : Res (Ptr × NetServerWin32) := do
  let r ← s.pool.create A (s.pool.blocks ++ s.handed)
  return (r.1, { s with pool := r.2, handed := r.1 :: s.handed, obtained := r.1 :: s.obtained })

/-- `g_OperationMsgPool.Free(pOpMsg)` -/
def freeMsg (junk : Nat → Ptr) (s : NetServerWin32) (pOpMsg : Ptr) : Res NetServerWin32 := do
  let pool ← s.pool.free junk pOpMsg
  return { s with pool := pool, handed := s.handed.erase pOpMsg }

def setMsg (s : NetServerWin32) (pOpMsg : Ptr) (msg : NetOperationMsg) : NetServerWin32 :=
  { s with msgs := Function.update s.msgs pOpMsg msg }

def emit (s : NetServerWin32) (event : NetEvent) : NetServerWin32 :=
  { s with events := s.events ++ [event] }

/-- Hand a block to Winsock, which takes the request or refuses it. -/
def post (s : NetServerWin32) (pOpMsg : Ptr) (posted : Bool) : NetServerWin32 :=
  if posted then { s with pending := pOpMsg :: s.pending } else s

/-- `FreeOperationMsgFunc` -/
def freeOperationMsgFunc (s : NetServerWin32) (pData : Ptr) : NetServerWin32 :=
  let msg := s.msgs pData
  if msg.soket ≠ invalidSocket then
    (s.emit (.closesocket msg.soket)).setMsg pData { msg with soket := invalidSocket }
  else s

/-- `DeliverAccept` -/
def deliverAccept (s : NetServerWin32) (pOpMsg : Ptr) (sock : Int) (posted : Bool) :
    NetServerWin32 × Bool :=
  let msg := { s.msgs pOpMsg with iBufferLen := netBufferMaxsize, optype := .opAccept, soket := sock }
  (((s.emit (.accept sock)).setMsg pOpMsg msg).post pOpMsg posted, posted)

/-- `DeliverRecv`; `none` is the null pointer. -/
def deliverRecv (A : Malloc) (s : NetServerWin32) (toSocket : Int) (pOpMsg : Option Ptr)
    (posted : Bool) :
    Res (NetServerWin32 × Bool) := do
  let (pMsg, s) ← match pOpMsg with
    | some pMsg => pure (pMsg, s)
    | none => s.createMsg A
  let msg := { s.msgs pMsg with
    soket := toSocket, optype := .opRecv, iBufferLen := netBufferMaxsize, pSendBuf := none }
  return ((s.setMsg pMsg msg).post pMsg posted, posted)

/-- `SendText`; an empty text is refused. -/
def sendText (A : Malloc) (s : NetServerWin32) (sock : Int) (buf : Str) (posted : Bool) :
    Res (NetServerWin32 × Bool) :=
  if buf = [] then .ok (s, false)
  else do
    let (pOpMsg, s) ← s.createMsg A
    let msg : NetOperationMsg :=
      { soket := sock, optype := .opSend, iBufferLen := buf.length, pSendBuf := some buf }
    return ((s.setMsg pOpMsg msg).post pOpMsg posted, posted)

/-- `NotifyCloseLink`, then `Free` with `FreeOperationMsgFunc`. -/
def dropLink (s : NetServerWin32) (pOpMsg : Ptr) (nError : Int) (junk : Nat → Ptr) :
    Res NetServerWin32 :=
  ((s.emit (.closeLink (s.msgs pOpMsg).soket nError)).freeOperationMsgFunc pOpMsg).freeMsg junk pOpMsg

/-- `DisposeIOMsg` -/
def disposeIOMsg (s : NetServerWin32) (pOpMsg : Ptr) (c : Completion) : Res NetServerWin32 :=
  let msg := s.msgs pOpMsg
  if c.nError ≠ 0 then s.dropLink pOpMsg c.nError c.junk
  else match msg.optype with
  | .opAccept => do
    let s ←
      if !s.bHeartBeat || c.heartbeat then do
        let delivered ← (s.emit (.establishLink msg.soket c.ip)).deliverRecv c.A msg.soket none c.posted
        pure delivered.1
      else pure (s.freeOperationMsgFunc pOpMsg)
    let s ← s.freeMsg c.junk pOpMsg
    return { s with iRepostCount := s.iRepostCount + 1 }
  | .opRecv => do
    let received := fuSocketRecv c.trans c.chunks c.ending
    let s := s.setMsg pOpMsg { msg with iBufferLen := received.1 }
    if received.1 = 0 then return s
    else if received.1 < 0 then s.dropLink pOpMsg c.nError c.junk
    else do
      let delivered ← (s.emit (.recvFinish msg.soket received.2)).deliverRecv c.A msg.soket
        (some pOpMsg) c.posted
      return delivered.1
  | .opSend =>
    if c.trans = [] then s.dropLink pOpMsg c.nError c.junk
    else do
      let s := s.setMsg pOpMsg { msg with iBufferLen := c.trans.length, pSendBuf := none }
      let delivered ← (s.emit (.sendFinish msg.soket)).deliverRecv c.A msg.soket (some pOpMsg) c.posted
      return delivered.1

end NetServerWin32

inductive NetStep
  | accept (A : Malloc) (sock : Int) (posted : Bool)
  | sendText (A : Malloc) (sock : Int) (buf : Str) (posted : Bool)
  | complete (pOpMsg : Ptr) (c : Completion)

/-- One step of the server; only a pending request completes. -/
def NetStep.step : Res NetServerWin32 → NetStep → Option (Res NetServerWin32)
  | .ok s, .accept A sock posted => some do
    let (pOpMsg, s) ← s.createMsg A
    return (s.deliverAccept pOpMsg sock posted).1
  | .ok s, .sendText A sock buf posted => some do
    let sent ← s.sendText A sock buf posted
    return sent.1
  | .ok s, .complete pOpMsg c =>
    if pOpMsg ∈ s.pending then some ({ s with pending := s.pending.erase pOpMsg }.disposeIOMsg pOpMsg c)
    else none
  | .error _, _ => none

end FuServer
