import FuServer.Lib.HashMap
import FuServer.Model.Record

/-!
# The libevent server (NetServer_Libevent, FUNetServer)

The callbacks that make and free bufferevents, and the list of links that
FUNetServer keeps beside them.  A handle is the address of a bufferevent, so
`bufferevent_socket_new` is free to return one that has been freed before.
-/

namespace FuServer

open Bytes

/-! ## st_LinkSocketList -/

def stAddLinkSock (socket : Int) (ip : Str) (linkSocketList : UMap Int Str) : UMap Int Str :=
  match linkSocketList.lookup socket with
  | none => linkSocketList.insert socket ip
  | some _ => linkSocketList

def stRidLinkSock (socket : Int) (linkSocketList : UMap Int Str) : UMap Int Str :=
  match linkSocketList.lookup socket with
  | none => linkSocketList
  | some _ => linkSocketList.erase socket

/-! ## The server -/

/-- The bits of a bufferevent's `events` that `st_DisconnectFunc` tests. -/
structure BevEvents where
  eof : Bool
  error : Bool
  timeout : Bool
deriving DecidableEq, Repr

structure NetServerLibevent where
  linkSocketList : UMap Int Str := ∅
  /-- the bufferevents that exist, with the remote address each was made for -/
  bufferevents : UMap Int Str := ∅
  /-- `event_base_loopbreak`: no callback runs any more -/
  loopBroken : Bool := false
deriving DecidableEq

namespace NetServerLibevent

def notifyEstablishLink (sock : Int) (ip : Str) (s : NetServerLibevent) : NetServerLibevent :=
  { s with linkSocketList := stAddLinkSock sock ip s.linkSocketList }

def notifyCloseLink (sock : Int) (s : NetServerLibevent) : NetServerLibevent :=
  { s with linkSocketList := stRidLinkSock sock s.linkSocketList }

/-- `bufferevent_socket_new` -/
def buffereventNew (bev : Int) (ip : Str) (s : NetServerLibevent) : NetServerLibevent :=
  { s with bufferevents := s.bufferevents.insert bev ip }

/-- `bufferevent_free` -/
def buffereventFree (bev : Int) (s : NetServerLibevent) : NetServerLibevent :=
  { s with bufferevents := s.bufferevents.erase bev }

/-- `st_AcceptFunc`; `bev` is what `bufferevent_socket_new` returns. -/
def stAcceptFunc (bev : Option Int) (ip : Str) (s : NetServerLibevent) : NetServerLibevent :=
  match bev with
  | none => { s with loopBroken := true }
  | some bev => (s.buffereventNew bev ip).notifyEstablishLink bev ip

/-- `st_DisconnectFunc` -/
def stDisconnectFunc (bev : Int) (events : BevEvents) (s : NetServerLibevent) : NetServerLibevent :=
  if events.eof || events.error then (s.notifyCloseLink bev).buffereventFree bev
  -- with the timeout bit alone it logs, no more
  else s

/-- `CloseSocket` -/
def closeSocket (sockId : Int) (s : NetServerLibevent) : NetServerLibevent := s.buffereventFree sockId

end NetServerLibevent

inductive LinkStep
  | accept (bev : Option Int) (ip : Str)
  | disconnect (bev : Int) (events : BevEvents)
  | closeSocket (sockId : Int)
deriving DecidableEq, Repr

/-- One event.  A new bufferevent is none of those that exist; callbacks and
calls are for one that does. -/
def LinkStep.step (s : NetServerLibevent) : LinkStep → Option NetServerLibevent
  | accept bev ip =>
    if s.loopBroken = false ∧ ∀ h ∈ bev, h ∉ s.bufferevents then some (s.stAcceptFunc bev ip) else none
  | disconnect bev events =>
    if s.loopBroken = false ∧ bev ∈ s.bufferevents then some (s.stDisconnectFunc bev events) else none
  | closeSocket sockId => if sockId ∈ s.bufferevents then some (s.closeSocket sockId) else none

end FuServer
