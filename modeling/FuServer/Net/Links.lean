import FuServer.Lib.Runs
import FuServer.Model.NetLibevent

/-!
# The list of links and the live connections

`st_LinkSocketList` follows the bufferevents through every accept and every
disconnect, whatever handles are used again.  `CloseSocket` frees a bufferevent
and tells nobody: its entry stays, and the next accept that is given the same
address finds the key taken.
-/

namespace FuServer

open Bytes Runs

namespace NetServerLibevent

variable {s : NetServerLibevent}

/-- The list has exactly the handles that are accepted and not yet freed, each
with the remote address of its latest accept. -/
def Tracks (s : NetServerLibevent) : Prop := ∀ h, s.linkSocketList.lookup h = s.bufferevents.lookup h

theorem lookup_stAddLinkSock (socket h : Int) (ip : Str) (l : UMap Int Str) :
    (stAddLinkSock socket ip l).lookup h = if h = socket then
      some ((l.lookup socket).getD ip) else l.lookup h := by
  unfold stAddLinkSock
  cases hfind : l.lookup socket with
  | none =>
    by_cases hh : h = socket
    · rw [hh, if_pos rfl]
      exact AList.lookup_insert l
    · rw [if_neg hh]
      exact AList.lookup_insert_ne hh
  | some old =>
    by_cases hh : h = socket
    · rw [hh, if_pos rfl]
      exact hfind
    · rw [if_neg hh]

theorem lookup_stRidLinkSock (socket h : Int) (l : UMap Int Str) :
    (stRidLinkSock socket l).lookup h = if h = socket then none else l.lookup h := by
  unfold stRidLinkSock
  cases hfind : l.lookup socket with
  | none =>
    by_cases hh : h = socket
    · rw [hh, if_pos rfl]
      exact hfind
    · rw [if_neg hh]
  | some old =>
    by_cases hh : h = socket
    · rw [hh, if_pos rfl]
      exact AList.lookup_erase socket l
    · rw [if_neg hh]
      exact AList.lookup_erase_ne hh

/-! ## The events -/

theorem Tracks.accept (h : Tracks s) {bev : Option Int} {ip : Str}
    (hnew : ∀ b ∈ bev, b ∉ s.bufferevents) :
    Tracks (s.stAcceptFunc bev ip) := by
  cases bev with
  | none => exact h
  | some bev =>
    intro x
    show (stAddLinkSock bev ip s.linkSocketList).lookup x = (s.bufferevents.insert bev ip).lookup x
    rw [lookup_stAddLinkSock]
    by_cases hx : x = bev
    · have hnone : s.linkSocketList.lookup bev = none := by
        rw [h bev]
        exact AList.lookup_eq_none.mpr (hnew bev rfl)
      rw [hx, if_pos rfl, hnone]
      exact (AList.lookup_insert s.bufferevents).symm
    · rw [if_neg hx, AList.lookup_insert_ne hx]
      exact h x

theorem Tracks.disconnect (h : Tracks s) (bev : Int) (events : BevEvents) :
    Tracks (s.stDisconnectFunc bev events) := by
  unfold stDisconnectFunc
  split
  · intro x
    show (stRidLinkSock bev s.linkSocketList).lookup x = (s.bufferevents.erase bev).lookup x
    rw [lookup_stRidLinkSock]
    by_cases hx : x = bev
    · rw [hx, if_pos rfl]
      exact (AList.lookup_erase bev s.bufferevents).symm
    · rw [if_neg hx, AList.lookup_erase_ne hx]
      exact h x
  · exact h

/-- The entry of the freed bufferevent stays. -/
theorem Tracks.not_closeSocket (h : Tracks s) {sockId : Int} (hlive : sockId ∈ s.bufferevents) :
    ¬ Tracks (s.closeSocket sockId) := by
  intro h'
  obtain ⟨ip, hip⟩ := UMap.exists_lookup hlive
  have hentry : s.linkSocketList.lookup sockId = (s.bufferevents.erase sockId).lookup sockId := h' sockId
  rw [h sockId, hip, AList.lookup_erase] at hentry
  cases hentry

end NetServerLibevent

namespace LinkStep

open NetServerLibevent

/-- The server closes no connection by itself. -/
def FromOutside : LinkStep → Prop
  | accept _ _ => True
  | disconnect _ _ => True
  | closeSocket _ => False

theorem tracks_step {s s' : NetServerLibevent} {a : LinkStep} (h : s.Tracks) (hs : step s a = some s') :
    s'.Tracks ↔ a.FromOutside := by
  cases a with
  | accept bev ip =>
    rw [step] at hs
    split at hs
    · next hnew =>
      cases hs
      exact iff_of_true (h.accept hnew.2) trivial
    · cases hs
  | disconnect bev events =>
    rw [step] at hs
    split at hs
    · cases hs
      exact iff_of_true (h.disconnect bev events) trivial
    · cases hs
  | closeSocket sockId =>
    rw [step] at hs
    split at hs
    · next hlive =>
      cases hs
      exact iff_of_false (h.not_closeSocket hlive) id
    · cases hs

/-- **The list of links.**  Over a whole run of a new server, the list is the
live connections after each event exactly when `CloseSocket` is never called. -/
theorem links_tracked_iff (as : List LinkStep) :
    Always step Tracks {} as ↔ EachStep step (fun _ a => a.FromOutside) {} as := by
  apply always_iff_eachStep (J := fun _ => True) (D := fun _ _ => True)
  · intro _ _ _ _ _ _
    trivial
  · intro s a s' _ h _ hs
    exact tracks_step h hs
  · trivial
  · exact fun _ => rfl
  · exact eachStep_of_forall as _ fun _ _ _ => trivial

/-- The second client is given the address of the first one's bufferevent, and
the list keeps the first one's. -/
theorem closeSocket_leaves_entry :
    ¬ Always step Tracks {}
      [.accept (some 9) (lit "1.1.1.1"), .closeSocket 9, .accept (some 9) (lit "2.2.2.2")] := by
  apply not_always_of_any (b := fun s => s.linkSocketList.lookup 9 ≠ s.bufferevents.lookup 9)
  · intro s hs h
    exact of_decide_eq_true hs (h 9)
  · decide

end LinkStep

end FuServer
