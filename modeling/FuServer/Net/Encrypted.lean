import FuServer.Model.Encrypted
import FuServer.Utils.CipherInverse

/-!
# The encrypted transport

Short arrivals are handed up as they are, header and all; a first chunk that fills
the buffer is lost, and what is left of the stream is decrypted without it.
-/

namespace FuServer

open Bytes Outcome Words

/-! ## One receive -/

/-- The bytes posted as one receive meets them: `recvStr` from the read before, if any, and the
chunks of `recv`.  None are left over: nothing is behind a short `recvStr` or a short first chunk. -/
structure OneReceive (posted recvStr : Str) (chunks : List Str) : Prop where
  bytes : recvStr ++ chunks.flatten = posted
  before : recvStr.length ≤ netBufferMaxsize
  sizes : ∀ chunk ∈ chunks, 1 ≤ chunk.length ∧ chunk.length ≤ netBufferMaxsize
  short : 0 < recvStr.length → recvStr.length < netBufferMaxsize → chunks = []
  last : ∀ chunk rest, chunks = chunk :: rest → chunk.length < netBufferMaxsize → rest = []

/-- The loop appends no more than it is brought. -/
theorem recvEncryptedLoop_length {chunks : List Str} {buf recvStr result : Str}
    (h : recvEncryptedLoop chunks buf recvStr = .ok result) :
    result.length ≤ recvStr.length + chunks.flatten.length := by
  induction chunks generalizing buf recvStr with
  | nil =>
    cases h
    simp
  | cons chunk chunks ih =>
    rw [List.flatten_cons, List.length_append]
    rw [recvEncryptedLoop] at h
    split at h
    · cases h
      omega
    · obtain ⟨buflen, -, h⟩ := bind_eq_ok.mp h
      split at h
      · cases h
        omega
      · have hrest := ih h
        rw [List.length_append] at hrest
        omega

/-- A decrypted text has had the header in front of it. -/
theorem fuUnencryptStream_length {shifts : ShiftRule} {pData : Str} {r : Str × Int32}
    (h : fuUnencryptStream shifts pData = .ok r) : r.2.toNatClampNeg + 8 ≤ pData.length := by
  unfold fuUnencryptStream at h
  obtain ⟨seed, -, h⟩ := bind_eq_ok.mp h
  obtain ⟨datalen, -, h⟩ := bind_eq_ok.mp h
  split at h
  · cases h
  · obtain ⟨data, hdata, h⟩ := bind_eq_ok.mp h
    obtain ⟨key, -, h⟩ := bind_eq_ok.mp h
    cases h
    show datalen.toNatClampNeg + 8 ≤ pData.length
    unfold bytesAt at hdata
    split at hdata
    · omega
    · cases hdata

/-- What is handed up of the bytes posted: these themselves, or a text that is shorter by more than a
buffer. -/
theorem OneReceive.result {shifts : ShiftRule} {posted recvStr : Str} {chunks : List Str}
    {ending : RecvEnd} (h : OneReceive posted recvStr chunks) {r : Int × Str}
    (hr : fuSocketRecvEncrypted shifts recvStr chunks ending = .ok r) :
    r.2 = posted ∨ r.2.length + 71 ≤ posted.length := by
  have hbytes := h.bytes
  unfold fuSocketRecvEncrypted at hr
  split at hr
  · next hshort =>
    cases hr
    rw [h.short hshort.1 hshort.2] at hbytes
    left
    simpa using hbytes
  · cases chunks with
    | nil =>
      cases hr
      left
      simpa using hbytes
    | cons buf chunks =>
      dsimp only at hr
      have hsize := h.sizes buf List.mem_cons_self
      split at hr
      · next hempty =>
        rw [hempty] at hsize
        exact absurd hsize.1 (by decide)
      · split at hr
        · next hlast =>
          cases hr
          rw [h.last buf chunks rfl hlast] at hbytes
          left
          simpa using hbytes
        · next hfull =>
          -- the first chunk is lost
          obtain ⟨kept, hkept, hr⟩ := bind_eq_ok.mp hr
          obtain ⟨dec, hdec, hr⟩ := bind_eq_ok.mp hr
          cases hr
          have hle := recvEncryptedLoop_length hkept
          have hheader := fuUnencryptStream_length hdec
          have hlen := congrArg List.length hbytes
          simp only [List.flatten_cons, List.length_append, List.length_singleton] at hlen hheader
          have hmax : netBufferMaxsize = 64 := rfl
          right
          show (dec.1.take dec.2.toNatClampNeg).length + 71 ≤ posted.length
          rw [List.length_take]
          omega

/-- A text that leaves room in the buffer is handed up as it is. -/
theorem OneReceive.result_short {shifts : ShiftRule} {posted recvStr : Str} {chunks : List Str}
    {ending : RecvEnd} (h : OneReceive posted recvStr chunks) (hpos : 0 < posted.length)
    (hlt : posted.length < netBufferMaxsize) :
    fuSocketRecvEncrypted shifts recvStr chunks ending = .ok ((posted.length : Int), posted) := by
  have hbytes := h.bytes
  have hlen := congrArg List.length hbytes
  rw [List.length_append] at hlen
  unfold fuSocketRecvEncrypted
  by_cases hshort : recvStr.length > 0 ∧ recvStr.length < netBufferMaxsize
  · rw [h.short hshort.1 hshort.2, List.flatten_nil, List.append_nil] at hbytes
    rw [if_pos hshort, hbytes]
  · have hempty : recvStr = [] := List.eq_nil_of_length_eq_zero (by omega)
    subst hempty
    rw [if_neg hshort]
    cases chunks with
    | nil =>
      rw [← hbytes] at hpos
      cases hpos
    | cons buf chunks =>
      have hsize := h.sizes buf List.mem_cons_self
      have hroom : buf.length < netBufferMaxsize := by
        simp only [List.flatten_cons, List.length_append, List.length_nil] at hlen
        omega
      have hne : buf ≠ [] := List.ne_nil_of_length_pos hsize.1
      rw [h.last buf chunks rfl hroom] at hbytes
      dsimp only
      rw [if_neg hne, if_pos hroom]
      simp only [List.nil_append, List.flatten_cons, List.flatten_nil, List.append_nil] at hbytes
      rw [List.nil_append, hbytes]

/-! ## The senders -/

inductive Sender
  | netClient (sockId : Int)
  | netServerWin32
deriving DecidableEq, Repr

/-- The bytes that a sender posts for `msg`. -/
def Sender.sendText (shifts : ShiftRule) (msg : Str) : Sender → CipherRes (Option Str)
  | .netClient sockId => netClientSendText shifts sockId (some msg) (Int32.ofNat msg.length)
  | .netServerWin32 => netServerWin32SendText shifts (some msg) (Int32.ofNat msg.length)

/-- A client posts eight bytes more than the message has. -/
theorem length_netClientSendText {shifts : ShiftRule} {sockId : Int} {msg posted : Str}
    (hlen : msg.length < 2 ^ 31)
    (h : (Sender.netClient sockId).sendText shifts msg = .ok (some posted)) :
    posted.length = msg.length + 8 := by
  have hsend : netClientSendText shifts sockId (some msg) (Int32.ofNat msg.length) =
      .ok (some posted) := h
  unfold netClientSendText at hsend
  dsimp only at hsend
  split at hsend
  · obtain ⟨r, hr, hposted⟩ := bind_eq_ok.mp hsend
    cases hposted
    by_cases hroom : msg.length + 8 < 2 ^ 31
    · have hencrypt := fuEncryptStream_eq shifts netSeed hroom []
      rw [List.append_nil, hr] at hencrypt
      cases hkey : encryKey shifts netSeed (Int32.ofNat msg.length) with
      | error e =>
        rw [hkey] at hencrypt
        cases hencrypt
      | ok key =>
        rw [hkey] at hencrypt
        cases hencrypt
        have hwords := length_mapWords (keepsWords_wordBytes (· + key)) msg
        show (List.take (Int32.ofNat (msg.length + 8)).toNatClampNeg _).length = _
        rw [Int32.toNatClampNeg_ofNat_of_lt hroom, List.length_take, List.length_append,
          length_header, hwords]
        omega
    · rw [fuEncryptStream_long shifts netSeed hlen (by omega)] at hr
      cases hr
  · cases hsend

/-- The server posts the header of an empty message, whatever it is given. -/
theorem netServerWin32SendText_eq {shifts : ShiftRule} {msg : Str} (hne : msg ≠ [])
    (hlen : msg.length < 2 ^ 31) :
    Sender.netServerWin32.sendText shifts msg = .ok (some (header netSeed 0)) := by
  have hpos : Int32.ofNat msg.length > 0 := by
    have hcount := List.length_pos_of_ne_nil hne
    have hzero : (0 : Int32).toInt = 0 := rfl
    show (0 : Int32) < _
    rw [Int32.lt_iff_toInt_lt, Int32.toInt_ofNat_of_lt hlen]
    omega
  have hkey : encryKey shifts netSeed (Int32.ofNat ([] : Str).length) = .ok 0 := by
    cases shifts <;> decide
  have hencrypt := fuEncryptStream_eq shifts netSeed (show ([] : Str).length + 8 < 2 ^ 31 by decide) msg
  rw [hkey, List.nil_append] at hencrypt
  have hstream : fuEncryptStream shifts msg 0 netSeed = .ok (header netSeed 0, 8) := hencrypt
  show netServerWin32SendText shifts (some msg) (Int32.ofNat msg.length) = _
  unfold netServerWin32SendText
  dsimp only
  rw [if_pos hpos, hstream]
  rfl

/-- **The encrypted transport.**  Whatever the arrival, the message is handed up exactly when it is
the header that the server posts for every message. -/
theorem transparent_iff (shifts : ShiftRule) (s : Sender) {msg posted recvStr : Str} {chunks : List Str}
    (ending : RecvEnd) (hne : msg ≠ []) (hlen : msg.length < 2 ^ 31)
    (hsend : s.sendText shifts msg = .ok (some posted)) (harrive : OneReceive posted recvStr chunks) :
    fuSocketRecvEncrypted shifts recvStr chunks ending = .ok ((msg.length : Int), msg) ↔
      s = .netServerWin32 ∧ msg = header netSeed 0 := by
  cases s with
  | netClient sockId =>
    have hposted := length_netClientSendText hlen hsend
    refine iff_of_false ?_ fun hno => by cases hno.1
    intro hr
    rcases harrive.result hr with heq | hshort
    · have hcount := congrArg List.length heq
      dsimp only at hcount
      omega
    · dsimp only at hshort
      omega
  | netServerWin32 =>
    rw [netServerWin32SendText_eq hne hlen] at hsend
    cases hsend
    rw [harrive.result_short (by decide) (by decide)]
    constructor
    · intro hr
      exact ⟨rfl, (Prod.mk.inj (Except.ok.inj hr)).2.symm⟩
    · rintro ⟨-, rfl⟩
      rfl

theorem transparent_iff_header :
    fuSocketRecvEncrypted .reduced [] [header netSeed 0] .closed =
        .ok (((header netSeed 0).length : Int), header netSeed 0) ↔
      Sender.netServerWin32 = .netServerWin32 ∧ header netSeed 0 = header netSeed 0 :=
  transparent_iff .reduced .netServerWin32 .closed (by decide) (by decide)
    (netServerWin32SendText_eq (by decide) (by decide))
    ⟨rfl, by decide, by decide, fun h => absurd h (by decide), fun _ _ h _ => by cases h; rfl⟩

/-- "hello" arrives from a client with the header in front and its first word changed, and from the
server as the header alone. -/
theorem transparent_broken :
    (Sender.netClient 5).sendText .reduced (lit "hello") =
        .ok (some [64, 0, 0, 0, 5, 0, 0, 0, 124, 101, 108, 108, 111]) ∧
      fuSocketRecvEncrypted .reduced [] [[64, 0, 0, 0, 5, 0, 0, 0, 124, 101, 108, 108, 111]] .closed =
        .ok (13, [64, 0, 0, 0, 5, 0, 0, 0, 124, 101, 108, 108, 111]) ∧
      Sender.netServerWin32.sendText .reduced (lit "hello") = .ok (some [64, 0, 0, 0, 0, 0, 0, 0]) ∧
      fuSocketRecvEncrypted .reduced [] [[64, 0, 0, 0, 0, 0, 0, 0]] .closed =
        .ok (8, [64, 0, 0, 0, 0, 0, 0, 0]) := by
  have hkey : encryKey .reduced netSeed (Int32.ofNat (lit "hello").length) = .ok 20 := by decide
  have hencrypt := fuEncryptStream_eq .reduced netSeed
    (show (lit "hello").length + 8 < 2 ^ 31 by decide) []
  rw [hkey, List.append_nil] at hencrypt
  refine ⟨?_, by rfl, netServerWin32SendText_eq (by decide) (by decide), by rfl⟩
  show netClientSendText .reduced 5 (some (lit "hello")) (Int32.ofNat (lit "hello").length) = _
  unfold netClientSendText
  dsimp only
  rw [if_pos (by decide), hencrypt]
  rfl

end FuServer
