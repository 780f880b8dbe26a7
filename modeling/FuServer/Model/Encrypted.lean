import FuServer.Model.Cipher
import FuServer.Model.NetWin32

/-!
# Encrypted buffers (ENCRYPT_PROT_BUFFER)

The senders and the receiver as they are compiled with encryption.  `none` is a text
that is not sent at all.
-/

namespace FuServer

open Bytes

/-- `NET_BUFFER_MAXSIZE`, the seed of all callers -/
abbrev netSeed : Int32 := 64

/-- `NetClient::SendText`: the bytes that `fu_socket_send` is given. -/
def netClientSendText (shifts : ShiftRule) (sockId : Int) (pData : Option Str) (datalen : Int32) :
    CipherRes (Option Str) :=
  match pData with
  | none => return none
  | some pData => do
    if sockId ≠ -1 ∧ datalen > 0 then
      let (pEncrytData, encryptLen) ← fuEncryptStream shifts pData datalen netSeed
      return some (pEncrytData.take encryptLen.toNatClampNeg)
    else return none

/-- `NetServer_Win32::SendText`: the bytes of its `WSASend`. -/
def netServerWin32SendText (shifts : ShiftRule) (buf : Option Str) (buflen : Int32) :
    CipherRes (Option Str) :=
  match buf with
  | none => return none
  | some buf => do
    if buflen > 0 then
      -- `m_iBufferLen` has just been set to 0
      let (pSendBuf, iBufferLen) ← fuEncryptStream shifts buf 0 netSeed
      return some (pSendBuf.take iBufferLen.toNatClampNeg)
    else return none

/-- The `while` loop; `buf` is the buffer as the `recv` before has left it. -/
def recvEncryptedLoop : List Str → Str → Str → CipherRes Str
  | [], _, recvStr => .ok recvStr
  | chunk :: chunks, buf, recvStr =>
    if chunk = [] then .ok recvStr
    else do
      let buf := chunk ++ buf.drop chunk.length
      let buflen ← fuUnencryptStreamSize buf
      if buflen = 0 then return recvStr
      recvEncryptedLoop chunks buf (recvStr ++ chunk)

/-- `fu_socket_recv`: result and `recvStr`. -/
def fuSocketRecvEncrypted (shifts : ShiftRule) (recvStr : Str) (chunks : List Str) (ending : RecvEnd) :
    CipherRes (Int × Str) :=
  if recvStr.length > 0 ∧ recvStr.length < netBufferMaxsize then .ok (recvStr.length, recvStr)
  else match chunks with
  | [] => .ok (ending.code, recvStr)
  | buf :: chunks =>
    if buf = [] then .ok (0, recvStr)
    else if buf.length < netBufferMaxsize then .ok ((recvStr ++ buf).length, recvStr ++ buf)
    else do
      let recvStr ← recvEncryptedLoop chunks buf recvStr
      let (pData, tolen) ← fuUnencryptStream shifts (recvStr ++ [0])
      let recvStr := pData.take tolen.toNatClampNeg
      return (recvStr.length, recvStr)

end FuServer
