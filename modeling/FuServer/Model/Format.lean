import FuServer.Model.Record

/-!
# The buffer of fu_string_format

The text builders use `fuStringFormat`, the expansion itself.  Here is how the code
gets at it: a buffer that is doubled until `vsnprintf` does not fail, and `strlen`
of what it holds then.  `vsnprintf` is an argument, from the size of the buffer to
its result and what the buffer holds.
-/

namespace FuServer

open Bytes

/-- A size that `new` accepts and an `int` holds. -/
abbrev BufSize := { c : Nat // 0 < c ∧ c < 2 ^ 31 }

/-- `strlen` of a buffer, which reads on behind one without a NUL. -/
def strlenBuf (pBuf : Str) : Res Nat :=
  if 0 ∈ pBuf then .ok (cstr pBuf).length else .error .readPastEnd

/-- The `do` loop.  A size doubled beyond `int` is a fault. -/
def formatLoop (vsnprintf : Nat → Int × Str) (toCharLen : BufSize) : Res Str :=
  let (toSize, pBuf) := vsnprintf toCharLen.1
  if toSize < 0 then
    if h : toCharLen.1 * 2 < 2 ^ 31 then formatLoop vsnprintf ⟨toCharLen.1 * 2, by omega⟩
    else .error .outOfRange
  else do
    let len ← strlenBuf pBuf
    return pBuf.take len
termination_by 2 ^ 31 - toCharLen.1
decreasing_by omega

/-- `fu_string_format` -/
def fuStringFormatBuf (vsnprintf : Nat → Int × Str) (format : Str) : Res Str :=
  let toCharLen := (Int32.ofNat (cstr format).length).toInt.toNat
  if hshort : toCharLen < 1024 then formatLoop vsnprintf ⟨1024, by decide⟩
  else if h : toCharLen * 2 < 2 ^ 31 then formatLoop vsnprintf ⟨toCharLen * 2, by omega⟩
  else .error .outOfRange

end FuServer
