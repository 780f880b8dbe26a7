import FuServer.Model.NetWin32

/-!
# What `fu_socket_recv` keeps

The function again, call of `recv` by call of `recv`, with the bytes that these
calls have returned beside it (`RecvRun`).  A first chunk that fills the buffer
is overwritten by the second call before it is appended to `recvStr`.

    (∀ buf ∈ chunks, 1 ≤ buf.length) →
      (NothingLost recvStr (recvRun recvStr chunks ending) ↔ FirstKept recvStr chunks)   (nothingLost_iff)
-/

namespace FuServer

open Bytes

/-- A call of `fu_socket_recv`: its result, `recvStr` after it, and what its `recv` calls returned. -/
structure RecvRun where
  result : Int
  recvStr : Str
  returned : Str
deriving DecidableEq, Repr

/-- The `while` loop: each chunk is appended until a call brings none. -/
def recvLoop : List Str → Str → Str → Str × Str
  | [], recvStr, returned => (recvStr, returned)
  | buf :: chunks, recvStr, returned =>
    if buf = [] then (recvStr, returned) else recvLoop chunks (recvStr ++ buf) (returned ++ buf)

def recvRun (recvStr : Str) (chunks : List Str) (ending : RecvEnd) : RecvRun :=
  if recvStr.length > 0 ∧ recvStr.length < netBufferMaxsize then ⟨recvStr.length, recvStr, []⟩
  else match chunks with
  | [] => ⟨ending.code, recvStr, []⟩
  | buf :: chunks =>
    if buf = [] then ⟨0, recvStr, []⟩
    else if buf.length < netBufferMaxsize then ⟨(recvStr ++ buf).length, recvStr ++ buf, buf⟩
    else
      -- `buf` has been returned, and the loop starts with a `recv` into it
      let kept := recvLoop chunks recvStr buf
      ⟨kept.1.length, kept.1, kept.2⟩

/-- The loop appends to `recvStr` what its calls return. -/
theorem recvLoop_eq (chunks : List Str) (recvStr returned : Str) :
    recvLoop chunks recvStr returned =
      (recvStr ++ (chunks.takeWhile (· ≠ [])).flatten,
        returned ++ (chunks.takeWhile (· ≠ [])).flatten) := by
  induction chunks generalizing recvStr returned with
  | nil => simp [recvLoop]
  | cons buf chunks ih =>
    rw [recvLoop]
    by_cases hbuf : buf = []
    · simp [hbuf]
    · rw [if_neg hbuf, ih, List.takeWhile_cons_of_pos (by simpa using hbuf), List.flatten_cons,
        List.append_assoc, List.append_assoc]

/-- The run has the result and the text of `fu_socket_recv`. -/
theorem recvRun_eq (recvStr : Str) (chunks : List Str) (ending : RecvEnd) :
    ((recvRun recvStr chunks ending).result, (recvRun recvStr chunks ending).recvStr) =
      fuSocketRecv recvStr chunks ending := by
  unfold recvRun fuSocketRecv
  split
  · rfl
  · cases chunks with
    | nil => rfl
    | cons buf chunks =>
      dsimp only
      split
      · rfl
      · split
        · rfl
        · rw [recvLoop_eq]

/-- After the call `recvStr` is what it was with all that was returned behind it; the
result is its length if it is not empty, and not positive only if nothing was returned. -/
structure NothingLost (recvStr : Str) (r : RecvRun) : Prop where
  kept : r.recvStr = recvStr ++ r.returned
  length : r.recvStr ≠ [] → r.result = r.recvStr.length
  nonpos : r.result ≤ 0 → r.returned = []

/-- No call of `recv` is made, or its first result is neither lost nor ignored: a chunk
that leaves room in the buffer, or, with `recvStr` empty, no chunk at all. -/
def FirstKept (recvStr : Str) (chunks : List Str) : Prop :=
  0 < recvStr.length ∧ recvStr.length < netBufferMaxsize ∨
    match chunks with
    | [] => recvStr = []
    | buf :: _ => buf.length < netBufferMaxsize

instance (recvStr : Str) (chunks : List Str) : Decidable (FirstKept recvStr chunks) := by
  unfold FirstKept
  cases chunks <;> infer_instance

/-- With bytes of an earlier call in it, the text is returned as it is. -/
theorem nothingLost_of_room {recvStr : Str} (h : 0 < recvStr.length ∧ recvStr.length < netBufferMaxsize)
    (chunks : List Str) (ending : RecvEnd) : NothingLost recvStr (recvRun recvStr chunks ending) := by
  have hrun : recvRun recvStr chunks ending = ⟨recvStr.length, recvStr, []⟩ := by
    unfold recvRun
    rw [if_pos h]
  rw [hrun]
  exact ⟨(List.append_nil _).symm, fun _ => rfl, fun _ => rfl⟩

/-- The first `recv` brings nothing: the text is lost sight of if there is one. -/
theorem nothingLost_nil {recvStr : Str} (h : ¬ (0 < recvStr.length ∧ recvStr.length < netBufferMaxsize))
    (ending : RecvEnd) : NothingLost recvStr (recvRun recvStr [] ending) ↔ recvStr = [] := by
  have hrun : recvRun recvStr [] ending = ⟨ending.code, recvStr, []⟩ := by
    unfold recvRun
    rw [if_neg h]
  rw [hrun]
  constructor
  · intro hkeep
    by_contra hne
    have hresult : ending.code = recvStr.length := hkeep.length hne
    have hpos := List.length_pos_iff.mpr hne
    cases ending with
    | closed =>
      have hcode : RecvEnd.closed.code = 0 := rfl
      omega
    | failed =>
      have hcode : RecvEnd.failed.code = -1 := rfl
      omega
  · rintro rfl
    exact ⟨rfl, fun hne => absurd rfl hne, fun _ => rfl⟩

/-- The first `recv` brings a chunk: it is kept unless it fills the buffer. -/
theorem nothingLost_cons {recvStr buf : Str}
    (h : ¬ (0 < recvStr.length ∧ recvStr.length < netBufferMaxsize)) (hbuf : 1 ≤ buf.length)
    (chunks : List Str) (ending : RecvEnd) :
    NothingLost recvStr (recvRun recvStr (buf :: chunks) ending) ↔ buf.length < netBufferMaxsize := by
  have hne : buf ≠ [] := List.ne_nil_of_length_pos hbuf
  by_cases hlt : buf.length < netBufferMaxsize
  · have hrun : recvRun recvStr (buf :: chunks) ending =
        ⟨(recvStr ++ buf).length, recvStr ++ buf, buf⟩ := by
      unfold recvRun
      rw [if_neg h]
      dsimp only
      rw [if_neg hne, if_pos hlt]
    rw [hrun]
    refine iff_of_true ⟨rfl, fun _ => rfl, ?_⟩ hlt
    intro hnonpos
    have hlen : (recvStr ++ buf).length = recvStr.length + buf.length := List.length_append
    dsimp only at hnonpos
    omega
  · have hrun : recvRun recvStr (buf :: chunks) ending =
        ⟨(recvLoop chunks recvStr buf).1.length, (recvLoop chunks recvStr buf).1,
            (recvLoop chunks recvStr buf).2⟩ := by
      unfold recvRun
      rw [if_neg h]
      dsimp only
      rw [if_neg hne, if_neg hlt]
    rw [hrun, recvLoop_eq]
    refine iff_of_false ?_ hlt
    intro hkeep
    -- the two sides differ by the length of `buf`
    have hlen := congrArg List.length hkeep.kept
    simp only [List.length_append] at hlen
    omega

/-- **No received byte is lost** exactly when no call is made, or the first one
brings a chunk that leaves room in the buffer, or it brings none to an empty `recvStr`. -/
theorem nothingLost_iff (recvStr : Str) {chunks : List Str} (hchunks : ∀ buf ∈ chunks, 1 ≤ buf.length)
    (ending : RecvEnd) :
    NothingLost recvStr (recvRun recvStr chunks ending) ↔ FirstKept recvStr chunks := by
  unfold FirstKept
  by_cases hroom : 0 < recvStr.length ∧ recvStr.length < netBufferMaxsize
  · exact iff_of_true (nothingLost_of_room hroom chunks ending) (Or.inl hroom)
  · rw [or_iff_right hroom]
    cases chunks with
    | nil => exact nothingLost_nil hroom ending
    | cons buf chunks => exact nothingLost_cons hroom (hchunks buf List.mem_cons_self) chunks ending

theorem nothingLost_iff_short :
    NothingLost [] (recvRun [] [lit "abc", lit "d"] .failed) ↔ FirstKept [] [lit "abc", lit "d"] :=
  nothingLost_iff [] (by decide) .failed

/-- A message of 65 bytes in a full chunk and one byte: the last byte is all that is kept. -/
theorem full_chunk_lost :
    ¬ NothingLost [] (recvRun [] [List.replicate 64 97, lit "b"] .failed) ∧
      recvRun [] [List.replicate 64 97, lit "b"] .failed =
        ⟨1, lit "b", List.replicate 64 97 ++ lit "b"⟩ := by
  have hrun : recvRun [] [List.replicate 64 97, lit "b"] .failed =
      ⟨1, lit "b", List.replicate 64 97 ++ lit "b"⟩ := by decide
  refine ⟨?_, hrun⟩
  intro h
  have hkept := h.kept
  rw [hrun] at hkept
  exact absurd hkept (by decide)

end FuServer
