import FuServer.Lib.Words
import FuServer.Model.Cipher
import FuServer.Wire.Bounds

/-!
# Decryption undoes encryption

Both loops change whole words only, in place, and leave the same bytes of the end
alone; with the key of the one the other takes back what it added.
-/

namespace FuServer

open Bytes Outcome Words

/-! ## The loop over the words -/

/-- What a loop does to the four bytes of a word. -/
def wordBytes (op : Int32 → Int32) (b0 b1 b2 b3 : UInt8) : Str := intBytes (op (intOfBytes b0 b1 b2 b3))

theorem keepsWords_wordBytes (op : Int32 → Int32) : KeepsWords (wordBytes op) := fun _ _ _ _ => rfl

theorem undoes_wordBytes {op op' : Int32 → Int32} (h : ∀ x, op' (op x) = x) :
    Undoes (wordBytes op') (wordBytes op) := by
  intro b0 b1 b2 b3
  obtain ⟨c0, c1, c2, c3, hbytes, hval⟩ := intOfBytes_intBytes (op (intOfBytes b0 b1 b2 b3))
  refine ⟨c0, c1, c2, c3, hbytes, ?_⟩
  unfold wordBytes
  rw [hval, h, intBytes_intOfBytes]

theorem onWord_at (op : Int32 → Int32) (done rest : Str) (b0 b1 b2 b3 : UInt8) :
    onWord op done.length (done ++ b0 :: b1 :: b2 :: b3 :: rest) = done ++
      wordBytes op b0 b1 b2 b3 ++ rest := by
  unfold onWord
  rw [List.drop_left]
  dsimp only
  rw [List.take_left]
  rfl

/-- From the end of `done` on, the loop goes through the words of `data`; what stands behind is
not touched. -/
theorem wordLoop_eq (op : Int32 → Int32) (done data rest : Str) :
    wordLoop op (done.length + data.length : Nat) done.length (done ++ data ++ rest) =
      done ++ mapWords (wordBytes op) data ++ rest := by
  induction hn : data.length using Nat.strong_induction_on generalizing done data with
  | _ n ih =>
    subst hn
    rcases Nat.lt_or_ge data.length 4 with hshort | hword
    · rw [wordLoop, if_neg (by omega), mapWords_of_short hshort]
    · match data, hword with
      | b0 :: b1 :: b2 :: b3 :: data, _ =>
        have hlen : (done ++ wordBytes op b0 b1 b2 b3).length = done.length + 4 := by
          rw [List.length_append, keepsWords_wordBytes]
        have hrest := ih data.length (by simp only [List.length_cons]; omega)
          (done ++ wordBytes op b0 b1 b2 b3) data rfl
        have htotal : done.length + (b0 :: b1 :: b2 :: b3 :: data).length =
            done.length + 4 + data.length := by
          simp only [List.length_cons]
          omega
        have hmem : done ++ (b0 :: b1 :: b2 :: b3 :: data) ++ rest =
            done ++ b0 :: b1 :: b2 :: b3 :: (data ++ rest) := by
          simp
        rw [hlen] at hrest
        rw [htotal, hmem, wordLoop, if_pos (by omega), onWord_at]
        rw [List.append_assoc (done ++ _)] at hrest
        rw [hrest]
        simp [mapWords]

/-- The loop over all of a buffer's `data`, with a byte or none behind it. -/
theorem wordLoop_all (op : Int32 → Int32) (data rest : Str) :
    wordLoop op data.length 0 (data ++ rest) = mapWords (wordBytes op) data ++ rest := by
  have h := wordLoop_eq op [] data rest
  simpa using h

/-! ## The streams -/

/-- What stands in front of the words: the seed and the length. -/
def header (seed : Int32) (n : Nat) : Str := intBytes seed ++ intBytes (Int32.ofNat n)

theorem length_header (seed : Int32) (n : Nat) : (header seed n).length = 8 := rfl

theorem intAt_intBytes (before : Str) (x : Int32) (after : Str) :
    intAt (before ++ intBytes x ++ after) before.length = .ok x := by
  obtain ⟨b0, b1, b2, b3, hbytes, hval⟩ := intOfBytes_intBytes x
  unfold intAt
  rw [List.append_assoc, List.drop_left, hbytes]
  dsimp only [List.cons_append]
  rw [hval]

theorem bytesAt_eq (before data after : Str) :
    bytesAt (before ++ data ++ after) before.length data.length = .ok data := by
  unfold bytesAt
  rw [if_pos (by simp only [List.length_append]; omega), List.append_assoc, List.drop_left,
    List.take_left]

theorem length_lt_zero {n : Nat} (h : n < 2 ^ 31) : ¬ Int32.ofNat n < 0 := by
  rw [Int32.lt_iff_toInt_lt, Int32.toInt_ofNat_of_lt h]
  have hzero : (0 : Int32).toInt = 0 := rfl
  omega

/-- From 2 GiB on a length is a negative `int`. -/
theorem length_neg {n : Nat} (h : 2 ^ 31 ≤ n) (h' : n < 2 ^ 32) : Int32.ofNat n < 0 := by
  have hzero : (0 : Int32).toInt = 0 := rfl
  have hsize : Int32.size = 4294967296 := rfl
  rw [Int32.lt_iff_toInt_lt, Int32.toInt_ofNat', hzero, hsize]
  unfold Int.bmod
  dsimp only
  split <;> omega

theorem length_succ_pos {n : Nat} (h : n + 1 < 2 ^ 31) : ¬ Int32.ofNat n + 1 ≤ 0 := by
  have hsucc : Int32.ofNat n + 1 = Int32.ofNat (n + 1) := (Int32.ofNat_add n 1).symm
  rw [hsucc, Int32.le_iff_toInt_le, Int32.toInt_ofNat_of_lt h]
  have hzero : (0 : Int32).toInt = 0 := rfl
  omega

/-- With a key an encrypted stream is the header and the words, each with the key added. -/
theorem fuEncryptStream_eq (shifts : ShiftRule) (seed : Int32) {data : Str}
    (h : data.length + 8 < 2 ^ 31) (rest : Str) :
    fuEncryptStream shifts (data ++ rest) (Int32.ofNat data.length) seed =
      (encryKey shifts seed (Int32.ofNat data.length)).map fun key =>
        (header seed data.length ++ mapWords (wordBytes (· + key)) data,
          Int32.ofNat (data.length + 8)) := by
  have hlen : data.length < 2 ^ 31 := by omega
  have htotal : Int32.ofNat data.length + 8 = Int32.ofNat (data.length + 8) := (Int32.ofNat_add _ _).symm
  have hdata := bytesAt_eq [] data rest
  rw [List.nil_append, List.length_nil] at hdata
  unfold fuEncryptStream
  dsimp only
  rw [htotal, if_neg (by rintro (hneg | hneg) <;> exact absurd hneg (length_lt_zero (by omega)))]
  cases encryKey shifts seed (Int32.ofNat data.length) with
  | error e => rfl
  | ok key =>
    have hwords := wordLoop_all (· + key) data []
    rw [List.append_nil, List.append_nil] at hwords
    rw [Int32.toNatClampNeg_ofNat_of_lt hlen, Int32.toInt_ofNat_of_lt hlen, ok_bind, hdata, ok_bind,
      hwords]
    rfl

/-- With the header's eight bytes the length must fit an `int`. -/
theorem fuEncryptStream_long (shifts : ShiftRule) (seed : Int32) {pData : Str} {n : Nat} (h : n < 2 ^ 31)
    (hlong : 2 ^ 31 ≤ n + 8) :
    fuEncryptStream shifts pData (Int32.ofNat n) seed = .error .badLength := by
  have htotal : Int32.ofNat n + 8 = Int32.ofNat (n + 8) := (Int32.ofNat_add _ 8).symm
  unfold fuEncryptStream
  dsimp only
  rw [htotal, if_pos (Or.inr (length_neg hlong (by omega)))]
  rfl

theorem intAt_header (seed : Int32) (n : Nat) (rest : Str) :
    intAt (header seed n ++ rest) 0 = .ok seed ∧
      intAt (header seed n ++ rest) 4 = .ok (Int32.ofNat n) := by
  unfold header
  constructor
  · have hat := intAt_intBytes [] seed (intBytes (Int32.ofNat n) ++ rest)
    rw [List.append_assoc]
    exact hat
  · exact intAt_intBytes (intBytes seed) (Int32.ofNat n) rest

/-- And decryption takes the key off each word behind the header. -/
theorem fuUnencryptStream_eq (shifts : ShiftRule) (seed : Int32) {data : Str}
    (h : data.length + 1 < 2 ^ 31) (rest : Str) :
    fuUnencryptStream shifts (header seed data.length ++ data ++ rest) =
      (encryKey shifts seed (Int32.ofNat data.length)).map fun key =>
        (mapWords (wordBytes (· - key)) data ++ [0], Int32.ofNat data.length) := by
  have hlen : data.length < 2 ^ 31 := by omega
  obtain ⟨hseed, hdatalen⟩ := intAt_header seed data.length (data ++ rest)
  have hdata := bytesAt_eq (header seed data.length) data rest
  rw [length_header, List.append_assoc] at hdata
  rw [List.append_assoc]
  unfold fuUnencryptStream
  rw [hseed, ok_bind, hdatalen, ok_bind, if_neg (length_succ_pos h),
    Int32.toNatClampNeg_ofNat_of_lt hlen,
    Int32.toInt_ofNat_of_lt hlen]
  show (bytesAt _ 8 _ >>= _) = _
  rw [hdata, ok_bind]
  cases encryKey shifts seed (Int32.ofNat data.length) with
  | error e => rfl
  | ok key =>
    rw [ok_bind, wordLoop_all]
    rfl

/-! ## There and back -/

theorem encryKey_reduced {seed len : Int32} (h : toDoData seed (seed / 3) len ≠ 0) :
    encryKey .reduced seed len = .ok (len <<< (len / toDoData seed (seed / 3) len)) := by
  unfold encryKey
  show (if toDoData seed (seed / 3) len = 0 then _ else _) = _
  rw [if_neg h]
  rfl

/-- **Decryption undoes encryption.**  With a divisor that is not 0 every byte string that leaves room
for the header comes back, wherever the stream stands. -/
theorem fuUnencryptStream_fuEncryptStream (data rest : Str) (seed : Int32)
    (hlen : data.length + 8 < 2 ^ 31)
    (hdivisor : toDoData seed (seed / 3) (Int32.ofNat data.length) ≠ 0) :
    ∃ stream, fuEncryptStream .reduced data (Int32.ofNat data.length) seed =
        .ok (stream, Int32.ofNat (data.length + 8)) ∧
      stream.length = data.length + 8 ∧
      fuUnencryptStream .reduced (stream ++ rest) = .ok (data ++ [0], Int32.ofNat data.length) ∧
      fuUnencryptStreamSize (stream ++ rest) = .ok (UInt32.ofNat data.length) := by
  have hkey := encryKey_reduced hdivisor
  generalize Int32.ofNat data.length <<< _ = key at hkey
  have hwords : (mapWords (wordBytes (· + key)) data).length = data.length :=
    length_mapWords (keepsWords_wordBytes _) data
  have hencrypt := fuEncryptStream_eq .reduced seed hlen []
  rw [List.append_nil, hkey] at hencrypt
  refine ⟨header seed data.length ++ mapWords (wordBytes (· + key)) data, hencrypt, ?_, ?_, ?_⟩
  · rw [List.length_append, length_header, hwords]
    omega
  · have hshort : (mapWords (wordBytes (· + key)) data).length + 1 < 2 ^ 31 := by
      rw [hwords]
      omega
    have hdecrypt := fuUnencryptStream_eq .reduced seed hshort rest
    have hback : mapWords (wordBytes (· - key)) (mapWords (wordBytes (· + key)) data) = data :=
      (undoes_wordBytes fun x => Int32.add_sub_cancel x key).mapWords data
    rw [hwords, hkey] at hdecrypt
    rw [hdecrypt]
    show Except.ok (mapWords (wordBytes (· - key)) (mapWords (wordBytes (· + key)) data) ++ [0], _) = _
    rw [hback]
  · unfold fuUnencryptStreamSize
    rw [List.append_assoc, (intAt_header seed data.length _).2]
    rfl

theorem fuUnencryptStream_fuEncryptStream_text :
    ∃ stream, fuEncryptStream .reduced (lit "hello") (Int32.ofNat (lit "hello").length) 64 =
        .ok (stream, Int32.ofNat ((lit "hello").length + 8)) ∧
      stream.length = (lit "hello").length + 8 ∧
      fuUnencryptStream .reduced (stream ++ []) =
        .ok (lit "hello" ++ [0], Int32.ofNat (lit "hello").length) ∧
      fuUnencryptStreamSize (stream ++ []) = .ok (UInt32.ofNat (lit "hello").length) :=
  fuUnencryptStream_fuEncryptStream (lit "hello") [] 64 (by decide) (by decide)

end FuServer
