import FuServer.Model.Serialize
import FuServer.Wire.RoundTrip

/-!
# Values of any type round-trip

Whatever a serializer was used for before, values put in after `ResetString`
come out again, in order and by their types.  The only thing that can be lost
is what stands behind a NUL in a string.
-/

namespace FuServer

open Bytes Codec UtilsSerialize

/-! ## One value -/

theorem roundTrips_number {size n : Nat} (h : n < 256 ^ size) :
    RoundTrips buffer (fun d => d.inputNumber size n) (outputNumber size) n := by
  refine ⟨lowBytes size n, fun buf i => rfl, fun before after => ?_⟩
  have htake : ((before ++ lowBytes size n ++ after ++ [0]).drop before.length).take size =
      lowBytes size n := by
    rw [List.append_assoc, List.append_assoc, List.drop_left, List.take_left' (length_lowBytes size n)]
  unfold outputNumber
  dsimp only
  rw [htake, if_pos (length_lowBytes size n), ofLowBytes_lowBytes h, List.length_append, length_lowBytes]

/-- A value that is read as a number and made from it. -/
theorem roundTrips_as {α : Type} {size n : Nat} {make : Nat → α} {x : α} (h : n < 256 ^ size)
    (hx : make n = x) (value : α → SerialValue) :
    RoundTrips buffer (fun d => d.inputNumber size n)
      ((outputNumber size >>= fun n => pure (make n)) >>= fun x => pure (value x)) (value x) := by
  subst hx
  exact ((roundTrips_number h).map make).map value

namespace SerialValue

/-- A string has no NUL. -/
def NulFree : SerialValue → Prop
  | string toData => NoNul toData
  | _ => True

instance (v : SerialValue) : Decidable v.NulFree :=
  match v with
  | string toData => inferInstanceAs (Decidable (NoNul toData))
  | int _ | uint _ | ushort _ | uchar _ | long _ | longlong _ | float _ | double _ | char _
  | bool _ => isTrue trivial

/-- What `Input` appends, `Output` of the same type reads. -/
theorem roundTrips (v : SerialValue) (h : v.NulFree) :
    RoundTrips buffer (fun d => d.input v) (output v.type) v := by
  cases v with
  | int toData => exact (roundTrips_int toData).map SerialValue.int
  | string toData => exact (roundTrips_string h).map SerialValue.string
  | uint toData => exact roundTrips_as toData.toNat_lt UInt32.ofNat_toNat SerialValue.uint
  | ushort toData => exact roundTrips_as toData.toNat_lt UInt16.ofNat_toNat SerialValue.ushort
  | uchar toData => exact roundTrips_as toData.toNat_lt UInt8.ofNat_toNat SerialValue.uchar
  | long toData =>
    refine roundTrips_as toData.toUInt32.toNat_lt ?_ SerialValue.long
    rw [UInt32.ofNat_toNat]
    rfl
  | longlong toData =>
    refine roundTrips_as toData.toUInt64.toNat_lt ?_ SerialValue.longlong
    rw [UInt64.ofNat_toNat]
    rfl
  | float bits => exact roundTrips_as bits.toNat_lt UInt32.ofNat_toNat SerialValue.float
  | double bits => exact roundTrips_as bits.toNat_lt UInt64.ofNat_toNat SerialValue.double
  | char toData =>
    refine roundTrips_as toData.toUInt8.toNat_lt ?_ SerialValue.char
    rw [UInt8.ofNat_toNat]
    rfl
  | bool toData =>
    refine roundTrips_as (n := toData.toNat) ?_ ?_ SerialValue.bool
    · cases toData <;> decide
    · cases toData <;> rfl

end SerialValue

/-! ## Many values -/

theorem roundTrips_values {values : List SerialValue} (h : ∀ v ∈ values, v.NulFree) :
    RoundTrips buffer (fun d => values.foldl input d) (outputs (values.map (·.type))) values := by
  induction values with
  | nil => exact roundTrips_pure []
  | cons v values ih =>
    have hhead := v.roundTrips (h v List.mem_cons_self)
    have htail := ih fun w hw => h w (List.mem_cons_of_mem v hw)
    exact hhead.bind
      (f := fun a => do let rest ← outputs (values.map (·.type)); return a :: rest)
      (htail.map fun rest => v :: rest)

/-- A string that is read ends before the first NUL. -/
theorem yields_output (type : SerialType) : Yields (output type) SerialValue.NulFree := by
  have any : ∀ {α : Type} (r : Out α) (value : α → SerialValue), (∀ a, (value a).NulFree) →
      Yields (r >>= fun a => pure (value a)) SerialValue.NulFree := by
    intro α r value hvalue
    refine Yields.bind (P := fun _ => True) (fun _ _ _ _ => trivial) fun a _ => yields_pure (hvalue a)
  cases type with
  | string =>
    refine Yields.bind (P := NoNul) (fun d toData d' hread => ?_) fun toData h => yields_pure h
    unfold outputString at hread
    split at hread
    · cases hread
      exact noNul_cstr _
    · cases hread
  | int => exact any outputInt SerialValue.int fun _ => trivial
  | uint => exact any outputUInt SerialValue.uint fun _ => trivial
  | ushort => exact any outputUShort SerialValue.ushort fun _ => trivial
  | uchar => exact any outputUChar SerialValue.uchar fun _ => trivial
  | long => exact any outputLong SerialValue.long fun _ => trivial
  | longlong => exact any outputLongLong SerialValue.longlong fun _ => trivial
  | float => exact any outputFloat SerialValue.float fun _ => trivial
  | double => exact any outputDouble SerialValue.double fun _ => trivial
  | char => exact any outputChar SerialValue.char fun _ => trivial
  | bool => exact any outputBool SerialValue.bool fun _ => trivial

theorem yields_outputs (types : List SerialType) :
    Yields (outputs types) fun values => ∀ v ∈ values, v.NulFree := by
  induction types with
  | nil => exact yields_pure nofun
  | cons type types ih =>
    refine (yields_output type).bind fun v hv => ih.bind fun rest hrest => yields_pure ?_
    exact List.forall_mem_cons.mpr ⟨hv, hrest⟩

/-- **Any values round-trip, unless a string has a NUL.**  Whatever the serializer holds and
wherever its iterator is, values put in after `ResetString` are read back by their types, with
anything behind them and however often the iterator is reset, exactly when no string among them
has a NUL; the iterator is then right behind the last. -/
theorem values_roundTrip_iff (d : UtilsSerialize) (values : List SerialValue) (after : Str) (i : Nat) :
    (∃ d', outputs (values.map (·.type)) (resetIterator
        ⟨(values.foldl input d.resetString).dataString ++ after, i⟩) = .ok (values, d') ∧
      d'.iterator = (values.foldl input d.resetString).dataString.length) ↔ ∀ v ∈ values, v.NulFree := by
  constructor
  · rintro ⟨d', hread, -⟩
    exact yields_outputs _ _ _ _ hread
  · intro h
    obtain ⟨buf, hwrite, hread⟩ := (roundTrips_values h).read
    have hbuf : values.foldl input d.resetString = buffer buf 0 := hwrite
    rw [hbuf]
    exact ⟨_, hread after, rfl⟩

/-- A string with a NUL loses what is behind it, whatever else is put in. -/
example : ¬ ∀ v ∈ [SerialValue.bool true, .string [65, 0, 66], .double 4607182418800017408],
  v.NulFree := by decide

end FuServer
