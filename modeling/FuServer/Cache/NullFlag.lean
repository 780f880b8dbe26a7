import FuServer.Lib.Runs
import FuServer.Wire.RecordFormat

/-!
# The null flag of a field

The flag and the text are two attributes that every operation sets anew.  Two of
them go by the flag they find: `ResetData` from the field itself, which has
cleared the text it copies, and `unSerialize`, which leaves the text of a reused
field alone when the bytes are those of a null one.
-/

namespace FuServer

open Bytes Runs

namespace DBField

/-! ## One operation -/

/-- Null exactly when there is no text. -/
def NullIffEmpty (f : DBField) : Prop := f.bNull = true ↔ f.sData = []

instance (f : DBField) : Decidable f.NullIffEmpty := inferInstanceAs (Decidable (_ ↔ _))

/-- A field whose flag says what its text is. -/
abbrev WellFlagged := { f : DBField // f.NullIffEmpty }

theorem nullIffEmpty_new (iType : UInt16) : (new iType).NullIffEmpty :=
  Iff.intro (fun _ => rfl) fun _ => rfl

theorem nullIffEmpty_setData (f : DBField) (sData : Str) : (f.setData sData).NullIffEmpty :=
  beq_iff_eq

theorem nullIffEmpty_setDataPtr (f : DBField) (pData : Option Str) :
    (f.setDataPtr pData).NullIffEmpty := by
  unfold setDataPtr NullIffEmpty
  cases pData with
  | none => simp
  | some pData =>
    dsimp only
    split
    · next hpos => simp [List.ne_nil_of_length_pos hpos]
    · simp

theorem nullIffEmpty_resetData (f : DBField) (sData : Str) : (f.resetData sData).NullIffEmpty :=
  f.nullIffEmpty_setData sData

/-- A field may be copied if it is null or has a text. -/
theorem clone_iff (f : DBField) : f.clone.NullIffEmpty ↔ f.bNull = true ∨ f.sData ≠ [] := by
  unfold NullIffEmpty DBField.clone
  cases hnull : f.bNull with
  | true => simp [new]
  | false => simp

/-- Its own text is gone before it is copied. -/
theorem resetDataField_iff (f pField : DBField) (same : Bool) :
    (f.resetDataField pField same).NullIffEmpty ↔ pField.bNull = true ∨ same = false ∧
      pField.sData ≠ [] := by
  unfold NullIffEmpty resetDataField
  cases hnull : pField.bNull with
  | true => simp
  | false => cases same <;> simp

/-- A null field may be read only into one without a text, and any other only with a length that
is not 0. -/
theorem NullIffEmpty.withWire_iff {f src : DBField} (h : src.NullIffEmpty)
    (hlen : src.bNull = false → 0 ≤ src.dataLen) :
    (f.withWire src).NullIffEmpty ↔ if src.bNull then f.sData = [] else src.dataLen ≠ 0 := by
  unfold NullIffEmpty at h ⊢
  unfold withWire wireText
  cases hnull : src.bNull with
  | true => simp
  | false =>
    have hdata : src.sData ≠ [] := by
      intro hempty
      rw [h.mpr hempty] at hnull
      cases hnull
    have hle := hlen hnull
    have hzero : src.dataLen.toNatClampNeg = 0 ↔ src.dataLen = 0 := by
      rw [Int32.le_iff_toInt_le] at hle
      rw [← Int32.toInt_inj]
      show src.dataLen.toInt.toNat = 0 ↔ src.dataLen.toInt = 0
      have hzero : (0 : Int32).toInt = 0 := rfl
      omega
    simp [List.take_eq_nil_iff, hdata, hzero]

/-! ## Runs on a pool of fields -/

inductive FieldOp
  | new (iType : UInt16)
  | setData (i : Nat) (sData : Str)
  | setDataPtr (i : Nat) (pData : Option Str)
  | resetData (i : Nat) (sData : Str)
  /-- Field `i` from field `j`. -/
  | resetDataField (i j : Nat)
  | clone (i : Nat)
  /-- Field `i` from the bytes that `src` writes to a buffer. -/
  | unSerialize (i : Nat) (src : WellFlagged) (s : SerialBuf)

/-- What `f` becomes when it reads the bytes that `src` writes. -/
def reread (f src : DBField) (s : SerialBuf) : Option DBField :=
  match src.serialize s with
  | .error _ => none
  | .ok (_, w) =>
    match f.unSerialize ⟨w.buf, s.size⟩ with
    | .error _ => none
    | .ok (g, _) => some g

def onField (fields : List DBField) (i : Nat) (g : DBField → Option DBField) : Option (List DBField) :=
  fields[i]?.bind fun f => (g f).map (fields.set i)

/-- A step that names no field, or goes outside a buffer, cannot be taken. -/
def fieldStep (fields : List DBField) : FieldOp → Option (List DBField)
  | .new iType => some (fields ++ [DBField.new iType])
  | .setData i sData => onField fields i fun f => some (f.setData sData)
  | .setDataPtr i pData => onField fields i fun f => some (f.setDataPtr pData)
  | .resetData i sData => onField fields i fun f => some (f.resetData sData)
  | .resetDataField i j =>
    fields[j]?.bind fun pField => onField fields i fun f => some (f.resetDataField pField (i == j))
  | .clone i => fields[i]?.map fun f => fields ++ [f.clone]
  | .unSerialize i src s => onField fields i fun f => f.reread src.1 s

/-- The field that a step sets. -/
def target (fields : List DBField) : FieldOp → Nat
  | .new _ | .clone _ => fields.length
  | .setData i _ | .setDataPtr i _ | .resetData i _ | .resetDataField i _ | .unSerialize i _ _ => i

/-- The field set by a step is null exactly when it has no text. -/
def MarksField (fields : List DBField) (op : FieldOp) : Prop :=
  ∀ fields', fieldStep fields op = some fields' → ∀ f, fields'[target fields op]? = some f →
    f.NullIffEmpty

/-- The steps that set the flag as it should be: what is copied is null or has a text, and is not
the field itself unless null; a null field is read into one without a text, and any other has a
length that is not 0. -/
def KeepsFlag (fields : List DBField) : FieldOp → Prop
  | .resetDataField i j =>
    ∀ pField, fields[j]? = some pField → pField.bNull = true ∨ i ≠ j ∧ pField.sData ≠ []
  | .clone i => ∀ f, fields[i]? = some f → f.bNull = true ∨ f.sData ≠ []
  | .unSerialize i src _ =>
    if src.1.bNull then ∀ f, fields[i]? = some f → f.sData = [] else src.1.dataLen ≠ 0
  | _ => True

/-- Every field of the pool. -/
def AllFlagged (fields : List DBField) : Prop := ∀ f ∈ fields, f.NullIffEmpty

theorem getElem?_push (fields : List DBField) (f' : DBField) :
    (fields ++ [f'])[fields.length]? = some f' ∧ ∀ x ∈ fields ++ [f'], x ∈ fields ∨ x = f' := by
  refine ⟨List.getElem?_concat_length, ?_⟩
  intro x hx
  simpa using hx

theorem onField_spec {fields fields' : List DBField} {i : Nat} {g : DBField → Option DBField}
    (hs : onField fields i g = some fields') :
    ∃ f f', fields[i]? = some f ∧ g f = some f' ∧
      fields'[i]? = some f' ∧ ∀ x ∈ fields', x ∈ fields ∨ x = f' := by
  obtain ⟨f, hf, hs⟩ := Option.bind_eq_some_iff.mp hs
  obtain ⟨f', hf', rfl⟩ := Option.map_eq_some_iff.mp hs
  have hi := (List.getElem?_eq_some_iff.mp hf).1
  exact ⟨f, f', hf, hf', List.getElem?_set_self hi, fun x hx => List.mem_or_eq_of_mem_set hx⟩

theorem reread_iff {f f' src : DBField} {s : SerialBuf} (hsrc : src.NullIffEmpty)
    (h : f.reread src s = some f') :
    f'.NullIffEmpty ↔ if src.bNull then f.sData = [] else src.dataLen ≠ 0 := by
  unfold reread at h
  cases hw : src.serialize s with
  | error e =>
    rw [hw] at h
    cases h
  | ok p =>
    have hread := unSerialize_written (f := f) hw
    rw [hw] at h
    dsimp only at h
    rw [hread] at h
    cases h
    exact hsrc.withWire_iff fun hnull => dataLen_of_serialize hnull hw

/-- A step changes the field it sets and no other, and sets its flag right exactly when it is one of
those that do. -/
theorem fieldStep_spec {fields fields' : List DBField} {op : FieldOp}
    (hs : fieldStep fields op = some fields') :
    ∃ f', fields'[target fields op]? = some f' ∧ (∀ x ∈ fields', x ∈ fields ∨ x = f') ∧
      (f'.NullIffEmpty ↔ KeepsFlag fields op) := by
  cases op with
  | new iType =>
    cases hs
    obtain ⟨hget, hothers⟩ := getElem?_push fields (DBField.new iType)
    exact ⟨_, hget, hothers, iff_of_true (nullIffEmpty_new iType) trivial⟩
  | setData i sData =>
    obtain ⟨f, f', -, hf', hget, hothers⟩ := onField_spec hs
    cases hf'
    exact ⟨_, hget, hothers, iff_of_true (f.nullIffEmpty_setData sData) trivial⟩
  | setDataPtr i pData =>
    obtain ⟨f, f', -, hf', hget, hothers⟩ := onField_spec hs
    cases hf'
    exact ⟨_, hget, hothers, iff_of_true (f.nullIffEmpty_setDataPtr pData) trivial⟩
  | resetData i sData =>
    obtain ⟨f, f', -, hf', hget, hothers⟩ := onField_spec hs
    cases hf'
    exact ⟨_, hget, hothers, iff_of_true (f.nullIffEmpty_resetData sData) trivial⟩
  | resetDataField i j =>
    obtain ⟨pField, hp, hs⟩ := Option.bind_eq_some_iff.mp hs
    obtain ⟨f, f', hf, hf', hget, hothers⟩ := onField_spec hs
    cases hf'
    refine ⟨_, hget, hothers, ?_⟩
    rw [f.resetDataField_iff]
    simp [KeepsFlag, hp]
  | clone i =>
    obtain ⟨f, hf, rfl⟩ := Option.map_eq_some_iff.mp hs
    obtain ⟨hget, hothers⟩ := getElem?_push fields f.clone
    refine ⟨_, hget, hothers, ?_⟩
    rw [f.clone_iff]
    simp [KeepsFlag, hf]
  | unSerialize i src s =>
    obtain ⟨f, f', hf, hf', hget, hothers⟩ := onField_spec hs
    refine ⟨f', hget, hothers, ?_⟩
    rw [reread_iff src.2 hf']
    simp [KeepsFlag, hf]

theorem marksField_iff {fields fields' : List DBField} {op : FieldOp}
    (hs : fieldStep fields op = some fields') :
    MarksField fields op ↔ KeepsFlag fields op := by
  obtain ⟨f', hget, -, hiff⟩ := fieldStep_spec hs
  rw [← hiff]
  constructor
  · intro h
    exact h fields' hs f' hget
  · intro hf t ht f hf'
    rw [hs] at ht
    cases ht
    rw [hget] at hf'
    cases hf'
    exact hf

theorem allFlagged_step {fields fields' : List DBField} {op : FieldOp} (h : AllFlagged fields)
    (hs : fieldStep fields op = some fields') : AllFlagged fields' ↔ KeepsFlag fields op := by
  obtain ⟨f', hget, hothers, hiff⟩ := fieldStep_spec hs
  rw [← hiff]
  constructor
  · intro hall
    exact hall f' (List.mem_of_getElem? hget)
  · intro hf x hx
    rcases hothers x hx with hx | rfl
    · exact h x hx
    · exact hf

/-- **The null flag.**  Whatever state the fields are in, a run sets every flag right exactly when
all its steps are of those that do; and in a run from fields that are null exactly when they have no
text, all fields stay so exactly when they are. -/
theorem nullFlag_iff (fields : List DBField) (ops : List FieldOp) :
    (EachStep fieldStep MarksField fields ops ↔ EachStep fieldStep KeepsFlag fields ops) ∧
      (AllFlagged fields →
        (Always fieldStep AllFlagged fields ops ↔ EachStep fieldStep KeepsFlag fields ops)) := by
  have hall : EachStep fieldStep (fun _ _ => True) fields ops :=
    eachStep_of_forall ops fields fun _ _ _ => trivial
  constructor
  · apply eachStep_congr (J := fun _ => True) (D := fun _ _ => True)
    · intro s a s' _ _ _ _
      trivial
    · intro s a s' _ _ hs
      exact marksField_iff hs
    · trivial
    · exact hall
  · intro h
    apply always_iff_eachStep (J := fun _ => True) (D := fun _ _ => True)
    · intro s a s' _ _ _
      trivial
    · intro s a s' _ hs _ hstep
      exact allFlagged_step hs hstep
    · trivial
    · exact h
    · exact hall

/-- Two fields of which the one is reset from the other and then copied. -/
theorem nullFlag_iff_copies :
    Always fieldStep AllFlagged []
      [.new 3, .new 3, .setData 0 (lit "x"), .resetDataField 1 0, .clone 1] ↔
      EachStep fieldStep KeepsFlag []
        [.new 3, .new 3, .setData 0 (lit "x"), .resetDataField 1 0, .clone 1] :=
  (nullFlag_iff [] _).2 fun _ hf => absurd hf List.not_mem_nil

/-- A field that held "x" and has read the bytes of a null one is null, and the rows read "x" off it. -/
theorem nullFlag_stale :
    (run fieldStep [] [.new 3, .setData 0 (lit "x"),
      .unSerialize 0 ⟨DBField.new 3, nullIffEmpty_new 3⟩ ⟨List.replicate 10 0, 0⟩]).map
        (fun fields => (fields.map (·.bNull), DBRecord.checkDataList { fieldList := fields })) =
      some ([true], [lit "x"]) ∧
    ¬ Always fieldStep AllFlagged [] [.new 3, .setData 0 (lit "x"),
      .unSerialize 0 ⟨DBField.new 3, nullIffEmpty_new 3⟩ ⟨List.replicate 10 0, 0⟩] := by
  constructor
  · decide
  · refine not_always_of_any (b := fun fields => fields.any fun f => !decide f.NullIffEmpty) ?_
      (by decide)
    intro fields hany hall
    obtain ⟨f, hf, hbad⟩ := List.any_eq_true.mp hany
    have hok := hall f hf
    simp [hok] at hbad

end DBField

end FuServer
