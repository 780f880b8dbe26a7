import FuServer.Cache.KeyOrder
import FuServer.Model.Record

/-!
# The order of fields (DBField::CompareWith)

`CompareWith` compares the argument's text with itself, so two fields that have
texts come out equal, and a null field before one with a text does too.
-/

namespace FuServer

open Bytes Compare

namespace DBField

/-- Fields of one column. -/
structure SameColumn (x y : DBField) : Prop where
  index : x.usIndex = y.usIndex
  type : x.usType = y.usType
  key : x.bKey = y.bKey

/-- What the comparison of two fields should come to: that of their texts if both have one,
opposite signs in the two orders, and 0 for nothing but two nulls or texts that compare equal. -/
structure Ordered (fp : FloatUnit) (x y : DBField) : Prop where
  data : x.bNull = false → y.bNull = false →
    (x.compareWith fp y).sign = (dbCompareDataKey fp x.sData y.sData x.usType).sign
  opposite : Opposite (x.compareWith fp y) (y.compareWith fp x)
  zero : x.compareWith fp y = 0 →
    x.bNull = true ∧ y.bNull = true ∨
      x.bNull = false ∧ y.bNull = false ∧ dbCompareDataKey fp x.sData y.sData x.usType = 0

/-- A float or double column holds a number whose difference from itself is within the tolerance,
as that of every finite one is. -/
def ReadsFinite (fp : FloatUnit) (x : DBField) : Prop :=
  isFloatType x.usType = true →
    fp.dblLt (fp.dblAbs (fp.dblSub (fuStrToDouble fp x.sData) (fuStrToDouble fp x.sData)))
      fp.dblEps = true

theorem readsFinite_exactRational (x : DBField) : x.ReadsFinite .exactRational := by
  intro _
  have hpos := keyTolerance_pos
  show decide (|readDouble x.sData - readDouble x.sData| < keyTolerance) = true
  rw [sub_self, abs_zero]
  exact decide_eq_true hpos

variable {fp : FloatUnit} {x y : DBField}

/-- A text compares equal to itself. -/
theorem ReadsFinite.compare_self (h : x.ReadsFinite fp) :
    dbCompareDataKey fp x.sData x.sData x.usType = 0 := by
  by_cases hf : isFloatType x.usType = true
  · have hnear := h hf
    have hi := isIntegerType_of_float hf
    unfold isFloatType at hf
    unfold dbCompareDataKey
    rw [hi, hf]
    dsimp only
    rw [if_neg (by decide), if_pos rfl, if_pos hnear]
  · have hpre : IsPreorder fun u v => dbCompareDataKey fp u v x.usType :=
      isPreorder_dbCompareDataKey fp (by simpa using hf)
    exact hpre.self x.sData

theorem SameColumn.symm (h : SameColumn x y) : SameColumn y x := ⟨h.index.symm, h.type.symm, h.key.symm⟩

/-- All that the comparison answers. -/
theorem SameColumn.compareWith_eq (h : SameColumn x y) (hy : y.ReadsFinite fp) :
    x.compareWith fp y = if x.bNull = false ∧ y.bNull = true then -1 else 0 := by
  have hself := hy.compare_self
  have hcolumn : ¬ (x.usIndex ≠ y.usIndex ∨ x.usType ≠ y.usType ∨ x.bKey ≠ y.bKey) := by
    simp [h.index, h.type, h.key]
  rw [← h.type] at hself
  unfold compareWith
  dsimp only
  rw [if_neg hcolumn, hself]
  cases hx : x.bNull <;> cases hy : y.bNull <;> simp

/-- Two nulls compare as they should. -/
theorem SameColumn.ordered_nulls (h : SameColumn x y) (hx : x.ReadsFinite fp) (hy : y.ReadsFinite fp)
    (hnx : x.bNull = true) (hny : y.bNull = true) : Ordered fp x y := by
  have hxy := h.compareWith_eq hy
  have hyx := h.symm.compareWith_eq hx
  rw [hnx, hny, if_neg (by decide)] at hxy hyx
  refine ⟨?_, ?_, fun _ => Or.inl ⟨hnx, hny⟩⟩
  · intro hfalse
    rw [hnx] at hfalse
    cases hfalse
  · rw [hxy, hyx]
    decide

/-- A null and a text are told apart in one order only. -/
theorem SameColumn.not_ordered_of_ne (h : SameColumn x y) (hx : x.ReadsFinite fp) (hy : y.ReadsFinite fp)
    (hne : x.bNull ≠ y.bNull) : ¬ Ordered fp x y := by
  intro hord
  have hopp := hord.opposite
  rw [h.compareWith_eq hy, h.symm.compareWith_eq hx] at hopp
  revert hopp hne
  cases x.bNull <;> cases y.bNull <;> decide

/-- Two texts compare as they should when they compare equal. -/
theorem SameColumn.ordered_texts_iff (h : SameColumn x y) (hx : x.ReadsFinite fp) (hy : y.ReadsFinite fp)
    (hnx : x.bNull = false) (hny : y.bNull = false) :
    Ordered fp x y ↔ dbCompareDataKey fp x.sData y.sData x.usType = 0 := by
  have hxy := h.compareWith_eq hy
  have hyx := h.symm.compareWith_eq hx
  rw [hnx, hny, if_neg (by decide)] at hxy hyx
  constructor
  · intro hord
    have hsign := hord.data hnx hny
    rw [hxy, Int.sign_zero] at hsign
    exact Int.sign_eq_zero_iff_zero.mp hsign.symm
  · intro hzero
    refine ⟨?_, ?_, fun _ => Or.inr ⟨hnx, hny, hzero⟩⟩
    · intro _ _
      rw [hxy, hzero]
    · rw [hxy, hyx]
      decide

/-- **The order of fields.**  Two fields of one column compare as they should exactly when both
are null or both have texts that compare equal. -/
theorem ordered_iff (h : SameColumn x y) (hx : x.ReadsFinite fp) (hy : y.ReadsFinite fp) :
    Ordered fp x y ↔
      x.bNull = y.bNull ∧ (x.bNull = false → dbCompareDataKey fp x.sData y.sData x.usType = 0) := by
  by_cases hne : x.bNull = y.bNull
  · cases hnx : x.bNull with
    | true =>
      refine iff_of_true (h.ordered_nulls hx hy hnx (hne ▸ hnx)) ⟨?_, fun hfalse => by cases hfalse⟩
      rw [← hne, hnx]
    | false =>
      have hny : y.bNull = false := hne ▸ hnx
      rw [h.ordered_texts_iff hx hy hnx hny]
      constructor
      · intro hzero
        exact ⟨hny.symm, fun _ => hzero⟩
      · rintro ⟨-, hzero⟩
        exact hzero rfl
  · exact iff_of_false (h.not_ordered_of_ne hx hy hne) fun hno => hne hno.1

/-- A field of an integer column with a text. -/
def ofText (sData : Str) : DBField := { sData := sData, usType := dbIntT, bNull := false }

theorem ordered_iff_spelling :
    Ordered .exactRational (ofText (lit "2")) (ofText (lit "02")) ↔
      (ofText (lit "2")).bNull = (ofText (lit "02")).bNull ∧ ((ofText (lit "2")).bNull = false →
        dbCompareDataKey .exactRational (lit "2") (lit "02") dbIntT = 0) :=
  ordered_iff ⟨rfl, rfl, rfl⟩ (readsFinite_exactRational _) (readsFinite_exactRational _)

/-- 1 and 2 come out equal, and a null and 2 do in one order only. -/
theorem ordered_broken :
    (ofText (lit "1")).compareWith .exactRational (ofText (lit "2")) = 0 ∧
      ¬ Ordered .exactRational (ofText (lit "1")) (ofText (lit "2")) ∧
      ¬ Ordered .exactRational (new dbIntT) (ofText (lit "2")) := by
  have hequal : (ofText (lit "1")).compareWith .exactRational (ofText (lit "2")) = 0 := by decide
  refine ⟨hequal, ?_, ?_⟩
  · intro h
    exact absurd (h.data rfl rfl) (by decide)
  · intro h
    exact absurd h.opposite (by decide)

end DBField

end FuServer
