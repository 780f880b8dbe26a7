import FuServer.Lib.Runs
import FuServer.Model.MysqlLink

/-!
# The result handles of a MySQL link

`RunSqlCMD` puts what it gets in `m_pMysqlRes` and frees nothing; `Destroy`
frees what is there at the end.  So a result set that another statement follows
is never freed, and the mark of a statement without result is given to
`mysql_free_result`.
-/

namespace FuServer

open Alloc Runs

namespace MysqlLink

variable {s : MysqlLink}

/-- `m_pMysqlRes` is null or a stored result set that has not been freed, no
other handle has been freed, and none is left when `Destroy` returns. -/
def Linear (s : MysqlLink) : Prop :=
  (s.pMysqlRes = 0 ∨ s.pMysqlRes ∈ s.live) ∧ s.wrongFrees = [] ∧ (s.destroyed = true → s.live = [])

instance (s : MysqlLink) : Decidable s.Linear := inferInstanceAs (Decidable (_ ∧ _ ∧ (_ → _)))

/-- The result set in `m_pMysqlRes`. -/
def current (s : MysqlLink) : List Ptr :=
  if s.pMysqlRes = 0 ∨ s.pMysqlRes = noResultMark then [] else [s.pMysqlRes]

structure Inv (s : MysqlLink) : Prop where
  /-- what has not been freed is in `m_pMysqlRes` or has been overwritten there -/
  split : s.live.Perm (s.current ++ s.overwritten)
  nodup : s.live.Nodup
  notNull : 0 ∉ s.live
  noMark : noResultMark ∉ s.live
  closed : s.destroyed = true → s.bMysql = false

theorem new_inv : Inv {} := by
  constructor
  · exact List.Perm.nil
  · exact List.nodup_nil
  · exact List.not_mem_nil
  · exact List.not_mem_nil
  · nofun

/-! ## The calls -/

/-- The result sets that are lost once `m_pMysqlRes` is written. -/
def shelved (s : MysqlLink) : List Ptr :=
  if s.pMysqlRes ∈ s.live then s.pMysqlRes :: s.overwritten else s.overwritten

theorem Inv.current_subset (h : Inv s) : ∀ p ∈ s.current, p ∈ s.live :=
  fun _ hp => h.split.mem_iff.mpr (List.mem_append_left _ hp)

theorem Inv.shelved_perm (h : Inv s) : s.live.Perm s.shelved := by
  have hsplit := h.split
  have hsubset := h.current_subset
  unfold shelved
  unfold current at hsplit hsubset
  split at hsplit
  · next hno =>
    have hout : s.pMysqlRes ∉ s.live := by
      rcases hno with hzero | hmark
      · rw [hzero]
        exact h.notNull
      · rw [hmark]
        exact h.noMark
    rw [if_neg hout]
    exact hsplit
  · next hres =>
    rw [if_neg hres] at hsubset
    rw [if_pos (hsubset _ (List.mem_singleton_self _))]
    exact hsplit

/-- What `RunSqlCMD` leaves: no handle, the mark, or a new result set. -/
theorem runSqlCMD_cases (s : MysqlLink) (bResult : Bool) (answer : MysqlAnswer) :
    (s.runSqlCMD bResult answer).1 = { s with overwritten := s.shelved, pMysqlRes := 0 } ∧
        (s.bMysql = true → bResult = false → answer = .failed) ∨
      (s.bMysql = true ∧ bResult = false ∧ answer ≠ .failed) ∧
        (s.runSqlCMD bResult answer).1 = { s with overwritten := s.shelved, pMysqlRes := noResultMark } ∨
      ∃ res, (s.bMysql = true ∧ bResult = true ∧ answer = .done res ∧ res ≠ 0) ∧
        (s.runSqlCMD bResult answer).1 =
          { s with overwritten := s.shelved, live := res :: s.live, pMysqlRes := res } := by
  have hover : (if s.pMysqlRes ∈ s.live then { s with overwritten := s.pMysqlRes :: s.overwritten }
    else s) =
      { s with overwritten := s.shelved } := by
    unfold shelved
    split <;> rfl
  unfold runSqlCMD
  rw [hover]
  unfold stMysqlQuery
  cases hconn : s.bMysql with
  | false => exact Or.inl ⟨rfl, nofun⟩
  | true =>
    cases answer with
    | failed => exact Or.inl ⟨rfl, fun _ _ => rfl⟩
    | done res =>
      cases bResult with
      | false => exact Or.inr (Or.inl ⟨⟨rfl, rfl, nofun⟩, rfl⟩)
      | true =>
        by_cases hres : res = 0
        · refine Or.inl ⟨?_, nofun⟩
          rw [hres]
          rfl
        · refine Or.inr (Or.inr ⟨res, ⟨rfl, rfl, rfl, hres⟩, ?_⟩)
          dsimp only
          rw [if_neg (by decide), if_neg hres]
          rfl

theorem Inv.connect (h : Inv s) (init real : Bool) : Inv (s.connect init real).1 := by
  unfold MysqlLink.connect
  split
  · exact h
  · split
    · exact ⟨h.split, h.nodup, h.notNull, h.noMark, nofun⟩
    · exact ⟨h.split, h.nodup, h.notNull, h.noMark, nofun⟩

theorem Inv.run (h : Inv s) (bResult : Bool) {answer : MysqlAnswer} (hfresh : answer.Fresh s.live) :
    Inv (s.runSqlCMD bResult answer).1 := by
  rcases runSqlCMD_cases s bResult answer with ⟨heq, -⟩ | ⟨-, heq⟩ | ⟨res, ⟨hconn, -, rfl, hres⟩, heq⟩
  · rw [heq]
    exact ⟨h.shelved_perm, h.nodup, h.notNull, h.noMark, h.closed⟩
  · rw [heq]
    exact ⟨h.shelved_perm, h.nodup, h.notNull, h.noMark, h.closed⟩
  · obtain ⟨hmark, hnew⟩ := hfresh
    have hcurrent : ∀ t : MysqlLink, t.pMysqlRes = res → t.current = [res] := by
      intro t ht
      unfold current
      rw [ht, if_neg (not_or.mpr ⟨hres, hmark⟩)]
    rw [heq]
    constructor
    · rw [hcurrent _ rfl]
      exact h.shelved_perm.cons res
    · exact List.nodup_cons.mpr ⟨hnew, h.nodup⟩
    · intro hzero
      rcases List.mem_cons.mp hzero with hzero | hzero
      · exact hres hzero.symm
      · exact h.notNull hzero
    · intro hone
      rcases List.mem_cons.mp hone with hone | hone
      · exact hmark hone.symm
      · exact h.noMark hone
    · intro hdestroyed
      rw [h.closed hdestroyed] at hconn
      cases hconn

theorem Inv.destroy (h : Inv s) : Inv s.destroy := by
  have hsplit := h.split
  unfold MysqlLink.destroy
  by_cases hzero : s.pMysqlRes = 0
  · rw [if_neg (not_not.mpr hzero)]
    exact ⟨h.split, h.nodup, h.notNull, h.noMark, fun _ => rfl⟩
  · rw [if_pos hzero]
    unfold freeResult
    by_cases hmem : s.pMysqlRes ∈ s.live
    · have hcurrent : s.current = [s.pMysqlRes] := by
        unfold current
        rw [if_neg]
        rintro (hnull | hmark)
        · exact hzero hnull
        · rw [hmark] at hmem
          exact h.noMark hmem
      rw [hcurrent] at hsplit
      rw [if_pos hmem]
      refine ⟨?_, h.nodup.erase _, fun h0 => h.notNull (List.mem_of_mem_erase h0),
        fun h1 => h.noMark (List.mem_of_mem_erase h1), fun _ => rfl⟩
      exact (List.perm_cons s.pMysqlRes).mp ((List.perm_cons_erase hmem).symm.trans hsplit)
    · have hcurrent : s.current = [] := by
        unfold current
        rw [if_pos]
        by_contra hno
        apply hmem
        apply h.current_subset
        unfold current
        rw [if_neg hno]
        exact List.mem_singleton_self _
      rw [hcurrent] at hsplit
      rw [if_neg hmem]
      exact ⟨hsplit, h.nodup, h.notNull, h.noMark, fun _ => rfl⟩

/-! ## When they keep the discipline -/

theorem Linear.connect (h : Linear s) (init real : Bool) : Linear (s.connect init real).1 := by
  obtain ⟨hres, hfrees, hdestroyed⟩ := h
  unfold MysqlLink.connect
  split
  · exact ⟨hres, hfrees, hdestroyed⟩
  · split
    · exact ⟨hres, hfrees, nofun⟩
    · exact ⟨hres, hfrees, nofun⟩

theorem Linear.run_iff (h : Linear s) (hinv : Inv s) (bResult : Bool) (answer : MysqlAnswer) :
    Linear (s.runSqlCMD bResult answer).1 ↔ (s.bMysql = true → bResult = false → answer = .failed) := by
  obtain ⟨hres, hfrees, hdestroyed⟩ := h
  rcases runSqlCMD_cases s bResult answer with ⟨heq, hall⟩ | ⟨⟨hconn, hno, hanswer⟩, heq⟩ |
    ⟨res, ⟨hconn, hyes, -, -⟩, heq⟩
  · rw [heq]
    exact iff_of_true ⟨Or.inl rfl, hfrees, hdestroyed⟩ hall
  · rw [heq]
    refine iff_of_false ?_ fun hall => hanswer (hall hconn hno)
    rintro ⟨hmark | hmark, -⟩
    · cases hmark
    · exact hinv.noMark hmark
  · rw [heq]
    refine iff_of_true ⟨Or.inr List.mem_cons_self, hfrees, ?_⟩ ?_
    · intro hd
      rw [hinv.closed hd] at hconn
      cases hconn
    · intro _ hno
      rw [hyes] at hno
      cases hno

theorem Linear.destroy_iff (h : Linear s) (hinv : Inv s) : Linear s.destroy ↔ s.overwritten = [] := by
  obtain ⟨hres, hfrees, -⟩ := h
  have hsplit := hinv.destroy.split
  have hdestroy : s.destroy =
      { s with
        live := s.live.erase s.pMysqlRes
        pMysqlRes := 0
        bMysql := false
        destroyed := true } := by
    unfold MysqlLink.destroy
    by_cases hzero : s.pMysqlRes = 0
    · rw [if_neg (not_not.mpr hzero)]
      dsimp only
      rw [hzero, List.erase_of_not_mem hinv.notNull]
    · rw [if_pos hzero, freeResult, if_pos (hres.resolve_left hzero)]
  rw [hdestroy] at hsplit ⊢
  constructor
  · intro hlinear
    rw [hlinear.2.2 rfl] at hsplit
    exact hsplit.nil_eq.symm
  · intro hnone
    refine ⟨Or.inl rfl, hfrees, fun _ => ?_⟩
    rw [hnone] at hsplit
    exact hsplit.eq_nil

end MysqlLink

namespace MysqlCall

open MysqlLink

/-- No statement without result goes through, and `Destroy` comes while no
result set has been overwritten. -/
def Disciplined (s : MysqlLink) : MysqlCall → Prop
  | connect _ _ => True
  | runSqlCMD bResult answer => s.bMysql = true → bResult = false → answer = .failed
  | destroy => s.overwritten = []

instance (s : MysqlLink) : (a : MysqlCall) → Decidable (a.Disciplined s)
  | connect _ _ => isTrue trivial
  | runSqlCMD bResult answer =>
    inferInstanceAs (Decidable (s.bMysql = true → bResult = false → answer = .failed))
  | destroy => inferInstanceAs (Decidable (s.overwritten = []))

theorem step_inv {s s' : MysqlLink} {a : MysqlCall} (h : Inv s) (hs : step s a = some s') : Inv s' := by
  cases a with
  | connect init real =>
    cases hs
    exact h.connect init real
  | runSqlCMD bResult answer =>
    rw [step] at hs
    split at hs
    · next hfresh =>
      cases hs
      exact h.run bResult hfresh
    · cases hs
  | destroy =>
    cases hs
    exact h.destroy

theorem step_linear {s s' : MysqlLink} {a : MysqlCall} (h : Inv s) (hlinear : s.Linear)
    (hs : step s a = some s') : s'.Linear ↔ a.Disciplined s := by
  cases a with
  | connect init real =>
    cases hs
    exact iff_of_true (hlinear.connect init real) trivial
  | runSqlCMD bResult answer =>
    rw [step] at hs
    split at hs
    · cases hs
      exact hlinear.run_iff h bResult answer
    · cases hs
  | destroy =>
    cases hs
    exact hlinear.destroy_iff h

/-- **Result handles.**  Over a whole run of calls on a new link, the handles
are used linearly exactly when no statement without result goes through and
`Destroy` is called only while no result set has been overwritten. -/
theorem linear_iff (as : List MysqlCall) :
    Always step Linear {} as ↔ EachStep step (fun s a => a.Disciplined s) {} as := by
  apply always_iff_eachStep (J := Inv) (D := fun _ _ => True)
  · exact fun _ _ _ h _ hs => step_inv h hs
  · exact fun _ _ _ h hlinear _ hs => step_linear h hlinear hs
  · exact new_inv
  · exact ⟨Or.inl rfl, rfl, nofun⟩
  · exact eachStep_of_forall as _ fun _ _ _ => trivial

/-- A table of another database is loaded: `use` leaves the mark.  Two tables are
loaded: the first result set is still there when `Destroy` returns. -/
theorem not_linear :
    ¬ Always step Linear {} [.connect true true, .runSqlCMD false (.done 0)] ∧
      ¬ Always step Linear {}
        [.connect true true, .runSqlCMD true (.done 64), .runSqlCMD true (.done 96), .destroy] := by
  constructor
  · exact not_always_of_any (b := fun s => !decide s.Linear) (fun s hs => by simpa using hs) (by decide)
  · exact not_always_of_any (b := fun s => !decide s.Linear) (fun s hs => by simpa using hs) (by decide)

end MysqlCall

end FuServer
