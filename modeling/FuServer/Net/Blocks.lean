import FuServer.Lib.Runs
import FuServer.Net.Handlers

/-!
# Operation blocks

Which blocks are conserved over the runs of the completion port server: a
handler that neither posts its block again nor gives it back has lost it, and
nothing ever finds it.
-/

namespace FuServer

open Alloc Outcome Runs

namespace NetServerWin32

variable {s : NetServerWin32} {lost : List Ptr}

/-- Every block that has been obtained from the pool is the block of exactly
one pending request, or is back exactly once. -/
def Conserved (s : NetServerWin32) : Prop :=
  ∀ b ∈ s.obtained,
    (s.pending.count b = 1 ∧ s.pool.blocks.count b = 0) ∨
    (s.pending.count b = 0 ∧ s.pool.blocks.count b = 1)

instance (s : NetServerWin32) : Decidable s.Conserved := inferInstanceAs (Decidable (∀ b ∈ _, _))

theorem Owns.nodup (h : Owns s lost) : (s.pool.blocks ++ (lost ++ s.pending)).Nodup :=
  (List.Perm.append_left s.pool.blocks h.split).nodup_iff.mp h.inv.nodup

theorem Owns.conserved_iff (h : Owns s lost) : s.Conserved ↔ lost = [] := by
  obtain ⟨hblocks, hrest, hapart⟩ := List.nodup_append.mp h.nodup
  obtain ⟨-, hpending, hdisj⟩ := List.nodup_append.mp hrest
  constructor
  · intro hall
    cases hlost : lost with
    | nil => rfl
    | cons b rest =>
      have hb : b ∈ lost := by
        rw [hlost]
        exact List.mem_cons_self
      have hnotPending : b ∉ s.pending := fun hm => hdisj b hb b hm rfl
      have hnotBack : b ∉ s.pool.blocks := fun hm => hapart b hm b (List.mem_append_left _ hb) rfl
      have hhanded : b ∈ s.handed := h.split.mem_iff.mpr (List.mem_append_left _ hb)
      have hpending := List.count_eq_zero_of_not_mem hnotPending
      have hback := List.count_eq_zero_of_not_mem hnotBack
      rcases hall b (h.known b hhanded) with ⟨hone, -⟩ | ⟨-, hone⟩
      · omega
      · omega
  · rintro rfl b hb
    rcases h.back b hb with hin | hin
    · have hmem : b ∈ s.pending := h.split.mem_iff.mp hin
      have hnotBack : b ∉ s.pool.blocks := fun hm => hapart b hm b hmem rfl
      exact Or.inl ⟨List.count_eq_one_of_mem hpending hmem, List.count_eq_zero_of_not_mem hnotBack⟩
    · have hnotPending : b ∉ s.pending := fun hm => hapart b hin b hm rfl
      exact Or.inr ⟨List.count_eq_zero_of_not_mem hnotPending, List.count_eq_one_of_mem hblocks hin⟩

end NetServerWin32

namespace NetStep

open NetServerWin32

/-- **Operation blocks.**  Over a whole run of accepts, sends and completions
on a new server, the blocks are conserved exactly when every accept is
delivered, every text that is not empty is sent, and every completion that ends
nothing posts its block again, a receive that has brought nothing included. -/
theorem blocks_conserved_iff (bHeartBeat : Bool) (msgs : Ptr → NetOperationMsg) (A : Malloc)
    (junk : Nat → Ptr) (as : List NetStep) :
    Always step (fun r => Returns r Conserved) (NetServerWin32.new bHeartBeat msgs A junk) as ↔
      EachStep step (fun r a => ∀ s, r = .ok s → a.Keeps s)
        (NetServerWin32.new bHeartBeat msgs A junk) as := by
  obtain ⟨s0, hnew, howns0, -⟩ := new_owns bHeartBeat msgs A junk
  rw [hnew]
  refine always_returns_iff (J := fun s => ∃ lost, Owns s lost) ?_ as s0 ⟨[],
    howns0⟩ (howns0.conserved_iff.mpr rfl)
  rintro s a r ⟨lost, howns⟩ hs
  obtain ⟨s', more, rfl, howns', hkeeps, -⟩ := step_spec howns hs
  refine ⟨s', rfl, ⟨more ++ lost, howns'⟩, fun hconserved => ?_⟩
  have hnil : lost = [] := howns.conserved_iff.mp hconserved
  rw [howns'.conserved_iff, hnil, List.append_nil, hkeeps]

/-- A client that connects and leaves: its receive completes with nothing, and
the handler returns with the block. -/
theorem peer_close_loses_block :
    ¬ Always step (fun r => Returns r Conserved)
      (NetServerWin32.new false (fun _ => ⟨0, .opAccept, 0, none⟩) bump fun _ => 0)
      [.accept bump 5 true, .complete 30 { A := bump, junk := fun _ => 0 },
        .complete 29 { A := bump, junk := fun _ => 0 }] := by
  apply not_always_of_any (b := fun r => r.toOption.any fun s => !decide s.Conserved)
  · intro r hr hconserved
    obtain ⟨s, rfl, h⟩ := hconserved
    simp [Except.toOption, h] at hr
  · decide +kernel

end NetStep

end FuServer
