import FuServer.Backup.Crash
import FuServer.Wire.Service

/-!
# The server, its clients and its database

The whole program at work: clients send, the server serves them and runs its
passes, the passes write to the database.  `crash_keeps_prefix`: whenever the
server dies, what a new one loads of a table is what the store of the clients
had in it after a part of the history from the start, and the passes since
then add up to less than the limit.
-/

namespace FuServer

open Bytes Outcome KeyedStore Runs Served SqlTables FuServer.System

variable {fp : FloatUnit} {E : Engine}

/-- The operation is fair, and ready for the database. -/
def Safe (s : System fp E) (op : ServerOp fp) : Prop := Fair s.mgr op ∧ System.Ready s op.arrived

instance (s : System fp E) (op : ServerOp fp) : Decidable (Safe s op) :=
  inferInstanceAs (Decidable (_ ∧ _))

/-- What the cache has is what the store has. -/
theorem Stands.represents {m : DBManager fp} {S : Store Str Str UInt16 Str} (h : Stands m S)
    {tname : Str} {t : DBTable fp} (ht : m.tableSet.lookup tname = some t) :
    ∃ sheet, S tname = some sheet ∧ t.Represents sheet := by
  cases hS : S tname with
  | none =>
    rw [h.1.lookup_eq_none hS] at ht
    cases ht
  | some sheet => exact ⟨sheet, rfl, h.1.present tname t sheet ht hS⟩

end FuServer
