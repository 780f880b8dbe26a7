import FuServer.Lib.Alloc

/-!
# The handles of a MySQL link (DBMysql)

`m_pMysqlRes` holds whatever `st_MysqlQuery` returned last: the null pointer, a
result set, or the number one for a statement that has no result.  What the
client library answers is an argument of each call.
-/

namespace FuServer

open Alloc

/-- `(MYSQL_RES*)1` -/
abbrev noResultMark : Ptr := 1

/-- What comes of a statement on a connection. -/
inductive MysqlAnswer
  /-- `mysql_ping` or `mysql_query` failed -/
  | failed
  /-- it went through; `res` is what `mysql_store_result` returns if it is called -/
  | done (res : Ptr)
deriving DecidableEq, Repr

/-- A result set that is returned is at an aligned address, and not where one in use is. -/
def MysqlAnswer.Fresh (live : List Ptr) : MysqlAnswer → Prop
  | failed => True
  | done res => res ≠ noResultMark ∧ res ∉ live

instance (live : List Ptr) : (answer : MysqlAnswer) → Decidable (answer.Fresh live)
  | .failed => isTrue trivial
  | .done _ => inferInstanceAs (Decidable (_ ∧ _))

structure MysqlLink where
  /-- `m_pMysql` is not null -/
  bMysql : Bool := false
  pMysqlRes : Ptr := 0
  /-- bookkeeping: the result sets that have been stored and not freed, the other
  handles that `mysql_free_result` was given, the result sets that were overwritten
  in `m_pMysqlRes`, and whether `Destroy` was the last to touch the connection -/
  live : List Ptr := []
  wrongFrees : List Ptr := []
  overwritten : List Ptr := []
  destroyed : Bool := false
deriving DecidableEq, Repr

namespace MysqlLink

/-- `st_MysqlQuery` -/
def stMysqlQuery (s : MysqlLink) (bResult : Bool) (answer : MysqlAnswer) : MysqlLink × Ptr :=
  if !s.bMysql then (s, 0)
  else match answer with
  | .failed => (s, 0)
  | .done res =>
    if bResult then (if res = 0 then s else { s with live := res :: s.live }, res)
    else (s, noResultMark)

/-- `mysql_free_result` -/
def freeResult (s : MysqlLink) (result : Ptr) : MysqlLink :=
  if result ∈ s.live then { s with live := s.live.erase result }
  else { s with wrongFrees := s.wrongFrees ++ [result] }

/-- `Connect`; `mysql_init` returns a handle or fails.  When `mysql_real_connect`
fails the handle stays. -/
def connect (s : MysqlLink) (init real : Bool) : MysqlLink × Bool :=
  if s.bMysql then (s, false)
  else
    let s := { s with bMysql := init, destroyed := false }
    if !init then (s, false) else (s, real)

/-- `RunSqlCMD` -/
def runSqlCMD (s : MysqlLink) (bResult : Bool) (answer : MysqlAnswer) : MysqlLink × Bool :=
  let s := if s.pMysqlRes ∈ s.live then { s with overwritten := s.pMysqlRes :: s.overwritten } else s
  let query := s.stMysqlQuery bResult answer
  ({ query.1 with pMysqlRes := query.2 }, query.2 ≠ 0)

/-- `Destroy` -/
def destroy (s : MysqlLink) : MysqlLink :=
  let s := if s.pMysqlRes ≠ 0 then { s.freeResult s.pMysqlRes with pMysqlRes := 0 } else s
  { s with bMysql := false, destroyed := true }

end MysqlLink

inductive MysqlCall
  | connect (init real : Bool)
  | runSqlCMD (bResult : Bool) (answer : MysqlAnswer)
  | destroy
deriving DecidableEq, Repr

def MysqlCall.step (s : MysqlLink) : MysqlCall → Option MysqlLink
  | connect init real => some (s.connect init real).1
  | runSqlCMD bResult answer => if answer.Fresh s.live then some (s.runSqlCMD bResult answer).1 else none
  | destroy => some s.destroy

end FuServer
