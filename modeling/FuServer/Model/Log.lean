import FuServer.Model.Record

/-!
# The log worker (UtilsLog)

The list of messages, the flag that `Exit` sets and the place the worker has
reached in its loop.  Pushing and popping are under the lock and one step each;
the test of the list and the test of the flag are steps of their own.  Which
numbered file a log goes to belongs to the sizes of the files and is left out.
-/

namespace FuServer

open Bytes

structure CLogInfo where
  sLog : Str
  sFile : Str := []
  iLevel : Int
deriving DecidableEq, Repr

/-- Where a message goes: the file it names, the log file, or the console. -/
inductive LogSink
  | file (name : Str)
  | utilsLog
  | console
deriving DecidableEq, Repr

/-- `CheckLogInfoFunc`: the sink, and what `puts` and `printf` write. -/
def checkLogInfoFunc (logWriteToFile : Bool) (logInfo : CLogInfo) : LogSink × Str :=
  let myLogStr :=
    if logInfo.iLevel ≤ 1 then lit "[FULOG]"
    else if logInfo.iLevel = 2 then lit "[FUWarning]"
    else lit "[FUError]"
  let myLogStr := myLogStr ++ logInfo.sLog
  let myLogStr := if myLogStr.getLast? ≠ some 0x0a then myLogStr ++ [0x0a] else myLogStr
  let sink :=
    if logInfo.sFile ≠ [] then .file logInfo.sFile
    else if logWriteToFile then .utilsLog
    else .console
  (sink, cstr myLogStr)

/-- The worker's place in `st_WorkerThreadProc`. -/
inductive WorkerPlace
  /-- before `if (!g_LogInfoList.empty())` -/
  | test
  /-- before `g_LogLock.Lock()` -/
  | pop
  /-- before `else if (g_LogExit)` -/
  | exitTest
  | stopped
deriving DecidableEq, Repr

structure UtilsLog where
  logWriteToFile : Bool
  logExit : Bool := false
  logInfoList : List CLogInfo := []
  place : WorkerPlace := .test
  output : List (LogSink × Str) := []
  /-- bookkeeping: the messages that have been pushed, those before `Exit`, and
  how many of the latter have come since the list was last tested -/
  pushed : List CLogInfo := []
  beforeExit : List CLogInfo := []
  came : Nat := 0
deriving DecidableEq, Repr

namespace UtilsLog

/-- `push_back` under the lock. -/
def pushBack (s : UtilsLog) (logInfo : CLogInfo) : UtilsLog :=
  { s with
    logInfoList := s.logInfoList ++ [logInfo]
    pushed := s.pushed ++ [logInfo]
    came := if s.logExit then s.came else s.came + 1 }

/-- `Log`; `toStr` is the formatted text. -/
def log (s : UtilsLog) (level : Int) (toStr : Str) : UtilsLog :=
  s.pushBack { sLog := toStr, iLevel := level }

/-- `LogFile` -/
def logFile (s : UtilsLog) (pstr fileName : Str) : UtilsLog :=
  s.pushBack { sLog := pstr, sFile := fileName, iLevel := 0 }

/-- `Exit`, up to the wait for the worker. -/
def exit (s : UtilsLog) : UtilsLog := { s with logExit := true, beforeExit := s.pushed }

/-- The worker takes its next step. -/
def stWorkerThreadProc (s : UtilsLog) : Res UtilsLog :=
  match s.place with
  | .test =>
    if s.logInfoList ≠ [] then .ok { s with place := .pop, came := 0 }
    else .ok { s with place := .exitTest, came := 0 }
  | .pop =>
    match s.logInfoList with
    | [] => .error .outOfRange
    | logInfo :: rest =>
      .ok { s with
        logInfoList := rest
        output := s.output ++ [checkLogInfoFunc s.logWriteToFile logInfo]
        place := .test }
  | .exitTest => if s.logExit then .ok { s with place := .stopped } else .ok { s with place := .test }
  | .stopped => .ok s

end UtilsLog

inductive LogStep
  | log (level : Int) (toStr : Str)
  | logFile (pstr fileName : Str)
  | exit
  | worker
deriving DecidableEq, Repr

/-- One step; `Exit` is called once, and a worker that has stopped takes none. -/
def LogStep.step : Res UtilsLog → LogStep → Option (Res UtilsLog)
  | .ok s, .log level toStr => some (.ok (s.log level toStr))
  | .ok s, .logFile pstr fileName => some (.ok (s.logFile pstr fileName))
  | .ok s, .exit => if s.logExit then none else some (.ok s.exit)
  | .ok s, .worker => if s.place = .stopped then none else some s.stWorkerThreadProc
  | .error _, _ => none

end FuServer
