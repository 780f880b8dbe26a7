import FuServer.Lib.Bytes

/-!
# The console (Server.cpp)

`getchar` takes the characters of the console one by one; where they are given as
a list, `none` is the loop still waiting for more behind them.
-/

namespace FuServer

open Bytes

/-- The loop of `InputCharAndBreakLoop` with `toPressNum` characters of the word pressed: how many
characters it takes until it ends. -/
def inputCharLoop (pInputStr : Str) (toPressNum : Nat) : Str → Option Nat
  | [] => none
  | toPress :: input =>
    if toPress = 0 then some 1
    else if pInputStr[toPressNum]? = some toPress then
      if toPressNum + 1 = pInputStr.length then some 1
      else (inputCharLoop pInputStr (toPressNum + 1) input).map (· + 1)
    else (inputCharLoop pInputStr 0 input).map (· + 1)

def inputCharAndBreakLoop (pInputStr : Str) (input : Str) : Option Nat := inputCharLoop pInputStr 0 input

/-- The word at which `GameStart` returns. -/
def stopWord : Str := lit "quit"

end FuServer
