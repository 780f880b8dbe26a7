import FuServer.Lib.HashMap
import FuServer.Model.Record

/-!
# Configuration files (UtilsConfig)

The files are what the names lead to: `found` for reading, which goes through the
project's directories, and `made` for `fopen` in mode `w+`.  Files are read and
written byte for byte: in the text mode of a Windows build a CR LF is read as one
byte, the count is then short of the size, and the file is not parsed.  A handler
is the file it is open on and the place in it.
-/

namespace FuServer

open Bytes

structure Files (F : Type) where
  found : Str → Option F
  made : Str → Option F
  contents : F → Str

/-- `strncmp(a, b, n) == 0` on strings that end with their list. -/
def strncmpEq : Nat → Str → Str → Bool
  | 0, _, _ => true
  | n + 1, a, b =>
    if a.headD 0 ≠ b.headD 0 then false
    else if a.headD 0 = 0 then true
    else strncmpEq n a.tail b.tail

structure UtilsConfig (F : Type) where
  fileHandler : Option (F × Nat) := none
  filePath : Str
  isCheckFile : Bool := false
  fileDataList : UMap Str Str := ∅

/-- The variables of the loop in `openFile`; `ptr` is an index into `fileData`. -/
structure ParseState where
  fileData : Str
  ptr : Nat := 0
  tempKey : Bool := false
  tempValue : Bool := false
  keyName : Str := []
  keyValue : Str := []
  tempLeft : Bool := false
  tempRight : Bool := false
  isCheckFile : Bool
  fileDataList : UMap Str Str

namespace ParseState

/-- The string at `ptr`. -/
def text (s : ParseState) : Str := cstr (s.fileData.drop s.ptr)

/-- From the terminator on, at a right bracket; `none` is the `break`. -/
def takeText (filePath : Str) (i : Nat) (s : ParseState) : Option ParseState :=
  let s := { s with fileData := s.fileData.set i 0 }
  if s.tempLeft && !s.isCheckFile && strncmpEq filePath.length s.text (cstr filePath) then
    some { s with ptr := i + 1, tempLeft := false, tempRight := false, isCheckFile := true }
  else if !s.isCheckFile then none
  else
    let s :=
      if !s.tempKey then { s with keyName := s.text, tempKey := true }
      else if !s.tempValue then { s with keyValue := s.text, tempValue := true }
      else s
    let s :=
      if s.tempKey && s.tempValue then
        { s with
          fileDataList := s.fileDataList.insert s.keyName s.keyValue
          tempKey := false
          tempValue := false }
      else s
    some { s with ptr := i + 1, tempLeft := false, tempRight := false }

/-- One round of the loop, at the character `c` of index `i`. -/
def step (filePath : Str) (i : Nat) (c : UInt8) (s : ParseState) : Option ParseState :=
  if c ≠ 91 ∧ s.tempLeft = false then some s
  else
    let s := if c = 91 then { s with ptr := i + 1, tempLeft := true } else s
    if c = 93 then takeText filePath i { s with tempRight := true }
    else if s.tempRight = false then some s
    else takeText filePath i s

/-- The loop over the `len` characters from `i` on. -/
def loop (filePath : Str) : Nat → Nat → ParseState → ParseState
  | 0, _, s => s
  | len + 1, i, s =>
    match s.step filePath i (s.fileData[i]?.getD 0) with
    | none => s
    | some s => loop filePath len (i + 1) s

end ParseState

namespace UtilsConfig

variable {F : Type}

/-- `_fileHandler.open(name, "r")` -/
def openHandler (fs : Files F) (name : Str) : Option (F × Nat) :=
  (fs.found (cstr name)).map fun f => (f, 0)

def new (fs : Files F) (fileName : Str) : UtilsConfig F :=
  { filePath := fileName, fileHandler := if fileName ≠ [] then openHandler fs fileName else none }

def openFile (fs : Files F) (c : UtilsConfig F) (fileName : Str) : Res (UtilsConfig F) :=
  -- the handler is opened only if it is not open
  match c.fileHandler.or (openHandler fs fileName) with
  | none => .error .nullPointer
  | some (f, offset) =>
    let len := (fs.contents f).length
    let fileData := (fs.contents f).drop offset
    let c := { c with filePath := fileName, fileHandler := some (f, offset + fileData.length) }
    if fileData.length = len then
      let s := ParseState.loop fileName len 0
        { fileData := fileData, isCheckFile := c.isCheckFile, fileDataList := c.fileDataList }
      .ok { c with isCheckFile := s.isCheckFile, fileDataList := s.fileDataList }
    else .ok c

def setStringKey (c : UtilsConfig F) (keyName keyValue : Str) : UtilsConfig F :=
  if keyName = [] then c else { c with fileDataList := c.fileDataList.insert keyName keyValue }

def getStringKey (c : UtilsConfig F) (keyName defaultValue : Str) : Str × UtilsConfig F :=
  match c.fileDataList.lookup keyName with
  | some value => (value, c)
  | none => (defaultValue, c.setStringKey keyName defaultValue)

/-- What `flush` writes. -/
def flushText (ord : HashOrder) (c : UtilsConfig F) : Str :=
  fuStringFormat (lit "[%s]\n") [c.filePath] ++
    (ord.order c.fileDataList.entries).flatMap fun iter =>
      fuStringFormat (lit "[%s]=[%s]\n") [iter.1, iter.2]

/-- A name under which no file can be made stops the program. -/
def flush (ord : HashOrder) (fs : Files F) [DecidableEq F] (c : UtilsConfig F) : Res (Files F) :=
  match fs.made (cstr c.filePath) with
  | none => .error .nullPointer
  | some f => .ok { fs with contents := Function.update fs.contents f (c.flushText ord) }

/-- The destructor: the files after it. -/
def destroy (ord : HashOrder) (fs : Files F) [DecidableEq F] (c : UtilsConfig F) : Files F :=
  match c.flush ord fs with
  | .error _ => fs
  | .ok fs => fs

end UtilsConfig

end FuServer
