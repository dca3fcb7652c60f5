/-
Where `ljx` reads from (src/ljx/src/input.rs): a file, or standard input,
which is first copied to the temporary directory, the state here.
-/
import Logjet.Ljx.Index
import Logjet.Spool.Disk

namespace Logjet.Ljx

structure InputHandle where
  file : Text
  pos : Nat
  tempPath : Option Text
  deriving DecidableEq, Repr

structure Surroundings where
  stdin : Bytes
  pid : UInt32
  clock : Except String Nat

def alreadyExists : IoError := ⟨.alreadyExists, "File exists (os error 17)"⟩

def createNew (path : Text) : EStateM LjxError Directory Unit :=
  fun dir =>
    if dir.has path then .error (.io alreadyExists) dir
    else .ok () (dir.create path)

def candidate (pid : UInt32) (nanos attempt : Nat) : Text :=
  s!"ljx-stdin-{pid}-{nanos}-{attempt}.logjet".toList

def reserve (pid : UInt32) (nanos attempt : Nat) : EStateM LjxError Directory Text :=
  fun dir =>
  let path := candidate pid nanos attempt
  match createNew path dir with
  | .ok _ dir => .ok path dir
  | .error err dir =>
    if err = .io alreadyExists then
      if attempt + 1 < 2 ^ 32 then reserve pid nanos (attempt + 1) dir
      else .error (.usage "temporary file naming overflow") dir
    else .error err dir
termination_by 2 ^ 32 - attempt

def createTempPath (sys : Surroundings) : EStateM LjxError Directory Text :=
  match sys.clock with
  | .error err => throw (.usage ("system clock error: " ++ err))
  | .ok nanos => reserve sys.pid nanos 0

def InputHandle.fromStdin (sys : Surroundings) : EStateM LjxError Directory InputHandle := do
  let path ← createTempPath sys
  createNew path
  modify fun dir => dir.alter path fun content => content ++ sys.stdin
  return { file := path, pos := 0, tempPath := some path }

def InputHandle.open (sys : Surroundings) (path : Text) : EStateM LjxError Directory InputHandle :=
  if path = "-".toList then InputHandle.fromStdin sys
  else fun dir =>
    if dir.has path then .ok { file := path, pos := 0, tempPath := none } dir
    else .error (.io Directory.notFound) dir

def InputHandle.drop (self : InputHandle) (dir : Directory) : Directory :=
  match self.tempPath with
  | some path => dir.erase path
  | none => dir

end Logjet.Ljx
