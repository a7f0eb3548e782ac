import SparseGraph.CommandLine.Program

open SparseGraph SparseGraph.Files SparseGraph.CommandLine

/-!
# The command line

The first argument names the program, the others are its own. The files that a run may access are
read before it, and those that it has changed are written after it. Tables live in memory only:
a file that is to hold one is not written.
-/

namespace SparseGraph.CommandLine

/-- The code of the error when a directory is read as a file. -/
def directoryCode : UInt32 := 21

/-- Whether there is a directory at a path. -/
def isDirectory (path : String) : IO Bool :=
  try
    discard (IO.FS.readBinFile path)
    return false
  catch
    | .inappropriateType _ code _ => return code == directoryCode
    | _ => return false

/-- The contents of a file. -/
def contentOfBytes (bytes : ByteArray) : Content :=
  match String.fromUTF8? bytes with
  | some chars => .text chars
  | none => .other bytes.data.toList

/-- Add the directory with these names, if it is there. -/
def addDirectory (store : Store) (names : List String) : IO Store := do
  let path := "/".intercalate names
  if ← isDirectory (if path.isEmpty then "/" else path) then
    return { store with directories := names :: store.directories }
  else return store

/-- Add what stands at a path, and the directory that it is in. Nothing can stand at a path with
    names that are too long. -/
def addPath (store : Store) (path : String) : IO Store := do
  if (pathParts path).any (longestName < ·.utf8ByteSize) || (pathFault? path).isSome then
    return store
  let names := place path
  let store ← addDirectory store (above names)
  if ← isDirectory path then addDirectory store names
  else
    try return store.put names (contentOfBytes (← IO.FS.readBinFile path))
    catch
      | .noFileOrDirectory .. => return store
      | .inappropriateType .. => return store
      | e => throw e

/-- Write the text that the file at a path now holds, if it is not what it held before. -/
def writeBack (before after : Store) (path : String) : IO Unit :=
  let names := place path
  match before.get? names, after.get? names with
  | some (.text old), some (.text new) => unless old = new do IO.FS.writeFile path new
  | _, some (.text new) => IO.FS.writeFile path new
  | none, some (.table _) => throw (.userError (path ++ ": tables live in memory only"))
  | _, _ => return

/-- Run what is planned, and measure the duration of its work. -/
def run : Plan → IO Outcome
  | .finished outcome => return outcome
  | .measured work conclude => do
    let start ← IO.monoNanosNow
    let result ← IO.lazyPure work
    let stop ← IO.monoNanosNow
    return conclude result (stop - start)

/-- Run a program on the files around it. -/
def execute (p : Program) (args : List String) : IO UInt32 := do
  let paths := p.paths args
  let before ← paths.foldlM addPath Store.empty
  let outcome ← run (p.plan before args)
  IO.print outcome.text
  paths.forM (writeBack before outcome.store)
  match outcome.status with
  | .failed failure => IO.eprint failure.report
  | _ => pure ()
  return .ofNat outcome.status.exitCode

end SparseGraph.CommandLine

def main : List String → IO UInt32
  | name :: args =>
    match Program.ofName? name with
    | some p => execute p args
    | none => do
      IO.eprintln s!"There is no program {name}."
      return 2
  | [] => do
    IO.eprintln "A program is to be named."
    return 2
