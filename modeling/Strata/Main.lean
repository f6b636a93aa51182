/-
# The program

Specification, sections 1 and 6: a pure adapter over the library.

The command is read, the files that it is about are read into a value, and the
command is run on that value. Nothing here decides what is printed.
-/

import Strata.CommandLine

namespace Strata
namespace Program

/-- How many directories may stand one inside the other. -/
def directoryDepth : Nat := 200

/-- Reads a file or directory with all it holds; none when there is nothing
that can be read. -/
def readEntry : (depth : Nat) → (path : String) → IO (Option Entry)
  | 0, _ => return none
  | depth + 1, path => do
    try
      let place ← IO.FS.realPath ⟨path⟩
      if ← place.isDir then
        let mut entries := #[]
        for item in ← place.readDir do
          if let some entry ← readEntry depth item.path.toString then
            entries := entries.push (item.fileName, entry)
        return some (.directory entries.toList)
      else
        return some (.file (String.fromUTF8? (← IO.FS.readBinFile place)))
    catch _ => return none

/-- The paths that a path passes through, itself last. -/
def passedThrough (path : String) : List String :=
  let parts := path.splitOn "/"
  (List.range parts.length).map fun n => "/".intercalate (parts.take (n + 1))

/-- Adds what stands at a path, and the directories that the path passes
through. -/
def observe (files : Files) (path : Path) : IO Files := do
  let mut files := files
  for passed in passedThrough path.text do
    unless passed.isEmpty do
      try
        let place ← IO.FS.realPath ⟨passed⟩
        if ← place.isDir then files := files.makeDirectory ⟨place.toString⟩
      catch _ => pure ()
  match ← readEntry directoryDepth path.text with
  | none => return files
  | some entry =>
    let place ← IO.FS.realPath ⟨path.text⟩
    return files.update (Entry.put entry (Files.namesOf ⟨place.toString⟩))

/-- The paths that a target is about. -/
def placesOfTarget (target : CommandLine.Target) : List Path :=
  target.root.getD ⟨"."⟩ :: target.contract.toList

/-- The paths that a command is about. -/
def placesOf : CommandLine.Command → List Path
  | .validate target _ | .graph target => placesOfTarget target
  | .classify checks target _ =>
    checks :: if target = ⟨none, none⟩ then [] else placesOfTarget target
  | .verifyCorrection step _ => [step]
  | .constraint _ _ _ | .validators | .version => []

/-- The files that the arguments are about. -/
def observeAll (args : List String) : IO Files := do
  let here ← IO.currentDir
  let empty : Files := ⟨.directory [], ⟨here.toString⟩⟩
  let places := ((CommandLine.parse? args).map placesOf).getD []
  places.foldlM observe (empty.makeDirectory ⟨here.toString⟩)

/-- How the program is used. -/
def usage : String :=
  "usage: archgate validate|graph|classify|constraint|verify-correction|validators [options]"

/-- Runs the program and prints what it says. -/
def run (args : List String) : IO UInt32 := do
  let files ← observeAll args
  let maxFiles ← IO.getEnv Correction.Caps.filesVariable
  let maxBytes ← IO.getEnv Correction.Caps.bytesVariable
  let environment (name : String) : Option String :=
    if name = Correction.Caps.filesVariable then maxFiles
    else if name = Correction.Caps.bytesVariable then maxBytes
    else none
  let outcome := CommandLine.run files environment args
  IO.print outcome.stdout
  IO.eprint outcome.stderr
  if outcome = CommandLine.Outcome.misuse then IO.eprintln usage
  return outcome.exitCode

end Program
end Strata

def main (args : List String) : IO UInt32 := Strata.Program.run args
