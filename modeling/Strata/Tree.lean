/-
# A file system as a value

A directory lists its entries in an order of its own, which no answer of the
library may depend on. A file holds a text, or bytes that are no UTF-8 text.

Looking a path up can fail for the reasons of `IoError`. A path is walked part
by part: any further part, even an empty one or a dot, needs a directory to
stand in, and two dots lead to the directory around it, at the top to the top
itself.
-/

import Strata.Path

namespace Strata

open Text

/-- An entry of a directory. -/
inductive Entry where
  /-- a file and its text; `none` when its bytes are no UTF-8 text -/
  | file (text : Option String)
  | directory (entries : List (String × Entry))
  deriving Repr, Inhabited

/-- Why a file or directory could not be used. -/
inductive IoError where
  | missing
  | notADirectory
  | isADirectory
  | notText
  | nulInName
  | nameTooLong
  deriving Repr, DecidableEq

/-- The text of an error. -/
def IoError.message : IoError → String
  | .missing => "No such file or directory (os error 2)"
  | .notADirectory => "Not a directory (os error 20)"
  | .isADirectory => "Is a directory (os error 21)"
  | .notText => "stream did not contain valid UTF-8"
  | .nulInName => "file name contained an unexpected NUL byte"
  | .nameTooLong => "File name too long (os error 36)"

/-- The most bytes that a name may have. -/
def maxNameBytes : Nat := 255

namespace Entry

/-- True for a directory. -/
def isDirectory : Entry → Bool
  | directory _ => true
  | file _ => false

/-- One part of a path: from an entry and the directories around it, the
innermost first, to the next entry and the directories around that. -/
def walkPart (here : Entry) (around : List Entry) (part : List Char) :
    Except IoError (Entry × List Entry) :=
  match here with
  | file _ => .error .notADirectory
  | directory entries =>
    if part = [] ∨ part = ['.'] then .ok (here, around)
    else if part = ['.', '.'] then
      match around with
      | [] => .ok (here, [])
      | outer :: rest => .ok (outer, rest)
    else
      let name := String.ofList part
      if maxNameBytes < name.utf8ByteSize then .error .nameTooLong
      else
        match entries.lookup name with
        | some entry => .ok (entry, here :: around)
        | none => .error .missing

/-- Walks the parts of a path one after the other. -/
def walkParts (here : Entry) (around : List Entry) :
    List (List Char) → Except IoError (Entry × List Entry)
  | [] => .ok (here, around)
  | part :: rest =>
    match walkPart here around part with
    | .ok (next, around) => walkParts next around rest
    | .error e => .error e

/-- Puts an entry at a place below a directory and creates the directories on
the way; an entry that was there is replaced. -/
def put (entry : Entry) : List String → Entry → Entry
  | [], _ => entry
  | name :: rest, directory entries =>
    if (entries.lookup name).isSome then
      directory (entries.map fun e => if e.1 = name then (name, put entry rest e.2) else e)
    else directory (entries ++ [(name, put entry rest (directory []))])
  | name :: rest, file _ => directory [(name, put entry rest (directory []))]

/-- Creates a directory and the directories on the way, where there are none
yet. -/
def makeDirectory : List String → Entry → Entry
  | [], entry => if entry.isDirectory then entry else directory []
  | name :: rest, directory entries =>
    if (entries.lookup name).isSome then
      directory (entries.map fun e => if e.1 = name then (name, makeDirectory rest e.2) else e)
    else directory (entries ++ [(name, makeDirectory rest (directory []))])
  | name :: rest, file _ => directory [(name, makeDirectory rest (directory []))]

/-- Takes the entry at a place away, with all it holds. -/
def erase : List String → Entry → Entry
  | [name], directory entries => directory (entries.filter fun e => e.1 ≠ name)
  | name :: rest, directory entries =>
    directory (entries.map fun e => if e.1 = name then (name, erase rest e.2) else e)
  | _, entry => entry

/-- The entry at a place below a directory. -/
def get? : List String → Entry → Option Entry
  | [], entry => some entry
  | name :: rest, directory entries => (entries.lookup name).bind (get? rest)
  | _ :: _, file _ => none

end Entry

/-- A file system and the directory that relative paths start from. -/
structure Files where
  top : Entry
  workingDirectory : Path

namespace Files

/-- What stands at a path. -/
def find (files : Files) (path : Path) : Except IoError Entry :=
  if path.text.toList.contains '\x00' then .error .nulInName
  else if path.text.isEmpty then .error .missing
  else if path.isAbsolute then (files.top.walkParts [] path.parts).map Prod.fst
  else
    match files.top.walkParts [] files.workingDirectory.parts with
    | .ok (here, around) => (here.walkParts around path.parts).map Prod.fst
    | .error e => .error e

/-- True when something stands at the path. -/
def existsAt (files : Files) (path : Path) : Bool := (files.find path).toOption.isSome

/-- True when a directory stands at the path. -/
def isDirectory (files : Files) (path : Path) : Bool :=
  (files.find path).toOption.any Entry.isDirectory

/-- True when a file stands at the path. -/
def isFile (files : Files) (path : Path) : Bool :=
  (files.find path).toOption.any fun e => !e.isDirectory

/-- The text of the file at a path. -/
def readText (files : Files) (path : Path) : Except IoError String :=
  match files.find path with
  | .ok (.file (some text)) => .ok text
  | .ok (.file none) => .error .notText
  | .ok (.directory _) => .error .isADirectory
  | .error e => .error e

/-- The text of the file at a path for a scan: none when there is no file or it
is no text. -/
def readSource (files : Files) (path : Path) : Except IoError (Option String) :=
  match files.readText path with
  | .ok text => .ok (some text)
  | .error .missing | .error .notText => .ok none
  | .error e => .error e

/-- The entries of the directory at a path; none when nothing stands there. -/
def list? (files : Files) (path : Path) : Except IoError (Option (List (String × Entry))) :=
  match files.find path with
  | .ok (.directory entries) => .ok (some entries)
  | .ok (.file _) => .error .notADirectory
  | .error .missing => .ok none
  | .error e => .error e

/-- The names of an absolute path from the top, dots folded. -/
def namesOf (path : Path) : List String :=
  path.normalize.components.filterMap fun
    | .name text => some text
    | _ => none

/-- The file system after a change of the entries at the top. -/
def update (files : Files) (change : Entry → Entry) : Files :=
  ⟨change files.top, files.workingDirectory⟩

/-- Writes a file and creates the directories on the way. -/
def write (files : Files) (path : Path) (text : Option String) : Files :=
  files.update (Entry.put (.file text) (namesOf (files.workingDirectory.join path)))

/-- Creates a directory and the directories on the way. -/
def makeDirectory (files : Files) (path : Path) : Files :=
  files.update (Entry.makeDirectory (namesOf (files.workingDirectory.join path)))

/-- Removes a file, or a directory with all it holds. -/
def remove (files : Files) (path : Path) : Files :=
  files.update (Entry.erase (namesOf (files.workingDirectory.join path)))

/-- Moves what stands at one path to another; a file that was there is
replaced. -/
def rename (files : Files) (source target : Path) : Files :=
  let source := namesOf (files.workingDirectory.join source)
  match files.top.get? source with
  | some entry =>
    files.update fun top =>
      Entry.put entry (namesOf (files.workingDirectory.join target)) (top.erase source)
  | none => files

end Files

end Strata
