/-
# Path aliases

Specification, section 4.3: alias configurations and internal-looking specifiers.

A compiler configuration at the project root may declare path aliases: keys of
`compilerOptions.paths`, or a `compilerOptions.baseUrl` other than the project
itself. Imports that use them name code of the project without being relative.

A specifier is internal, that is, it names code of the project, when one of
these holds:

| test | internal specifiers |
| --- | --- |
| a conventional alias | `@/…`, `~/…`, `#/…` |
| the source root | `<sourceRoot>/…` |
| a declared alias | begins with a key less its stars, or is that key less its slashes |
| a source directory | its first segment, unless that starts with `@` |
-/

import Strata.Tree
import Strata.Json.Relaxed
import Strata.Json.Parser
import Strata.Json.Free
import Strata.Text.Ordered
import Strata.Contract.Basic
import Strata.Import.Resolve
import Strata.Tree.Walk

namespace Strata
namespace Graph

open Text

/-- The configurations that are read, in this order. -/
def aliasConfigFiles : List String := ["tsconfig.json", "tsconfig.base.json", "jsconfig.json"]

/-- What a compiler configuration declares. -/
structure AliasConfig where
  file : String
  baseUrl : Option String
  aliases : List String
  deriving Repr, DecidableEq

namespace AliasConfig

/-- True for a base directory that is the project itself. -/
def isProjectItself (baseUrl : String) : Bool := ["", ".", "./"].contains (trim baseUrl)

/-- True when imports may use aliases under this configuration. -/
def declaresAliases (c : AliasConfig) : Bool :=
  !c.aliases.isEmpty || c.baseUrl.any fun b => !isProjectItself b

/-- A key of `paths` without its trailing stars. -/
def aliasOfKey (key : String) : String :=
  String.ofList (dropTrailing (· == '*') key.toList)

/-- What a parsed configuration declares. -/
def ofJson (file : String) (json : Json) : AliasConfig :=
  let options := json.field? "compilerOptions"
  let keys := (((options.bind (Json.field? "paths")).bind Json.members?).getD []).map Prod.fst
  { file
    baseUrl := (options.bind (Json.field? "baseUrl")).bind Json.text?
    aliases := ordered ((keys.map aliasOfKey).filter fun k => !k.isEmpty) }

/-- What the text of a configuration declares; none when it is no document. -/
def ofText? (file text : String) : Option AliasConfig :=
  ((Json.parse? (Json.strict text)).bind (Json.free? Json.maxDepth)).map (ofJson file)

/-- Reads one configuration; none when it is missing or no document. -/
def read (files : Files) (root : Path) (file : String) : Except IoError (Option AliasConfig) :=
  match files.readText (root.child file) with
  | .ok text => .ok (ofText? file text)
  | .error .missing => .ok none
  | .error e => .error e

/-- Reads the configurations of a project. -/
def readAll (files : Files) (root : Path) : Except IoError (List AliasConfig) := do
  return (← aliasConfigFiles.mapM (read files root)).filterMap id

end AliasConfig

/-- The specifiers that name code of the project. -/
structure InternalNames where
  sourceRoot : String
  aliases : List String
  sourceDirectories : List String
  deriving Repr, DecidableEq

/-- The directories of the source root that hold files. -/
def sourceDirectories (source : Path) (found : List FoundFile) : List String :=
  ordered <|
    found.filterMap fun f =>
      match f.path.components.drop source.components.length with
      | first :: _ :: _ => some (String.ofList (Path.textOfSteps.stepText first))
      | _ => none

namespace InternalNames

/-- True for a specifier with one of the conventional aliases in front. -/
def hasConventionalAlias (specifier : String) : Bool :=
  ["@/", "~/", "#/"].any fun start => startsWith start specifier

/-- True for a specifier that a declared alias covers. -/
def aliasCovers (declared specifier : String) : Bool :=
  specifier.toList == dropTrailing (· == '/') declared.toList || startsWith declared specifier

/-- The first segment of a specifier. -/
def firstSegment (specifier : String) : String :=
  String.ofList (specifier.toList.takeWhile (· != '/'))

/-- True for a specifier that names code of the project. -/
def isInternal (names : InternalNames) (specifier : String) : Bool :=
  hasConventionalAlias specifier || startsWith (names.sourceRoot ++ "/") specifier ||
    names.aliases.any (fun declared => aliasCovers declared specifier) ||
    (!startsWith "@" specifier && names.sourceDirectories.contains (firstSegment specifier))

end InternalNames

/-- True for a specifier that the contract allows in spite of not being
relative. -/
def isAllowedAlias (c : Contract) (specifier : String) : Bool :=
  c.allowedAliasPrefixes.any fun start => !start.isEmpty && startsWith start specifier

end Graph
end Strata
