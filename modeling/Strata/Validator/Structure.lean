/-
# The layout of modules

Specification, section 4.4, item 1: the rules `STRUCTURE.*`.

The source root has to exist. Every directory of the module container, unless
its name starts with a dot, is a module; a module has to have each required
layer as a directory and should hold some code.
-/

import Strata.Source
import Strata.Violation

namespace Strata

/-- A module of a project: its name and its directory. -/
structure ModuleDirectory where
  name : String
  path : Path
  deriving Repr, DecidableEq

/-- Modules are ordered by name. -/
def ModuleDirectory.order (a b : ModuleDirectory) : Ordering :=
  (compare a.name b.name).then (a.path.order b.path)

/-- The directory that holds the modules. -/
def Contract.containerDirectory (c : Contract) (root : Path) : Path :=
  (c.sourceDirectory root).join ⟨c.moduleContainer⟩

/-- The modules of a project. -/
def moduleDirectories (files : Files) (root : Path) (c : Contract) :
    Except IoError (List ModuleDirectory) := do
  let container := c.containerDirectory root
  let entries := (← files.list? container).getD []
  let modules := entries.filter fun e => e.2.isDirectory && !Text.startsWith "." e.1
  return (modules.map fun e => ⟨e.1, container.child e.1⟩).mergeSort fun a b => (a.order b).isLE

namespace Structure

/-- The violation of a project without a source root. -/
def sourceRootMissing (c : Contract) : Violation :=
  .error .sourceRootMissing c.sourceRoot
    s!"Source root '{c.sourceRoot}' does not exist; nothing can be validated" none

/-- The violation of a module without a required layer. -/
def missingLayer (c : Contract) (module layer : String) : Violation :=
  .error .moduleMissingLayer (c.modulePath module)
    s!"Module '{module}' is missing required layer '{layer}'" (some layer)

/-- The violation of a module without code. -/
def moduleEmpty (c : Contract) (module : String) : Violation :=
  .warning .moduleEmpty (c.modulePath module) s!"Module '{module}' contains no source files" none

/-- The required layers that a module lacks. -/
def missingLayers (files : Files) (c : Contract) (dir : Path) : List String :=
  c.requiredModuleLayers.filter fun layer => !files.isDirectory (dir.join ⟨layer⟩)

/-- What is wrong with the layout of a module. -/
def scanModule (files : Files) (c : Contract) (m : ModuleDirectory) :
    Except IoError (List Violation) := do
  let missing := (missingLayers files c m.path).map (missingLayer c m.name)
  let found ← files.walk m.path
  if found.any fun f => isCodeFile f.path then return missing
  else return missing ++ [moduleEmpty c m.name]

/-- What is wrong with the layout of a project. -/
def scan (files : Files) (root : Path) (c : Contract) : Except IoError (List Violation) := do
  if files.isDirectory (c.sourceDirectory root) then
    let modules ← moduleDirectories files root c
    return (← modules.mapM (scanModule files c)).flatten
  else return [sourceRootMissing c]

end Structure

end Strata
