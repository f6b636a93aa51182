/-
# The architecture contract

Specification, section 3, `ArchitectureContract`.

A contract names the directory that holds the sources, the directory below it
that holds the modules, and the layers a module is made of, and it says which
layer may import which. Every check is a function of a contract and a tree.

| field | meaning |
| --- | --- |
| `sourceRoot`, `moduleContainer` | `src/modules/<module>/<layer>/…` by default |
| `recognizedLayers` | the names a layer directory may have |
| `requiredModuleLayers` | the layers every module has to have |
| `layerMatrix` | what each layer may import besides itself |
| `crossModuleLayers` | the layers of a module that other modules may import |
| `allowedTopLevelDirs` | directories of the source root that are no layers |
| `allowedAliasPrefixes` | beginnings of imports that need not be relative |
| `persistencePackages`, `persistenceFreeLayers` | packages for data access, layers without them |
-/

import Strata.Contract.Matrix

namespace Strata

/-- What a project promises about its layers. -/
structure Contract where
  version : String
  sourceRoot : String
  moduleContainer : String
  recognizedLayers : List String
  requiredModuleLayers : List String
  layerMatrix : LayerMatrix
  crossModuleLayers : List String
  allowedTopLevelDirs : List String
  allowedAliasPrefixes : List String
  persistencePackages : List String
  persistenceFreeLayers : List String
  deriving Repr, DecidableEq

namespace Contract

/-- The layers that the built-in contract recognizes. -/
def standardLayers : List String :=
  ["routes", "controller", "service", "repository", "model", "validation", "db", "middleware",
   "config", "lib", "tests"]

/-- The matrix of the built-in contract. The layer of the tests may import
every layer. -/
def standardMatrix : LayerMatrix :=
  .ofList
    [("routes", ["controller", "middleware", "validation", "config", "lib"]),
     ("controller", ["service", "validation", "model", "config", "lib"]),
     ("service", ["repository", "model", "config", "lib"]),
     ("repository", ["db", "model", "config", "lib"]),
     ("model", ["lib"]),
     ("validation", ["model", "lib"]),
     ("db", ["config", "lib"]),
     ("middleware", ["service", "config", "lib"]),
     ("config", ["lib"]),
     ("lib", ["config"]),
     ("tests", standardLayers)]

/-- The built-in contract. -/
def standard : Contract where
  version := "1.0.0"
  sourceRoot := "src"
  moduleContainer := "modules"
  recognizedLayers := standardLayers
  requiredModuleLayers := ["routes", "controller", "service", "repository", "model", "validation"]
  layerMatrix := standardMatrix
  crossModuleLayers := ["service", "model"]
  allowedTopLevelDirs := ["types", "utils", "generated", "__tests__"]
  allowedAliasPrefixes := []
  persistencePackages :=
    ["@prisma/client", "prisma", "pg", "mysql2", "mongoose", "typeorm", "sequelize", "knex",
     "better-sqlite3", "redis", "ioredis"]
  persistenceFreeLayers := ["routes", "controller", "middleware", "validation"]

instance : Inhabited Contract := ⟨standard⟩

/-- True for a name that a layer directory may have. -/
def recognizes (c : Contract) (layer : String) : Bool := c.recognizedLayers.contains layer

/-- A layer may import itself and what its row of the matrix lists. -/
def allowsImport (c : Contract) (source target : String) : Bool :=
  source == target || ((c.layerMatrix.targets? source).getD []).contains target

/-- True for a layer that other modules may import. -/
def isSurface (c : Contract) (layer : Option String) : Bool :=
  layer.any fun l => c.crossModuleLayers.contains l

/-- True for a directory of the source root that is no layer. -/
def allowsTopLevel (c : Contract) (name : String) : Bool := c.allowedTopLevelDirs.contains name

/-- The path of a module as a contract writes it. -/
def modulePath (c : Contract) (module : String) : String :=
  s!"{c.sourceRoot}/{c.moduleContainer}/{module}"

end Contract

end Strata
