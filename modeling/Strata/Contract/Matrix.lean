/-
# The layer matrix

Specification, section 3, `layerMatrix`.

The matrix says, for each layer that has a row, which layers it may import. Its
rows stand in the order of their names, one row per name; this is part of the
type, so two matrices with the same rows are equal.
-/

import Strata.Json.Free

namespace Strata

/-- Which layers each layer may import. -/
structure LayerMatrix where
  rows : List (String × List String)
  sorted : rows.Pairwise fun a b => a.1 < b.1
  deriving DecidableEq

namespace LayerMatrix

instance : Repr LayerMatrix := ⟨fun m n => reprPrec m.rows n⟩

/-- The matrix without rows. -/
def empty : LayerMatrix := ⟨[], .nil⟩

/-- The matrix with one more row, in place of a row of that name. -/
def insert (m : LayerMatrix) (layer : String) (targets : List String) : LayerMatrix :=
  ⟨Json.insertMember layer targets m.rows, Json.pairwise_insertMember layer targets m.sorted⟩

/-- The matrix with the given rows; of several rows of one name the last
counts. -/
def ofList (rows : List (String × List String)) : LayerMatrix :=
  rows.foldl (fun m row => m.insert row.1 row.2) empty

/-- The layers that a layer may import, if it has a row. -/
def targets? (m : LayerMatrix) (layer : String) : Option (List String) := m.rows.lookup layer

end LayerMatrix

end Strata
