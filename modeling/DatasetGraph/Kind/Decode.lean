import DatasetGraph.Json.Decode
import DatasetGraph.Kind

/-!
# Reading names of kinds

Inside a value, the kind of a node is given by its name.
-/

namespace DatasetGraph

open Json (Fault Decoder)

/-- The kind that a value names. -/
def Kind.ofJson (v : Json) : Except Fault Kind :=
  Decoder.name (Kind.all.map Kind.name) Kind.ofName? .known (.ofJson v)

end DatasetGraph
