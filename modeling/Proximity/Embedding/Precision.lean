set_option autoImplicit false
set_option relaxedAutoImplicit false

/-!
# Precisions and metrics

An embedding is given, and stored, at one of three precisions, and two stored embeddings are
compared by one of two metrics.

## Main definitions

* `Proximity.Precision` — how the components of an embedding are held.
* `Proximity.Metric` — how two embeddings are compared.
-/

namespace Proximity

/-- How the components of an embedding are held. -/
inductive Precision
  /-- A single precision number for each component. -/
  | single
  /-- A signed byte for each component, and one scale for all of them. -/
  | int8
  /-- The sign of each component, eight to a byte. -/
  | binary
deriving DecidableEq

/-- How two embeddings are compared; binary ones are compared by their differing bits in any
case. -/
inductive Metric
  /-- One minus the cosine of the angle between them. -/
  | cosine
  /-- The length of their difference. -/
  | euclidean
deriving DecidableEq

namespace Precision

/-- The name of a precision in records and messages. -/
def name : Precision → String
  | single => "Single"
  | int8 => "Int8"
  | binary => "Binary"

/-- All precisions, in the order of their numbers in records. -/
def all : List Precision := [single, int8, binary]

end Precision

namespace Metric

/-- The name of a metric in records. -/
def name : Metric → String
  | cosine => "Cosine"
  | euclidean => "Euclidean"

/-- All metrics, in the order of their numbers in records. -/
def all : List Metric := [cosine, euclidean]

end Metric

end Proximity
