import Proximity.Error

set_option autoImplicit false
set_option relaxedAutoImplicit false

/-!
# Field options

The options of a field are fixed when the field is created: the shape of its graph, the precision
in which vectors are given and stored, and the metric.

## Main definitions

* `Proximity.FieldOptions` — the options.
* `Proximity.FieldOptions.validate` — the check that a field creation makes.
-/

namespace Proximity

/-- The options of a field. -/
structure FieldOptions where
  /-- The greatest number of neighbors of a node on a layer. -/
  edges : Nat
  /-- The width of the beam by which a new vector looks for neighbors. -/
  candidates : Nat
  /-- The precision in which vectors are given. -/
  source : Precision
  /-- The precision in which vectors are stored. -/
  destination : Precision
  /-- How vectors are compared. -/
  metric : Metric
  /-- The length of a given vector in bytes, or zero if the first vector decides. -/
  vectorBytes : Nat
deriving DecidableEq

namespace FieldOptions

/-- The greatest number of neighbors that a field can ask for. -/
def maxEdges : Nat := 512

/-- Options with the given shape of the graph and the usual choice of everything else. -/
def ofShape (edges candidates : Nat) : FieldOptions where
  edges := edges
  candidates := candidates
  source := .single
  destination := .single
  metric := .cosine
  vectorBytes := 0

/-- The check that a field creation makes; the first reason to refuse is reported. -/
def validate (options : FieldOptions) : Except IndexError Unit := do
  if options.edges < 2 || maxEdges < options.edges then
    throw (.invalidOptions
      ("number_of_edges must be in 2..=512, got " ++ toString options.edges))
  if options.candidates = 0 then
    throw (.invalidOptions "number_of_candidates must be positive")
  if options.source ≠ .single ∧ options.source ≠ options.destination then
    throw (.unsupportedEncoding options.source options.destination)
  if options.source = .single ∧ options.vectorBytes % 4 ≠ 0 then
    throw (.invalidOptions
      ("vector_byte_size " ++ toString options.vectorBytes
        ++ " is not a whole number of f32 components"))

end FieldOptions

end Proximity
