import Proximity.Field.Catalog
import Proximity.Graph.Insertion
import Proximity.Search.Stream

set_option autoImplicit false
set_option relaxedAutoImplicit false

/-!
# Nearest neighbor searches

The exact search compares the query with every stored vector. The approximate one searches the
graph with a beam of a given breadth, unless the beam is as wide as the graph is large. Either one
keeps the candidates that are similar enough.

## Main definitions

* `Proximity.Search.keepNearest` — the nearest candidates seen so far, and one more.
* `Proximity.Search.checkRoom` — how many candidates can be kept.
* `Proximity.Search.exact` — the exact search.
* `Proximity.Search.approximate` — the approximate search.
-/

namespace Proximity.Search

/-- The stored form of a query vector. Whatever is wrong with it is reported as a fault of the
query. -/
def encodeQuery (field : FieldRecord) (rawLength : Nat) (query : Bytes) :
    Except IndexError Bytes := do
  if 0 < rawLength ∧ query.length ≠ rawLength then
    throw (.invalidQuery ("query is " ++ toString query.length ++ " bytes, field '" ++ field.name
      ++ "' holds " ++ toString rawLength ++ "-byte vectors"))
  match (Codec.ofOptions field.options).encode query with
  | .ok encoded => return encoded
  | .error e => throw (.invalidQuery e.message)

/-- The `count` nearest of some candidates, in ascending order, after one more has been seen. -/
def keepNearest (count : Nat) (nearest : List Candidate) (candidate : Candidate) :
    List Candidate :=
  (candidate.insert nearest).take count

/-- The stream of the candidates that a search in a field has kept. -/
def streamOf (codec : Codec) (vectorLength : Nat) (results : List Candidate) : ResultStream :=
  .ofResults (codec.score · vectorLength) results

/-- The candidates that are similar enough. -/
def similar (codec : Codec) (vectorLength : Nat) (minSimilarity : Single)
    (candidates : List Candidate) : List Candidate :=
  candidates.filter fun candidate =>
    minSimilarity.le (codec.score candidate.distance vectorLength)

/-- The greatest number of candidates that there can be room for. A candidate takes sixteen bytes,
and less than `2 ^ 63` bytes can be asked for at once. -/
def maxRoom : Nat := (UInt64.size / 2 - 1) / 16

/-- The check that there can be room for `count` candidates and for one more; the sum is kept in 64
bits. -/
def checkRoom (count : Nat) : Except IndexError Unit :=
  let candidates := (count + 1) % UInt64.size
  if candidates ≤ maxRoom then .ok () else .error (.roomOverflow candidates)

/-- The `count` stored vectors that are nearest to an encoded query. Room for all that may be kept
is asked for in advance. -/
def scanNearest (view : Snapshot) (field : FieldRecord) (vectorLength count : Nat)
    (encoded : Bytes) : Except IndexError (List Candidate) := do
  match ContainerLayout.forVectorLength? vectorLength with
  | none => throw (.corruptInput "zero-length encoded vector")
  | some layout =>
    checkRoom count
    let codec := Codec.ofOptions field.options
    let vectors ← Container.scan view field.name layout
    let candidates := vectors.map fun (id, stored) =>
      ({ distance := codec.distance encoded stored, id } : Candidate)
    return candidates.foldl (keepNearest count) []

/-- The search that compares the query with every stored vector and keeps the `count` nearest. -/
def exactIn (view : Snapshot) (field : FieldRecord) (count : Nat) (query : Bytes)
    (minSimilarity : Single) : Except IndexError ResultStream := do
  let codec := Codec.ofOptions field.options
  let header ← GraphHeader.find view field.name
  let encoded ← encodeQuery field header.rawLength query
  let nearest ←
    if 0 < header.nodeCount ∧ 0 < count then
      scanNearest view field header.vectorLength count encoded
    else pure []
  return streamOf codec header.vectorLength
    (similar codec header.vectorLength minSimilarity nearest)

/-- The search that looks through the graph with a beam of some breadth. -/
def approximateIn (view : Snapshot) (field : FieldRecord) (breadth : Nat) (query : Bytes)
    (minSimilarity : Single) : Except IndexError ResultStream := do
  if breadth = 0 then throw (.invalidQuery "candidate breadth must be positive")
  let codec := Codec.ofOptions field.options
  let header ← GraphHeader.find view field.name
  if 0 < header.nodeCount ∧ header.nodeCount ≤ breadth then
    exactIn view field breadth query minSimilarity
  else
    let encoded ← encodeQuery field header.rawLength query
    let nearest ←
      if 0 < header.nodeCount then do
        let graph ← FieldGraph.load view field.name codec
        graph.search encoded breadth
      else pure []
    return streamOf codec header.vectorLength
      (similar codec header.vectorLength minSimilarity nearest)

/-- The exact search in a field. -/
def exact (view : Snapshot) (name : String) (count : Nat) (query : Bytes)
    (minSimilarity : Single) : Except IndexError ResultStream := do
  let field ← Catalog.find view name
  exactIn view field count query minSimilarity

/-- The approximate search in a field. -/
def approximate (view : Snapshot) (name : String) (breadth : Nat) (query : Bytes)
    (minSimilarity : Single) : Except IndexError ResultStream := do
  let field ← Catalog.find view name
  approximateIn view field breadth query minSimilarity

end Proximity.Search
