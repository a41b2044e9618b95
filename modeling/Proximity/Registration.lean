import Proximity.Config
import Proximity.Field.Catalog
import Proximity.Graph.Insertion
import Proximity.Random.Level
import Proximity.Text.Base64

set_option autoImplicit false
set_option relaxedAutoImplicit false

/-!
# Registration sessions

A registration session adds vectors to one field inside a write transaction. What it adds stays in
the opened graph until the session commits; the transaction commits later. A vector that is refused
before its insertion begins leaves the session as it was. Once an insertion has failed on its way,
the session accepts nothing more and cannot commit.

## Main definitions

* `Proximity.Registration` — an open session.
* `Proximity.Registration.start` — opens a session.
* `Proximity.Registration.check` — what makes a vector acceptable.
* `Proximity.Registration.insert` — stores a vector and links it into the graph at a level.
* `Proximity.Registration.register` — registers a vector at a level that is drawn.
* `Proximity.Registration.commit` — writes the session into its transaction.
-/

namespace Proximity

/-- An open registration session. -/
structure Registration where
  /-- The transaction that the session works in. -/
  txn : WriteTransaction
  /-- The definition of the field. -/
  field : FieldRecord
  /-- The graph of the field with the additions of the session. -/
  graph : FieldGraph
  /-- The source of levels. -/
  generator : Generator
  /-- The number of vectors registered in this session. -/
  registered : Nat
  /-- The first insertion that failed, and how. -/
  failure : Option (UInt64 × String)

namespace Registration

/-! ## Opening -/

/-- Opens a session on a field. -/
def start (config : Config) (txn : WriteTransaction) (name : String) :
    Except IndexError Registration := do
  let view := txn.view
  let field ← Catalog.find view name
  let graph ← FieldGraph.load view field.name (Codec.ofOptions field.options)
  let seed := sessionSeed (UInt64.ofNat config.seed) (UInt64.ofNat graph.header.nodeCount)
  return { txn, field, graph, generator := .ofSeed seed, registered := 0, failure := none }

/-- The session with levels drawn from another seed. -/
def withSeed (session : Registration) (seed : UInt64) : Registration :=
  { session with generator := .ofSeed seed }

/-- Whether nothing has been registered yet. -/
def isEmpty (session : Registration) : Bool :=
  session.registered == 0

/-! ## Checks -/

/-- The check that a vector has the length of the vectors of the field, given and encoded. -/
def checkLengths (session : Registration) (raw encoded : Nat) : Except IndexError Unit := do
  let fixed := session.field.options.vectorBytes
  let header := session.graph.header
  if 0 < fixed ∧ raw ≠ fixed then throw (.dimensionMismatch fixed raw)
  if 0 < header.rawLength ∧ raw ≠ header.rawLength then
    throw (.dimensionMismatch header.rawLength raw)
  if 0 < header.vectorLength ∧ encoded ≠ header.vectorLength then
    throw (.dimensionMismatch header.vectorLength encoded)

/-- The stored form of a vector that may be registered under this number. -/
def check (session : Registration) (id : UInt64) (raw : Bytes) : Except IndexError Bytes := do
  match session.failure with
  | some (failed, reason) => throw (.registrationAborted failed reason)
  | none =>
    unless VectorId.accepted id do throw (.invalidId id)
    let encoded ← session.graph.codec.encode raw
    session.checkLengths raw.length encoded.length
    if session.graph.contains ⟨id⟩ then throw (.duplicate id)
    return encoded

/-! ## Insertion -/

/-- The header of a graph that has fixed its vector lengths; the first vector decides. -/
def fixLengths (header : GraphHeader) (raw encoded : Nat) : GraphHeader :=
  if header.vectorLength = 0 then
    { header with rawLength := raw, vectorLength := encoded }
  else header

/-- The open container, if there is one and it has a free slot. -/
def roomyContainer (graph : FieldGraph) (layout : ContainerLayout) :
    Except IndexError (Option (PageId × Container)) :=
  match graph.header.openContainer with
  | none => .ok none
  | some page => do
    let container ← graph.container page
    return if container.used < layout.slots then some (page, container) else none

/-- A container with a free slot: the open one, or else a new one, which is handed out by the
transaction whatever becomes of the session. -/
def allocate (txn : WriteTransaction) (graph : FieldGraph) (layout : ContainerLayout) :
    WriteTransaction × Except IndexError (PageId × Container) :=
  match roomyContainer graph layout with
  | .error e => (txn, .error e)
  | .ok (some found) => (txn, .ok found)
  | .ok none =>
    match txn.allocate layout.pages with
    | .error cause => (txn, .error (.storage cause))
    | .ok (page, txn) => (txn, .ok (page, .blank layout))

/-- Puts a vector into a container and links its node into the graph. -/
def place (graph : FieldGraph) (options : FieldOptions) (layout : ContainerLayout) (page : PageId)
    (container : Container) (id : VectorId) (encoded : Bytes) (level : Nat) :
    Except IndexError FieldGraph := do
  let (location, container) ← container.push layout page id encoded
  let graph := graph.setContainer page container
  let graph := { graph with header := { graph.header with openContainer := some page } }
  graph.insert id location level options.edges options.candidates

/-- Stores a vector and links it into the graph at a level. A page run that had to be handed out
stays with the transaction even where the insertion fails. -/
def insert (session : Registration) (id : VectorId) (raw : Nat) (encoded : Bytes) (level : Nat) :
    WriteTransaction × Except IndexError FieldGraph :=
  let graph := session.graph
  let graph := { graph with header := fixLengths graph.header raw encoded.length }
  match graph.layout with
  | .error e => (session.txn, .error e)
  | .ok layout =>
    match allocate session.txn graph layout with
    | (txn, .error e) => (txn, .error e)
    | (txn, .ok (page, container)) =>
      (txn, place graph session.field.options layout page container id encoded level)

/-- The level of the next vector, and the session after drawing it. -/
def drawLevel (session : Registration) : Nat × Registration :=
  let (uniform, generator) := session.generator.uniform
  (levelOf (levelFactor session.field.options.edges) uniform, { session with generator })

/-! ## Registering -/

/-- The session after the insertion of an accepted vector at a level, and how it went. -/
def registerAt (session : Registration) (id : UInt64) (raw : Nat) (encoded : Bytes) (level : Nat) :
    Registration × Except IndexError Unit :=
  match session.insert ⟨id⟩ raw encoded level with
  | (txn, .ok graph) =>
    ({ session with txn, graph, registered := session.registered + 1 }, .ok ())
  | (txn, .error e) =>
    ({ session with txn, failure := some (id, e.message) }, .error (.registrationFailed id e))

/-- Registers a vector, given in the source precision of the field. -/
def register (session : Registration) (id : UInt64) (raw : Bytes) :
    Registration × Except IndexError Unit :=
  match session.check id raw with
  | .error e => (session, .error e)
  | .ok encoded =>
    let (level, session) := session.drawLevel
    session.registerAt id raw.length encoded level

/-- Registers a vector of single precision numbers. -/
def registerNumbers (session : Registration) (id : UInt64) (numbers : List Single) :
    Registration × Except IndexError Unit :=
  session.register id (Single.bytesOfList numbers)

/-- Registers what a reader of inputs gives, or reports why it gives nothing. -/
def registerRead (session : Registration) (id : UInt64) (raw : Except IndexError Bytes) :
    Registration × Except IndexError Unit :=
  match raw with
  | .error e => (session, .error e)
  | .ok raw => session.register id raw

/-- The bytes that a base64 text stands for. -/
def readBase64 (text : String) : Except IndexError Bytes :=
  match Base64.decode? text with
  | some bytes => .ok bytes
  | none => .error (.corruptInput "invalid base64")

/-- Registers a vector that is given as base64 text. -/
def registerBase64 (session : Registration) (id : UInt64) (text : String) :
    Registration × Except IndexError Unit :=
  session.registerRead id (readBase64 text)

/-- Registers the vector that an embedding gives for a text. -/
def registerText (session : Registration) (embed : String → Except IndexError Bytes) (id : UInt64)
    (text : String) : Registration × Except IndexError Unit :=
  session.registerRead id (embed text)

/-! ## Ending -/

/-- Writes the session into its transaction, and answers the number of vectors registered. -/
def commit (session : Registration) : Except IndexError (Nat × WriteTransaction) :=
  match session.failure with
  | some (failed, reason) => .error (.registrationAborted failed reason)
  | none => do
    let txn ← session.graph.flush session.txn
    return (session.registered, txn)

/-- The transaction after the session has been given up. -/
def rollback (session : Registration) : WriteTransaction :=
  session.txn

end Registration

end Proximity
