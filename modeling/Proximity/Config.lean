import Proximity.Buffer
import Proximity.Embedding.Options

set_option autoImplicit false
set_option relaxedAutoImplicit false

/-!
# Configuration

The configuration of an index: the seed of its levels, the usual shape of graphs, and how result
buffers grow. Every setting has a default.

## Main definitions

* `Proximity.Config` — the settings, and their defaults.
* `Proximity.Config.validate` — the check that a configuration makes sense.
* `Proximity.Config.usualOptions` — the options that a field has unless it asks for others.
-/

namespace Proximity

/-- How result buffers grow. -/
inductive GrowthKind
  /-- To twice their size each time. -/
  | doubling
  /-- To twice their size while small, and by less when larger. -/
  | tiered
deriving DecidableEq

/-- The settings of an index. -/
structure Config where
  /-- The seed from which levels are drawn. -/
  seed : Nat := 454
  /-- The usual greatest number of neighbors. -/
  edges : Nat := 16
  /-- The usual width of the beam by which a new vector looks for neighbors. -/
  candidates : Nat := 64
  /-- How result buffers grow. -/
  growth : GrowthKind := .doubling
  /-- The first size of a result buffer. -/
  initialBuffer : Nat := 64
deriving DecidableEq

namespace GrowthKind

/-- The name of a growth in a configuration file. -/
def name : GrowthKind → String
  | doubling => "doubling"
  | tiered => "tiered"

/-- All kinds of growth. -/
def all : List GrowthKind := [doubling, tiered]

end GrowthKind

namespace Config

/-- The options that a field has unless it asks for others. -/
def usualOptions (config : Config) : FieldOptions :=
  .ofShape config.edges config.candidates

/-- The check that a configuration makes sense; the first reason to refuse is reported. -/
def validate (config : Config) : Except IndexError Unit := do
  config.usualOptions.validate
  if config.initialBuffer = 0 then throw (.invalidOptions "initial_buffer_size must be positive")

/-- How result buffers grow under this configuration. -/
def bufferGrowth (config : Config) : Growth :=
  match config.growth with
  | .doubling => .doubling config.initialBuffer
  | .tiered => .tiered config.initialBuffer

end Config

end Proximity
