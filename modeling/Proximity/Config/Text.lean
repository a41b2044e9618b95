import Proximity.Config
import Proximity.Toml.Reader

set_option autoImplicit false
set_option relaxedAutoImplicit false

/-!
# Configuration as text

A configuration is kept as a TOML document with one key for each setting. A missing key means the
default, and other keys are ignored.

## Main definitions

* `Proximity.Config.parse?` — the configuration that a text describes.
* `Proximity.Config.ofText` — the same, with the check that it makes sense.
* `Proximity.Config.toText?` — the text of a configuration.
* `Proximity.Config.defaultText` — the default configuration with comments.
-/

namespace Proximity.Config

/-! ## Reading -/

/-- A growth by its name. -/
def growthNamed? (name : String) : Option GrowthKind :=
  GrowthKind.all.find? fun kind => kind.name = name

/-- Whether a value is an empty table or an empty array. -/
def isEmptyNode : Toml.Node → Bool
  | .array [] | .inlineTable _ [] | .table _ [] | .tables [] => true
  | _ => false

/-- The growth that a value stands for: its name, or a table with nothing but an empty value under
its name. -/
def growthOf? : Toml.Node → Option GrowthKind
  | .string name => growthNamed? name
  | .inlineTable _ [(name, node)] | .table _ [(name, node)] =>
    if isEmptyNode node then growthNamed? name else none
  | _ => none

/-- The number that a value stands for. -/
def numberOf? : Toml.Node → Option Nat
  | .integer value => if 0 ≤ value then some value.toNat else none
  | _ => none

/-- The setting under a key, or its default. -/
def setting? {α : Type} (table : Toml.Table) (key : String) (of? : Toml.Node → Option α)
    (default : α) : Option α :=
  match table.lookup? key with
  | some node => of? node
  | none => some default

/-- The configuration that a table describes. -/
def ofTable? (table : Toml.Table) : Option Config := do
  let usual : Config := {}
  return {
    seed := ← setting? table "seed" numberOf? usual.seed
    edges := ← setting? table "number_of_edges" numberOf? usual.edges
    candidates := ← setting? table "number_of_candidates" numberOf? usual.candidates
    growth := ← setting? table "buffer_growth" growthOf? usual.growth
    initialBuffer := ← setting? table "initial_buffer_size" numberOf? usual.initialBuffer }

/-- The configuration that a text describes. -/
def parse? (text : String) : Option Config :=
  (Toml.document? text).bind ofTable?

/-- The configuration that a text describes, if there is one that makes sense. -/
def ofText (text : String) : Except IndexError Config := do
  match parse? text with
  | none => throw (.invalidOptions "Failed to parse config: the text describes none")
  | some config =>
    config.validate
    return config

/-! ## Writing -/

/-- The text of a configuration, one key after the other. There is none if a number does not fit
into the 64 bits of a TOML integer. -/
def toText? (config : Config) : Option String :=
  let numbers := [config.seed, config.edges, config.candidates, config.initialBuffer]
  if numbers.all (· < Toml.integerBound) then
    some <| String.join [
      "seed = ", toString config.seed,
      "\nnumber_of_edges = ", toString config.edges,
      "\nnumber_of_candidates = ", toString config.candidates,
      "\nbuffer_growth = \"", config.growth.name,
      "\"\ninitial_buffer_size = ", toString config.initialBuffer, "\n"]
  else none

/-- The default configuration with comments. -/
def defaultText : String := String.join [
  "# Strata vector index configuration\n",
  "#\n",
  "# Base seed for HNSW layer assignment. Each registration session mixes it\n",
  "# with the field's node count, so replaying the same inserts rebuilds the\n",
  "# same graph.\n",
  "seed = 454\n",
  "\n",
  "# Defaults for fields created with VectorOptions::with_defaults\n",
  "#   number_of_edges      = max neighbors per node per layer (2..=512)\n",
  "#   number_of_candidates = beam width while building the graph\n",
  "number_of_edges = 16\n",
  "number_of_candidates = 64\n",
  "\n",
  "# Result buffer growth: \"doubling\" (default) or \"tiered\"\n",
  "#   \"tiered\" = x2 below 4096 elements, x1.5 below 65536, x1.25 above\n",
  "buffer_growth = \"doubling\"\n",
  "initial_buffer_size = 64\n"]

end Proximity.Config
