import Proximity.Config.Text

set_option autoImplicit false
set_option relaxedAutoImplicit false

/-!
# The configuration file

The configuration of an index lies next to its data in a file that is written with the defaults when
it is missing, and never overwritten by them.

## Main definitions

* `Proximity.ConfigFile` — the file, which may be missing.
* `Proximity.ConfigFile.load` — the configuration in it.
* `Proximity.ConfigFile.writeDefault`, `Proximity.ConfigFile.write` — the file after a write.
-/

namespace Proximity

/-- The name of the configuration file. -/
def Config.fileName : String := "vector.toml"

/-- The place of a configuration file. -/
inductive ConfigFile
  /-- The directory does not exist, so that no file can be read or written. -/
  | unreachable
  /-- The directory exists, and so does the file if it has a text. -/
  | inDirectory (text : Option String)
deriving DecidableEq

namespace ConfigFile

/-- The text of the file. -/
def text : ConfigFile → Option String
  | unreachable => none
  | inDirectory text => text

/-- The failure to do something with the file. -/
def failure (activity : String) : IndexError :=
  .storage (.internal ("Failed to " ++ activity ++ " '" ++ Config.fileName ++ "'"))

/-- The configuration in the file, if there is one that makes sense. -/
def load (file : ConfigFile) : Except IndexError Config := do
  match file.text with
  | none => throw (failure "read config file")
  | some text =>
    match Config.parse? text with
    | none =>
      throw (.invalidOptions ("Failed to parse config file '" ++ Config.fileName ++ "'"))
    | some config =>
      config.validate
      return config

/-- The file with another text. -/
def put (file : ConfigFile) (text activity : String) : Except IndexError ConfigFile :=
  match file with
  | unreachable => throw (failure activity)
  | inDirectory _ => return inDirectory (some text)

/-- The file, written with the default configuration if it is missing. -/
def writeDefault (file : ConfigFile) : Except IndexError ConfigFile :=
  match file.text with
  | some _ => return file
  | none => file.put Config.defaultText "write default config file"

/-- The file, written with a configuration. -/
def write (file : ConfigFile) (config : Config) : Except IndexError ConfigFile :=
  match config.toText? with
  | none => throw (.storage (.internal "Failed to serialize config: a number is too large"))
  | some text => file.put text "write config file"

end ConfigFile

end Proximity
