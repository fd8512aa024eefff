import ChipAsm.Assembly
import ChipAsm.Number.Grouped
import ChipAsm.Path

/-!
# Settings

What is not part of a single run: how output files are named, which sizes are worth a warning, and
whether the command waits after it has reported problems.  Settings are taken from the environment
where it has them, and a value that makes no sense there is disregarded.
-/

namespace ChipAsm

open ChipAsm.Text ChipAsm.Number

/-- The settings. -/
structure Settings where
  /-- What is put in front of the extension of an output file. -/
  marker : String := ".min"
  /-- How many characters at the end of a name are its extension, the dot included; if nothing is
  set, the suffix of the name is. -/
  extensionLength : Option Int := none
  /-- The size advisories. -/
  advisories : List Advisory := Advisory.standard
  /-- The command waits for a key after it has reported problems. -/
  pause : Bool := false
deriving Repr, DecidableEq

/-! ## The environment -/

/-- Reads the number of a setting. -/
def readSetting? (s : String) : Option Int := (readGrouped? s).bind Except.toOption

/-- The words that switch a setting on. -/
def onWords : List String := ["1", "true", "yes", "on"]

/-- A variable of the environment that is set to something. -/
def setting? (env : List (String × String)) (name : String) : Option String :=
  match (env.find? fun pair => pair.1 = name).map Prod.snd with
  | none => none
  | some value => if value = "" then none else some value

namespace Settings

/-- The settings that an environment gives. -/
def ofEnvironment (env : List (String × String)) : Settings :=
  let defaults : Settings := {}
  { defaults with
    marker := (setting? env "IC10_INLINER_MARKER").getD defaults.marker
    extensionLength :=
      ((setting? env "IC10_INLINER_EXT_LENGTH").bind readSetting?).filter fun n => 0 ≤ n
    pause :=
      match setting? env "IC10_INLINER_PAUSE" with
      | some value => onWords.contains (lower (strip value))
      | none => defaults.pause }

/-! ## Output names -/

/-- The extension of a name. -/
def extension (settings : Settings) (name : List Char) : List Char :=
  match settings.extensionLength with
  | none => Path.suffixOf name
  | some length =>
    if 0 < length ∧ length ≤ name.length then name.drop (name.length - length.toNat) else []

/-- The name of the output for a source of the given name: the marker stands in front of the
extension. -/
def outputName (settings : Settings) (name : List Char) : List Char :=
  let suffix := settings.extension name
  name.take (name.length - suffix.length) ++ settings.marker.toList ++ suffix

/-- The path of the output for a source, beside the source. -/
def outputPath (settings : Settings) (source : Path) : Except NameFault Path :=
  source.withName (String.ofList (settings.outputName source.name.toList))

/-- The path of the output for a source; nothing if there is none. -/
def outputPath? (settings : Settings) (source : Path) : Option Path :=
  (settings.outputPath source).toOption

end Settings

end ChipAsm
