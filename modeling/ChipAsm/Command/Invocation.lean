/-!
# Command-line arguments

The command takes one input file and options, in any order.  A long option is two dashes and its
name; its value stands behind an equals sign or is the next argument.  A short option is a dash and
a letter; several may share a dash, and a value takes up what is left of the argument or is the next
one.  An option that takes a value takes the next argument whatever it looks like.  Two dashes alone
end the options.
-/

namespace ChipAsm.Command

/-- Why arguments are refused. -/
inductive UsageFault where
  /-- A file argument is missing on disk, or is a directory. -/
  | badParameter
  /-- There is no input file. -/
  | missingParameter
  /-- There is no such option. -/
  | noSuchOption
  /-- An option has no value where it needs one, or one where it takes none. -/
  | badOptionUsage
  /-- There are more arguments than the input file. -/
  | extraArgument
deriving Repr, DecidableEq

/-- An option without a value. -/
inductive Switch where
  /-- Keep comments. -/
  | comments
  /-- Keep calls. -/
  | keepCalls
  /-- Wait after problems. -/
  | pause
  /-- Do not wait after problems. -/
  | noPause
  /-- Show the log. -/
  | verbose
  /-- Show the version and end. -/
  | version
  /-- Show a description and end. -/
  | help
deriving Repr, DecidableEq

/-- An option with a value. -/
inductive Slot where
  /-- A section to take. -/
  | sections
  /-- The output file. -/
  | output
deriving Repr, DecidableEq

/-- An option. -/
inductive Choice where
  /-- Without a value. -/
  | switch (s : Switch)
  /-- With a value. -/
  | slot (s : Slot)
deriving Repr, DecidableEq

/-- The option of a long name. -/
def longChoice? (name : String) : Option Choice :=
  match name with
  | "--comments" => some (.switch .comments)
  | "--sections" => some (.slot .sections)
  | "--keep-macros" => some (.switch .keepCalls)
  | "--output" => some (.slot .output)
  | "--pause" => some (.switch .pause)
  | "--no-pause" => some (.switch .noPause)
  | "--verbose" => some (.switch .verbose)
  | "--version" => some (.switch .version)
  | "--help" => some (.switch .help)
  | _ => none

/-- The option of a letter. -/
def shortChoice? (letter : Char) : Option Choice :=
  match letter with
  | 'c' => some (.switch .comments)
  | 's' => some (.slot .sections)
  | 'm' => some (.switch .keepCalls)
  | 'o' => some (.slot .output)
  | 'v' => some (.switch .verbose)
  | _ => none

/-- What the arguments say. -/
structure Invocation where
  /-- Comments are kept. -/
  comments : Bool := false
  /-- The sections to take. -/
  sections : List String := []
  /-- Calls are kept. -/
  keepCalls : Bool := false
  /-- The output file. -/
  output : Option String := none
  /-- Whether to wait after problems, if it is said. -/
  pause : Option Bool := none
  /-- The log is shown. -/
  verbose : Bool := false
  /-- Version or help, whichever is asked for first. -/
  notice : Option Switch := none
  /-- The arguments that are no options. -/
  files : List String := []
deriving Repr, DecidableEq

namespace Invocation

/-- The invocation with a switch set.  Of opposite switches the last counts. -/
def set (i : Invocation) : Switch → Invocation
  | .comments => { i with comments := true }
  | .keepCalls => { i with keepCalls := true }
  | .pause => { i with pause := some true }
  | .noPause => { i with pause := some false }
  | .verbose => { i with verbose := true }
  | .version => { i with notice := i.notice.or (some .version) }
  | .help => { i with notice := i.notice.or (some .help) }

/-- The invocation with a value filled in.  Of several output files the last counts. -/
def fill (i : Invocation) (value : String) : Slot → Invocation
  | .sections => { i with sections := i.sections ++ [value] }
  | .output => { i with output := some value }

/-- What an argument that starts with a dash does: it is complete, or its last option needs the next
argument as its value. -/
inductive Effect where
  /-- It is complete. -/
  | complete (i : Invocation)
  /-- An option needs a value. -/
  | needs (i : Invocation) (slot : Slot)

/-- The letters behind a single dash. -/
def letters (i : Invocation) : List Char → Except UsageFault Effect
  | [] => .ok (.complete i)
  | c :: cs =>
    match shortChoice? c with
    | none => .error .noSuchOption
    | some (.switch s) => (i.set s).letters cs
    | some (.slot s) =>
      match cs with
      | [] => .ok (.needs i s)
      | cs => .ok (.complete (i.fill (String.ofList cs) s))

/-- The name and the value of a long option; the value stands behind the first equals sign. -/
def splitValue (arg : List Char) : String × Option String :=
  match arg.dropWhile (· != '=') with
  | [] => (String.ofList arg, none)
  | _ :: value => (String.ofList (arg.takeWhile (· != '=')), some (String.ofList value))

/-- An argument that starts with a dash and has more behind it. -/
def dashed (i : Invocation) (arg : List Char) : Except UsageFault Effect :=
  let (name, value) := splitValue arg
  match longChoice? name, value with
  | some (.slot s), some value => .ok (.complete (i.fill value s))
  | some (.slot s), none => .ok (.needs i s)
  | some (.switch _), some _ => .error .badOptionUsage
  | some (.switch s), none => .ok (.complete (i.set s))
  | none, _ =>
    match arg with
    | '-' :: '-' :: _ => .error .noSuchOption
    | _ => i.letters (arg.drop 1)

/-- An argument that is an option or a cluster of options. -/
def isDashed : List Char → Bool
  | '-' :: _ :: _ => true
  | _ => false

/-- Takes in arguments. -/
def parseFrom (i : Invocation) : List String → Except UsageFault Invocation
  | [] => .ok i
  | arg :: args =>
    if arg = "--" then .ok { i with files := i.files ++ args }
    else if isDashed arg.toList then
      match i.dashed arg.toList with
      | .error fault => .error fault
      | .ok (.complete i) => i.parseFrom args
      | .ok (.needs i slot) =>
        match args with
        | [] => .error .badOptionUsage
        | value :: args => (i.fill value slot).parseFrom args
    else { i with files := i.files ++ [arg] }.parseFrom args

/-- What the arguments say. -/
def parse (args : List String) : Except UsageFault Invocation := parseFrom {} args

end Invocation

end ChipAsm.Command
