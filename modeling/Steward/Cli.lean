import Steward.Json
import Steward.Operator

/-!
# The command line

The program knows two commands.  `run` applies a manifest, waits until every record has settled,
prints how they stand and may delete everything again; `config` prints the settings in effect.  Since
the backend is simulated, so is time: a run takes as long as it has to on its own clock.
-/

namespace Steward.Cli

def versionLine : String := "operatify 0.1.0\n"

structure RunOptions where
  config : Option String := none
  manifest : String
  delete : Bool := false
  /-- How many seconds each phase may take. -/
  timeout : Nat := 60
  deriving DecidableEq, Repr

inductive Command where
  | run (options : RunOptions)
  | config (path : Option String)
  deriving DecidableEq, Repr

/-- What the arguments ask for. -/
inductive Request where
  | execute (command : Command)
  | version
  | help
  | misuse
  deriving DecidableEq, Repr

/-! ## Arguments -/

/-- The options of the commands. -/
inductive Flag where
  | config
  | manifest
  | delete
  | timeout
  | help
  deriving DecidableEq, Repr

namespace Flag

def ofLetter? : Char → Option Flag
  | 'c' => some config
  | 'm' => some manifest
  | 'd' => some delete
  | 't' => some timeout
  | 'h' => some help
  | _ => none

def ofName? : String → Option Flag
  | "config" => some config
  | "manifest" => some manifest
  | "delete" => some delete
  | "timeout" => some timeout
  | "help" => some help
  | _ => none

def takesValue : Flag → Bool
  | config | manifest | timeout => true
  | delete | help => false

end Flag

/-- The options that were given, with their values. -/
abbrev Given : Type := List (Flag × String)

/-- A whole number without a sign, or with a plus, that fits into a word. -/
def number? (s : String) : Option Nat :=
  let digits := match s.toList with
    | '+' :: cs => cs
    | cs => cs
  if digits.isEmpty then none
  else (digitsValue? 10 digits).bind fun n => if n ≤ Counter.ceiling then some n else none

def isValid : Flag → String → Bool
  | .timeout, value => (number? value).isSome
  | .config, value | .manifest, value => value != ""
  | .delete, _ | .help, _ => true

/-- Adds an option, which may be given once, and whose value has to be of the right form. -/
def note (given : Given) (flag : Flag) (value : String) : Except Request Given :=
  if (given.lookup flag).isSome || !isValid flag value then .error .misuse
  else .ok ((flag, value) :: given)

/-- The name of an option and the value attached to it by an equals sign. -/
def splitValue (cs : List Char) : String × Option String :=
  match cs.dropWhile (· != '=') with
  | [] => (String.ofList cs, none)
  | _ :: value => (String.ofList (cs.takeWhile (· != '=')), some (String.ofList value))

/-- An argument that has the form of an option is no value. -/
def isOption (arg : String) : Bool := arg.toList.head? == some '-' && arg != "-"

/-- What the letters after a single hyphen say; `pending` is left when the last of them is an option
whose value is still to come. -/
def letters (allowed : List Flag) (given : Given) :
    List Char → Except Request (Given × Option Flag)
  | [] => .ok (given, none)
  | c :: rest =>
      match Flag.ofLetter? c with
      | none => .error .misuse
      | some flag =>
          if flag ∉ allowed then .error .misuse
          else if flag = .help then .error .help
          else if flag.takesValue then
            match rest with
            | [] => .ok (given, some flag)
            | '=' :: value => (note given flag (String.ofList value)).map fun given => (given, none)
            | value => (note given flag (String.ofList value)).map fun given => (given, none)
          else
            match note given flag "" with
            | .error request => .error request
            | .ok given => letters allowed given rest

/-- What one argument says. -/
def argument (allowed : List Flag) (given : Given) (arg : String) :
    Except Request (Given × Option Flag) :=
  match arg.toList with
  | '-' :: '-' :: cs =>
      match splitValue cs with
      | (name, value) =>
          match Flag.ofName? name, value with
          | none, _ => .error .misuse
          | some flag, value =>
              if flag ∉ allowed then .error .misuse
              else if flag.takesValue then
                match value with
                | none => .ok (given, some flag)
                | some value => (note given flag value).map fun given => (given, none)
              else if value.isSome then .error .misuse
              else if flag = .help then .error .help
              else (note given flag "").map fun given => (given, none)
  | '-' :: c :: cs => letters allowed given (c :: cs)
  | _ => .error .misuse

/-- The options of a command; `pending` is an option whose value comes next. -/
def options (allowed : List Flag) (pending : Option Flag) (given : Given) :
    List String → Except Request Given
  | [] => if pending.isSome then .error .misuse else .ok given
  | arg :: rest =>
      match pending with
      | some flag =>
          if isOption arg then .error .misuse
          else
            match note given flag arg with
            | .error request => .error request
            | .ok given => options allowed none given rest
      | none =>
          if arg = "--" then if rest.isEmpty then .ok given else .error .misuse
          else
            match argument allowed given arg with
            | .error request => .error request
            | .ok (given, pending) => options allowed pending given rest

def runRequest (args : List String) : Request :=
  match options [.config, .manifest, .delete, .timeout, .help] none [] args with
  | .error request => request
  | .ok given =>
      match given.lookup .manifest with
      | none => .misuse
      | some manifest =>
          let plain : RunOptions := { manifest }
          .execute <| .run
            { config := given.lookup .config, manifest, delete := (given.lookup .delete).isSome,
              timeout := ((given.lookup .timeout) >>= number?).getD plain.timeout }

def configRequest (args : List String) : Request :=
  match options [.config, .help] none [] args with
  | .error request => request
  | .ok given => .execute (.config (given.lookup .config))

/-- What the arguments of the program ask for. -/
def Request.ofArguments : List String → Request
  | "run" :: args => runRequest args
  | "config" :: args => configRequest args
  | ["help"] | ["help", "run"] | ["help", "config"] | ["help", "help"] => .help
  | "--version" :: _ => .version
  | "--help" :: _ => .help
  | arg :: _ =>
      match arg.toList with
      | '-' :: 'V' :: _ => .version
      | '-' :: 'h' :: _ => .help
      | _ => .misuse
  | [] => .misuse

/-! ## Commands -/

/-- What the program leaves behind. -/
structure Report where
  exit : Nat := 0
  output : String := ""
  complaint : String := ""
  deriving DecidableEq, Repr

/-- The settings from a file, or the default ones when no file is named. -/
def settingsFrom (files : String → Option String) : Option String → Except String Settings
  | none => .ok {}
  | some path =>
      match files path with
      | none => .error s!"Failed to read config file {path}"
      | some text =>
          (Settings.ofToml text).mapError fun e => s!"Invalid config file {path}: {e.message}"

def manifestFrom (files : String → Option String) (path : String) : Except String Manifest :=
  match files path with
  | none => .error s!"Failed to read manifest {path}"
  | some text =>
      (Manifest.ofYaml text).mapError fun e => s!"Invalid manifest {path}: {e.message}"

def failure (output complaint : String) : Report :=
  { exit := 1, output, complaint := s!"Error: {complaint}\n" }

def summaryText (lines : List SummaryLine) : String :=
  Json.pretty (.list (lines.map SummaryLine.toValue)) ++ "\n"

/-- Applies a manifest, waits for every record to settle, and deletes them all again if asked to. -/
def drive (o : Operator) (m : Manifest) (delete : Bool) (limit : Nat) : Report :=
  match o.apply m with
  | (.error e, _) => failure "" e.message
  | (.ok _, o) =>
      match o.waitSettled limit with
      | (.error e, _) => failure "" e.message
      | (.ok lines, o) =>
          let output := summaryText lines
          if !delete then { output }
          else
            match o.deleteAll with
            | (.error e, _) => failure output e.message
            | (.ok _, o) =>
                match o.waitRemoved limit with
                | (.error e, _) => failure output e.message
                | (.ok _, _) => { output }

namespace Command

/-- The files that a command reads. -/
def paths : Command → List String
  | run options => options.config.toList ++ [options.manifest]
  | config path => path.toList

def execute (files : String → Option String) : Command → Report
  | config path =>
      match settingsFrom files path with
      | .error complaint => failure "" complaint
      | .ok settings => { output := settings.text }
  | run options =>
      match settingsFrom files options.config with
      | .error complaint => failure "" complaint
      | .ok settings =>
          match manifestFrom files options.manifest with
          | .error complaint => failure "" complaint
          | .ok m =>
              match Operator.start settings with
              | .error e => failure "" e.message
              | .ok o => drive o m options.delete (options.timeout * 1000)

end Command

def usage : String :=
  "Usage: operatify run --manifest <FILE> [--config <FILE>] [--delete] [--timeout <SECONDS>]\n" ++
  "       operatify config [--config <FILE>]\n"

namespace Request

def paths : Request → List String
  | execute command => command.paths
  | version | help | misuse => []

def report (files : String → Option String) : Request → Report
  | execute command => command.execute files
  | version => { output := versionLine }
  | help => { output := usage }
  | misuse => { exit := 2, complaint := usage }

end Request

end Steward.Cli
