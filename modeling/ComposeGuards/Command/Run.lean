import ComposeGuards.Command.Arguments
import ComposeGuards.Guard.SettingsReader
import ComposeGuards.Listing.Printer
import ComposeGuards.Listing.Reader
import ComposeGuards.Report

/-! # Running a command

A run reads at most two files, the configuration first. It writes to the standard output only if
nothing fails. Messages are kept up to the failure.
-/
namespace ComposeGuards.Command

/-- Why a file cannot be read as text. -/
inductive FileFault
  | missing
  | directory
  | notUtf8
  | other (reason : String)
  deriving DecidableEq, Repr

def FileFault.message : FileFault → String
  | missing => "No such file or directory (os error 2)"
  | directory => "Is a directory (os error 21)"
  | notUtf8 => "stream did not contain valid UTF-8"
  | other reason => reason

/-- The files as the run sees them, by path. -/
abbrev Files := String → Except FileFault String

inductive Failure
  | usage (e : UsageError)
  | configUnreadable (path : String) (fault : FileFault)
  | configRefused (fault : Json.Fault)
  | inputUnreadable (path : String) (fault : FileFault)
  | inputRefused (e : Listing.Error)

/-- What a run leaves behind. -/
structure Outcome where
  output : String := ""
  log : List Log.Message := []
  failure : Option Failure := none

def unreadableInputMessage (path : String) (fault : FileFault) : String :=
  "could not read file '" ++ path ++ "': " ++ fault.message

def unreadableConfigMessage (path : String) (fault : FileFault) : String :=
  "could not read config '" ++ path ++ "': " ++ fault.message

def refusedConfigMessage (reason : String) : String :=
  "invalid config: " ++ reason

/-- Reads the listing at a path. -/
def loadListing (files : Files) (path : String) : Except Failure (List ClassUnit) :=
  match files path with
  | .error fault => .error (.inputUnreadable path fault)
  | .ok text =>
    match Listing.read text with
    | .error e => .error (.inputRefused e)
    | .ok cs => .ok cs

/-- The messages of a listing that was read from a path. -/
def loadLog (path : String) (cs : List ClassUnit) : List Log.Message :=
  Listing.readLog cs ++
    [⟨.debug, "parsed " ++ toString cs.length ++ " classes, " ++
      toString (cs.flatMap (·.methods)).length ++ " methods from " ++ path⟩]

/-- The settings that the options ask for; a configuration file overrides the strict preset. -/
def loadSettings (files : Files) (o : FilterOptions) : Except Failure Settings :=
  match o.config with
  | none => .ok (if o.strict then .strict else .standard)
  | some path =>
    match files path with
    | .error fault => .error (.configUnreadable path fault)
    | .ok text =>
      match Settings.ofJson text with
      | .error fault => .error (.configRefused fault)
      | .ok s => .ok s

def settingsLog (s : Settings) : List Log.Message :=
  if s.anyEnabled then []
  else [⟨.warn, "all Compose idioms are disabled, nothing will be excluded"⟩]

def runDecode (files : Files) (input : String) : Outcome :=
  match loadListing files input with
  | .error e => { failure := some e }
  | .ok cs => { output := Listing.print cs, log := loadLog input cs }

def runFilter (files : Files) (input : String) (o : FilterOptions) : Outcome :=
  match loadSettings files o with
  | .error e => { failure := some e }
  | .ok s =>
    match loadListing files input with
    | .error e => { log := settingsLog s, failure := some e }
    | .ok cs =>
      let reports := s.report cs
      { output := if o.json then MethodReport.jsonText reports else MethodReport.text reports
        log := settingsLog s ++ loadLog input cs ++ s.reportLog cs }

def Invocation.run (files : Files) : Invocation → Outcome
  | .decode input => runDecode files input
  | .filter input o => runFilter files input o

/-- Runs the program on its arguments. -/
def run (files : Files) (args : List String) : Outcome :=
  match parse args with
  | .error e => { failure := some (.usage e) }
  | .ok i => i.run files

end ComposeGuards.Command
