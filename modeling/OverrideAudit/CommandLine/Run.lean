import OverrideAudit.CommandLine.Options
import OverrideAudit.Audit.Auditor
import OverrideAudit.Database.Snapshot
import OverrideAudit.Log.Filter
import OverrideAudit.Report

/-! A run of the program: from the arguments, the environment and the files to the exit code and
what is written. -/
namespace OverrideAudit

structure Message where
  severity : Severity
  part : LogPart
  text : Text
deriving DecidableEq, Repr

def Message.line (m : Message) : Text := m.severity.label ++ ' ' :: m.text ++ ['\n']

def LogEntry.toMessage : LogEntry → Message
  | warning w => ⟨.warning, w.part, w.message⟩
  | notice n => ⟨n.severity, n.part, n.message⟩

structure Environment where
  bindings : List (Text × Text)
  terminal : Bool
deriving DecidableEq, Repr

namespace Environment

def get? (e : Environment) (name : String) : Option Text := e.bindings.lookup name.toList

def terminalHasColors (e : Environment) : Bool :=
  e.terminal && (e.get? "NO_COLOR").isNone &&
    (e.get? "TERM").any (· != "dumb".toList) && (e.get? "CLICOLOR") != some ['0']

def wantsColors (e : Environment) : Bool :=
  e.terminalHasColors || (e.get? "CLICOLOR_FORCE").any (· != ['0'])

/-- The least important messages that are shown where the environment does not say otherwise:
warnings, and one level more for each request. -/
def requestedSeverity : Nat → Severity
  | 0 => .warning
  | 1 => .info
  | 2 => .debug
  | _ => .trace

/-- The filter for the messages: as the environment says, or as requested if what it says is no
filter. -/
def logFilter (e : Environment) (verbosity : Nat) : Except LogFilterFault LogFilter :=
  let requested := LogFilter.upTo (requestedSeverity verbosity)
  match (e.get? "RUST_LOG").map LogFilter.read with
  | none | some (.error .malformed) => .ok requested
  | some filter => filter

end Environment

structure Outcome where
  exitCode : Nat
  output : Text
  messages : Text
deriving DecidableEq, Repr

inductive RunFault
  | pattern (directive : Directive) (fault : IssueFault)
  | snapshot (path : Text) (fault : LoadFault)
  | system (fault : LoadFault)
deriving DecidableEq, Repr

def RunFault.message : RunFault → Text
  | pattern (.enable p) fault =>
    "Invalid --enable value '".toList ++ p ++ "': ".toList ++ fault.message
  | pattern (.disable p) fault =>
    "Invalid --disable value '".toList ++ p ++ "': ".toList ++ fault.message
  | snapshot path fault =>
    "Failed to load package snapshot ".toList ++ path ++ ": ".toList ++ fault.message
  | system fault => "Failed to load package database: ".toList ++ fault.message

def versionText : Text := "confcheck 0.0.1\n".toList

def usageText : Text :=
  ("Check portage per-package overrides for redundant and stale entries\n\n" ++
   "Usage: confcheck [OPTIONS] [CATEGORY]...\n\nArguments:\n" ++
   "  [CATEGORY]...  Override categories to check [default: all]\n\nOptions:\n" ++
   "  -l, --list-issues         List all issue codes and exit\n" ++
   "  -e, --enable <LIST>       Enable issues matching these comma-separated glob patterns\n" ++
   "  -d, --disable <LIST>      Disable issues matching these comma-separated glob patterns\n" ++
   "  -C, --no-color            Disable colored output\n" ++
   "  -v, --verbose...          Verbose logging (repeat for more)\n" ++
   "      --config-root <PATH>  Portage configuration directory\n" ++
   "      --root <PATH>         Filesystem root holding the installed package database\n" ++
   "      --repo <PATH>         Ebuild repository\n" ++
   "      --snapshot <FILE>     Read the package database from a JSON snapshot instead\n" ++
   "  -h, --help                Print help\n" ++
   "  -V, --version             Print version\n").toList

def Halt.message : Halt → Text
  | help => usageText
  | version => versionText
  | unknownOption argument => "unexpected argument '".toList ++ argument ++ "' found".toList
  | unexpectedValue argument => "unexpected value in '".toList ++ argument ++ "'".toList
  | missingValue s => "a value is required for '--".toList ++ s.name ++ "'".toList
  | repeated name =>
    "the argument '--".toList ++ name ++ "' cannot be used multiple times".toList
  | emptyPath s => "a value is required for '--".toList ++ s.name ++ "'".toList
  | badCategory fault => fault.message

def Options.paths (o : Options) (e : Environment) : SystemPaths where
  root := (o.root.or (e.get? "ROOT")).getD SystemPaths.standard.root
  repository := o.repository.getD SystemPaths.standard.repository
  configRoot := o.configRoot.getD (SystemPaths.configRootBelow (e.get? "PORTAGE_CONFIGROOT"))

def Options.loadDatabase (o : Options) (e : Environment) (tree : FileTree) :
    Logged (Except RunFault Database) :=
  match o.snapshot with
  | none => do return (← Database.load tree (o.paths e)).mapError .system
  | some path =>
    match Snapshot.load tree path with
    | .error fault => pure (.error (.snapshot path fault))
    | .ok s =>
      match s.toDatabase with
      | .error fault => pure (.error (.snapshot path fault))
      | .ok db => do
        Logged.noteEach (s.assumedArch?.map .assumedArch).toList
        return .ok db

def Options.report (o : Options) (e : Environment) (tree : FileTree) :
    Logged (Except RunFault Report) := do
  match ← EnabledIssues.all.applyAll o.directives with
  | .error (d, fault) => return .error (.pattern d fault)
  | .ok enabled => do
    Logged.note (.configRoot (o.paths e).configRoot)
    match ← o.loadDatabase e tree with
    | .error fault => return .error fault
    | .ok db => do
      let findings ← auditConfiguration tree db (o.paths e).configRoot o.categories
      let report := (Report.start (e.wantsColors && !o.noColor) enabled).addAll findings
      Logged.note (.reported report.count)
      return .ok report

def LogFilter.lines (f : LogFilter) (messages : List Message) : Text :=
  (messages.filter fun m => f.shows m.part m.severity).flatMap Message.line

def Options.runWith (o : Options) (e : Environment) (tree : FileTree) (f : LogFilter) : Outcome :=
  if o.listIssues then ⟨0, issueList (e.wantsColors && !o.noColor), []⟩
  else
    let report := o.report e tree
    let messages := report.log.map LogEntry.toMessage
    match report.value with
    | .ok r => ⟨0, r.output, f.lines messages⟩
    | .error fault => ⟨1, [], f.lines (messages ++ [⟨.error, .commandLine, fault.message⟩])⟩

/-- A run with options that were understood. A filter that would be cut inside a character stops it.
-/
def Options.run (o : Options) (e : Environment) (tree : FileTree) : Outcome :=
  match e.logFilter o.verbosity with
  | .ok f => o.runWith e tree f
  | .error _ => ⟨101, [], "the log filter is cut inside a character\n".toList⟩

def Options.checkRoot (o : Options) (e : Environment) : Except Halt Options :=
  if o.root.isNone && e.get? "ROOT" == some [] then .error (.emptyPath .root) else .ok o

def run (arguments : List Text) (e : Environment) (tree : FileTree) : Outcome :=
  match Options.read arguments >>= (·.checkRoot e) with
  | .ok o => o.run e tree
  | .error .help => ⟨0, usageText, []⟩
  | .error .version => ⟨0, versionText, []⟩
  | .error halt => ⟨1, [], "error: ".toList ++ halt.message ++ ['\n']⟩

end OverrideAudit
