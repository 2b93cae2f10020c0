import OverrideAudit.Issue.Code
import OverrideAudit.Database.Folders

/-! The arguments of the command line. They are read from left to right: the first fault or request
for information decides. -/
namespace OverrideAudit

inductive Flag
  | listIssues
  | noColor
  | verbose
  | help
  | version
deriving DecidableEq, Repr

inductive Setting
  | enable
  | disable
  | configRoot
  | root
  | repository
  | snapshot
deriving DecidableEq, Repr

inductive Halt
  | help
  | version
  | unknownOption (argument : Text)
  | unexpectedValue (argument : Text)
  | missingValue (setting : Setting)
  | repeated (name : Text)
  | emptyPath (setting : Setting)
  | badCategory (fault : ReadFault)
deriving DecidableEq, Repr

structure Options where
  listIssues : Bool
  noColor : Bool
  verbosity : Nat
  directives : List Directive
  configRoot : Option Text
  root : Option Text
  repository : Option Text
  snapshot : Option Text
  categories : List Category
deriving DecidableEq, Repr

inductive OptionName
  | flag (f : Flag)
  | setting (s : Setting)
deriving DecidableEq, Repr

def OptionName.ofLetter? : Char → Option OptionName
  | 'l' => some (.flag .listIssues)
  | 'C' => some (.flag .noColor)
  | 'v' => some (.flag .verbose)
  | 'h' => some (.flag .help)
  | 'V' => some (.flag .version)
  | 'e' => some (.setting .enable)
  | 'd' => some (.setting .disable)
  | _ => none

def Flag.name : Flag → Text
  | listIssues => "list-issues".toList
  | noColor => "no-color".toList
  | verbose => "verbose".toList
  | help => "help".toList
  | version => "version".toList

def Setting.name : Setting → Text
  | enable => "enable".toList
  | disable => "disable".toList
  | configRoot => "config-root".toList
  | root => "root".toList
  | repository => "repo".toList
  | snapshot => "snapshot".toList

def OptionName.all : List OptionName :=
  ([.listIssues, .noColor, .verbose, .help, .version] : List Flag).map .flag ++
    ([.enable, .disable, .configRoot, .root, .repository, .snapshot] : List Setting).map .setting

def OptionName.name : OptionName → Text
  | flag f => f.name
  | setting s => s.name

def OptionName.ofName? (name : Text) : Option OptionName := all.find? (·.name == name)

namespace Options

def blank : Options := ⟨false, false, 0, [], none, none, none, none, []⟩

/-- Adds a flag. Only the flag for more messages may be repeated. -/
def addFlag (o : Options) : Flag → Except Halt Options
  | .listIssues =>
    if o.listIssues then .error (.repeated Flag.listIssues.name)
    else .ok { o with listIssues := true }
  | .noColor =>
    if o.noColor then .error (.repeated Flag.noColor.name) else .ok { o with noColor := true }
  | .verbose => .ok { o with verbosity := o.verbosity + 1 }
  | .help => .error .help
  | .version => .error .version

def newPath (s : Setting) (old : Option Text) (value : Text) : Except Halt (Option Text) :=
  if value.isEmpty then .error (.emptyPath s)
  else if old.isSome then .error (.repeated s.name)
  else .ok (some value)

def addSetting (o : Options) (value : Text) : Setting → Except Halt Options
  | .enable => .ok { o with directives := o.directives ++ [.enable value] }
  | .disable => .ok { o with directives := o.directives ++ [.disable value] }
  | .configRoot => do return { o with configRoot := ← newPath .configRoot o.configRoot value }
  | .root => do return { o with root := ← newPath .root o.root value }
  | .repository => do return { o with repository := ← newPath .repository o.repository value }
  | .snapshot => do return { o with snapshot := ← newPath .snapshot o.snapshot value }

def addCategory (o : Options) (t : Text) : Except Halt Options :=
  match Category.read t with
  | .ok c => .ok { o with categories := o.categories ++ [c] }
  | .error fault => .error (.badCategory fault)

/-- Adds the options of a group of letters. The setting without value that may end the group is left
over. -/
def addLetters (o : Options) (group : Text) : Text → Except Halt (Options × Option Setting)
  | [] => .ok (o, none)
  | c :: r =>
    match OptionName.ofLetter? c with
    | none => .error (.unknownOption group)
    | some (.flag f) => do (← o.addFlag f).addLetters group r
    | some (.setting s) =>
      match r with
      | [] => .ok (o, some s)
      | '=' :: value => do return (← o.addSetting value s, none)
      | value => do return (← o.addSetting value s, none)

def addLong (o : Options) (t : Text) : Except Halt (Options × Option Setting) :=
  let (name, value) := match t.cutAt '=' with
    | some (name, value) => (name, some value)
    | none => (t, none)
  match OptionName.ofName? name, value with
  | none, _ => .error (.unknownOption t)
  | some (.flag f), none => do return (← o.addFlag f, none)
  | some (.flag _), some _ => .error (.unexpectedValue t)
  | some (.setting s), some value => do return (← o.addSetting value s, none)
  | some (.setting s), none => .ok (o, some s)

/-- Reads the arguments from left to right. `waiting` is the setting whose value is the next
argument. -/
def readFrom (o : Options) (waiting : Option Setting) : List Text → Except Halt Options
  | [] =>
    match waiting with
    | some s => .error (.missingValue s)
    | none => .ok o
  | argument :: rest =>
    match argument, waiting with
    | ['-', '-'], some s => .error (.missingValue s)
    | ['-', '-'], none => rest.foldlM addCategory o
    | '-' :: _ :: _, some s => .error (.missingValue s)
    | '-' :: '-' :: long, none => do
      let (o, waiting) ← o.addLong long
      o.readFrom waiting rest
    | '-' :: c :: letters, none => do
      let (o, waiting) ← o.addLetters argument (c :: letters)
      o.readFrom waiting rest
    | value, some s => do (← o.addSetting value s).readFrom none rest
    | value, none => do (← o.addCategory value).readFrom none rest

def read (arguments : List Text) : Except Halt Options := blank.readFrom none arguments

end Options
end OverrideAudit
