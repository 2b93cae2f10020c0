import OverrideAudit.CommandLine.Run

/-! The program: gathers the files that a run may look at, runs, and writes what the run leaves
behind. -/
namespace OverrideAudit

/-- The files gathered so far, and the places whose contents were gathered. -/
structure Gathered where
  tree : FileTree
  complete : Std.TreeMap Location Unit

abbrev Gather (α : Type) := StateT Gathered IO α

namespace Gather

def put (place : Location) (node : Node) : Gather Unit :=
  modify fun g => { g with tree := g.tree.put place node }

def systemPath (place : Location) : String := String.ofList (FileTree.absolutePath place)

def kindAt (place : Location) : Gather (Option IO.FS.FileType) := do
  try
    let entry : IO.FS.DirEntry := ⟨systemPath place, ""⟩
    return some (← entry.root.symlinkMetadata).type
  catch _ => return none

def realPlace? (place : Location) : Gather (Option Location) := do
  try return some (Path.steps (← IO.FS.realPath (systemPath place)).toString.toList)
  catch _ => return none

def fileNode (place : Location) : Gather Node := do
  try return .file ((String.fromUTF8? (← IO.FS.readBinFile (systemPath place))).map String.toList)
  catch _ => return .file none

def namesBelow (place : Location) : Gather (List Text) := do
  try
    let entry : IO.FS.DirEntry := ⟨systemPath place, ""⟩
    return (← entry.root.readDir).toList.map fun e => e.fileName.toList
  catch _ => return []

partial def way (place : Location) : List Text → Gather (Option Location)
  | [] => return some place
  | piece :: pieces => do
    if piece == ['.', '.'] then return ← way place.dropLast pieces
    let below := place ++ [piece]
    match ← kindAt below with
    | none => return none
    | some .symlink =>
      let target ← realPlace? below
      put below (.link (target.elim [] FileTree.absolutePath))
      match target with
      | none => return none
      | some target =>
        let _ ← way [] target
        way target pieces
    | some .dir => do
      put below .folder
      way below pieces
    | some _ => do
      put below (← fileNode below)
      return if pieces.isEmpty then some below else none

mutual

partial def contents (wanted : Text → Bool) (place : Location) : Gather Unit := do
  if (← get).complete.contains place then return
  modify fun g => { g with complete := g.complete.insert place () }
  for name in ← namesBelow place do
    child wanted (place ++ [name]) name

partial def child (wanted : Text → Bool) (place : Location) (name : Text) : Gather Unit := do
  match ← kindAt place with
  | some .dir => do
    put place .folder
    contents wanted place
  | some .symlink =>
    match ← way place.dropLast [name] with
    | some target => contents wanted target
    | none => return
  | some _ => if wanted name then put place (← fileNode place)
  | none => return

end

def startOf (path : Text) : Gather Location := do
  let tree := (← get).tree
  return if Path.isAbsolute path then [] else tree.workingFolder

def path (wanted : Text → Bool) (path : Text) : Gather Unit := do
  match ← way (← startOf path) (Path.steps path) with
  | some place => contents wanted place
  | none => return

partial def profile (seen : List Text) (p : Text) : Gather (List Text) := do
  path (fun _ => true) p
  let tree := (← get).tree
  let folder := tree.profileKey p
  if seen.contains folder then return seen
  match tree.parentPaths folder with
  | .ok parents => parents.foldlM profile (folder :: seen)
  | .error _ => return folder :: seen

/-- Gathers what a run with these paths may look at. -/
def system (o : Options) (paths : SystemPaths) : Gather Unit := do
  let anything := fun _ => true
  path anything paths.configRoot
  match o.snapshot with
  | some file => path anything file
  | none => do
    let _ ← way (← startOf paths.repository) (Path.steps paths.repository)
    path anything (Path.join paths.repository "profiles".toList)
    path anything (Path.join paths.repository "metadata/md5-cache".toList)
    path (["SLOT".toList, "USE".toList, "repository".toList].contains ·)
      (SystemPaths.installedBelow paths.root)
    let _ ← profile [] (Path.join paths.configRoot "make.profile".toList)

end Gather

def variableNames : List String :=
  ["ROOT", "PORTAGE_CONFIGROOT", "RUST_LOG", "CLICOLOR", "CLICOLOR_FORCE", "NO_COLOR", "TERM"]

def processEnvironment : IO Environment := do
  let bindings ← variableNames.filterMapM fun name => do
    return (← IO.getEnv name).map fun value => (name.toList, value.toList)
  return ⟨bindings, ← (← IO.getStdout).isTty⟩

def gatherFiles (arguments : List Text) (e : Environment) : IO FileTree := do
  let folder := Path.steps (← IO.currentDir).toString.toList
  let tree := FileTree.ofWorkingFolder folder
  match Options.read arguments with
  | .error _ => return tree
  | .ok o => do
    if o.listIssues then return tree
    return (← (Gather.system o (o.paths e)).run ⟨tree, ∅⟩).2.tree

end OverrideAudit

def main (arguments : List String) : IO UInt32 := do
  let arguments := arguments.map String.toList
  let e ← OverrideAudit.processEnvironment
  let o := OverrideAudit.run arguments e (← OverrideAudit.gatherFiles arguments e)
  IO.print (String.ofList o.output)
  IO.eprint (String.ofList o.messages)
  return o.exitCode.toUInt32
