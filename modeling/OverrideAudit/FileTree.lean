import Std.Data.TreeMap
import OverrideAudit.Fault

/-! Files, folders and symbolic links as data: paths, how the operating system finds what a path
names, and walking through what is below a path, depth first and by name. -/
namespace OverrideAudit

namespace Path

def slash : Char := '/'

def isAbsolute (path : Text) : Bool := path.startsWith [slash]

/-- The path of `name` below `base`. An absolute name stays as it is, and a slash is added only
where one is needed. -/
def join (base name : Text) : Text :=
  if isAbsolute name then name
  else if base.isEmpty || base.getLast? == some slash then base ++ name
  else base ++ slash :: name

def steps (path : Text) : List Text :=
  (path.splitOn slash).filter fun piece => !piece.isEmpty && piece != ['.']

/-- A path up to repeated slashes, slashes at its end and dots behind its front. -/
def normalForm (path : Text) : List Text :=
  if isAbsolute path then [slash] :: steps path
  else match path.splitOn slash with
    | ['.'] :: _ => ['.'] :: steps path
    | _ => steps path

def nameLimit : Nat := 255

def pathLimit : Nat := 4095

def fits (path : Text) : Bool := path.utf8Length ≤ pathLimit

def sameAs (a b : Text) : Bool := normalForm a == normalForm b

end Path

abbrev Location := List Text

/-- What stands at a place. A file whose bytes are not UTF-8 has no text. -/
inductive Node
  | file (text : Option Text)
  | folder
  | link (target : Text)
deriving DecidableEq, Repr

structure FileTree where
  folders : Std.TreeMap Location (Std.TreeMap Text Node)
  workingFolder : Location

structure Arrival where
  place : Location
  links : Nat
deriving DecidableEq, Repr

namespace FileTree

def linkLimit : Nat := 40

def entries (tree : FileTree) (place : Location) : Std.TreeMap Text Node :=
  tree.folders.getD place ∅

def node? (tree : FileTree) (place : Location) : Option Node :=
  match place.getLast? with
  | none => some .folder
  | some name => (tree.entries place.dropLast)[name]?

def isFolderAt (tree : FileTree) (place : Location) : Bool := tree.node? place == some .folder

def absolutePath (place : Location) : Text :=
  if place.isEmpty then [Path.slash] else place.flatMap (Path.slash :: ·)

/-- Follows the pieces of a path from a folder, as long as each place on the way is `reachable`.
`jump` goes on where a link leads, and without one there remain `links`. -/
def follow (tree : FileTree) (reachable : Location → Bool) (links : Nat)
    (jump : Location → List Text → Except FileFault Arrival) :
    Location → List Text → Except FileFault Arrival
  | place, [] => .ok ⟨place, links⟩
  | place, piece :: pieces =>
    if piece.isEmpty || piece == ['.'] then tree.follow reachable links jump place pieces
    else if piece == ['.', '.'] then tree.follow reachable links jump place.dropLast pieces
    else
      let below := place ++ [piece]
      if Path.nameLimit < piece.utf8Length || !reachable below then .error .nameTooLong
      else match tree.node? below with
      | none => .error .missing
      | some .folder => tree.follow reachable links jump below pieces
      | some (.file _) => if pieces.isEmpty then .ok ⟨below, links⟩ else .error .notFolder
      | some (.link target) =>
        if target.isEmpty then .error .missing
        else
          let base := if Path.isAbsolute target then [] else place
          jump base (target.splitOn Path.slash ++ pieces)

def arriveFrom (tree : FileTree) (reachable : Location → Bool) :
    Nat → Location → List Text → Except FileFault Arrival
  | 0 => tree.follow reachable 0 fun _ _ => .error .linkLoop
  | links + 1 => tree.follow reachable (links + 1) (tree.arriveFrom reachable links)

def locate (tree : FileTree) (reachable : Location → Bool) (path : Text) :
    Except FileFault Arrival :=
  if path.isEmpty then .error .missing
  else tree.arriveFrom reachable linkLimit
    (if Path.isAbsolute path then [] else tree.workingFolder) (path.splitOn Path.slash)

def arrive (tree : FileTree) (path : Text) : Except FileFault Arrival :=
  if path.contains '\x00' then .error .nulInName
  else if !Path.fits path then .error .nameTooLong
  else tree.locate (fun _ => true) path

def resolve (tree : FileTree) (path : Text) : Except FileFault Location :=
  (tree.arrive path).map Arrival.place

def find (tree : FileTree) (path : Text) : Except FileFault Node := do
  match tree.node? (← tree.resolve path) with
  | some node => .ok node
  | none => .error .missing

def pathExists (tree : FileTree) (path : Text) : Bool := (tree.find path).toBool

def isFile (tree : FileTree) (path : Text) : Bool :=
  match tree.find path with
  | .ok (.file _) => true
  | _ => false

def isFolder (tree : FileTree) (path : Text) : Bool :=
  match tree.find path with
  | .ok .folder => true
  | _ => false

def nodeText : Node → Except FileFault Text
  | .file (some text) => .ok text
  | .file none => .error .notUtf8
  | .folder => .error .isFolder
  | .link _ => .error .missing

def readText (tree : FileTree) (path : Text) : Except FileFault Text :=
  tree.find path >>= nodeText

/-- The absolute path without links of what a path names. The path may be of any length, but each
place on the way has to have a path within the limit. -/
def canonicalPath (tree : FileTree) (path : Text) : Except FileFault Text :=
  if path.contains '\x00' then .error .nulInName
  else (tree.locate (fun place => Path.fits (absolutePath place)) path).map fun a =>
    absolutePath a.place

def children (tree : FileTree) (place : Location) : List (Text × Node) :=
  (tree.entries place).toList

def folderCount (tree : FileTree) : Nat :=
  ((tree.folders.values.flatMap Std.TreeMap.values).filter (· == .folder)).length + 1

def put (tree : FileTree) (place : Location) (node : Node) : FileTree :=
  match place.getLast? with
  | none => tree
  | some name =>
    let above := place.dropLast
    { tree with folders := tree.folders.insert above ((tree.entries above).insert name node) }

def makeFolders (tree : FileTree) (place : Location) : List Text → FileTree × Location
  | [] => (tree, place)
  | piece :: pieces =>
    let below := place ++ [piece]
    match tree.node? below with
    | some (.link _) =>
      match tree.arriveFrom (fun _ => true) linkLimit place [piece] with
      | .ok there => tree.makeFolders there.place pieces
      | .error _ => tree.makeFolders below pieces
    | some _ => tree.makeFolders below pieces
    | none => (tree.put below .folder).makeFolders below pieces

def ofWorkingFolder (place : Location) : FileTree := (makeFolders ⟨∅, place⟩ [] place).1

def add (tree : FileTree) (path : Text) (node : Node) : FileTree :=
  let names := Path.steps path
  let start := if Path.isAbsolute path then [] else tree.workingFolder
  match names.getLast?, node with
  | none, _ => tree
  | some _, .folder => (tree.makeFolders start names).1
  | some name, node =>
    let (tree, above) := tree.makeFolders start names.dropLast
    tree.put (above ++ [name]) node

end FileTree

inductive WalkEvent
  | file (path : Text)
  | broken (path : Text) (fault : FileFault)
  | loop (path ancestor : Text)
deriving DecidableEq, Repr

def isHiddenName (name : Text) : Bool := name.startsWith ['.']

namespace FileTree

structure Visited extends Arrival where
  path : Text
deriving DecidableEq, Repr

def arriveBelow (tree : FileTree) (v : Visited) (name : Text) : Except FileFault Arrival :=
  if Path.fits (Path.join v.path name) then
    tree.arriveFrom (fun _ => true) v.links v.place [name]
  else .error .nameTooLong

/-- The walk through what stands below the innermost of the visited folders. A link to a folder that
the walk is in is a loop. The paths of folders and links have to stay within the limits. -/
def walkFrom (tree : FileTree) : Nat → List Visited → List WalkEvent
  | 0, _ => []
  | _, [] => []
  | depth + 1, v :: above =>
    if !Path.fits v.path then [.broken v.path .nameTooLong]
    else (tree.children v.place).flatMap fun (name, node) =>
      let path := Path.join v.path name
      let visit := fun (a : Arrival) =>
        if isHiddenName name then []
        else if tree.isFolderAt a.place then tree.walkFrom depth (⟨a, path⟩ :: v :: above)
        else [.file path]
      match node with
      | .link _ =>
        match tree.arriveBelow v name with
        | .error fault => [.broken path fault]
        | .ok a =>
          match (v :: above).find? fun w => w.place == a.place with
          | some w => [.loop path w.path]
          | none => visit a
      | _ => visit ⟨v.place ++ [name], v.links⟩

/-- The walk from a path on; what the path names itself may be hidden. No walk goes deeper than the
square of the number of folders: between two links it goes down, and each link leads to a folder
that it is not in. -/
def walk (tree : FileTree) (path : Text) : List WalkEvent :=
  match tree.arrive path with
  | .error _ => []
  | .ok a =>
    if tree.isFolderAt a.place then
      tree.walkFrom ((tree.folderCount + 1) * (tree.folderCount + 1)) [⟨a, path⟩]
    else [.file path]

inductive Grandchild
  | entry (folder name path : Text) (node : Node)
  | unreadable (path : Text) (fault : FileFault)
deriving DecidableEq, Repr

/-- What stands two levels below a path. Links are not followed; a folder between that cannot be
read stands for what is in it. -/
def grandchildren (tree : FileTree) (path : Text) : List Grandchild :=
  match tree.resolve path with
  | .error _ => []
  | .ok place =>
    (tree.children place).flatMap fun (folder, node) =>
      let folderPath := Path.join path folder
      if node != .folder then []
      else if !Path.fits folderPath then [.unreadable folderPath .nameTooLong]
      else (tree.children (place ++ [folder])).map fun (name, node) =>
        .entry folder name (Path.join folderPath name) node

end FileTree

end OverrideAudit
