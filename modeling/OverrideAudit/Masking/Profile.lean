import OverrideAudit.Masking.Basic
import OverrideAudit.Variables

/-! Files of masks, and profiles: folders that name their parents, with masks and settings that
build on those of the parents. -/
namespace OverrideAudit

inductive MaskLine
  | add (atom : Atom)
  | remove (atom : Atom)
deriving DecidableEq, Repr

namespace MaskLine

def ofTrimmed (line : Text) : Except ReadFault MaskLine :=
  match line with
  | '-' :: atom => (Atom.read atom).map remove
  | atom => (Atom.read atom).map add

def readLine (source line : Text) : Logged (List MaskLine) :=
  let line := line.trim
  if line.isEmpty || line.startsWith ['#'] then pure []
  else match ofTrimmed line with
    | .ok m => pure [m]
    | .error _ => do
      Logged.warn (.invalidMaskEntry source line)
      return []

def readLines (source : Text) : List Text → Logged (List MaskLine)
  | [] => pure []
  | line :: lines => do return (← readLine source line) ++ (← readLines source lines)

def ofText (source content : Text) : Logged (List MaskLine) := readLines source content.lines

def applyTo (masks : List Atom) : MaskLine → List Atom
  | add atom => masks ++ [atom]
  | remove atom => masks.filter fun m => !m.sameAs atom

end MaskLine

def Masking.applyLines (m : Masking) (lines : List MaskLine) : Masking :=
  { m with inherited := lines.foldl MaskLine.applyTo m.inherited }

inductive LoadFault
  | repositoryNotFound (path : Text)
  | invalidEntry (text : Text) (fault : ReadFault)
  | configuration (fault : ReadFault)
  | file (fault : FileFault)
  | folder (path : Text) (fault : FileFault)
  | malformedSnapshot
deriving DecidableEq, Repr

def LoadFault.message : LoadFault → Text
  | repositoryNotFound path => "Repository not found: ".toList ++ path
  | invalidEntry text fault =>
    "Invalid package entry ".toList ++ text ++ ": ".toList ++ fault.message
  | configuration fault => "Configuration error: ".toList ++ fault.message
  | file fault => "IO error: ".toList ++ fault.message
  | folder path fault =>
    "Walk directory error: IO error for operation on ".toList ++ path ++ ": ".toList ++
      fault.message
  | malformedSnapshot => "Serialization error".toList

/-- The profiles that were entered, and those that were left, in that order. -/
structure ProfileSearch where
  seen : List Text
  order : List Text
deriving DecidableEq, Repr

namespace FileTree

def namedLines (content : Text) : List Text :=
  (content.lines.map Text.trim).filter fun line => !(line.isEmpty || line.startsWith ['#'])

def parentPaths (tree : FileTree) (folder : Text) : Except FileFault (List Text) :=
  let file := Path.join folder "parent".toList
  if tree.isFile file then do
    return (namedLines (← tree.readText file)).map (Path.join folder)
  else .ok []

def profileKey (tree : FileTree) (path : Text) : Text :=
  (tree.canonicalPath path).toOption.getD path

def visitParents (tree : FileTree)
    (visit : Text → ProfileSearch → Logged (Except FileFault ProfileSearch)) :
    List Text → ProfileSearch → Logged (Except FileFault ProfileSearch)
  | [], s => pure (.ok s)
  | path :: paths, s =>
    if tree.isFolder path then do
      match ← visit path s with
      | .ok s => tree.visitParents visit paths s
      | .error fault => return .error fault
    else do
      Logged.warn (.missingParentProfile path)
      tree.visitParents visit paths s

/-- Enters the profile at a path, unless it was entered before: its parents by `visit`, then itself.
Profiles are told apart as paths, so that it does not count how one path is written. -/
def enterProfile (tree : FileTree)
    (visit : Text → ProfileSearch → Logged (Except FileFault ProfileSearch)) (path : Text)
    (s : ProfileSearch) : Logged (Except FileFault ProfileSearch) :=
  let folder := tree.profileKey path
  if s.seen.any (Path.sameAs folder) then pure (.ok s)
  else match tree.parentPaths folder with
    | .error fault => pure (.error fault)
    | .ok parents => do
      match ← tree.visitParents visit parents { s with seen := folder :: s.seen } with
      | .ok s => return .ok { s with order := s.order ++ [folder] }
      | .error fault => return .error fault

def visitProfile (tree : FileTree) :
    Nat → Text → ProfileSearch → Logged (Except FileFault ProfileSearch)
  | 0 => fun _ _ => pure (.error .linkLoop)
  | depth + 1 => tree.enterProfile (tree.visitProfile depth)

/-- The bytes of the longest path by which a parent can go. A canonical path may be longer than
those that are looked up if the working folder lies that deep. -/
def longestKey (tree : FileTree) : Nat :=
  max Path.pathLimit (absolutePath tree.workingFolder).utf8Length

/-- A depth that no search reaches: parents go by different paths, and there are fewer texts as
short as these have to be. -/
def profileDepth (tree : FileTree) : Nat := Nat.pow 0x110001 tree.longestKey + 2

def profileOrder (tree : FileTree) (path : Text) : Logged (Except FileFault (List Text)) := do
  let s ← tree.visitProfile tree.profileDepth path ⟨[], []⟩
  return s.map ProfileSearch.order

end FileTree

namespace Masking

def withMaskFile (m : Masking) (tree : FileTree) (path : Text) :
    Logged (Masking × Option LoadFault) :=
  if tree.isFile path then
    match tree.readText path with
    | .error fault => pure (m, some (.file fault))
    | .ok content => do return (m.applyLines (← MaskLine.ofText path content), none)
  else pure (m, none)

def applySettings (m : Masking) (v : Variables) : Masking :=
  let m := (v.get? "ARCH".toList).elim m m.setArch
  (v.get? "ACCEPT_KEYWORDS".toList).elim m m.accept

def withSettings (m : Masking) (tree : FileTree) (path : Text) :
    Logged (Masking × Option LoadFault) :=
  if tree.isFile path then do
    match ← tree.readSettings path with
    | .error fault => return (m, some (.configuration (.file fault)))
    | .ok v => return (m.applySettings v, none)
  else pure (m, none)

def withProfileFolder (m : Masking) (tree : FileTree) (folder : Text) :
    Logged (Masking × Option LoadFault) := do
  match ← m.withMaskFile tree (Path.join folder "package.mask".toList) with
  | (m, none) => m.withSettings tree (Path.join folder "make.defaults".toList)
  | failed => return failed

def withProfileFolders (m : Masking) (tree : FileTree) :
    List Text → Logged (Masking × Option LoadFault)
  | [] => pure (m, none)
  | folder :: folders => do
    Logged.note (.loadingProfile folder)
    match ← m.withProfileFolder tree folder with
    | (m, none) => m.withProfileFolders tree folders
    | failed => return failed

def withProfile (m : Masking) (tree : FileTree) (path : Text) :
    Logged (Masking × Option LoadFault) := do
  match ← tree.profileOrder path with
  | .error fault => return (m, some (.file fault))
  | .ok folders => m.withProfileFolders tree folders

def withRepositoryMasks (m : Masking) (tree : FileTree) (repository : Text) :
    Logged (Masking × Option LoadFault) :=
  m.withMaskFile tree (Path.join repository "profiles/package.mask".toList)

end Masking

end OverrideAudit
