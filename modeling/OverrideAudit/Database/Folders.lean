import OverrideAudit.Database.Basic
import OverrideAudit.Masking.Profile

/-! Loading the package database from the folders of a system: the metadata cache of a repository,
the installed packages, the profile and the settings. -/
namespace OverrideAudit

/-- The entries `KEY=value` of a text; of entries with one key the last counts. -/
def cacheFields (content : Text) : Variables :=
  (content.lines.filterMap (·.cutAt '=')).foldl (fun v (key, value) => v.set key value) .empty

namespace FileTree

def repositoryName? (tree : FileTree) (repository : Text) : Option Text :=
  match tree.readText (Path.join repository "profiles/repo_name".toList) with
  | .ok content => if content.trim.isEmpty then none else some content.trim
  | .error _ => none

def availableOfEntry (cpv : Cpv) (repository : Option Text) (content : Text) : Available :=
  let fields := cacheFields content
  .ofTexts cpv ((fields.get? "SLOT".toList).getD defaultSlot)
    ((fields.get? "KEYWORDS".toList).getD []) ((fields.get? "IUSE".toList).getD []) repository

def collectVersions {α : Type} (read : Grandchild → Logged (Except LoadFault (List α))) :
    List Grandchild → Logged (Except LoadFault (List α))
  | [] => pure (.ok [])
  | entry :: entries => do
    match ← read entry with
    | .error fault => return .error fault
    | .ok versions => return (← collectVersions read entries).map (versions ++ ·)

def isNoCacheEntry (name : Text) : Bool := isHiddenName name || name.startsWith "Manifest".toList

/-- The offered versions of one entry. An entry whose name is no version is warned about. -/
def readCacheEntry (tree : FileTree) (repository : Option Text) :
    Grandchild → Logged (Except LoadFault (List Available))
  | .unreadable path fault => pure (.error (.folder path fault))
  | .entry category name path (.file _) =>
    if isNoCacheEntry name then pure (.ok [])
    else match Cpv.read (category ++ '/' :: name) with
      | .error fault => do
        Logged.warn (.skippedCacheEntry path fault)
        return .ok []
      | .ok cpv =>
        match tree.readText path with
        | .error fault => pure (.error (.file fault))
        | .ok content => pure (.ok [availableOfEntry cpv repository content])
  | .entry _ _ _ _ => pure (.ok [])

def repositoryPackages (tree : FileTree) (repository : Text) :
    Logged (Except LoadFault (List Available)) :=
  let cache := Path.join repository "metadata/md5-cache".toList
  if tree.isFolder cache then do
    match ← collectVersions (tree.readCacheEntry (tree.repositoryName? repository))
        (tree.grandchildren cache) with
    | .error fault => return .error fault
    | .ok versions => do
      Logged.note (.readAvailable versions.length cache)
      return .ok versions
  else do
    Logged.warn (.noMetadataCache repository)
    return .ok []

def installedField? (tree : FileTree) (folder name : Text) : Option Text :=
  (tree.readText (Path.join folder name)).toOption.map Text.trim

def installedOfFolder (tree : FileTree) (cpv : Cpv) (folder : Text) : Installed :=
  .ofTexts cpv ((tree.installedField? folder "SLOT".toList).getD defaultSlot)
    ((tree.installedField? folder "USE".toList).getD [])
    ((tree.installedField? folder "repository".toList).filter fun r => !r.isEmpty)

def isNoInstalledEntry (name : Text) : Bool :=
  isHiddenName name || name.startsWith "-MERGING-".toList

def readInstalledEntry (tree : FileTree) : Grandchild → Logged (Except LoadFault (List Installed))
  | .unreadable path fault => pure (.error (.folder path fault))
  | .entry category name path .folder =>
    if isNoInstalledEntry name then pure (.ok [])
    else match Cpv.read (category ++ '/' :: name) with
      | .error fault => do
        Logged.warn (.skippedInstalledEntry path fault)
        return .ok []
      | .ok cpv => pure (.ok [tree.installedOfFolder cpv path])
  | .entry _ _ _ _ => pure (.ok [])

def installedPackages (tree : FileTree) (path : Text) :
    Logged (Except LoadFault (List Installed)) :=
  if tree.isFolder path then do
    match ← collectVersions tree.readInstalledEntry (tree.grandchildren path) with
    | .error fault => return .error fault
    | .ok versions => do
      Logged.note (.readInstalled versions.length path)
      return .ok versions
  else do
    Logged.warn (.noInstalledPackages path)
    return .ok []

end FileTree

structure SystemPaths where
  root : Text
  repository : Text
  configRoot : Text
deriving DecidableEq, Repr

namespace SystemPaths

def systemConfig : Text := "/etc/portage".toList

def standard : SystemPaths := ⟨"/".toList, "/var/db/repos/gentoo".toList, systemConfig⟩

def configRootBelow (root : Option Text) : Text :=
  root.elim systemConfig (Path.join · "etc/portage".toList)

def installedBelow (root : Text) : Text := Path.join root "var/db/pkg".toList

end SystemPaths

namespace Masking

def withSystemProfile (m : Masking) (tree : FileTree) (configRoot : Text) :
    Logged (Masking × Option LoadFault) :=
  match tree.profileFolder? configRoot with
  | some folder => m.withProfile tree folder
  | none => do
    Logged.note (.noProfile configRoot)
    return (m, none)

/-- The masking of a system: repository, profile, then settings. -/
def loadSystem (tree : FileTree) (paths : SystemPaths) : Logged (Except LoadFault Masking) := do
  match ← Masking.empty.withRepositoryMasks tree paths.repository with
  | (_, some fault) => return .error fault
  | (m, none) =>
    match ← m.withSystemProfile tree paths.configRoot with
    | (_, some fault) => return .error fault
    | (m, none) =>
      match ← tree.configSettings paths.configRoot with
      | .error fault => return .error (.configuration (.file fault))
      | .ok v => return .ok (m.applySettings v)

end Masking

namespace Database

def addAll (db : Database) (available : List Available) (installed : List Installed) : Database :=
  installed.foldl insertInstalled (available.foldl insertAvailable db)

def load (tree : FileTree) (paths : SystemPaths) : Logged (Except LoadFault Database) := do
  Logged.note .loading
  if !tree.isFolder paths.repository then return .error (.repositoryNotFound paths.repository)
  match ← Masking.loadSystem tree paths with
  | .error fault => return .error fault
  | .ok masking =>
    match ← tree.repositoryPackages paths.repository with
    | .error fault => return .error fault
    | .ok available =>
      match ← tree.installedPackages (SystemPaths.installedBelow paths.root) with
      | .error fault => return .error fault
      | .ok installed => do
        Logged.noteEach ((assumedArch? masking).map .assumedArch).toList
        Logged.note (.loaded available.length installed.length)
        return .ok ({ empty with masking }.addAll available installed).withDefaultArch

end Database
end OverrideAudit
