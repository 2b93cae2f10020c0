import OverrideAudit.Database.Folders
import OverrideAudit.Json

/-! Snapshots: a package database written as JSON. An object names its fields; an array lists them
in order and may end early. -/
namespace OverrideAudit

structure AvailableTexts where
  cpv : Text
  slot : Text
  keywords : Text
  iuse : Text
  repository : Option Text
deriving DecidableEq, Repr

structure InstalledTexts where
  cpv : Text
  slot : Text
  useFlags : Text
  repository : Option Text
deriving DecidableEq, Repr

structure Snapshot where
  arch : Option Text
  acceptKeywords : Text
  packageMask : List Text
  available : List AvailableTexts
  installed : List InstalledTexts
deriving DecidableEq, Repr

namespace Json

/-- The values of the named fields, where they are given. An object may have each of them once and
others besides; an array has no items beyond them. -/
def fields? (names : List Text) : Json → Option (List (Option Json))
  | object members =>
    if members.any fun (key, _) => key.isNone then none
    else names.mapM fun name =>
      match membersNamed name members with
      | [] => some none
      | [value] => some (some value)
      | _ => none
  | array items =>
    if items.length ≤ names.length then
      some (items.map some ++ List.replicate (names.length - items.length) none)
    else none
  | _ => none

def asText? : Json → Option Text
  | string text => text
  | _ => none

def asOptionalText? : Json → Option (Option Text)
  | null => some none
  | value => value.asText?.map some

def asList? (item? : Json → Option α) : Json → Option (List α)
  | array items => items.mapM item?
  | _ => none

def fieldOr (default : α) (read? : Json → Option α) : Option Json → Option α
  | none => some default
  | some value => read? value

def asAvailable? (value : Json) : Option AvailableTexts := do
  match ← fields? ["cpv".toList, "slot".toList, "keywords".toList, "iuse".toList,
      "repository".toList] value with
  | [some cpv, slot, keywords, iuse, repository] =>
    return ⟨← cpv.asText?, ← fieldOr defaultSlot asText? slot, ← fieldOr [] asText? keywords,
      ← fieldOr [] asText? iuse, ← fieldOr none asOptionalText? repository⟩
  | _ => none

def asInstalled? (value : Json) : Option InstalledTexts := do
  match ← fields? ["cpv".toList, "slot".toList, "use".toList, "repository".toList] value with
  | [some cpv, slot, use, repository] =>
    return ⟨← cpv.asText?, ← fieldOr defaultSlot asText? slot, ← fieldOr [] asText? use,
      ← fieldOr none asOptionalText? repository⟩
  | _ => none

def asSnapshot? (value : Json) : Option Snapshot := do
  match ← fields? ["arch".toList, "accept_keywords".toList, "package_mask".toList,
      "available".toList, "installed".toList] value with
  | [arch, acceptKeywords, packageMask, available, installed] =>
    return ⟨← fieldOr none asOptionalText? arch, ← fieldOr [] asText? acceptKeywords,
      ← fieldOr [] (asList? asText?) packageMask, ← fieldOr [] (asList? asAvailable?) available,
      ← fieldOr [] (asList? asInstalled?) installed⟩
  | _ => none

end Json

namespace Snapshot

def read (t : Text) : Except LoadFault Snapshot :=
  match Json.read? t >>= Json.asSnapshot? with
  | some s => .ok s
  | none => .error .malformedSnapshot

def readCpv (t : Text) : Except LoadFault Cpv := (Cpv.read t).mapError (.invalidEntry t)

def readAvailable (e : AvailableTexts) : Except LoadFault Available := do
  return .ofTexts (← readCpv e.cpv) e.slot e.keywords e.iuse e.repository

def readInstalled (e : InstalledTexts) : Except LoadFault Installed := do
  return .ofTexts (← readCpv e.cpv) e.slot e.useFlags e.repository

def maskingWith (s : Snapshot) (masks : List Atom) : Masking :=
  { Masking.empty with
    arch := s.arch, accepted := .ofText s.acceptKeywords, inherited := masks }

def toDatabase (s : Snapshot) : Except LoadFault Database := do
  let masks ← s.packageMask.mapM fun t => (Atom.read t).mapError .configuration
  let available ← s.available.mapM readAvailable
  let installed ← s.installed.mapM readInstalled
  let db := { Database.empty with masking := s.maskingWith masks }
  return (db.addAll available installed).withDefaultArch

def assumedArch? (s : Snapshot) : Option Text := Database.assumedArch? (s.maskingWith [])

def load (tree : FileTree) (path : Text) : Except LoadFault Snapshot := do
  read (← (tree.readText path).mapError .file)

end Snapshot
end OverrideAudit
