import Std.Data.TreeMap
import OverrideAudit.Masking.Basic

/-! The package database: offered and installed versions by package, each list ascending, and the
masking. -/
namespace OverrideAudit

instance : Std.TransOrd PackageName :=
  inferInstanceAs (Std.TransCmp
    (compareLex (compareOn PackageName.category) (compareOn PackageName.name)))

structure Database where
  available : Std.TreeMap PackageName (List Available)
  installed : Std.TreeMap PackageName (List Installed)
  masking : Masking

def Available.compare (p q : Available) : Ordering := p.cpv.version.compare q.cpv.version

def Installed.compare (p q : Installed) : Ordering := p.cpv.version.compare q.cpv.version

/-- Whether the visibility of a version is that of its own record, or that of the first record that
the order does not tell apart from it. -/
inductive VisibilityRule
  | byRecord
  | byVersion
deriving DecidableEq, Repr

namespace Database

def empty : Database := ⟨∅, ∅, .empty⟩

def availableOf (db : Database) (p : PackageName) : List Available := db.available.getD p []

def installedOf (db : Database) (p : PackageName) : List Installed := db.installed.getD p []

def insertAvailable (db : Database) (p : Available) : Database :=
  { db with
    available := db.available.insert p.cpv.package
      (insertStable Available.compare p (db.availableOf p.cpv.package)) }

def insertInstalled (db : Database) (p : Installed) : Database :=
  { db with
    installed := db.installed.insert p.cpv.package
      (insertStable Installed.compare p (db.installedOf p.cpv.package)) }

/-- The first accepted keyword that is stable for one architecture names the architecture. -/
def architectureOf (a : AcceptedKeywords) : Option Text :=
  (a.keywords.find? fun k => k.stability == .stable && k.arch != ['*']).map Keyword.arch

def assumedArch? (m : Masking) : Option Text :=
  if m.arch.isSome then none else architectureOf m.accepted

def withDefaultArch (db : Database) : Database :=
  { db with masking.arch := db.masking.arch.or (architectureOf db.masking.accepted) }

/-- The first offered version that the order does not tell apart from the given one. -/
def lookupAvailable? (db : Database) (c : Cpv) : Option Available :=
  (db.availableOf c.package).find? (·.cpv.sameAs c)

def lookupInstalled? (db : Database) (c : Cpv) : Option Installed :=
  (db.installedOf c.package).find? (·.cpv.sameAs c)

def selected (db : Database) (a : Atom) : List Available :=
  (db.availableOf a.packageName).filter (·.meets a)

def matching (db : Database) (a : Atom) : List Cpv := (db.selected a).map Available.cpv

def installedMatching (db : Database) (a : Atom) : List Cpv :=
  ((db.installedOf a.packageName).filter (·.meets a)).map Installed.cpv

/-- Why a version is not visible; a version that is not offered has no reason. -/
def maskReasons (db : Database) (c : Cpv) : List MaskReason :=
  ((db.lookupAvailable? c).map db.masking.reasons).getD []

def visible (db : Database) (rule : VisibilityRule) (a : Atom) : List Cpv :=
  match rule with
  | .byRecord => ((db.selected a).filter db.masking.isVisible).map Available.cpv
  | .byVersion => (db.matching a).filter fun c => (db.maskReasons c).isEmpty

def declaredFlags? (db : Database) (c : Cpv) : Option FlagSet :=
  (db.lookupAvailable? c).map Available.iuse

def currentFlags? (db : Database) (c : Cpv) : Option FlagSet :=
  (db.lookupInstalled? c).map Installed.useFlags

def acceptedKeywords (db : Database) : List Text := db.masking.accepted.values

def keywordsOfValue (db : Database) (value : Text) : List Text :=
  if value.words.isEmpty then
    (AcceptedKeywords.ofText ([' '].intercalate db.acceptedKeywords)).testingForms
  else value.words

def acceptKeywords (db : Database) (a : Atom) (keywords : List Text) : Database :=
  { db with masking := db.masking.addKeywords a keywords }

def mask (db : Database) (a : Atom) : Database := { db with masking := db.masking.addMask a }

def unmask (db : Database) (a : Atom) : Database := { db with masking := db.masking.addUnmask a }

end Database
end OverrideAudit
