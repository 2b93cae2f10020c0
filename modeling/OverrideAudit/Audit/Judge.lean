import OverrideAudit.Issue.Code
import OverrideAudit.Override
import OverrideAudit.Database.Basic

/-! What is found about an override in the state of the database that it meets. The checks of a
category stand in a fixed order, and the first that applies decides. -/
namespace OverrideAudit

inductive Verdict
  | absent
  | notInstalled
  | noEffect
  | alreadyMasked
  | notMasked
  | noFlagChange
  | redundantFlags (tokens : List Text)
  | unknownFlags (flags : List Text)
  | olderChanged
  | olderUnmasked
  | olderAffected
deriving DecidableEq, Repr

namespace Verdict

def kind : Verdict → IssueKind
  | absent => .absent
  | notInstalled => .notInstalled
  | noEffect | alreadyMasked | notMasked | noFlagChange | redundantFlags _ => .redundant
  | unknownFlags _ => .iuse
  | olderChanged | olderUnmasked | olderAffected => .irrelevant

def message : Verdict → Text
  | absent => "does not exist".toList
  | notInstalled => "not installed".toList
  | noEffect => "no effect".toList
  | alreadyMasked => "already masked by package.mask".toList
  | notMasked => "not masked by package.mask".toList
  | noFlagChange => "no change in useflags".toList
  | redundantFlags tokens => "redundant useflags: ".toList ++ [' '].intercalate tokens
  | unknownFlags flags => "unknown USE flags: ".toList ++ [',', ' '].intercalate flags
  | olderChanged => "only changes irrelevant versions".toList
  | olderUnmasked => "only unmasks irrelevant versions".toList
  | olderAffected => "only affects irrelevant versions".toList

end Verdict

structure Finding where
  issue : IssueCode
  source : Text
  line : Nat
  atom : Text
  message : Text
deriving DecidableEq, Repr

def Verdict.finding? (v : Verdict) (category : Category) (r : Record) : Option Finding :=
  (IssueCode.of? category v.kind).map fun issue => ⟨issue, r.source, r.line, r.atom, v.message⟩

/-- Whether the newest installed version is above the newest that an atom selects; both lists
ascend. -/
def endsAbove (installed matched : List Cpv) : Bool :=
  match installed.getLast?, matched.getLast? with
  | some i, some m => i.version.compare m.version == .gt
  | _, _ => false

def sameVersions (xs ys : List Cpv) : Bool :=
  xs.all (fun x => ys.any x.sameAs) && ys.all fun y => xs.any y.sameAs

def warnOnce (warned : List Text) (cpv : Text) (w : Warning) : Logged (List Text) :=
  if warned.contains cpv then pure warned
  else do
    Logged.warn w
    return cpv :: warned

/-- Warns once about each version of which nothing is known, and tells whether there is one. -/
def warnMissing (known? : Cpv → Option FlagSet) (warning : Text → Warning) (warned : List Text) :
    List Cpv → Logged (List Text × Bool)
  | [] => pure (warned, false)
  | c :: cs =>
    match known? c with
    | some _ => warnMissing known? warning warned cs
    | none => do
      let warned ← warnOnce warned c.toText (warning c.toText)
      let (warned, _) ← warnMissing known? warning warned cs
      return (warned, true)

namespace Database

def presence? (db : Database) (a : Atom) : Option Verdict :=
  if (db.matching a).isEmpty then some .absent
  else if (db.installedMatching a.package).isEmpty then some .notInstalled
  else none

def selectsOlder (db : Database) (a : Atom) : Bool :=
  endsAbove (db.installedMatching a.package) (db.matching a)

def hiddenVersions (db : Database) (rule : VisibilityRule) (a : Atom) : List Cpv :=
  (db.matching a).filter fun c => !(db.visible rule a).any c.sameAs

/-- Overrides for keywords: with a finding about presence they are not applied. -/
def judgeKeywords (db : Database) (rule : VisibilityRule) (a : Atom) (value : Text) :
    Option Verdict × Database :=
  match db.presence? a with
  | some v => (some v, db)
  | none =>
    let after := db.acceptKeywords a (db.keywordsOfValue value)
    let verdict :=
      if sameVersions (db.visible rule a) (after.visible rule a) then some .noEffect
      else if db.selectsOlder a then some .olderChanged
      else none
    (verdict, after)

def isMaskedVersion (db : Database) (c : Cpv) : Bool := (db.maskReasons c).contains .packageMask

/-- Masks. It is usual to mask what is not installed, unless a version is named. -/
def judgeMask (db : Database) (a : Atom) : Option Verdict :=
  if (db.matching a).isEmpty then some .absent
  else if a.hasVersion && (db.installedMatching a.package).isEmpty then some .notInstalled
  else if (db.matching a).all db.isMaskedVersion then some .alreadyMasked
  else none

def judgeUnmask (db : Database) (a : Atom) : Option Verdict :=
  (db.presence? a).or <|
    if !(db.matching a).any db.isMaskedVersion then some .notMasked
    else if db.selectsOlder a then some .olderUnmasked
    else none

def judgePlain (db : Database) (a : Atom) : Option Verdict :=
  (db.presence? a).or <| if db.selectsOlder a then some .olderAffected else none

def namedFlags (tokens : List Text) : List Text :=
  (tokens.map flagOfToken).filter fun f => !f.isEmpty && f.getLast? != some '*'

def undeclared (db : Database) (installed : List Cpv) (flags : List Text) : List Text :=
  flags.filter fun f => !installed.any fun c => (db.declaredFlags? c).any (·.contains f)

def knownFlags (db : Database) (installed : List Cpv) : List FlagSet :=
  installed.filterMap db.currentFlags?

/-- The tokens that are idle for each of the sets, each once, in the order of texts. -/
def idleForAll (tokens : List Text) : List FlagSet → List Text
  | [] => []
  | s :: sets =>
    sortDistinct compare <| (s.idleTokens tokens).filter fun token =>
      sets.all fun other => (other.idleTokens tokens).contains token

def judgeChanges (tokens : List Text) (sets : List FlagSet) : Option Verdict :=
  if sets.all (·.isUnchangedBy tokens) then some .noFlagChange
  else match idleForAll tokens sets with
    | [] => none
    | idle => some (.redundantFlags idle)

/-- Overrides for USE flags, judged by the installed versions that the atom selects. The second part
of the answer are the versions that were warned about so far. -/
def judgeUse (db : Database) (a : Atom) (value : Text) (warned : List Text) :
    Logged (Option Verdict × List Text) :=
  let installed := db.installedMatching a
  if (db.matching a).isEmpty then pure (some .absent, warned)
  else if installed.isEmpty then pure (some .notInstalled, warned)
  else do
    let tokens := expandUse value
    let (warned, lost) ← warnMissing db.declaredFlags? .undeclaredInstalled warned installed
    match sortDistinct compare (db.undeclared installed (namedFlags tokens)) with
    | [] =>
      let (warned, unknown) ←
        warnMissing db.currentFlags? .unknownInstalledFlags warned installed
      if lost || unknown then return (none, warned)
      return (judgeChanges tokens (db.knownFlags installed), warned)
    | flags => return (some (.unknownFlags flags), warned)

end Database
end OverrideAudit
