import OverrideAudit.Audit.Judge

/-! An audit goes through the categories in processing order, and through the records of each one
after another. Overrides for keywords, masks and unmasks change the state that later records meet.
-/
namespace OverrideAudit

/-- The state of an audit: the database with the overrides so far, and the versions that were warned
about. -/
structure Auditor where
  db : Database
  warned : List Text

namespace Auditor

def ofDatabase (db : Database) : Auditor := ⟨db, []⟩

def applyOverride (db : Database) (category : Category) (a : Atom) (value : Text) : Database :=
  match category with
  | .keywords => db.acceptKeywords a (db.keywordsOfValue value)
  | .mask => db.mask a
  | .unmask => db.unmask a
  | _ => db

def hiddenNotices (db : Database) (rule : VisibilityRule) (a : Atom) : List Notice :=
  if (db.presence? a).isSome then []
  else (db.hiddenVersions rule a).map fun c =>
    .hiddenVersion c.toText (reasonTexts (db.maskReasons c))

def judge (s : Auditor) (rule : VisibilityRule) (category : Category) (a : Atom) (value : Text) :
    Logged (Option Verdict × Auditor) :=
  match category with
  | .keywords => do
    Logged.noteEach (hiddenNotices s.db rule a)
    let (verdict, db) := s.db.judgeKeywords rule a value
    return (verdict, { s with db })
  | .mask => pure (s.db.judgeMask a, { s with db := s.db.mask a })
  | .unmask => pure (s.db.judgeUnmask a, { s with db := s.db.unmask a })
  | .use => do
    let (verdict, warned) ← s.db.judgeUse a value s.warned
    return (verdict, { s with warned })
  | .features | .cflags | .cxxflags | .ldflags => pure (s.db.judgePlain a, s)

/-- Goes through one record. One that is to be skipped is applied and yields nothing; one whose atom
cannot be read is passed over. -/
def step (s : Auditor) (rule : VisibilityRule) (category : Category) (r : Record) :
    Logged (Option Finding × Auditor) :=
  match Atom.read r.atom with
  | .error fault => do
    Logged.note (.ignoredRecord r.source r.line fault)
    return (none, s)
  | .ok a =>
    if r.skip then do
      Logged.note (.skippedRecord r.source r.line r.atom)
      return (none, { s with db := applyOverride s.db category a r.value })
    else do
      let (verdict, s) ← s.judge rule category a r.value
      return (verdict.bind (·.finding? category r), s)

def answers (s : Auditor) (rule : VisibilityRule) :
    List (Category × Record) → Logged (List (Option Finding) × Auditor)
  | [] => pure ([], s)
  | (category, r) :: rs => do
    let (finding, s) ← s.step rule category r
    let (later, s) ← s.answers rule rs
    return (finding :: later, s)

def run (s : Auditor) (rule : VisibilityRule) (category : Category) (rs : List Record) :
    Logged (List Finding × Auditor) := do
  let (found, s) ← s.answers rule (rs.map (category, ·))
  return (found.filterMap id, s)

def runFiles (s : Auditor) (tree : FileTree) (category : Category) :
    List Text → Logged (List Finding × Auditor)
  | [] => pure ([], s)
  | file :: files => do
    let records ← tree.recordsOfFile Atom.isValid file
    let (found, s) ← s.run .byRecord category records
    let (later, s) ← s.runFiles tree category files
    return (found ++ later, s)

def runPaths (s : Auditor) (tree : FileTree) (category : Category) :
    List Text → Logged (List Finding × Auditor)
  | [] => pure ([], s)
  | path :: paths => do
    Logged.note (.readingOverrides path)
    let files ← tree.overrideFiles path
    let (found, s) ← s.runFiles tree category files
    let (later, s) ← s.runPaths tree category paths
    return (found ++ later, s)

def runCategories (s : Auditor) (tree : FileTree) (configRoot : Text) :
    List Category → Logged (List Finding × Auditor)
  | [] => pure ([], s)
  | category :: categories => do
    Logged.note (.checking category)
    Logged.noteEach ((tree.missingPaths configRoot category).map (.noOverrides category))
    let (found, s) ← s.runPaths tree category (tree.overridePaths configRoot category)
    let (later, s) ← s.runCategories tree configRoot categories
    return (found ++ later, s)

end Auditor

/-- The selected categories in processing order; none selected means all. -/
def categoriesToCheck (chosen : List Category) : List Category :=
  Category.all.filter fun c => chosen.isEmpty || chosen.contains c

def auditConfiguration (tree : FileTree) (db : Database) (configRoot : Text)
    (chosen : List Category) : Logged (List Finding) := do
  return (← (Auditor.ofDatabase db).runCategories tree configRoot (categoriesToCheck chosen)).1

end OverrideAudit
