import OverrideAudit.Atom
import OverrideAudit.FileTree
import OverrideAudit.Log.Logged

/-! Override files and their lines. A comment with `SKIP_ENTRY` marks the next entry, one with
`SKIP_BLOCK` all entries up to the first blank line behind an entry. -/
namespace OverrideAudit

def skipEntryWord : Text := "SKIP_ENTRY".toList

def skipBlockWord : Text := "SKIP_BLOCK".toList

inductive Line
  | blank
  | comment (text : Text)
  | entry (atom value : Text)
deriving DecidableEq, Repr

namespace Line

def read (line : Text) : Line :=
  match line.trim with
  | [] => blank
  | '#' :: text => comment ('#' :: text)
  | content =>
    match content.cutWhere isBlank with
    | some (atom, rest) => entry atom rest.trim
    | none => entry content []

end Line

/-- What the comments so far ask for: to skip up to a blank line, to skip one entry, and to
disregard blank lines until the next entry. -/
structure SkipMarks where
  block : Bool
  single : Bool
  waiting : Bool
deriving DecidableEq, Repr

structure Entry where
  atom : Text
  value : Text
  skip : Bool
deriving DecidableEq, Repr

namespace SkipMarks

def start : SkipMarks := ⟨false, false, false⟩

def afterComment (s : SkipMarks) (text : Text) : SkipMarks :=
  let entry := text.mentions skipEntryWord
  let block := text.mentions skipBlockWord
  ⟨s.block || block, s.single || entry, s.waiting || entry || block⟩

/-- The state after a line, and its entry if it has one that `accepts` passes. An entry that is not
passed uses up no mark. -/
def feed (accepts : Text → Bool) (s : SkipMarks) (line : Text) : SkipMarks × Option Entry :=
  match Line.read line with
  | .blank => ({ s with block := s.block && s.waiting }, none)
  | .comment text => (s.afterComment text, none)
  | .entry atom value =>
    if accepts atom then
      ({ s with single := false, waiting := false }, some ⟨atom, value, s.block || s.single⟩)
    else ({ s with waiting := false }, none)

end SkipMarks

structure Record where
  atom : Text
  value : Text
  source : Text
  line : Nat
  skip : Bool
deriving DecidableEq, Repr

namespace Record

def ofLines (accepts : Text → Bool) (source : Text) : Nat → SkipMarks → List Text → List Record
  | _, _, [] => []
  | number, s, line :: lines =>
    let (after, entry) := s.feed accepts line
    let later := ofLines accepts source (number + 1) after lines
    match entry with
    | some e => ⟨e.atom, e.value, source, number, e.skip⟩ :: later
    | none => later

def ofText (accepts : Text → Bool) (source content : Text) : List Record :=
  ofLines accepts source 1 .start content.lines

end Record

def WalkEvent.warning? : WalkEvent → Option Warning
  | file _ => none
  | broken path fault => some (.brokenOverrideEntry path fault)
  | loop path ancestor => some (.folderLoop path ancestor)

def WalkEvent.file? : WalkEvent → Option Text
  | file path => some path
  | _ => none

namespace FileTree

def overrideFiles (tree : FileTree) (path : Text) : Logged (List Text) :=
  if tree.pathExists path then do
    let events := tree.walk path
    Logged.warnEach (events.filterMap WalkEvent.warning?)
    return events.filterMap WalkEvent.file?
  else do
    Logged.note (.missingOverrides path)
    return []

def recordsOfFile (tree : FileTree) (accepts : Text → Bool) (path : Text) : Logged (List Record) :=
  match tree.readText path with
  | .ok content => do
    Logged.note (.readingFile path)
    return Record.ofText accepts path content
  | .error fault => do
    Logged.warn (.unreadableOverrides path fault)
    return []

end FileTree

/-- A reading of files that has come to a record: the records of the same file behind it, and the
files that are left. -/
structure RecordReader where
  current : List Record
  files : List Text
deriving DecidableEq, Repr

namespace RecordReader

def advance (tree : FileTree) (accepts : Text → Bool) :
    List Record → List Text → Logged (Option (Record × RecordReader))
  | record :: current, files => pure (some (record, ⟨current, files⟩))
  | [], [] => pure none
  | [], file :: files => do
    advance tree accepts (← tree.recordsOfFile accepts file) files

def next (tree : FileTree) (accepts : Text → Bool) (r : RecordReader) :
    Logged (Option (Record × RecordReader)) := advance tree accepts r.current r.files

def pending (tree : FileTree) (accepts : Text → Bool) (r : RecordReader) : List Record :=
  r.current ++ r.files.flatMap fun file => (tree.recordsOfFile accepts file).value

theorem pending_next (tree : FileTree) (accepts : Text → Bool) (r : RecordReader) :
    r.pending tree accepts =
      match (r.next tree accepts).value with
      | none => []
      | some (record, later) => record :: later.pending tree accepts := by
  obtain ⟨current, files⟩ := r
  rw [next]
  induction files generalizing current with
  | nil => cases current <;> rfl
  | cons file files ih =>
    cases current with
    | nil => exact ih (tree.recordsOfFile accepts file).value
    | cons record current => rfl

def collect (tree : FileTree) (accepts : Text → Bool) (r : RecordReader) : Logged (List Record) :=
  let step := r.next tree accepts
  match _h : step.value with
  | none => ⟨[], step.log⟩
  | some (record, later) =>
    let rest := collect tree accepts later
    ⟨record :: rest.value, step.log ++ rest.log⟩
termination_by (r.pending tree accepts).length
decreasing_by
  have hnext := pending_next tree accepts r
  rw [_h] at hnext
  simp [hnext]

theorem value_collect (tree : FileTree) (accepts : Text → Bool) (r : RecordReader) :
    (r.collect tree accepts).value = r.pending tree accepts := by
  fun_induction collect tree accepts r with
  | case1 r step hnone =>
    rw [pending_next, hnone]
  | case2 r step record later hsome rest ih =>
    rw [pending_next, hsome]
    exact congrArg (record :: ·) ih

end RecordReader

namespace FileTree

def records (tree : FileTree) (accepts : Text → Bool) (path : Text) : Logged (List Record) := do
  RecordReader.collect tree accepts ⟨[], ← tree.overrideFiles path⟩

theorem value_records (tree : FileTree) (accepts : Text → Bool) (path : Text) :
    (tree.records accepts path).value =
      (tree.overrideFiles path).value.flatMap fun file => (tree.recordsOfFile accepts file).value :=
  RecordReader.value_collect tree accepts ⟨[], _⟩

def overridePaths (tree : FileTree) (configRoot : Text) (category : Category) : List Text :=
  (category.fileNames.map (Path.join configRoot)).filter tree.pathExists

def missingPaths (tree : FileTree) (configRoot : Text) (category : Category) : List Text :=
  (category.fileNames.map (Path.join configRoot)).filter fun path => !tree.pathExists path

end FileTree

end OverrideAudit
