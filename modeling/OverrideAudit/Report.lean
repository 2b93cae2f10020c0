import OverrideAudit.Audit.Judge

/-! The report: findings below a line with their file, which is written where the file changes. -/
namespace OverrideAudit

inductive Style
  | bold
  | dim
  | red
  | yellow
  | cyan
deriving DecidableEq, Repr

namespace Style

def code : Style → Text
  | bold => ['1']
  | dim => ['2']
  | red => "31".toList
  | yellow => "33".toList
  | cyan => "36".toList

def control (code : Text) : Text := '\x1b' :: '[' :: code ++ ['m']

def paint (colors : Bool) (style : Style) (t : Text) : Text :=
  if colors then control style.code ++ t ++ control ['0'] else t

def ofKind : IssueKind → Style
  | .absent | .iuse => red
  | .notInstalled | .irrelevant => yellow
  | .redundant => cyan

end Style

/-- A report as far as it is written, the last line first. -/
structure Report where
  colors : Bool
  enabled : EnabledIssues
  currentFile : Option Text
  written : List Text
  count : Nat
deriving DecidableEq, Repr

namespace Report

def start (colors : Bool) (enabled : EnabledIssues) : Report := ⟨colors, enabled, none, [], 0⟩

def output (r : Report) : Text := r.written.reverse.flatten

def fileLine (colors : Bool) (source : Text) : Text := Style.bold.paint colors source ++ ['\n']

def findingLine (colors : Bool) (f : Finding) : Text :=
  "  ".toList ++ Text.ofNat f.line ++ ": ".toList ++ f.atom ++ ' ' ::
    (Style.ofKind f.issue.kind).paint colors f.message ++ ' ' ::
    Style.dim.paint colors ('[' :: f.issue.toText ++ [']']) ++ ['\n']

def isCurrent (r : Report) (source : Text) : Bool := r.currentFile.any (Path.sameAs · source)

def linesOf (r : Report) (f : Finding) : List Text :=
  findingLine r.colors f :: if r.isCurrent f.source then [] else [fileLine r.colors f.source]

def write (r : Report) (f : Finding) : Bool × Report :=
  if r.enabled.has f.issue then
    (true, { r with
      currentFile := some f.source
      written := r.linesOf f ++ r.written
      count := r.count + 1 })
  else (false, r)

def writeAll (r : Report) : List Finding → Nat × Report
  | [] => (0, r)
  | f :: fs =>
    let (written, r) := r.write f
    let (count, r) := r.writeAll fs
    (written.toNat + count, r)

def add (r : Report) (f : Finding) : Report := (r.write f).2

theorem output_add (r : Report) (f : Finding) (h : r.enabled.has f.issue = true) :
    (r.add f).output = r.output ++ (r.linesOf f).reverse.flatten := by
  simp [add, write, output, h]

def addAll (r : Report) (findings : List Finding) : Report := (r.writeAll findings).2

end Report

def issueList (colors : Bool) : Text :=
  IssueCode.all.flatMap fun i =>
    Style.bold.paint colors (i.toText.rightpad 24 ' ') ++ ' ' :: i.description ++ ['\n']

end OverrideAudit
