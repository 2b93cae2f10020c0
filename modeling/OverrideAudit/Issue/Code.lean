import OverrideAudit.Issue.Pattern
import OverrideAudit.Log.Logged

/-! Issue codes, such as `keywords.redundant`, and which of them are reported: all at first, then as
directives with lists of patterns say. -/
namespace OverrideAudit

inductive IssueKind
  | absent
  | irrelevant
  | notInstalled
  | redundant
  | iuse
deriving DecidableEq, Repr

namespace IssueKind

def name : IssueKind → Text
  | absent => "exists".toList
  | irrelevant => "irrelevant".toList
  | notInstalled => "not_installed".toList
  | redundant => "redundant".toList
  | iuse => "iuse".toList

def ofCategory : Category → List IssueKind
  | .keywords | .unmask => [absent, irrelevant, notInstalled, redundant]
  | .mask => [absent, redundant, notInstalled]
  | .use => [absent, iuse, notInstalled, redundant]
  | .features | .cflags | .cxxflags | .ldflags => [absent, irrelevant, notInstalled]

end IssueKind

structure IssueCode where
  category : Category
  kind : IssueKind
deriving DecidableEq, Repr

namespace IssueCode

def of? (category : Category) (kind : IssueKind) : Option IssueCode :=
  if (IssueKind.ofCategory category).contains kind then some ⟨category, kind⟩ else none

def all : List IssueCode :=
  Category.all.flatMap fun category => (IssueKind.ofCategory category).map (⟨category, ·⟩)

def toText (i : IssueCode) : Text := i.category.name ++ '.' :: i.kind.name

def description (i : IssueCode) : Text :=
  match i.category, i.kind with
  | _, .absent => "entry matches no package in the repository".toList
  | _, .notInstalled => "no matching version is installed".toList
  | .keywords, .redundant => "entry does not change which versions are visible".toList
  | .keywords, .irrelevant => "entry only changes versions older than the installed one".toList
  | .mask, .redundant => "versions are already masked".toList
  | .unmask, .redundant => "versions are not masked by package.mask".toList
  | .unmask, .irrelevant => "entry only unmasks versions older than the installed one".toList
  | .use, .iuse => "package does not declare these USE flags".toList
  | .use, .redundant => "USE flags already have the requested state".toList
  | _, .irrelevant => "entry only affects versions older than the installed one".toList
  | _, _ => []

def read? (t : Text) : Option IssueCode := all.find? (·.toText == t)

end IssueCode

inductive IssueFault
  | unknownCode (text : Text)
  | badPattern (fault : PatternFault)
deriving DecidableEq, Repr

def IssueFault.message : IssueFault → Text
  | unknownCode text => "Unknown issue code: ".toList ++ text
  | badPattern fault => "Invalid issue pattern: ".toList ++ fault.message

def IssueCode.read (t : Text) : Except IssueFault IssueCode :=
  match IssueCode.read? t with
  | some i => .ok i
  | none => .error (.unknownCode t)

structure EnabledIssues where
  codes : List IssueCode
deriving DecidableEq, Repr

/-- A directive: a text of patterns with commas between them, and what becomes of the issues that
match one of them. -/
inductive Directive
  | enable (patterns : Text)
  | disable (patterns : Text)
deriving DecidableEq, Repr

namespace Directive

def patterns : Directive → Text
  | enable p | disable p => p

def isEnable : Directive → Bool
  | enable _ => true
  | disable _ => false

end Directive

def patternTexts (patterns : Text) : List Text :=
  ((patterns.splitOn ',').map Text.trim).filter fun p => !p.isEmpty

/-- Which texts are patterns, and which issues each of them matches. -/
abbrev PatternReader := Text → Except PatternFault (IssueCode → Bool)

def Pattern.reader : PatternReader := fun t =>
  (Pattern.read t).map fun p i => p.matchesText i.toText

/-- The codes that match one of the patterns. A pattern that matches none is warned about; the first
text that is no pattern ends the search. -/
def codesMatching (reader : PatternReader) :
    List Text → Logged (Except IssueFault (List IssueCode))
  | [] => pure (.ok [])
  | t :: ts =>
    match reader t with
    | .error fault => pure (.error (.badPattern fault))
    | .ok holds => do
      let codes := IssueCode.all.filter holds
      if codes.isEmpty then Logged.warn (.unmatchedPattern t)
      let later ← codesMatching reader ts
      return later.map (codes ++ ·)

namespace EnabledIssues

def all : EnabledIssues := ⟨IssueCode.all⟩

def has (e : EnabledIssues) (i : IssueCode) : Bool := e.codes.contains i

def change (e : EnabledIssues) (codes : List IssueCode) : Directive → EnabledIssues
  | .enable _ => ⟨e.codes ++ codes⟩
  | .disable _ => ⟨e.codes.filter fun i => !codes.contains i⟩

/-- Whether a directive succeeds, and the set after it. One with a text that is no pattern has no
effect at all. -/
def obey (reader : PatternReader) (e : EnabledIssues) (d : Directive) :
    Logged (Except IssueFault Unit × EnabledIssues) := do
  match ← codesMatching reader (patternTexts d.patterns) with
  | .error fault => return (.error fault, e)
  | .ok codes => return (.ok (), e.change codes d)

def apply (e : EnabledIssues) (d : Directive) : Logged (Except IssueFault EnabledIssues) := do
  let (result, e) ← e.obey Pattern.reader d
  return result.map fun _ => e

def applyAll (e : EnabledIssues) :
    List Directive → Logged (Except (Directive × IssueFault) EnabledIssues)
  | [] => pure (.ok e)
  | d :: ds => do
    match ← e.apply d with
    | .error fault => return .error (d, fault)
    | .ok e => e.applyAll ds

end EnabledIssues

end OverrideAudit
