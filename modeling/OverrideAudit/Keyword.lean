import OverrideAudit.Text.Basic

/-! Keywords of packages and the list of keywords that are accepted. -/
namespace OverrideAudit

inductive Stability
  | stable
  | testing
  | broken
  | any
deriving DecidableEq, Repr

structure Keyword where
  value : Text
deriving DecidableEq, Repr

namespace Keyword

def everything : Text := ['*', '*']

def read (t : Text) : Keyword := ⟨t.trim⟩

def stability (k : Keyword) : Stability :=
  if k.value = everything then .any
  else match k.value with
    | '~' :: _ => .testing
    | '-' :: _ => .broken
    | _ => .stable

def arch (k : Keyword) : Text :=
  if k.value = everything then ['*']
  else match k.value with
    | '~' :: arch => arch
    | '-' :: arch => arch
    | arch => arch

def hasStability (s : Stability) (other : Text) : Bool :=
  match s with
  | .any => true
  | .stable => !other.startsWith ['~'] && !other.startsWith ['-']
  | .testing => other.startsWith ['~']
  | .broken => other.startsWith ['-']

/-- Whether accepting the keyword accepts a package keyword. Testing includes stable. -/
def accepts (k : Keyword) (other : Text) : Bool :=
  if k.arch = ['*'] then hasStability k.stability other
  else k.value == other || (k.stability == .testing && other == k.arch)

def testingForm? (k : Keyword) : Option Text :=
  if k.stability = .stable ∧ k.arch ≠ ['*'] then some ('~' :: k.arch) else none

end Keyword

structure AcceptedKeywords where
  values : List Text
deriving DecidableEq, Repr

namespace AcceptedKeywords

def empty : AcceptedKeywords := ⟨[]⟩

def keywords (a : AcceptedKeywords) : List Keyword := a.values.map Keyword.mk

/-- Applies a token without blanks at its ends: `-*` clears the list, `-keyword` removes a keyword
and any other token adds itself once. -/
def applyTrimmed (a : AcceptedKeywords) (token : Text) : AcceptedKeywords :=
  match token with
  | [] => a
  | ['-', '*'] => empty
  | '-' :: removed => ⟨a.values.filter (· != removed)⟩
  | added => if a.values.contains added then a else ⟨a.values ++ [added]⟩

def apply (a : AcceptedKeywords) (token : Text) : AcceptedKeywords := a.applyTrimmed token.trim

def applyAll (a : AcceptedKeywords) (tokens : List Text) : AcceptedKeywords :=
  tokens.foldl apply a

def ofText (t : Text) : AcceptedKeywords := empty.applyAll t.words

/-- What an override without keywords accepts: the testing form of every accepted stable keyword,
each once. -/
def testingForms (a : AcceptedKeywords) : List Text :=
  (a.keywords.filterMap Keyword.testingForm?).eraseDups

def admits (a : AcceptedKeywords) (packageKeywords : List Text) : Bool :=
  a.values.contains Keyword.everything ||
    packageKeywords.any fun other => a.keywords.any (·.accepts other)

end AcceptedKeywords
end OverrideAudit
