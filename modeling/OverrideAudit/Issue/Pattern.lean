import OverrideAudit.Text.Basic

/-! Patterns that a whole text may match: `?` for one character, `*` for any characters, classes in
brackets, and `**` as a whole component between slashes. -/
namespace OverrideAudit

structure CharSpan where
  first : Char
  last : Char
deriving DecidableEq, Repr

def CharSpan.has (s : CharSpan) (c : Char) : Bool := s.first ≤ c && c ≤ s.last

def readSpans : Text → List CharSpan
  | a :: '-' :: b :: r => ⟨a, b⟩ :: readSpans r
  | c :: r => ⟨c, c⟩ :: readSpans r
  | [] => []

inductive PatternPart
  | exactly (c : Char)
  | anyChar
  | anyText
  | anyFolders
  | among (spans : List CharSpan)
  | notAmong (spans : List CharSpan)
deriving DecidableEq, Repr

inductive PatternReason
  | tooManyStars
  | starsInComponent
  | badClass
deriving DecidableEq, Repr

structure PatternFault where
  position : Nat
  reason : PatternReason
deriving DecidableEq, Repr

def PatternReason.message : PatternReason → Text
  | tooManyStars => "wildcards are either regular `*` or recursive `**`".toList
  | starsInComponent => "recursive wildcards must form a single path component".toList
  | badClass => "invalid range pattern".toList

def PatternFault.message (f : PatternFault) : Text :=
  "Pattern syntax error near position ".toList ++ Text.ofNat f.position ++ ": ".toList ++
    f.reason.message

theorem Text.length_of_cutWhere {p : Char → Bool} {t a b : Text} (h : t.cutWhere p = some (a, b)) :
    b.length < t.length := by
  induction t generalizing a b with
  | nil => simp [Text.cutWhere] at h
  | cons c r ih =>
    by_cases hc : p c = true
    · simp only [Text.cutWhere, hc, if_true, Option.some.injEq, Prod.mk.injEq] at h
      simp [h.2]
    · simp only [Text.cutWhere, hc, Bool.false_eq_true, if_false, Option.map_eq_some_iff] at h
      obtain ⟨⟨a', b'⟩, h', e⟩ := h
      simp only [Prod.mk.injEq] at e
      have := ih h'
      simp only [List.length_cons, ← e.2]
      omega

/-- Reads the parts of a pattern from a position on, where `before` is the character in front. -/
def readParts (position : Nat) (before : Option Char) (t : Text) :
    Except PatternFault (List PatternPart) :=
  match t with
  | [] => .ok []
  | '?' :: r => do return .anyChar :: (← readParts (position + 1) (some '?') r)
  | '*' :: '*' :: '*' :: _ => .error ⟨position + 2, .tooManyStars⟩
  | '*' :: '*' :: r =>
    if before = none ∨ before = some '/' then
      match r with
      | [] => .ok [.anyFolders]
      | '/' :: r => do return .anyFolders :: (← readParts (position + 3) (some '/') r)
      | _ => .error ⟨position + 2, .starsInComponent⟩
    else .error ⟨position - 1, .starsInComponent⟩
  | '*' :: r => do return .anyText :: (← readParts (position + 1) (some '*') r)
  | '[' :: '!' :: c :: r =>
    match h : Text.cutAt ']' r with
    | none => .error ⟨position, .badClass⟩
    | some (cs, rest) => do
      have : rest.length < r.length := Text.length_of_cutWhere h
      return .notAmong (readSpans (c :: cs)) ::
        (← readParts (position + cs.length + 4) (some ']') rest)
  | '[' :: c :: r =>
    match h : Text.cutAt ']' r with
    | none => .error ⟨position, .badClass⟩
    | some (cs, rest) => do
      have : rest.length < r.length := Text.length_of_cutWhere h
      return .among (readSpans (c :: cs)) ::
        (← readParts (position + cs.length + 3) (some ']') rest)
  | ['['] => .error ⟨position, .badClass⟩
  | c :: r => do return .exactly c :: (← readParts (position + 1) (some c) r)
termination_by t.length
decreasing_by all_goals simp_all; try omega

structure Pattern where
  parts : List PatternPart
deriving DecidableEq, Repr

def componentSuffixes : Text → List Text
  | [] => [[]]
  | c :: r => if c = '/' then r :: componentSuffixes r else componentSuffixes r

def PatternPart.remainders : PatternPart → Text → List Text
  | anyText, t => (List.range (t.length + 1)).map t.drop
  | anyFolders, t => t :: componentSuffixes t
  | exactly e, c :: r => if c = e then [r] else []
  | anyChar, _ :: r => [r]
  | among spans, c :: r => if spans.any (·.has c) then [r] else []
  | notAmong spans, c :: r => if spans.any (·.has c) then [] else [r]
  | _, [] => []

/-- What parts may leave, one after another, of one of the given texts. Each remainder is kept once,
so that there are never more of them than the longest text has suffixes. -/
def remaindersOf (parts : List PatternPart) (texts : List Text) : List Text :=
  parts.foldl (fun left part => (left.flatMap part.remainders).eraseDups) texts

namespace Pattern

def read (t : Text) : Except PatternFault Pattern := (readParts 0 none t).map Pattern.mk

def matchesText (p : Pattern) (t : Text) : Bool := (remaindersOf p.parts [t]).contains []

end Pattern
end OverrideAudit
