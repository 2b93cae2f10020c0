import OverrideAudit.Log.Logged
import OverrideAudit.Log.ValuePattern

/-! Filters that choose the messages to show. A filter is written as directives with commas between
them: `level`, `target`, `target=level` or `target[span{field}]=level`. Of the directives that are
about a message the most specific decides. -/
namespace OverrideAudit

/-- A directive: the messages that it is about, and the least important severity that it shows. It
shows none if it has no severity. -/
structure LogDirective where
  target : Option Text
  span : Option Text
  field : Option Text
  shown : Option Severity
deriving DecidableEq, Repr

inductive LogFilterFault
  | malformed
  | insideCharacter
deriving DecidableEq, Repr

def logLevels : List (Text × Option Severity) :=
  [("off".toList, none), ("error".toList, some .error), ("warn".toList, some .warning),
    ("info".toList, some .info), ("debug".toList, some .debug), ("trace".toList, some .trace)]

def readLevelNumber? (t : Text) : Option Nat :=
  let digits := (['+'].isPrefixOf? t).getD t
  if digits.isEmpty then none
  else match digits.dropWhile (· == '0') with
    | [] => some 0
    | [c] => if c.isDigit then some (c.toNat - '0'.toNat) else none
    | _ => none

def readLevel? (t : Text) : Option (Option Severity) :=
  match readLevelNumber? t with
  | some n => logLevels[n]?.map Prod.snd
  | none => logLevels.lookup (t.map Char.toLower)

def Text.dropBytes? : Nat → Text → Option Text
  | 0, t => some t
  | _ + 1, [] => none
  | n + 1, c :: r => if c.utf8Size ≤ n + 1 then dropBytes? (n + 1 - c.utf8Size) r else none

def Text.takeBytes? : Nat → Text → Option Text
  | 0, _ => some []
  | _ + 1, [] => none
  | n + 1, c :: r =>
    if c.utf8Size ≤ n + 1 then (takeBytes? (n + 1 - c.utf8Size) r).map (c :: ·) else none

namespace LogDirective

def cut (whole : Text) (start stop : Nat) : Except LogFilterFault Text :=
  match Text.dropBytes? start whole >>= Text.takeBytes? (stop - start) with
  | some t => .ok t
  | none => .error .insideCharacter

def levelFrom (whole : Text) (start : Nat) : Except LogFilterFault (Option Severity) :=
  match Text.dropBytes? start whole with
  | none => .error .insideCharacter
  | some [] => .ok (some .trace)
  | some t =>
    match readLevel? t with
    | some level => .ok level
    | none => .error .malformed

def readBehindSpan (d : LogDirective) (whole : Text) (position : Nat) :
    Text → Except LogFilterFault LogDirective
  | [] => .ok d
  | '=' :: _ => do return { d with shown := ← levelFrom whole (position + 1) }
  | _ => .error .malformed

/-- Whether a text can be a field: a name, or a name and a value. What follows a second equals sign
does not count. -/
def isField (t : Text) : Bool :=
  match t.splitOn '=' with
  | _ :: value :: _ => isFieldValue value
  | _ => !t.isEmpty

def readField (d : LogDirective) (whole : Text) (position : Nat) (t : Text) :
    Except LogFilterFault LogDirective :=
  let stop := position + Text.utf8Length (t.takeWhile (· != '\x7d'))
  match t.dropWhile (· != '\x7d') with
  | [] => .error .malformed
  | _ :: r => do
    let field ← cut whole position stop
    match r with
    | ']' :: r =>
      if !isField field then .error .malformed
      else readBehindSpan { d with field := some field } whole (stop + 2) r
    | _ => .error .malformed

def readSpan (target : Option Text) (whole : Text) (position : Nat) (t : Text) :
    Except LogFilterFault LogDirective :=
  let isEnd := fun c => c == ']' || c == '\x7b'
  let stop := position + Text.utf8Length (t.takeWhile (!isEnd ·))
  match t.dropWhile (!isEnd ·) with
  | [] => .error .malformed
  | c :: r => do
    let span ← cut whole position stop
    if c == ']' then readBehindSpan ⟨target, some span, none, some .trace⟩ whole (stop + 1) r
    else
      let span := if span.isEmpty then none else some span
      readField ⟨target, span, none, some .trace⟩ whole (stop + 1) r

def isFront (c : Char) : Bool := isAlphanumeric c || c == '-' || c == ':' || c == '_'

/-- Reads a directive. Its components are found by position in the trimmed text, and cut out of the
text as it is; so a directive with blanks in front is about nothing. -/
def read (whole : Text) : Except LogFilterFault LogDirective :=
  match whole.trim with
  | [] => .error .malformed
  | '[' :: r => readSpan none whole 1 r
  | c :: r =>
    let isEnd := fun c => c == '=' || c == '['
    if !isFront c then .error .malformed
    else
      let stop := Text.utf8Length (c :: r.takeWhile (!isEnd ·))
      match r.dropWhile (!isEnd ·) with
      | [] =>
        match readLevel? whole with
        | some level => .ok ⟨none, none, none, level⟩
        | none => .ok ⟨some whole, none, none, some .trace⟩
      | mark :: r => do
        let target ← cut whole 0 stop
        if mark == '[' then readSpan (some target) whole (stop + 1) r
        else return ⟨some target, none, none, ← levelFrom whole (stop + 1)⟩

/-- Whether a directive is about the messages of a part. No message is written in a span, and the
only field of a message is its text. -/
def concerns (d : LogDirective) (part : LogPart) : Bool :=
  d.span.isNone && d.field.all (· == "message".toList) && d.target.all part.name.startsWith

def specificity (d : LogDirective) : Nat :=
  2 * d.target.elim 0 (·.utf8Length + 1) + d.field.elim 0 fun _ => 1

end LogDirective

structure LogFilter where
  directives : List LogDirective
deriving DecidableEq, Repr

namespace LogFilter

def upTo (s : Severity) : LogFilter := ⟨[⟨none, none, none, some s⟩]⟩

def read (t : Text) : Except LogFilterFault LogFilter := do
  return ⟨← ((t.splitOn ',').filter fun d => !d.isEmpty).mapM LogDirective.read⟩

/-- The directive that decides about the messages of a part: the most specific one, and of several
the last. -/
def deciding? (f : LogFilter) (part : LogPart) : Option LogDirective :=
  (f.directives.filter (·.concerns part)).foldl (fun best d =>
    if best.any fun b => d.specificity < b.specificity then best else some d) none

def shows (f : LogFilter) (part : LogPart) (s : Severity) : Bool :=
  ((f.deciding? part).bind LogDirective.shown).any fun least => s.rank ≤ least.rank

end LogFilter
end OverrideAudit
