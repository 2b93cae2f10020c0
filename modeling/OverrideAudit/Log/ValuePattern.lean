import OverrideAudit.Text.Alphanumeric
import OverrideAudit.Text.Basic

/-! Values in the directives of a log filter: numbers, or regular expressions of which only the form
counts. A scan goes through an expression character by character and fails where it is broken. -/
namespace OverrideAudit

/-- Where a scan of an expression stands. `groups` and `classes` are open; `repeatable` tells
whether something stands in front that can be repeated, and `previous` is a member that can start a
range. -/
inductive ValueScan
  | item (groups : Nat) (repeatable : Bool)
  | escape (groups : Nat)
  | digits (groups classes count : Nat)
  | property (groups classes : Nat)
  | opened (groups : Nat)
  | marked (groups : Nat) (flags : Text)
  | named (groups : Nat)
  | name (groups : Nat) (read : Text)
  | classFront (groups classes : Nat) (negated : Bool)
  | member (groups classes : Nat) (previous : Option Char)
  | range (groups classes : Nat) (first : Char)
  | classEscape (groups classes : Nat) (first : Option Char)
deriving DecidableEq, Repr

namespace ValueScan

def letterEscapes : List (Char × Char) :=
  [('a', '\x07'), ('f', '\x0c'), ('t', '\t'), ('n', '\n'), ('r', '\r'), ('v', '\x0b')]

def isSetEscape (c : Char) : Bool := "dDsSwW".toList.contains c

def escaped? (c : Char) : Option Char :=
  if c.toNat < 128 && !c.isAlphanum && c != '<' && c != '>' then some c
  else letterEscapes.lookup c

def digitCount? (c : Char) : Option Nat := [('x', 2), ('u', 4), ('U', 8)].lookup c

def isHexDigit (c : Char) : Bool :=
  c.isDigit || ('a' ≤ c && c ≤ 'f') || ('A' ≤ c && c ≤ 'F')

def behindPart (groups classes : Nat) : ValueScan :=
  if classes = 0 then item groups true else member groups classes none

def stepItem (groups : Nat) (repeatable : Bool) (c : Char) : Option ValueScan :=
  if c == '(' then some (opened (groups + 1))
  else if c == ')' then if groups = 0 then none else some (item (groups - 1) true)
  else if c == '[' then some (classFront groups 1 false)
  else if c == '|' then some (item groups false)
  else if c == '\\' then some (escape groups)
  else if c == '\x7b' then none
  else if !repeatable && (c == '*' || c == '+' || c == '?') then none
  else some (item groups true)

/-- The step between the members of a class. A hyphen behind a member may make a range of it; two
hyphens, ampersands or tildes stand between classes. -/
def stepMember (groups classes : Nat) (previous : Option Char) (c : Char) : Option ValueScan :=
  if c == '[' then some (classFront groups (classes + 1) false)
  else if c == ']' then some (behindPart groups (classes - 1))
  else if c == '\\' then some (classEscape groups classes none)
  else if c == '-' then
    some (previous.elim (member groups classes none) (range groups classes))
  else if (c == '&' || c == '~') && previous == some c then some (member groups classes none)
  else some (member groups classes (some c))

def stepRange (groups classes : Nat) (first c : Char) : Option ValueScan :=
  if c == ']' then stepMember groups classes none c
  else if c == '-' then some (member groups classes none)
  else if c == '\\' then some (classEscape groups classes (some first))
  else if first ≤ c then some (member groups classes none)
  else none

/-- The last character of all, which stands for a set where a range would need its first one. -/
def lastChar : Char := Char.ofNat 0x10FFFF

def stepClassEscape (groups classes : Nat) (first : Option Char) (c : Char) : Option ValueScan :=
  match escaped? c, digitCount? c with
  | some c, _ =>
    if first.all (· ≤ c) then
      some (member groups classes (if first.isSome then none else some c))
    else none
  | none, some count => some (digits groups classes count)
  | none, none =>
    if first.isSome then none
    else if c == 'p' || c == 'P' then some (property groups classes)
    else if isSetEscape c then some (member groups classes (some lastChar))
    else none

def isNamePart (isFirst : Bool) (c : Char) : Bool :=
  c == '_' || (isAlphanumeric c && !(isFirst && c.isDigit)) ||
    (!isFirst && (c == '.' || c == '[' || c == ']'))

def step : ValueScan → Char → Option ValueScan
  | item groups repeatable, c => stepItem groups repeatable c
  | escape groups, c =>
    match digitCount? c with
    | some count => some (digits groups 0 count)
    | none =>
      if c == 'p' || c == 'P' then some (property groups 0)
      else if (escaped? c).isSome || isSetEscape c || c == 'A' || c == 'z' then
        some (item groups true)
      else none
  | digits groups classes count, c =>
    if !isHexDigit c then none
    else if count ≤ 1 then some (behindPart groups classes)
    else some (digits groups classes (count - 1))
  | property groups classes, c =>
    if "clmnpsz".toList.contains c.toLower then some (behindPart groups classes) else none
  | opened groups, c => if c == '?' then some (marked groups []) else stepItem groups false c
  | marked groups flags, c =>
    let proper := flags.getLast? != some '-'
    if c == ':' then if proper then some (item groups false) else none
    else if c == ')' then
      if proper && !flags.isEmpty then some (item (groups - 1) false) else none
    else if flags.contains c then none
    else if "imsUuxR-".toList.contains c then some (marked groups (flags ++ [c]))
    else if !flags.isEmpty then none
    else if c == 'P' then some (named groups)
    else if c == '<' then some (name groups [])
    else none
  | named groups, c => if c == '<' then some (name groups []) else none
  | name groups read, c =>
    if c == '>' then if read.isEmpty then none else some (item groups false)
    else if isNamePart read.isEmpty c then some (name groups (read ++ [c]))
    else none
  | classFront groups classes negated, c =>
    if c == '^' && !negated then some (classFront groups classes true)
    else if c == '-' || c == ']' then some (member groups classes none)
    else stepMember groups classes none c
  | member groups classes previous, c => stepMember groups classes previous c
  | range groups classes first, c => stepRange groups classes first c
  | classEscape groups classes first, c => stepClassEscape groups classes first c

def mayEnd : ValueScan → Bool
  | item 0 _ => true
  | _ => false

end ValueScan

def isExpression (t : Text) : Bool :=
  (t.foldlM ValueScan.step (.item 0 false)).any ValueScan.mayEnd

def isUnsignedNumber (t : Text) : Bool :=
  let digits := fun (t : Text) => t.all Char.isDigit
  let sized := fun (t : Text) =>
    match t.cutAt '.' with
    | some (a, b) => digits a && digits b && !(a.isEmpty && b.isEmpty)
    | none => digits t && !t.isEmpty
  match t.cutWhere (fun c => c == 'e' || c == 'E') with
  | none => sized t
  | some (front, exponent) =>
    let unsigned := match exponent with
      | '+' :: r => r
      | '-' :: r => r
      | r => r
    sized front && digits unsigned && !unsigned.isEmpty

def isPlusNumber : Text → Bool
  | '+' :: r =>
    isUnsignedNumber r ||
      ["inf".toList, "infinity".toList, "nan".toList].contains (r.map Char.toLower)
  | _ => false

def isFieldValue (t : Text) : Bool := isPlusNumber t || isExpression t

end OverrideAudit
