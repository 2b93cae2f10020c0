import OverrideAudit.Text.Basic

/-! JSON values and how they are read. Every reader answers with the rest of the text. -/
namespace OverrideAudit

/-- A JSON value. A string with half of a surrogate pair is well formed but has no text; of a number
only its presence counts. -/
inductive Json
  | null
  | boolean (b : Bool)
  | number
  | string (text : Option Text)
  | array (items : List Json)
  | object (members : List (Option Text × Json))
deriving Repr, Inhabited

namespace Json

def isGap (c : Char) : Bool := c == ' ' || c == '\n' || c == '\t' || c == '\r'

def skipGap (t : Text) : Text := t.dropWhile isGap

def hexValue? (c : Char) : Option Nat :=
  if c.isDigit then some (c.toNat - '0'.toNat)
  else if 'a' ≤ c ∧ c ≤ 'f' then some (c.toNat - 'a'.toNat + 10)
  else if 'A' ≤ c ∧ c ≤ 'F' then some (c.toNat - 'A'.toNat + 10)
  else none

def takeUnit? : Text → Option (Nat × Text)
  | a :: b :: c :: d :: r => do
    return ((((← hexValue? a) * 16 + (← hexValue? b)) * 16 + (← hexValue? c)) * 16 +
      (← hexValue? d), r)
  | _ => none

def escaped? : Char → Option Char
  | '"' => some '"'
  | '\\' => some '\\'
  | '/' => some '/'
  | 'b' => some '\x08'
  | 'f' => some '\x0c'
  | 'n' => some '\n'
  | 'r' => some '\r'
  | 't' => some '\t'
  | _ => none

inductive StringPart
  | char (c : Char)
  | unit (n : Nat)
deriving DecidableEq, Repr

def isHighSurrogate (n : Nat) : Bool := 0xD800 ≤ n && n ≤ 0xDBFF

def isLowSurrogate (n : Nat) : Bool := 0xDC00 ≤ n && n ≤ 0xDFFF

/-- The text of the parts of a string, if each surrogate has its other half. -/
def textOfParts : List StringPart → Option Text
  | [] => some []
  | .char c :: parts => (textOfParts parts).map (c :: ·)
  | .unit high :: .unit low :: parts =>
    if isHighSurrogate high then
      if isLowSurrogate low then
        (textOfParts parts).map
          (Char.ofNat (0x10000 + (high - 0xD800) * 0x400 + (low - 0xDC00)) :: ·)
      else none
    else if isLowSurrogate high then none
    else (textOfParts (.unit low :: parts)).map (Char.ofNat high :: ·)
  | .unit n :: parts =>
    if isHighSurrogate n || isLowSurrogate n then none
    else (textOfParts parts).map (Char.ofNat n :: ·)

def membersNamed (name : Text) (members : List (Option Text × Json)) : List Json :=
  members.filterMap fun (key, value) => if key = some name then some value else none

def takeParts? : Text → Option (List StringPart × Text)
  | [] => none
  | '"' :: r => some ([], r)
  | '\\' :: 'u' :: a :: b :: c :: d :: r => do
    let (n, _) ← takeUnit? [a, b, c, d]
    let (parts, rest) ← takeParts? r
    return (.unit n :: parts, rest)
  | '\\' :: e :: r => do
    let c ← escaped? e
    let (parts, rest) ← takeParts? r
    return (.char c :: parts, rest)
  | c :: r =>
    if c.toNat < 0x20 then none
    else do
      let (parts, rest) ← takeParts? r
      return (.char c :: parts, rest)

def takeString? (t : Text) : Option (Option Text × Text) :=
  (takeParts? t).map fun (parts, rest) => (textOfParts parts, rest)

def afterDigits? (t : Text) : Option Text :=
  match t with
  | c :: r => if c.isDigit then some (r.dropWhile Char.isDigit) else none
  | [] => none

def afterWhole? : Text → Option Text
  | '0' :: r => if r.head?.any Char.isDigit then none else some r
  | t => afterDigits? t

def afterFraction? : Text → Option Text
  | '.' :: r => afterDigits? r
  | t => some t

def afterExponent? : Text → Option Text
  | c :: r =>
    if c = 'e' ∨ c = 'E' then
      match r with
      | '+' :: r => afterDigits? r
      | '-' :: r => afterDigits? r
      | r => afterDigits? r
    else some (c :: r)
  | [] => some []

def afterNumber? (t : Text) : Option Text :=
  let unsigned := match t with | '-' :: r => r | r => r
  afterWhole? unsigned >>= afterFraction? >>= afterExponent?

def takeScalar? : Text → Option (Json × Text)
  | 'n' :: 'u' :: 'l' :: 'l' :: r => some (null, r)
  | 't' :: 'r' :: 'u' :: 'e' :: r => some (boolean true, r)
  | 'f' :: 'a' :: 'l' :: 's' :: 'e' :: r => some (boolean false, r)
  | '"' :: r => (takeString? r).map fun (text, rest) => (string text, rest)
  | t => (afterNumber? t).map (number, ·)

def takeKey? : Text → Option (Option Text × Text)
  | '"' :: r => do
    let (key, rest) ← takeString? r
    match skipGap rest with
    | ':' :: rest => return (key, rest)
    | _ => none
  | _ => none

mutual

def takeValue? : Nat → Text → Option (Json × Text)
  | 0, _ => none
  | fuel + 1, t =>
    match skipGap t with
    | '[' :: r =>
      match skipGap r with
      | ']' :: rest => some (array [], rest)
      | r => (takeItems? fuel r).map fun (items, rest) => (array items, rest)
    | '\x7b' :: r =>
      match skipGap r with
      | '\x7d' :: rest => some (object [], rest)
      | r => (takeMembers? fuel r).map fun (members, rest) => (object members, rest)
    | t => takeScalar? t

def takeItems? : Nat → Text → Option (List Json × Text)
  | 0, _ => none
  | fuel + 1, t => do
    let (item, rest) ← takeValue? fuel t
    match skipGap rest with
    | ']' :: rest => return ([item], rest)
    | ',' :: rest => (takeItems? fuel rest).map fun (items, rest) => (item :: items, rest)
    | _ => none

def takeMembers? : Nat → Text → Option (List (Option Text × Json) × Text)
  | 0, _ => none
  | fuel + 1, t => do
    let (key, rest) ← takeKey? (skipGap t)
    let (value, rest) ← takeValue? fuel rest
    match skipGap rest with
    | '\x7d' :: rest => return ([(key, value)], rest)
    | ',' :: rest =>
      (takeMembers? fuel rest).map fun (members, rest) => ((key, value) :: members, rest)
    | _ => none

end

/-- Reads a whole text as one value. Each value, item and member takes a character at least, so the
steps suffice. -/
def read? (t : Text) : Option Json := do
  let (value, rest) ← takeValue? (2 * t.length + 2) t
  if (skipGap rest).isEmpty then return value else none

end Json

end OverrideAudit
