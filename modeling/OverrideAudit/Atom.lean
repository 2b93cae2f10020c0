import OverrideAudit.Version

/-! Package versions `category/name-version`, and atoms such as
`>=category/name-1.0:slot/subslot::repository`. The parts of an atom are peeled off from outside:
the operator in front, then the repository, the slot and the wildcard at the end, then the category
and the version. -/
namespace OverrideAudit

structure PackageName where
  category : Text
  name : Text
deriving DecidableEq, Repr

namespace PackageName

def toText (p : PackageName) : Text := p.category ++ '/' :: p.name

def compare (p q : PackageName) : Ordering :=
  (Ord.compare p.category q.category).then (Ord.compare p.name q.name)

instance : Ord PackageName := ⟨PackageName.compare⟩

end PackageName

structure Cpv where
  category : Text
  name : Text
  version : Version
deriving DecidableEq, Repr

namespace Cpv

def package (c : Cpv) : PackageName := ⟨c.category, c.name⟩

def toText (c : Cpv) : Text := c.package.toText ++ '-' :: c.version.toText

def compare (c d : Cpv) : Ordering :=
  (PackageName.compare c.package d.package).then (Version.compare c.version d.version)

instance : Ord Cpv := ⟨Cpv.compare⟩

def sameAs (c d : Cpv) : Bool :=
  c.category == d.category && c.name == d.name && c.version.sameAs d.version

def readPlainVersion? (t : Text) : Option Version :=
  match t with
  | c :: _ => if c.isDigit then Version.read? t else none
  | [] => none

/-- Cuts at the first hyphen that a version follows, also at the very front. -/
def cutVersion? : Text → Option (Text × Version)
  | [] => none
  | c :: r =>
    let later := (cutVersion? r).map fun (name, v) => (c :: name, v)
    if c = '-' then
      match readPlainVersion? r with
      | some v => some ([], v)
      | none => later
    else later

def cutNameVersion? : Text → Option (Text × Version)
  | [] => none
  | c :: r => (cutVersion? r).map fun (name, v) => (c :: name, v)

def read (t : Text) : Except ReadFault Cpv :=
  match t.cutAt '/' with
  | none => .error (.atom .noCategory t)
  | some (category, rest) =>
    if category.isEmpty || rest.contains '/' then .error (.atom .malformed t)
    else match cutNameVersion? rest with
      | none => .error (.version t)
      | some (name, version) => .ok { category, name, version }

end Cpv

inductive Operator
  | any
  | equal
  | greater
  | greaterEqual
  | less
  | lessEqual
  | glob
  | anyRevision
deriving DecidableEq, Repr

def Operator.sign : Operator → Text
  | any => []
  | equal | glob => ['=']
  | greater => ['>']
  | greaterEqual => ['>', '=']
  | less => ['<']
  | lessEqual => ['<', '=']
  | anyRevision => ['~']

def Operator.admits (op : Operator) (wanted candidate : Version) : Bool :=
  match op with
  | any => true
  | equal => candidate.sameAs wanted
  | greater => candidate.compare wanted == .gt
  | greaterEqual => candidate.compare wanted != .lt
  | less => candidate.compare wanted == .lt
  | lessEqual => candidate.compare wanted != .gt
  | glob => candidate.toText.startsWith wanted.toText
  | anyRevision => candidate.compareUnrevised wanted == .eq

/-- An atom. A version without operator and an operator without version can be written down here,
but no text reads as one. -/
structure Atom where
  operator : Operator
  category : Text
  name : Text
  version : Option Version
  slot : Option Text
  subslot : Option Text
  repository : Option Text
deriving DecidableEq, Repr

namespace Atom

def ofPackage (p : PackageName) : Atom := ⟨.any, p.category, p.name, none, none, none, none⟩

def packageName (a : Atom) : PackageName := ⟨a.category, a.name⟩

def package (a : Atom) : Atom := ofPackage a.packageName

def hasVersion (a : Atom) : Bool := a.version.isSome

def slotText (a : Atom) : Text :=
  a.slot.elim [] fun slot => ':' :: slot ++ a.subslot.elim [] fun sub => '/' :: sub

def toText (a : Atom) : Text :=
  a.operator.sign ++ a.packageName.toText ++ (a.version.elim [] fun v => '-' :: v.toText) ++
    (if a.operator = .glob then ['*'] else []) ++ a.slotText ++
    (a.repository.elim [] fun r => ':' :: ':' :: r)

def sameAs (a b : Atom) : Bool :=
  a.operator == b.operator && a.category == b.category && a.name == b.name &&
    (match a.version, b.version with
      | none, none => true
      | some v, some w => v.sameAs w
      | _, _ => false) &&
    a.slot == b.slot && a.subslot == b.subslot && a.repository == b.repository

def isFor (a : Atom) (category name : Text) : Bool :=
  a.category == category && a.name == name

def matchesVersion (a : Atom) (c : Cpv) : Bool :=
  a.isFor c.category c.name &&
    (match a.version with
      | none => true
      | some wanted => a.operator.admits wanted c.version)

def cutSlot (slot : Text) : Text × Option Text :=
  match slot.cutAt '/' with
  | some (s, sub) => (s, some sub)
  | none => (slot, none)

/-- A restriction is met by an equal value and by an unknown one. -/
def meets (wanted known : Option Text) : Bool :=
  match wanted, known with
  | some w, some k => w == k
  | _, _ => true

def meetsSlot (a : Atom) (known : Option Text) : Bool :=
  match a.slot, known with
  | some wanted, some slot => wanted == (cutSlot slot).1 && meets a.subslot (cutSlot slot).2
  | _, _ => true

/-- Whether the atom admits a package version with its slot and repository, where known. -/
def selects (a : Atom) (c : Cpv) (slot repository : Option Text) : Bool :=
  a.matchesVersion c && a.meetsSlot slot && meets a.repository repository

def isWordStart (c : Char) : Bool := c.isAlphanum || c == '_'

def isNameChar (c : Char) : Bool := isWordStart c || c == '+' || c == '-'

def isLabelChar (c : Char) : Bool := isNameChar c || c == '.'

def isName : Text → Bool
  | [] => false
  | c :: r => isWordStart c && r.all isNameChar

def isLabel : Text → Bool
  | [] => false
  | c :: r => isWordStart c && r.all isLabelChar

def takeOperator : Text → Operator × Text
  | '>' :: '=' :: r => (.greaterEqual, r)
  | '<' :: '=' :: r => (.lessEqual, r)
  | '>' :: r => (.greater, r)
  | '<' :: r => (.less, r)
  | '~' :: r => (.anyRevision, r)
  | '=' :: r => (.equal, r)
  | t => (.any, t)

def takeRepository (t : Text) : Except AtomFault (Text × Option Text) :=
  match Text.cutAtText [':', ':'] t with
  | none => .ok (t, none)
  | some (rest, repository) =>
    if isName repository then .ok (rest, some repository) else .error .badRepository

def takeSlot (t : Text) : Except AtomFault (Text × Option Text × Option Text) :=
  match t.cutAt ':' with
  | none => .ok (t, none, none)
  | some (rest, written) =>
    let (slot, subslot) := cutSlot written
    if isLabel slot && subslot.all isLabel then .ok (rest, some slot, subslot)
    else .error .badSlot

/-- A wildcard at the end makes an equality a glob and is out of place elsewhere. -/
def takeWildcard (op : Operator) (t : Text) : Except AtomFault (Operator × Text) :=
  match ['*'].isSuffixOf? t with
  | none => .ok (op, t)
  | some rest => if op = .equal then .ok (.glob, rest) else .error .misplacedWildcard

/-- The name and version behind the category: a version exactly with an operator. -/
def takeVersion (op : Operator) (t : Text) : Except AtomFault (Text × Option Version) :=
  match op, Cpv.cutNameVersion? t with
  | .any, some _ => .error .versionWithoutOperator
  | .any, none => .ok (t, none)
  | _, none => .error .operatorWithoutVersion
  | _, some (name, v) => .ok (name, some v)

def readTrimmed (t : Text) : Except AtomFault Atom :=
  if t.isEmpty then .error .empty
  else do
    let (op, t) := takeOperator t
    let (t, repository) ← takeRepository t
    let (t, slot, subslot) ← takeSlot t
    let (operator, t) ← takeWildcard op t
    match t.cutAt '/' with
    | none => .error .noCategory
    | some (category, t) =>
      if isLabel category then do
        let (name, version) ← takeVersion operator t
        if isName name then
          return { operator, category, name, version, slot, subslot, repository }
        else .error .badName
      else .error .badCategory

def read (t : Text) : Except ReadFault Atom :=
  (readTrimmed t.trim).mapError fun fault => .atom fault t.trim

def isValid (t : Text) : Bool := (read t).toBool

end Atom

end OverrideAudit
