import OverrideAudit.Fault

/-! Package versions, such as `1.0b_rc2-r3`, and their order: numerals, then the letter, then
suffixes, then the revision. -/
namespace OverrideAudit

/-- Runs of the characters of the general category Nd of Unicode 16: first code point and number. -/
def decimalDigitRuns : List (Nat × Nat) :=
  [(0x0030, 10), (0x0660, 10), (0x06F0, 10), (0x07C0, 10), (0x0966, 10), (0x09E6, 10), (0x0A66, 10),
   (0x0AE6, 10), (0x0B66, 10), (0x0BE6, 10), (0x0C66, 10), (0x0CE6, 10), (0x0D66, 10), (0x0DE6, 10),
   (0x0E50, 10), (0x0ED0, 10), (0x0F20, 10), (0x1040, 10), (0x1090, 10), (0x17E0, 10), (0x1810, 10),
   (0x1946, 10), (0x19D0, 10), (0x1A80, 10), (0x1A90, 10), (0x1B50, 10), (0x1BB0, 10), (0x1C40, 10),
   (0x1C50, 10), (0xA620, 10), (0xA8D0, 10), (0xA900, 10), (0xA9D0, 10), (0xA9F0, 10), (0xAA50, 10),
   (0xABF0, 10), (0xFF10, 10), (0x104A0, 10), (0x10D30, 10), (0x10D40, 10), (0x11066, 10),
   (0x110F0, 10), (0x11136, 10), (0x111D0, 10), (0x112F0, 10), (0x11450, 10), (0x114D0, 10),
   (0x11650, 10), (0x116C0, 10), (0x116D0, 20), (0x11730, 10), (0x118E0, 10), (0x11950, 10),
   (0x11BF0, 10), (0x11C50, 10), (0x11D50, 10), (0x11DA0, 10), (0x11F50, 10), (0x16130, 10),
   (0x16A60, 10), (0x16AC0, 10), (0x16B50, 10), (0x16D70, 10), (0x1CCF0, 10), (0x1D7CE, 50),
   (0x1E140, 10), (0x1E2F0, 10), (0x1E4F0, 10), (0x1E5F1, 10), (0x1E950, 10), (0x1FBF0, 10)]

def isDecimalDigit (c : Char) : Bool :=
  c.isDigit || decimalDigitRuns.any fun (first, count) => first ≤ c.toNat && c.toNat < first + count

theorem toNat_of_isDecimalDigit {c : Char} (h : isDecimalDigit c = true) :
    (48 ≤ c.toNat ∧ c.toNat < 58) ∨ 0x660 ≤ c.toNat := by
  have runs : ∀ r ∈ decimalDigitRuns, r = (48, 10) ∨ 0x660 ≤ r.1 := by decide
  rw [isDecimalDigit, Bool.or_eq_true, List.any_eq_true] at h
  rcases h with h | ⟨r, hr, h⟩
  · simp only [Char.isDigit, Bool.and_eq_true, decide_eq_true_eq] at h
    exact .inl ⟨h.1, Nat.lt_succ_of_le h.2⟩
  · simp only [Bool.and_eq_true, decide_eq_true_eq] at h
    rcases runs r hr with rfl | hf
    · exact .inl h
    · exact .inr (Nat.le_trans hf h.1)

inductive SuffixKind
  | alpha
  | beta
  | pre
  | rc
  | patch
deriving DecidableEq, Repr

namespace SuffixKind

def all : List SuffixKind := [alpha, beta, pre, rc, patch]

def word : SuffixKind → Text
  | alpha => "alpha".toList
  | beta => "beta".toList
  | pre => "pre".toList
  | rc => "rc".toList
  | patch => "p".toList

def rank : SuffixKind → Nat
  | alpha => 0
  | beta => 1
  | pre => 2
  | rc => 3
  | patch => 4

end SuffixKind

structure Suffix where
  kind : SuffixKind
  number : Text
deriving DecidableEq, Repr

def Suffix.toText (s : Suffix) : Text := s.kind.word ++ s.number

/-- A version. Its numerals are kept as written, since leading zeros matter. -/
structure Version where
  first : Text
  others : List Text
  letter : Option Char
  suffixes : List Suffix
  writtenRevision : Option Text
deriving DecidableEq, Repr

namespace Version

def numbers (v : Version) : List Text := v.first :: v.others

def revision (v : Version) : Text := v.writtenRevision.getD ['0']

def toText (v : Version) : Text :=
  ['.'].intercalate v.numbers ++ v.letter.toList ++
    v.suffixes.flatMap (fun s => '_' :: s.toText) ++
    (v.writtenRevision.elim [] fun r => '-' :: 'r' :: r)

def isNumeral (t : Text) : Bool := !t.isEmpty && t.all isDecimalDigit

def isNumberChar (c : Char) : Bool := isDecimalDigit c || c == '.'

def takeLetter : Text → Option Char × Text
  | [] => (none, [])
  | c :: r => if 'a' ≤ c && c ≤ 'z' then (some c, r) else (none, c :: r)

def readSuffix? (t : Text) : Option Suffix :=
  SuffixKind.all.findSome? fun kind =>
    match kind.word.isPrefixOf? t with
    | some number => if number.all isDecimalDigit then some ⟨kind, number⟩ else none
    | none => none

def readSuffixes? (t : Text) : Option (List Suffix) :=
  match t.splitOn '_' with
  | [] :: pieces => pieces.mapM readSuffix?
  | _ => none

def readRevision? : Text → Option (Option Text)
  | [] => some none
  | '-' :: 'r' :: number => if isNumeral number then some (some number) else none
  | _ => none

def read? (t : Text) : Option Version :=
  let (letter, tail) := takeLetter (t.dropWhile isNumberChar)
  match (t.takeWhile isNumberChar).splitOn '.' with
  | [] => none
  | first :: others =>
    if isNumeral first && others.all isNumeral then do
      let suffixes ← readSuffixes? (tail.takeWhile (· != '-'))
      let writtenRevision ← readRevision? (tail.dropWhile (· != '-'))
      return { first, others, letter, suffixes, writtenRevision }
    else none

def read (t : Text) : Except ReadFault Version :=
  match read? t with
  | some v => .ok v
  | none => .error (.version t)

def dropLeadingZeros (n : Text) : Text := n.dropWhile (· == '0')

def dropTrailingZeros (n : Text) : Text := Text.trimBackWhere (· == '0') n

/-- Numerals of any length as whole numbers: more bytes are more, and of two with as many bytes the
greater text. -/
def compareWhole (a b : Text) : Ordering :=
  let a := dropLeadingZeros a
  let b := dropLeadingZeros b
  (compare a.utf8Length b.utf8Length).then (compare a b)

/-- Numerals behind the first: one with a zero in front makes both count as decimal fractions. -/
def compareFraction (a b : Text) : Ordering :=
  if a.startsWith ['0'] || b.startsWith ['0'] then
    compare (dropTrailingZeros a) (dropTrailingZeros b)
  else compareWhole a b

def compareOthers : List Text → List Text → Ordering
  | [], [] => .eq
  | [], _ :: _ => .lt
  | _ :: _, [] => .gt
  | a :: as, b :: bs => (compareFraction a b).then (compareOthers as bs)

def compareSuffix (a b : Suffix) : Ordering :=
  (compare a.kind.rank b.kind.rank).then (compareWhole a.number b.number)

/-- Suffixes position by position. The end of a list stands below a patch level and above every
other suffix. -/
def compareSuffixes : List Suffix → List Suffix → Ordering
  | [], [] => .eq
  | [], b :: _ => if b.kind = .patch then .lt else .gt
  | a :: _, [] => if a.kind = .patch then .gt else .lt
  | a :: as, b :: bs => (compareSuffix a b).then (compareSuffixes as bs)

def compareUnrevised (v w : Version) : Ordering :=
  (compareWhole v.first w.first).then <|
    (compareOthers v.others w.others).then <|
    (compare (v.letter.map Char.toNat) (w.letter.map Char.toNat)).then <|
    compareSuffixes v.suffixes w.suffixes

def compare (v w : Version) : Ordering :=
  (compareUnrevised v w).then (compareWhole v.revision w.revision)

instance : Ord Version := ⟨Version.compare⟩

def sameAs (v w : Version) : Bool := compare v w == .eq

end Version

end OverrideAudit
