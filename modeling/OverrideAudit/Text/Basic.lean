/-! Texts as lists of characters, so that every scanner is a recursion on its input: trimming, words
and lines, and looking for a piece of text. Lists that insertion keeps in order. -/
namespace OverrideAudit

/-- The code points of White_Space. -/
def isBlankCode (n : Nat) : Bool :=
  (9 ≤ n && n ≤ 13) || n == 32 || n == 0x85 || n == 0xA0 || n == 0x1680 ||
    (0x2000 ≤ n && n ≤ 0x200A) || n == 0x2028 || n == 0x2029 || n == 0x202F || n == 0x205F ||
    n == 0x3000

def isBlank (c : Char) : Bool := isBlankCode c.toNat

/-- A text is the list of its characters; its order is the order by code point. -/
abbrev Text := List Char

namespace Text

def trimFrontWhere (p : Char → Bool) (t : Text) : Text := t.dropWhile p

def trimBackWhere (p : Char → Bool) (t : Text) : Text := (t.reverse.dropWhile p).reverse

def trim (t : Text) : Text := trimBackWhere isBlank (trimFrontWhere isBlank t)

def words (t : Text) : List Text := (t.splitOnP isBlank).filter (fun w => !w.isEmpty)

def cutWhere (p : Char → Bool) : Text → Option (Text × Text)
  | [] => none
  | c :: r => if p c then some ([], r) else (cutWhere p r).map fun (a, b) => (c :: a, b)

def cutAt (sep : Char) (t : Text) : Option (Text × Text) := cutWhere (· == sep) t

def startsWith (t lead : Text) : Bool := lead.isPrefixOf t

def cutAtText (mark : Text) : Text → Option (Text × Text)
  | [] => if mark.isEmpty then some ([], []) else none
  | c :: r =>
    match mark.isPrefixOf? (c :: r) with
    | some rest => some ([], rest)
    | none => (cutAtText mark r).map fun (a, b) => (c :: a, b)

def mentions (t mark : Text) : Bool := (cutAtText mark t).isSome

def utf8Length : Text → Nat
  | [] => 0
  | c :: r => c.utf8Size + utf8Length r

def dropReturn (line : Text) : Text := (['\r'].isSuffixOf? line).getD line

/-- The lines among the pieces between line feeds: the last piece is a line unless it is empty, and
keeps a carriage return at its end. -/
def linesOfPieces : List Text → List Text
  | [] => []
  | [last] => if last.isEmpty then [] else [last]
  | piece :: pieces => dropReturn piece :: linesOfPieces pieces

def lines (t : Text) : List Text := linesOfPieces (t.splitOn '\n')

def ofNat (n : Nat) : Text := (toString n).toList

end Text

section
variable {α : Type _}

def insertStable (cmp : α → α → Ordering) (x : α) : List α → List α
  | [] => [x]
  | y :: ys => if cmp x y = .lt then x :: y :: ys else y :: insertStable cmp x ys

/-- Ascending by `cmp`; elements that compare equal stay in the order they came in. -/
def sortStable (cmp : α → α → Ordering) (xs : List α) : List α :=
  xs.foldl (fun sorted x => insertStable cmp x sorted) []

def insertDistinct (cmp : α → α → Ordering) (x : α) : List α → List α
  | [] => [x]
  | y :: ys =>
    match cmp x y with
    | .lt => x :: y :: ys
    | .eq => y :: ys
    | .gt => y :: insertDistinct cmp x ys

def sortDistinct (cmp : α → α → Ordering) (xs : List α) : List α :=
  xs.foldl (fun sorted x => insertDistinct cmp x sorted) []

end

end OverrideAudit
