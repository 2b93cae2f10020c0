import OverrideAudit.FileTree
import OverrideAudit.Log.Logged

/-! Variables of the system configuration: references to them in a text, statements `NAME=value`
with shell quotes, and the files that hold such statements. -/
namespace OverrideAudit

structure Variables where
  bindings : List (Text × Text)
deriving DecidableEq, Repr

namespace Variables

def empty : Variables := ⟨[]⟩

def get? (v : Variables) (key : Text) : Option Text := v.bindings.lookup key

def setIn (key value : Text) : List (Text × Text) → List (Text × Text)
  | [] => [(key, value)]
  | (k, old) :: rest => if k = key then (key, value) :: rest else (k, old) :: setIn key value rest

def set (v : Variables) (key value : Text) : Variables := ⟨setIn key value v.bindings⟩

def sameAs (v w : Variables) : Bool :=
  v.bindings.all (fun (key, _) => w.get? key == v.get? key) &&
    w.bindings.all fun (key, _) => v.get? key == w.get? key

def isNameChar (c : Char) : Bool := c.isAlphanum || c == '_'

def isIdentifier : Text → Bool
  | [] => false
  | c :: r => (c.isAlpha || c == '_') && r.all isNameChar

/-- A piece of text that stood behind a dollar sign: with a name in braces or a bare name in front
it is a reference, otherwise the dollar sign stays. A variable that is not set is empty. -/
def expandPiece (v : Variables) (piece : Text) : Text :=
  match piece with
  | '{' :: r =>
    match r.dropWhile isNameChar with
    | '}' :: rest =>
      let name := r.takeWhile isNameChar
      if isIdentifier name then (v.get? name).getD [] ++ rest else '$' :: piece
    | _ => '$' :: piece
  | _ =>
    let name := piece.takeWhile isNameChar
    if isIdentifier name then (v.get? name).getD [] ++ piece.dropWhile isNameChar
    else '$' :: piece

/-- The text with its references replaced by values. Values are not looked at again. -/
def expand (v : Variables) (t : Text) : Text :=
  match t.splitOn '$' with
  | [] => []
  | front :: pieces => front ++ pieces.flatMap v.expandPiece

end Variables

def doubleQuote : Char := '"'

def singleQuote : Char := '\x27'

inductive QuoteState
  | outside (afterBlank : Bool)
  | double (escaped : Bool)
  | single
  | comment
deriving DecidableEq, Repr

namespace QuoteState

/-- One more character. A backslash escapes within double quotes only, and outside of quotes a `#`
behind a blank starts a comment. -/
def step : QuoteState → Char → QuoteState
  | outside afterBlank, c =>
    if c = '#' ∧ afterBlank then comment
    else if c = doubleQuote then double false
    else if c = singleQuote then single
    else outside (isBlank c)
  | double true, _ => double false
  | double false, c =>
    if c = '\\' then double true else if c = doubleQuote then outside false else double false
  | single, c => if c = singleQuote then outside false else single
  | comment, _ => comment

def isOpen : QuoteState → Bool
  | outside _ | comment => false
  | double _ | single => true

end QuoteState

def hasOpenQuote (statement : Text) : Bool :=
  (statement.foldl QuoteState.step (.outside true)).isOpen

/-- The text with each backslash at a line's end and its line feed replaced by a space. -/
def joinContinued : Text → Text
  | [] => []
  | '\\' :: '\n' :: r => ' ' :: joinContinued r
  | c :: r => c :: joinContinued r

/-- The statements of lines, where `pending` is a statement with an open quote. Blank lines and
comments between statements are none. -/
def statementsOf (pending : Option Text) : List Text → List Text
  | [] => pending.toList
  | line :: lines =>
    match pending with
    | none =>
      let statement := line.trim
      if statement.isEmpty || statement.startsWith ['#'] then statementsOf none lines
      else if hasOpenQuote statement then statementsOf (some statement) lines
      else statement :: statementsOf none lines
    | some front =>
      let statement := front ++ '\n' :: line
      if hasOpenQuote statement then statementsOf (some statement) lines
      else statement :: statementsOf none lines

def statements (content : Text) : List Text := statementsOf none (joinContinued content).lines

def unfinishedStatement? (content : Text) : Option Text :=
  (statements content).getLast?.filter hasOpenQuote

def beforeQuote (quote : Char) (t : Text) : Text := t.takeWhile (· != quote)

inductive Value
  | literal (text : Text)
  | expandable (text : Text)
deriving DecidableEq, Repr

def Value.read (t : Text) : Value :=
  match t.trim with
  | [] => expandable []
  | c :: r =>
    if c = doubleQuote then expandable (beforeQuote doubleQuote r)
    else if c = singleQuote then literal (beforeQuote singleQuote r)
    else expandable (((Text.cutAtText [' ', '#'] (c :: r)).map Prod.fst).getD (c :: r)).trim

namespace Variables

def valueText (v : Variables) : Value → Text
  | .literal text => text
  | .expandable text => v.expand text

def assign (v : Variables) (statement : Text) : Variables :=
  let statement : Text := ("export ".toList.isPrefixOf? statement).getD statement
  match statement.cutAt '=' with
  | none => v
  | some (key, value) =>
    let key := key.trim
    if !key.isEmpty && key.all isNameChar then v.set key (v.valueText (Value.read value)) else v

def readInto (v : Variables) (content : Text) : Variables := (statements content).foldl assign v

def read (content : Text) : Variables := empty.readInto content

end Variables

namespace FileTree

def settingFiles (tree : FileTree) (path : Text) : List Text :=
  match tree.resolve path with
  | .error _ => []
  | .ok place =>
    ((tree.children place).map Prod.fst).filterMap fun name =>
      let file := Path.join path name
      if !isHiddenName name && tree.isFile file then some file else none

def readSettingFiles (tree : FileTree) (v : Variables) :
    List Text → Logged (Except FileFault Variables)
  | [] => pure (.ok v)
  | file :: files =>
    match tree.readText file with
    | .error fault => pure (.error fault)
    | .ok content => do
      Logged.noteEach ((unfinishedStatement? content).map .unfinishedStatement).toList
      tree.readSettingFiles (v.readInto content) files

def readSettings (tree : FileTree) (path : Text) : Logged (Except FileFault Variables) :=
  tree.readSettingFiles .empty (if tree.isFolder path then tree.settingFiles path else [path])

def configSettings (tree : FileTree) (configRoot : Text) :
    Logged (Except FileFault Variables) :=
  let path := Path.join configRoot "make.conf".toList
  if tree.pathExists path then tree.readSettings path
  else do
    Logged.note (.noSettings path)
    return .ok .empty

def profileFolder? (tree : FileTree) (configRoot : Text) : Option Text :=
  match tree.canonicalPath (Path.join configRoot "make.profile".toList) with
  | .ok path => if tree.isFolder path then some path else none
  | .error _ => none

end FileTree

end OverrideAudit
