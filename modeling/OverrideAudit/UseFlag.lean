import OverrideAudit.Text.LowerCase

/-! USE flags: sets of flags, what tokens change in them, and which tokens change nothing. In the
value of an override every flag behind `NAME:` belongs to the group of that name, until the next
such word. -/
namespace OverrideAudit

structure FlagSet where
  flags : List Text
deriving Repr

namespace FlagSet

def empty : FlagSet := ⟨[]⟩

def ofText (t : Text) : FlagSet := ⟨t.words⟩

def contains (s : FlagSet) (flag : Text) : Bool := s.flags.contains flag

def insert (s : FlagSet) (flag : Text) : FlagSet := ⟨flag :: s.flags⟩

def erase (s : FlagSet) (flag : Text) : FlagSet := ⟨s.flags.filter (· != flag)⟩

def eraseGroup (s : FlagSet) (lead : Text) : FlagSet := ⟨s.flags.filter fun f => !f.startsWith lead⟩

def sameAs (s t : FlagSet) : Bool := s.flags.all t.contains && t.flags.all s.contains

def sorted (s : FlagSet) : List Text := sortDistinct compare s.flags

end FlagSet

def flagOfToken (token : Text) : Text := token.dropWhile fun c => c == '+' || c == '-'

def declaredFlags (iuse : Text) : FlagSet :=
  ⟨(iuse.words.map flagOfToken).filter fun f => !f.isEmpty⟩

inductive UseChange
  | clearAll
  | clearGroup (lead : Text)
  | enable (flag : Text)
  | disable (flag : Text)
deriving DecidableEq, Repr

namespace UseChange

/-- Reads a token: `-*` clears all, `-group_*` clears a group, a minus disables, and anything else
enables, with or without plus signs. -/
def read (token : Text) : UseChange :=
  match token with
  | ['-', '*'] => clearAll
  | '-' :: flag =>
    match ['*'].isSuffixOf? flag with
    | some lead => if ['_'].isSuffixOf lead then clearGroup lead else disable flag
    | none => disable flag
  | _ => enable (token.dropWhile (· == '+'))

def apply (s : FlagSet) : UseChange → FlagSet
  | clearAll => .empty
  | clearGroup lead => s.eraseGroup lead
  | enable flag => s.insert flag
  | disable flag => s.erase flag

/-- Whether the change asks for what the set already has. Clearing never does. -/
def isIdle (s : FlagSet) : UseChange → Bool
  | clearAll | clearGroup _ => false
  | enable flag => s.contains flag
  | disable flag => !s.contains flag

end UseChange

def FlagSet.applyAll (s : FlagSet) (tokens : List Text) : FlagSet :=
  tokens.foldl (fun s token => UseChange.apply s (.read token)) s

/-- The tokens that are idle when their turn comes, in order. -/
def FlagSet.idleTokens (s : FlagSet) : List Text → List Text
  | [] => []
  | token :: tokens =>
    let later := (UseChange.apply s (.read token)).idleTokens tokens
    if UseChange.isIdle s (.read token) then token :: later else later

def FlagSet.isUnchangedBy (s : FlagSet) (tokens : List Text) : Bool := (s.applyAll tokens).sameAs s

def groupOpened? (word : Text) : Option Text :=
  match [':'].isSuffixOf? word with
  | some [] | none => none
  | some name => some (Text.lower name)

def qualify (group token : Text) : Text :=
  match token with
  | '-' :: flag => '-' :: group ++ '_' :: flag
  | '+' :: flag => '+' :: group ++ '_' :: flag
  | flag => group ++ '_' :: flag

def expandWords (group : Option Text) : List Text → List Text
  | [] => []
  | word :: words =>
    match groupOpened? word with
    | some name => expandWords (some name) words
    | none => group.elim word (qualify · word) :: expandWords group words

def expandUse (value : Text) : List Text := expandWords none value.words

end OverrideAudit
