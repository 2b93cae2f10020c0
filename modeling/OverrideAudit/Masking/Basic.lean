import OverrideAudit.Atom
import OverrideAudit.UseFlag
import OverrideAudit.Keyword

/-! Versions that are offered or installed, and why one is not visible: masks, as far as no unmask
lifts them, and keywords that are not accepted. -/
namespace OverrideAudit

structure Available where
  cpv : Cpv
  slot : Text
  keywords : List Text
  iuse : FlagSet
  repository : Option Text
deriving Repr

structure Installed where
  cpv : Cpv
  slot : Text
  useFlags : FlagSet
  repository : Option Text
deriving Repr

def defaultSlot : Text := ['0']

def Available.ofTexts (cpv : Cpv) (slot keywords iuse : Text) (repository : Option Text) :
    Available :=
  ⟨cpv, slot, keywords.words, declaredFlags iuse, repository⟩

def Installed.ofTexts (cpv : Cpv) (slot use : Text) (repository : Option Text) : Installed :=
  ⟨cpv, slot, .ofText use, repository⟩

def Available.meets (p : Available) (a : Atom) : Bool :=
  a.selects p.cpv (some p.slot) p.repository

def Installed.meets (p : Installed) (a : Atom) : Bool :=
  a.selects p.cpv (some p.slot) p.repository

structure KeywordOverride where
  atom : Atom
  keywords : List Text
deriving DecidableEq, Repr

/-- What masks and accepts: the architecture, the keywords accepted everywhere, the masks of
repository and profiles, and the masks, unmasks and keywords of overrides. -/
structure Masking where
  arch : Option Text
  accepted : AcceptedKeywords
  inherited : List Atom
  masks : List Atom
  unmasks : List Atom
  overrides : List KeywordOverride
deriving DecidableEq, Repr

/-- Why keywords are not accepted: only the testing branch of the architecture would be, the version
is broken there, or neither. -/
inductive KeywordReason
  | testing (arch : Text)
  | broken (arch : Text)
  | missing
deriving DecidableEq, Repr

def KeywordReason.toText : KeywordReason → Text
  | testing arch => '~' :: arch ++ " keyword".toList
  | broken arch => '-' :: arch ++ " keyword".toList
  | missing => "missing keyword".toList

inductive MaskReason
  | packageMask
  | keyword (reason : KeywordReason)
deriving DecidableEq, Repr

def MaskReason.toText : MaskReason → Text
  | packageMask => "package.mask".toList
  | keyword reason => reason.toText

namespace Masking

def empty : Masking := ⟨none, .empty, [], [], [], []⟩

def setArch (m : Masking) (arch : Text) : Masking := { m with arch := some arch }

def accept (m : Masking) (value : Text) : Masking :=
  { m with accepted := m.accepted.applyAll value.words }

def addMask (m : Masking) (a : Atom) : Masking := { m with masks := m.masks ++ [a] }

def addUnmask (m : Masking) (a : Atom) : Masking := { m with unmasks := m.unmasks ++ [a] }

def addKeywords (m : Masking) (a : Atom) (keywords : List Text) : Masking :=
  { m with overrides := m.overrides ++ [⟨a, keywords⟩] }

def isMasked (m : Masking) (p : Available) : Bool :=
  (m.inherited ++ m.masks).any p.meets && !m.unmasks.any p.meets

/-- The keywords accepted for a version: those accepted everywhere, changed by every override that
selects it. -/
def acceptedFor (m : Masking) (p : Available) : AcceptedKeywords :=
  m.overrides.foldl (fun a o => if p.meets o.atom then a.applyAll o.keywords else a) m.accepted

def keywordReasonOn (arch : Option Text) (keywords : List Text) : KeywordReason :=
  match arch with
  | none => .missing
  | some arch =>
    if keywords.contains ('~' :: arch) then .testing arch
    else if keywords.contains ('-' :: arch) || keywords.contains ['-', '*'] then .broken arch
    else .missing

def keywordReason? (m : Masking) (p : Available) : Option KeywordReason :=
  if (m.acceptedFor p).admits p.keywords then none else some (keywordReasonOn m.arch p.keywords)

def reasons (m : Masking) (p : Available) : List MaskReason :=
  (if m.isMasked p then [.packageMask] else []) ++ (m.keywordReason? p).toList.map .keyword

def isVisible (m : Masking) (p : Available) : Bool := (m.reasons p).isEmpty

end Masking

def reasonTexts (reasons : List MaskReason) : List Text :=
  sortDistinct compare (reasons.map MaskReason.toText)

end OverrideAudit
