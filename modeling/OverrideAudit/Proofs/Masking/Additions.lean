import OverrideAudit.Proofs.Keyword.Acceptance
import OverrideAudit.Proofs.Sorted

/-! What overrides add to the masking, and what that does to the reasons why a version is not
visible. Masks and unmasks act on one reason and keywords on the other, and only among keywords does
the order count. -/
namespace OverrideAudit

theorem KeywordReason.head?_toText (r : KeywordReason) : r.toText.head? ≠ some 'p' := by
  cases r <;> exact fun h => absurd (Option.some.inj h) (by decide)

theorem MaskReason.eq_packageMask {r : MaskReason} (h : r.toText = packageMask.toText) :
    r = packageMask := by
  cases r with
  | packageMask => rfl
  | keyword reason => exact absurd (congrArg List.head? h) reason.head?_toText

theorem packageMask_mem_reasonTexts {rs : List MaskReason} :
    MaskReason.packageMask.toText ∈ reasonTexts rs ↔ .packageMask ∈ rs := by
  rw [reasonTexts, mem_sortDistinct, List.mem_map]
  constructor
  · rintro ⟨r, hr, htext⟩
    rwa [← MaskReason.eq_packageMask htext]
  · exact fun h => ⟨_, h, rfl⟩

namespace Masking
variable {m : Masking} {p : Available} {a : Atom}

def isHit (m : Masking) (p : Available) : Bool := (m.inherited ++ m.masks).any p.meets

def isLifted (m : Masking) (p : Available) : Bool := m.unmasks.any p.meets

theorem isMasked_eq (m : Masking) (p : Available) :
    m.isMasked p = (m.isHit p && !m.isLifted p) := rfl

@[simp] theorem isHit_addMask (m : Masking) (a : Atom) (p : Available) :
    (m.addMask a).isHit p = (m.isHit p || p.meets a) := by
  simp [isHit, addMask, Bool.or_assoc]

@[simp] theorem isLifted_addMask (m : Masking) (a : Atom) (p : Available) :
    (m.addMask a).isLifted p = m.isLifted p := rfl

@[simp] theorem isHit_addUnmask (m : Masking) (a : Atom) (p : Available) :
    (m.addUnmask a).isHit p = m.isHit p := rfl

@[simp] theorem isLifted_addUnmask (m : Masking) (a : Atom) (p : Available) :
    (m.addUnmask a).isLifted p = (m.isLifted p || p.meets a) := by
  simp [isLifted, addUnmask]

theorem packageMask_mem_reasons (m : Masking) (p : Available) :
    .packageMask ∈ m.reasons p ↔ m.isMasked p = true := by
  simp [reasons]

theorem reasons_congr {n : Masking} (hmasked : n.isMasked p = m.isMasked p)
    (hkeyword : n.keywordReason? p = m.keywordReason? p) : n.reasons p = m.reasons p := by
  rw [reasons, reasons, hmasked, hkeyword]

theorem keywordReason?_congr {n : Masking} (harch : n.arch = m.arch)
    (haccepted : n.acceptedFor p = m.acceptedFor p) : n.keywordReason? p = m.keywordReason? p := by
  rw [keywordReason?, keywordReason?, harch, haccepted]

theorem keywordReason?_addKeywords {tokens : List Text}
    (h : ∀ token ∈ tokens, AcceptedKeywords.isAdding token = true) (m : Masking) (a : Atom)
    (p : Available) :
    (m.addKeywords a tokens).keywordReason? p = none ∨
      (m.addKeywords a tokens).keywordReason? p = m.keywordReason? p := by
  rw [keywordReason?, acceptedFor_addKeywords]
  cases hm : p.meets a with
  | false => exact .inr rfl
  | true =>
    rw [if_pos rfl, AcceptedKeywords.admits_applyAll h, keywordReason?]
    cases hbefore : (m.acceptedFor p).admits p.keywords with
    | true => exact .inl rfl
    | false =>
      cases (AcceptedKeywords.empty.applyAll tokens).admits p.keywords with
      | true => exact .inl rfl
      | false => exact .inr rfl

inductive Addition
  | mask (a : Atom)
  | unmask (a : Atom)
  | keywords (a : Atom) (tokens : List Text)
deriving DecidableEq, Repr

namespace Addition

def atom : Addition → Atom
  | mask a | unmask a | keywords a _ => a

def mask? : Addition → Option Atom
  | mask a => some a
  | _ => none

def unmask? : Addition → Option Atom
  | unmask a => some a
  | _ => none

def keywords? : Addition → Option KeywordOverride
  | keywords a tokens => some ⟨a, tokens⟩
  | _ => none

end Addition

def add (m : Masking) : Addition → Masking
  | .mask a => m.addMask a
  | .unmask a => m.addUnmask a
  | .keywords a tokens => m.addKeywords a tokens

def addAll (m : Masking) (xs : List Addition) : Masking := xs.foldl add m

theorem addAll_eq (m : Masking) (xs : List Addition) :
    m.addAll xs = { m with
      masks := m.masks ++ xs.filterMap Addition.mask?
      unmasks := m.unmasks ++ xs.filterMap Addition.unmask?
      overrides := m.overrides ++ xs.filterMap Addition.keywords? } := by
  induction xs generalizing m with
  | nil => simp [addAll]
  | cons x xs ih =>
    have hcons : m.addAll (x :: xs) = (m.add x).addAll xs := rfl
    rw [hcons, ih]
    cases x <;> simp [add, addMask, addUnmask, addKeywords, List.filterMap_cons, Addition.mask?,
      Addition.unmask?, Addition.keywords?]

/-- The order of additions does not count but for that of keywords among themselves. -/
theorem reasons_addAll_of_perm {xs ys : List Addition} (h : xs.Perm ys)
    (hkeywords : xs.filterMap Addition.keywords? = ys.filterMap Addition.keywords?) (m : Masking)
    (p : Available) : (m.addAll xs).reasons p = (m.addAll ys).reasons p := by
  rw [addAll_eq, addAll_eq, hkeywords]
  refine reasons_congr ?_ (keywordReason?_congr rfl rfl)
  have hmasks := (h.filterMap Addition.mask?).append_left (m.inherited ++ m.masks)
  have hunmasks := (h.filterMap Addition.unmask?).append_left m.unmasks
  simp only [isMasked, ← List.append_assoc]
  rw [hmasks.any_eq, hunmasks.any_eq]

theorem reasons_add_of_not_meets {x : Addition} (h : p.meets x.atom = false) (m : Masking) :
    (m.add x).reasons p = m.reasons p := by
  cases x with
  | mask a =>
    have hm : p.meets a = false := h
    exact reasons_congr (by simp [add, isMasked_eq, hm]) rfl
  | unmask a =>
    have hm : p.meets a = false := h
    exact reasons_congr (by simp [add, isMasked_eq, hm]) rfl
  | keywords a tokens =>
    have hm : p.meets a = false := h
    refine reasons_congr rfl (keywordReason?_congr rfl ?_)
    rw [add, acceptedFor_addKeywords, hm]
    rfl

/-- What overrides do to the reasons of a version. One that does not select it does nothing; an
unmask is stronger than a mask; tokens that take nothing away can only take the reason about
keywords away; and only among overrides for keywords does the order count. -/
theorem reasons_of_additions (m : Masking) (p : Available) :
    let isNamed (n : Masking) := MaskReason.packageMask.toText ∈ reasonTexts (n.reasons p)
    (∀ x : Addition, p.meets x.atom = false → (m.add x).reasons p = m.reasons p) ∧
    (∀ a, p.meets a = true →
      (isNamed (m.addMask a) ↔ ¬∃ u ∈ m.unmasks, p.meets u = true) ∧ ¬isNamed (m.addUnmask a)) ∧
    (∀ a, (m.addMask a).keywordReason? p = m.keywordReason? p ∧
      (m.addUnmask a).keywordReason? p = m.keywordReason? p) ∧
    (∀ a tokens, (isNamed (m.addKeywords a tokens) ↔ isNamed m) ∧
      ((∀ token ∈ tokens, token.trim.startsWith ['-'] = false) →
        (m.addKeywords a tokens).keywordReason? p = none ∨
          (m.addKeywords a tokens).keywordReason? p = m.keywordReason? p)) ∧
    ∀ xs ys : List Addition, xs.Perm ys →
      xs.filterMap Addition.keywords? = ys.filterMap Addition.keywords? →
      (m.addAll xs).reasons p = (m.addAll ys).reasons p := by
  intro isNamed
  have hnamed : ∀ n, isNamed n ↔ n.isMasked p = true := by
    intro n
    rw [← packageMask_mem_reasons]
    exact packageMask_mem_reasonTexts
  refine ⟨fun x h => reasons_add_of_not_meets h m, ?_, fun a => ⟨rfl, rfl⟩, ?_,
    fun xs ys h hkeywords => reasons_addAll_of_perm h hkeywords m p⟩
  · intro a ha
    have hmask : isNamed (m.addMask a) ↔ m.isLifted p = false := by simp [hnamed, isMasked_eq, ha]
    refine ⟨?_, by simp [hnamed, isMasked_eq, ha]⟩
    rw [hmask]
    simp [isLifted]
  · intro a tokens
    refine ⟨by rw [hnamed, hnamed]; rfl, fun htokens => ?_⟩
    exact keywordReason?_addKeywords (by simpa [AcceptedKeywords.isAdding] using htokens) m a p

theorem reasons_of_additions_testing :
    let p : Available :=
      .ofTexts ⟨['a'], ['b'], ⟨['1'], [], none, [], none⟩⟩ ['0'] ['~', 'x'] [] none
    let all : Atom := ⟨.any, ['a'], ['b'], none, none, none, none⟩
    let other : Atom := { all with name := ['c'] }
    let m : Masking := { Masking.empty with arch := some ['x'], inherited := [all] }
    let testing : Addition := .keywords all [['~', 'x']]
    let nothing : Addition := .keywords other [['-', '*']]
    let xs : List Addition := [.unmask all, testing, nothing]
    let ys : List Addition := [testing, nothing, .unmask all]
    (m.reasons p = [.packageMask, .keyword (.testing ['x'])] ∧ (m.addAll xs).reasons p = []) ∧
      (m.add (.keywords other [['*', '*']])).reasons p = m.reasons p ∧
      MaskReason.packageMask.toText ∈ reasonTexts ((m.addMask all).reasons p) ∧
      MaskReason.packageMask.toText ∉ reasonTexts ((m.addUnmask all).reasons p) ∧
      ((m.addKeywords all [['~', 'x']]).keywordReason? p = none ∨
        (m.addKeywords all [['~', 'x']]).keywordReason? p = m.keywordReason? p) ∧
      (m.addAll xs).reasons p = (m.addAll ys).reasons p := by
  intro p all other m testing nothing xs ys
  obtain ⟨hother, hmasks, _, hkeywords, horder⟩ := reasons_of_additions m p
  exact ⟨by decide, hother _ (by decide), ((hmasks all (by decide)).1).2 (by decide),
    (hmasks all (by decide)).2, (hkeywords all [['~', 'x']]).2 (by decide),
    horder xs ys (by decide) (by decide)⟩

end Masking
end OverrideAudit
