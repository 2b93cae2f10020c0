import OverrideAudit.Masking.Basic
import OverrideAudit.Proofs.Text.Pieces

/-! Tokens that take nothing away. Such tokens accept what each of them accepts beside what was
accepted before, so an override made of them can only make versions visible. -/
namespace OverrideAudit

theorem Keyword.eq_of_testingForm? {k : Keyword} {form : Text} (h : k.testingForm? = some form) :
    form = '~' :: k.value := by
  rw [testingForm?] at h
  split at h
  · next hstable =>
    obtain rfl := Option.some.inj h
    have hstability := hstable.1
    by_cases hall : k.value = everything
    · simp [stability, hall] at hstability
    · simp only [stability, hall, if_false] at hstability
      simp only [arch, hall, if_false]
      split <;> simp_all
  · contradiction

namespace AcceptedKeywords
variable {a : AcceptedKeywords} {token : Text} {tokens : List Text}

def isAdding (token : Text) : Bool := !token.trim.startsWith ['-']

def admitsFor (value : Text) (packageKeywords : List Text) : Bool :=
  value == Keyword.everything || packageKeywords.any (Keyword.mk value).accepts

theorem admits_eq (a : AcceptedKeywords) (packageKeywords : List Text) :
    a.admits packageKeywords = a.values.any (admitsFor · packageKeywords) := by
  rw [Bool.eq_iff_iff]
  simp only [admits, keywords, admitsFor, Bool.or_eq_true, List.any_eq_true, List.mem_map,
    List.contains_iff_mem, beq_iff_eq]
  constructor
  · rintro (hall | ⟨k, hk, _, ⟨value, hv, rfl⟩, hacc⟩)
    · exact ⟨_, hall, .inl rfl⟩
    · exact ⟨value, hv, .inr ⟨k, hk, hacc⟩⟩
  · rintro ⟨value, hv, rfl | ⟨k, hk, hacc⟩⟩
    · exact .inl hv
    · exact .inr ⟨k, hk, _, ⟨value, hv, rfl⟩, hacc⟩

theorem admits_applyTrimmed {c : Char} (hc : c ≠ '-') (r : Text) (a : AcceptedKeywords)
    (packageKeywords : List Text) :
    (a.applyTrimmed (c :: r)).admits packageKeywords =
      (a.admits packageKeywords || admitsFor (c :: r) packageKeywords) := by
  have hadd : a.applyTrimmed (c :: r) =
      if a.values.contains (c :: r) then a else ⟨a.values ++ [c :: r]⟩ := by
    rw [applyTrimmed.eq_def]
    split <;> simp_all
  rw [hadd, admits_eq, admits_eq]
  split
  · next hlisted =>
    -- A keyword that is listed admits nothing that was not admitted before.
    cases hadm : admitsFor (c :: r) packageKeywords with
    | true =>
      rw [Bool.or_true]
      exact List.any_eq_true.2 ⟨_, List.contains_iff_mem.1 hlisted, hadm⟩
    | false => rw [Bool.or_false]
  · simp

theorem admits_apply (h : isAdding token = true) (a : AcceptedKeywords)
    (packageKeywords : List Text) :
    (a.apply token).admits packageKeywords =
      (a.admits packageKeywords || (empty.apply token).admits packageKeywords) := by
  rw [isAdding] at h
  simp only [apply]
  cases htrim : token.trim with
  | nil => simp [applyTrimmed, empty, admits_eq]
  | cons c r =>
    have hc : c ≠ '-' := by
      rintro rfl
      simp [htrim, Text.startsWith, List.isPrefixOf] at h
    rw [admits_applyTrimmed hc, admits_applyTrimmed hc, admits_eq empty]
    simp [empty]

theorem admits_applyAll (h : ∀ token ∈ tokens, isAdding token = true) (a : AcceptedKeywords)
    (packageKeywords : List Text) :
    (a.applyAll tokens).admits packageKeywords =
      (a.admits packageKeywords || (empty.applyAll tokens).admits packageKeywords) := by
  induction tokens generalizing a with
  | nil => simp [applyAll, empty, admits_eq]
  | cons token tokens ih =>
    obtain ⟨htoken, htokens⟩ := List.forall_mem_cons.1 h
    have hcons : ∀ b : AcceptedKeywords,
        b.applyAll (token :: tokens) = (b.apply token).applyAll tokens := fun _ => rfl
    rw [hcons, hcons, ih htokens, ih htokens (empty.apply token), admits_apply htoken,
      Bool.or_assoc]

theorem isAdding_cons {c : Char} (hblank : isBlank c = false) (r : Text) :
    isAdding (c :: r) = (c != '-') := by
  rw [isAdding, Text.startsWith_trim hblank, Bool.beq_comm]
  rfl

end AcceptedKeywords

namespace Masking
open AcceptedKeywords
variable {m : Masking} {p : Available} {a : Atom} {tokens : List Text}

theorem isVisible_eq (m : Masking) (p : Available) :
    m.isVisible p = (!m.isMasked p && (m.acceptedFor p).admits p.keywords) := by
  rw [isVisible, reasons, keywordReason?]
  cases m.isMasked p <;> cases (m.acceptedFor p).admits p.keywords <;> simp

theorem acceptedFor_addKeywords (m : Masking) (a : Atom) (tokens : List Text) (p : Available) :
    (m.addKeywords a tokens).acceptedFor p =
      if p.meets a then (m.acceptedFor p).applyAll tokens else m.acceptedFor p := by
  simp [acceptedFor, addKeywords]

theorem isVisible_addKeywords_of_not_meets (h : p.meets a = false) (m : Masking)
    (tokens : List Text) : (m.addKeywords a tokens).isVisible p = m.isVisible p := by
  rw [isVisible_eq, isVisible_eq, acceptedFor_addKeywords, h]
  rfl

/-- Adding tokens make a version visible that their atom selects, that no mask hides and that they
accept, and leave all other versions as they were. -/
theorem isVisible_addKeywords (h : ∀ token ∈ tokens, isAdding token = true) (m : Masking)
    (a : Atom) (p : Available) :
    (m.addKeywords a tokens).isVisible p =
      (m.isVisible p ||
        (!m.isMasked p &&
          (p.meets a && (AcceptedKeywords.empty.applyAll tokens).admits p.keywords))) := by
  have hmasked : (m.addKeywords a tokens).isMasked p = m.isMasked p := rfl
  rw [isVisible_eq, isVisible_eq, acceptedFor_addKeywords, hmasked, ← Bool.and_or_distrib_left]
  cases p.meets a with
  | true => rw [if_pos rfl, admits_applyAll h, Bool.true_and]
  | false => rw [if_neg Bool.false_ne_true, Bool.false_and, Bool.or_false]

end Masking
end OverrideAudit
