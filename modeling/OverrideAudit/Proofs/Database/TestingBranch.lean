import Mathlib.Data.List.Nodup
import OverrideAudit.Database.Basic
import OverrideAudit.Proofs.Keyword.AcceptedList
import OverrideAudit.Proofs.Masking.Additions

/-! An override without keywords. It accepts the testing branch of every architecture whose stable
branch is accepted everywhere, and with it the stable one, whatever earlier overrides took away. -/
namespace OverrideAudit

namespace AcceptedKeywords
variable {a : AcceptedKeywords} {k arch : Text} {packageKeywords : List Text}

theorem eraseDups_of_nodup {forms : List Text} (h : forms.Nodup) : forms.eraseDups = forms := by
  induction forms with
  | nil => rfl
  | cons form forms ih =>
    obtain ⟨hnew, hforms⟩ := List.nodup_cons.1 h
    have hkept : forms.filter (fun other => !other == form) = forms :=
      List.filter_eq_self.2 fun other hother => by simpa using ne_of_mem_of_not_mem hother hnew
    rw [List.eraseDups_cons, hkept, ih hforms]

/-- Different keywords have different testing forms, so nothing is left out where no keyword is
accepted twice. -/
theorem testingForms_of_nodup (h : a.values.Nodup) :
    a.testingForms = a.keywords.filterMap Keyword.testingForm? := by
  refine eraseDups_of_nodup (List.Nodup.filterMap ?_ (h.map fun _ _ => congrArg Keyword.value))
  intro k l form hk hl
  have heq := (Keyword.eq_of_testingForm? hk).symm.trans (Keyword.eq_of_testingForm? hl)
  exact congrArg Keyword.mk (List.cons.inj heq).2

/-- Whether an accepted keyword stands for the stable branch of one architecture. -/
def isStableArch (k : Text) : Bool :=
  !k.startsWith ['~'] && k != ['*'] && k != Keyword.everything

theorem IsKeyword.testingForm?_eq (h : IsKeyword k) :
    (Keyword.mk k).testingForm? = if isStableArch k then some ('~' :: k) else none := by
  obtain ⟨c, r, rfl⟩ := List.exists_cons_of_ne_nil h.ne_nil
  have hc : c ≠ '-' := by simpa using h.head
  by_cases hall : c :: r = Keyword.everything
  · simp [Keyword.testingForm?, Keyword.stability, isStableArch, hall]
  · by_cases htesting : c = '~'
    · subst htesting
      simp [Keyword.testingForm?, Keyword.stability, isStableArch, hall, Text.startsWith,
        List.isPrefixOf]
    · have hstability : (Keyword.mk (c :: r)).stability = .stable := by
        simp only [Keyword.stability, hall, if_false]
        split <;> simp_all
      have harch : (Keyword.mk (c :: r)).arch = c :: r := by
        simp only [Keyword.arch, hall, if_false]
        split <;> simp_all
      simp [Keyword.testingForm?, hstability, harch, isStableArch, hall, Text.startsWith,
        List.isPrefixOf, Ne.symm htesting]

theorem Canonical.testingForms_eq (h : a.Canonical) :
    a.testingForms = (a.values.filter isStableArch).map ('~' :: ·) := by
  rw [testingForms_of_nodup h.nodup, keywords, List.filterMap_map, ← List.filterMap_eq_map,
    List.filterMap_filter]
  refine List.filterMap_congr fun k hk => ?_
  exact (h.isKeyword k hk).testingForm?_eq

theorem IsKeyword.testing (h : IsKeyword k) : IsKeyword ('~' :: k) := by
  refine ⟨by simp, by simp, ?_⟩
  exact List.forall_mem_cons.2 ⟨by decide, h.isUnbroken⟩

theorem admitsFor_testing (h : isStableArch arch = true) :
    admitsFor ('~' :: arch) packageKeywords = true ↔
      arch ∈ packageKeywords ∨ '~' :: arch ∈ packageKeywords := by
  have hstar : arch ≠ ['*'] := by
    rintro rfl
    contradiction
  have hall : '~' :: arch ≠ Keyword.everything := by
    intro heq
    exact absurd (List.cons.inj heq).1 (by decide)
  have haccepts : ∀ other, (Keyword.mk ('~' :: arch)).accepts other = true ↔
      '~' :: arch = other ∨ other = arch := by
    intro other
    simp [Keyword.accepts, Keyword.arch, Keyword.stability, hall, hstar]
  simp only [admitsFor, Bool.or_eq_true, beq_iff_eq, hall, false_or, List.any_eq_true, haccepts]
  constructor
  · rintro ⟨other, hmem, rfl | rfl⟩
    · exact .inr hmem
    · exact .inl hmem
  · rintro (hmem | hmem)
    · exact ⟨_, hmem, .inr rfl⟩
    · exact ⟨_, hmem, .inl rfl⟩

theorem Canonical.admits_testingForms (h : a.Canonical) :
    (empty.applyAll a.testingForms).admits packageKeywords = true ↔
      ∃ arch ∈ a.values, isStableArch arch = true ∧
        (arch ∈ packageKeywords ∨ '~' :: arch ∈ packageKeywords) := by
  have hforms := h.testingForms_eq
  have hnodup : a.testingForms.Nodup := by
    rw [hforms]
    refine List.Pairwise.map _ ?_ (h.nodup.filter _)
    exact fun _ _ hne heq => hne (List.cons.inj heq).2
  have hkeywords : ∀ t ∈ a.testingForms, IsKeyword t := by
    intro t ht
    rw [hforms] at ht
    obtain ⟨arch, harch, rfl⟩ := List.mem_map.1 ht
    exact (h.isKeyword arch (List.mem_filter.1 harch).1).testing
  rw [admits_eq, values_applyAll_empty hnodup hkeywords, hforms, List.any_map]
  simp only [List.any_eq_true, List.mem_filter, Function.comp_apply, and_assoc]
  refine exists_congr fun arch => and_congr_right fun _ => and_congr_right fun harch => ?_
  exact admitsFor_testing harch

end AcceptedKeywords

namespace Masking
variable {m : Masking} {p : Available}

theorem keywordReason?_eq_none_iff :
    m.keywordReason? p = none ↔ (m.acceptedFor p).admits p.keywords = true := by
  simp [keywordReason?]

theorem accepted_foldl_accept (m : Masking) (values : List Text) :
    (values.foldl accept m).accepted = m.accepted.applyAll (values.flatMap Text.words) := by
  induction values generalizing m with
  | nil => rfl
  | cons value values ih =>
    rw [List.foldl_cons, ih, List.flatMap_cons, accept]
    simp [AcceptedKeywords.applyAll]

theorem canonical_foldl_accept (values : List Text) :
    (values.foldl accept empty).accepted.Canonical := by
  rw [accepted_foldl_accept]
  refine AcceptedKeywords.canonical_empty.applyAll fun t ht => ?_
  obtain ⟨value, -, hword⟩ := List.mem_flatMap.1 ht
  exact (Text.not_blank_of_mem_words hword).2

end Masking

namespace Database
open AcceptedKeywords
variable {db : Database} {values : List Text} {value : Text}

/-- Whether the version is stable or testing on an architecture whose stable branch is accepted
everywhere. -/
def IsOnAcceptedArch (db : Database) (p : Available) : Prop :=
  ∃ arch ∈ db.acceptedKeywords, isStableArch arch = true ∧
    (arch ∈ p.keywords ∨ '~' :: arch ∈ p.keywords)

theorem keywordsOfValue_of_blank (h : db.masking.accepted.Canonical)
    (hblank : ∀ c ∈ value, isBlank c = true) :
    db.keywordsOfValue value = db.masking.accepted.testingForms := by
  have hwords : value.words.isEmpty = true := by rw [Text.words_of_forall_isBlank hblank]; rfl
  rw [keywordsOfValue, if_pos hwords, acceptedKeywords, h.ofText_intercalate]

theorem keywordReason?_acceptKeywords_of_blank (h : db.masking.accepted.Canonical)
    (hblank : ∀ c ∈ value, isBlank c = true) (a : Atom) (p : Available) :
    (db.acceptKeywords a (db.keywordsOfValue value)).masking.keywordReason? p = none ↔
      db.masking.keywordReason? p = none ∨ p.meets a = true ∧ db.IsOnAcceptedArch p := by
  have hadding : ∀ t ∈ db.masking.accepted.testingForms, isAdding t = true := by
    intro t ht
    rw [h.testingForms_eq] at ht
    obtain ⟨arch, -, rfl⟩ := List.mem_map.1 ht
    exact isAdding_cons (by decide) arch
  rw [keywordsOfValue_of_blank h hblank, acceptKeywords, Masking.keywordReason?_eq_none_iff,
    Masking.keywordReason?_eq_none_iff, Masking.acceptedFor_addKeywords]
  cases p.meets a with
  | false => simp
  | true =>
    rw [if_pos rfl, admits_applyAll hadding, Bool.or_eq_true, h.admits_testingForms]
    simp [IsOnAcceptedArch, acceptedKeywords]

/-- The keywords accepted everywhere are read again as they are, and an override without keywords
takes the reason about keywords from those versions that its atom selects and that are stable or
testing on an architecture whose stable branch is accepted. -/
theorem keywordReason?_of_testingBranches
    (hdb : db.masking.accepted = (values.foldl Masking.accept .empty).accepted)
    (hblank : ∀ c ∈ value, isBlank c = true) (a : Atom) :
    AcceptedKeywords.ofText ([' '].intercalate db.acceptedKeywords) = db.masking.accepted ∧
    let after := (db.acceptKeywords a (db.keywordsOfValue value)).masking
    (∀ p : Available, p.meets a = true → db.IsOnAcceptedArch p →
      after.keywordReason? p = none) ∧
    ∀ p : Available, db.masking.keywordReason? p ≠ none → after.keywordReason? p = none →
      p.meets a = true ∧ db.IsOnAcceptedArch p := by
  have hcanonical : db.masking.accepted.Canonical := hdb ▸ Masking.canonical_foldl_accept values
  refine ⟨hcanonical.ofText_intercalate, fun p hmeets harch => ?_, fun p hbefore hafter => ?_⟩
  · exact (keywordReason?_acceptKeywords_of_blank hcanonical hblank a p).2 (.inr ⟨hmeets, harch⟩)
  · exact ((keywordReason?_acceptKeywords_of_blank hcanonical hblank a p).1 hafter).resolve_left
      hbefore

theorem keywordReason?_of_testingBranches_cleared :
    let all : Atom := ⟨.any, ['a'], ['b'], none, none, none, none⟩
    let version (n : Char) (keywords : String) : Available :=
      .ofTexts ⟨['a'], ['b'], ⟨[n], [], none, [], none⟩⟩ ['0'] keywords.toList [] none
    let values : List Text := ["amd64 sparc *".toList, "-sparc ~arm64 x86".toList]
    let db : Database := { Database.empty with
      masking := (values.foldl Masking.accept .empty).addKeywords all ["-*".toList] }
    let after := (db.acceptKeywords all (db.keywordsOfValue [' ', '\t'])).masking
    (db.masking.accepted = (values.foldl Masking.accept .empty).accepted ∧
      ∀ c ∈ [' ', '\t'], isBlank c = true) ∧
    AcceptedKeywords.ofText ([' '].intercalate db.acceptedKeywords) = db.masking.accepted ∧
    db.masking.keywordReason? (version '1' "~x86") = some .missing ∧
    after.keywordReason? (version '1' "~x86") = none ∧
    after.keywordReason? (version '2' "sparc ~arm64") ≠ none := by
  intro all version values db after
  have hdb : db.masking.accepted = (values.foldl Masking.accept .empty).accepted := rfl
  have hblank : ∀ c ∈ [' ', '\t'], isBlank c = true := List.all_eq_true.1 rfl
  obtain ⟨hagain, hshown, hlost⟩ := keywordReason?_of_testingBranches hdb hblank all
  refine ⟨⟨hdb, hblank⟩, hagain, by decide, hshown _ (by decide) ?_, fun hnone => ?_⟩
  · exact ⟨"x86".toList, by decide, by decide, by decide⟩
  · obtain ⟨-, arch, harch, hstable, hkeywords⟩ := hlost _ (by decide) hnone
    revert arch
    decide

end Database
end OverrideAudit
