import OverrideAudit.Proofs.Database.TestingBranch

/-! A reason about keywords that says what to accept. A keyword that a version lists is accepted for
it as soon as an override adds it, whatever was accepted and taken away before; so is the testing
keyword that a reason names. -/
namespace OverrideAudit

theorem Keyword.accepts_self (k : Keyword) : k.accepts k.value = true := by
  obtain ⟨value⟩ := k
  rw [accepts]
  split
  · next harch =>
    -- Only the wildcards `**`, `~*`, `-*` and `*` stand for every architecture.
    by_cases hall : value = everything
    · subst hall
      decide
    · simp only [arch, hall, if_false] at harch
      split at harch <;> subst harch <;> decide
  · simp

theorem KeywordReason.eq_testing {r : KeywordReason} {arch : Text}
    (h : r.toText = '~' :: arch ++ " keyword".toList) : r = .testing arch := by
  cases r with
  | testing other =>
    have harch : other = arch := List.append_cancel_right (List.cons.inj h).2
    rw [harch]
  | broken other => exact absurd (List.cons.inj h).1 (by decide)
  | missing => exact absurd (List.cons.inj h).1 (by decide)

namespace AcceptedKeywords
variable {k : Text} {packageKeywords : List Text}

theorem admits_apply_of_mem (hk : IsKeyword k) (hmem : k ∈ packageKeywords)
    (a : AcceptedKeywords) : (a.apply k).admits packageKeywords = true := by
  have hlisted : k ∈ (a.apply k).values := (mem_apply hk.isUnbroken).2 (.inl ⟨rfl, hk⟩)
  have hself : admitsFor k packageKeywords = true :=
    Bool.or_eq_true_iff.2 (.inr (List.any_eq_true.2 ⟨k, hmem, Keyword.accepts_self ⟨k⟩⟩))
  rw [admits_eq]
  exact List.any_eq_true.2 ⟨k, hlisted, hself⟩

end AcceptedKeywords

namespace Masking
open AcceptedKeywords
variable {m : Masking} {p q : Available} {a : Atom} {k arch keywords : Text}

theorem keywordReason?_addKeywords_of_not_meets (h : q.meets a = false) (m : Masking)
    (tokens : List Text) : (m.addKeywords a tokens).keywordReason? q = m.keywordReason? q := by
  refine keywordReason?_congr rfl ?_
  rw [acceptedFor_addKeywords, h]
  rfl

theorem keywordReason?_addKeywords_of_mem (hk : IsKeyword k) (hmem : k ∈ p.keywords)
    (hmeets : p.meets a = true) (m : Masking) :
    (m.addKeywords a [k]).keywordReason? p = none := by
  rw [keywordReason?_eq_none_iff, acceptedFor_addKeywords, if_pos hmeets]
  exact admits_apply_of_mem hk hmem (m.acceptedFor p)

theorem mem_keywords_of_testing (h : m.keywordReason? p = some (.testing arch)) :
    '~' :: arch ∈ p.keywords := by
  rw [keywordReason?] at h
  split at h
  · contradiction
  · have hreason := Option.some.inj h
    rw [keywordReasonOn.eq_def] at hreason
    split at hreason
    · contradiction
    · split at hreason
      · next hmem =>
        obtain rfl := KeywordReason.testing.inj hreason
        exact List.contains_iff_mem.1 hmem
      · split at hreason <;> contradiction

/-- The testing keyword that a reason names is what to accept: an override that adds it for any atom
which selects the version takes the reason away, and leaves all versions as they are that the atom
does not select. -/
theorem keywordReason?_of_named_testing (hkeywords : p.keywords = keywords.words)
    (hreason : (m.keywordReason? p).map KeywordReason.toText =
      some ('~' :: arch ++ " keyword".toList))
    (hmeets : p.meets a = true) :
    (m.addKeywords a ['~' :: arch]).keywordReason? p = none ∧
    ∀ q : Available, q.meets a = false →
      (m.addKeywords a ['~' :: arch]).keywordReason? q = m.keywordReason? q := by
  obtain ⟨r, hr, htext⟩ := Option.map_eq_some_iff.1 hreason
  have hmem : '~' :: arch ∈ p.keywords := by
    rw [KeywordReason.eq_testing htext] at hr
    exact mem_keywords_of_testing hr
  have hkeyword : IsKeyword ('~' :: arch) := by
    rw [hkeywords] at hmem
    exact ⟨by simp, by simp, (Text.not_blank_of_mem_words hmem).2⟩
  exact ⟨keywordReason?_addKeywords_of_mem hkeyword hmem hmeets m,
    fun q hq => keywordReason?_addKeywords_of_not_meets hq m _⟩

theorem keywordReason?_of_named_testing_wildcard :
    let all : Atom := ⟨.any, ['a'], ['b'], none, none, none, none⟩
    let slot : Atom := { all with slot := some ['1'] }
    let version (slot : Char) : Available :=
      .ofTexts ⟨['a'], ['b'], ⟨['1'], [], none, [], none⟩⟩ [slot] "-x\t~* ~y".toList [] none
    let m : Masking := ((empty.setArch ['*']).accept "x ~*".toList).addKeywords all ["-~*".toList]
    let after := m.addKeywords slot ["~*".toList]
    ((version '1').keywords = Text.words "-x\t~* ~y".toList ∧
      (m.keywordReason? (version '1')).map KeywordReason.toText = some "~* keyword".toList ∧
      (version '1').meets slot = true ∧ (version '0').meets slot = false) ∧
    after.keywordReason? (version '1') = none ∧
    after.keywordReason? (version '0') = m.keywordReason? (version '0') := by
  intro all slot version m after
  have hreason : (m.keywordReason? (version '1')).map KeywordReason.toText =
      some ('~' :: ['*'] ++ " keyword".toList) := by decide
  have hlisted : (version '1').keywords = Text.words "-x\t~* ~y".toList := rfl
  have hselected : (version '1').meets slot = true := by decide
  obtain ⟨hnone, hothers⟩ := keywordReason?_of_named_testing hlisted hreason hselected
  exact ⟨⟨hlisted, hreason, hselected, by decide⟩, hnone, hothers (version '0') (by decide)⟩

end Masking
end OverrideAudit
