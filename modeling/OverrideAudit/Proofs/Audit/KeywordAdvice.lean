import OverrideAudit.Proofs.Audit.KeywordEffect
import OverrideAudit.Proofs.Keyword.Acceptance

/-! Advice about keywords is safe to follow where overrides only add keywords. Overrides that were
called redundant may rest on one another, but the first that shows a version never is. -/
namespace OverrideAudit

namespace Database
variable {db k : Database} {rule : VisibilityRule} {a : Atom} {p : Available} {v : Verdict}
  {value : Text}

theorem isAdding_of_mem_keywordsOfValue (h : ∀ w ∈ value.words, w.startsWith ['-'] = false)
    (db : Database) :
    ∀ token ∈ db.keywordsOfValue value, AcceptedKeywords.isAdding token = true := by
  intro token htoken
  rw [keywordsOfValue] at htoken
  split at htoken
  · -- An empty override stands for testing forms, which start with `~`.
    obtain ⟨keyword, -, hform⟩ := List.mem_filterMap.1 (List.mem_eraseDups.1 htoken)
    rw [Keyword.eq_of_testingForm? hform]
    exact AcceptedKeywords.isAdding_cons (by decide) _
  · obtain ⟨hne, hblank⟩ := Text.not_blank_of_mem_words htoken
    have hfirst := h token htoken
    cases token with
    | nil => contradiction
    | cons c r =>
      rw [AcceptedKeywords.isAdding_cons (hblank c List.mem_cons_self), bne_iff_ne]
      rintro rfl
      simp [Text.startsWith, List.isPrefixOf] at hfirst

theorem HasDistinctVersions.toldApart (hd : db.HasDistinctVersions) (a : Atom) :
    Available.ToldApart (db.selected a) := by
  intro p hp q hq
  exact eq_of_sameAs hd (mem_selected_iff.1 hp).1 (mem_selected_iff.1 hq).1

theorem isVisible_of_judgeKeywords (hd : db.HasDistinctVersions) (hp : db.Offers p)
    (hv : (db.judgeKeywords rule a value).1 = some v)
    (hk : v.kind = .absent ∨ v.kind = .redundant) :
    (db.acceptKeywords a (db.keywordsOfValue value)).masking.isVisible p =
      db.masking.isVisible p := by
  cases hm : p.meets a with
  | false => exact Masking.isVisible_addKeywords_of_not_meets hm _ _
  | true =>
    have hselected : p ∈ db.selected a := mem_selected_iff.2 ⟨hp, hm⟩
    cases hpresence : db.presence? a with
    | some w =>
      -- The package is there, so it is not installed, and that is neither of the two.
      obtain rfl : w = v := by simpa [judgeKeywords, hpresence] using hv
      obtain ⟨-, rfl⟩ : _ ∧ Verdict.notInstalled = w := by
        simpa [presence?, matching_ne_nil hp hm] using hpresence
      simp [Verdict.kind] at hk
    | none =>
      have hkind : v.kind = .redundant := by
        obtain hredundant | hirrelevant := kind_of_judgeKeywords hpresence hv
        · exact hredundant
        · simp [hirrelevant] at hk
      have hredundant : (db.judgeKeywords rule a value).1.map Verdict.kind = some .redundant := by
        rw [hv, Option.map_some, hkind]
      have hafter : (db.acceptKeywords a (db.keywordsOfValue value)).HasDistinctVersions := hd
      rw [judgeKeywords_redundant_iff hpresence, judgeKeywords_db hpresence,
        visible_eq_byRecord hd, visible_eq_byRecord hafter] at hredundant
      obtain ⟨hshows, hshown⟩ := (sameVersions_visible_iff _).1 hredundant
      exact Masking.isVisible_congr (hd.toldApart a) hshows hshown hselected

end Database

/-- A database under audit and one that follows the advice: they differ in overrides for keywords
alone, and show the same. -/
structure ShownAlike (db k : Database) : Prop where
  distinct : db.HasDistinctVersions
  differ : k = { db with masking.overrides := k.masking.overrides }
  visible : ∀ p, db.Offers p → k.masking.isVisible p = db.masking.isVisible p

namespace ShownAlike
variable {db k : Database} {rule : VisibilityRule} {a : Atom} {value : Text}

theorem presence?_eq (h : ShownAlike db k) (a : Atom) : k.presence? a = db.presence? a := by
  rw [h.differ]
  rfl

theorem acceptKeywords (h : ShownAlike db k)
    (hadd : ∀ token ∈ db.keywordsOfValue value, AcceptedKeywords.isAdding token = true) :
    ShownAlike (Auditor.applyOverride db .keywords a value)
      (Auditor.applyOverride k .keywords a value) := by
  have htokens : k.keywordsOfValue value = db.keywordsOfValue value := by
    rw [h.differ]
    rfl
  have hmasked : ∀ p, k.masking.isMasked p = db.masking.isMasked p := by
    intro p
    rw [h.differ]
    rfl
  refine ⟨h.distinct, ?_, ?_⟩
  · simp only [Auditor.applyOverride, Database.acceptKeywords, htokens]
    rw [h.differ]
    rfl
  · intro p hp
    simp only [Auditor.applyOverride, Database.acceptKeywords, htokens,
      Masking.isVisible_addKeywords hadd, hmasked]
    rw [h.visible p hp]

theorem step {s t : Auditor} {r : Record} (h : ShownAlike s.db t.db) (rule : VisibilityRule)
    (hadd : ∀ w ∈ r.value.words, w.startsWith ['-'] = false) :
    ShownAlike (s.step rule .keywords r).value.2.db (t.step rule .keywords r).value.2.db := by
  cases ha : Atom.read r.atom with
  | error fault => rwa [Auditor.step_of_error ha, Auditor.step_of_error ha]
  | ok a =>
    rw [Auditor.step_db_of_read ha, Auditor.step_db_of_read ha, h.presence?_eq]
    split
    · exact h
    · exact h.acceptKeywords (Database.isAdding_of_mem_keywordsOfValue hadd s.db)

theorem step_idle {s t : Auditor} {r : Record} {v : Verdict} (h : ShownAlike s.db t.db)
    (ha : Atom.read r.atom = .ok a) (hv : s.db.verdict? rule .keywords a r.value = some v)
    (hk : v.kind = .absent ∨ v.kind = .redundant) :
    ShownAlike (s.step rule .keywords r).value.2.db t.db := by
  rw [Auditor.step_db_of_read ha]
  split
  · exact h
  · refine ⟨h.distinct, h.differ, ?_⟩
    intro p hp
    rw [h.visible p hp]
    exact (Database.isVisible_of_judgeKeywords h.distinct hp hv hk).symm

theorem visible_eq (h : ShownAlike db k) (rule : VisibilityRule) (a : Atom) :
    k.visible rule a = db.visible rule a := by
  have havailable : k.available = db.available := by rw [h.differ]
  have hselected : k.selected a = db.selected a := by
    rw [Database.selected, Database.availableOf, havailable]
    rfl
  have hdistinct : k.HasDistinctVersions := by
    intro n
    rw [Database.availableOf, havailable]
    exact h.distinct n
  have hvisible : (db.selected a).filter k.masking.isVisible =
      (db.selected a).filter db.masking.isVisible :=
    List.filter_congr fun p hp => h.visible p (Database.mem_selected_iff.1 hp).1
  rw [Database.visible_eq_byRecord hdistinct, Database.visible_eq_byRecord h.distinct,
    Database.visible, Database.visible, hselected, hvisible]

end ShownAlike

namespace Auditor

/-- The advice about overrides for keywords that are called absent or redundant. -/
def keywordAdvice : List IssueCode := [⟨.keywords, .absent⟩, ⟨.keywords, .redundant⟩]

/-- To follow the advice about keywords is safe: when all overrides that an audit calls absent or
redundant are dropped together, the rest show what all of them did. -/
theorem keywordAdvice_safe {db : Database} (hd : db.HasDistinctVersions) (rule : VisibilityRule)
    {rs : List Record} (hadd : ∀ r ∈ rs, ∀ w ∈ r.value.words, w.startsWith ['-'] = false) :
    let records := rs.map (Category.keywords, ·)
    let audit := ((ofDatabase db).answers rule records).value
    let kept := withoutFound keywordAdvice audit.1 records
    let again := ((ofDatabase db).answers rule kept).value
    ∀ a, again.2.db.visible rule a = audit.2.db.visible rule a := by
  intro records audit kept again a
  have hstart : ShownAlike (ofDatabase db).db (ofDatabase db).db := ⟨hd, rfl, fun _ _ => rfl⟩
  have hend : ShownAlike audit.2.db again.2.db := by
    simp only [again, answers_snd]
    refine withoutFound_foldl (P := fun s (t : Auditor) => ShownAlike s.db t.db) ?keep ?drop hstart
    case keep =>
      intro s t r hr h
      exact h.step rule (hadd r hr)
    case drop =>
      intro s t r a v ha hv hmem h
      have hkind : v.kind = .absent ∨ v.kind = .redundant := by simpa [keywordAdvice] using hmem
      exact h.step_idle ha hv hkind
  exact hend.visible_eq rule a

theorem keywordAdvice_safe_wildcard :
    let version (n : Char) (keywords : String) : Available :=
      .ofTexts ⟨['a'], ['b'], ⟨[n], [], none, [], none⟩⟩ ['0'] keywords.toList [] none
    let db := { Database.empty with masking := Masking.empty.accept "amd64".toList }
      |>.insertAvailable (version '1' "amd64") |>.insertAvailable (version '2' "~amd64")
      |>.insertInstalled (.ofTexts (version '1' "").cpv ['0'] [] none)
    let record (atom value : String) (skip : Bool) : Record :=
      ⟨atom.toList, value.toList, [], 1, skip⟩
    let rs := [record "=a/b-2" "~*" false, record "a/b" "" false, record "a/z" "~amd64" false,
      record "a/b" "~amd64" true]
    let records := rs.map (Category.keywords, ·)
    let audit := ((ofDatabase db).answers .byRecord records).value
    let kept := withoutFound keywordAdvice audit.1 records
    let again := ((ofDatabase db).answers .byRecord kept).value
    (db.HasDistinctVersions ∧ ∀ r ∈ rs, ∀ w ∈ r.value.words, w.startsWith ['-'] = false) ∧
      kept.map (·.2.atom) = ["=a/b-2".toList, "a/b".toList] ∧
      kept.map (·.2.skip) = [false, true] ∧
      ∀ a, again.2.db.visible .byRecord a = audit.2.db.visible .byRecord a := by
  intro version db record rs records audit kept again
  have hd : db.HasDistinctVersions :=
    (Database.hasDistinctVersions_empty.insertAvailable (by decide)).insertAvailable (by decide)
  have hadd : ∀ r ∈ rs, ∀ w ∈ r.value.words, w.startsWith ['-'] = false := by decide
  have hsafe := keywordAdvice_safe hd .byRecord hadd
  refine ⟨⟨hd, hadd⟩, by decide, by decide, ?_⟩
  -- Left to unification, the two audits would be evaluated.
  simp only [again, kept, audit, records]
  exact hsafe

end Auditor
end OverrideAudit
