import OverrideAudit.Proofs.Audit.Run
import OverrideAudit.Proofs.Database.Selection

/-! When an override for keywords is called idle. What is visible before and after is compared as
sets of versions, in which those that compare equal are one, while visibility belongs to records. -/
namespace OverrideAudit

theorem sameVersions_iff {xs ys : List Cpv} :
    sameVersions xs ys = true ↔
      (∀ x ∈ xs, ∃ y ∈ ys, x.sameAs y = true) ∧ ∀ y ∈ ys, ∃ x ∈ xs, y.sameAs x = true := by
  simp [sameVersions]

def Available.ToldApart (ps : List Available) : Prop :=
  ∀ p ∈ ps, ∀ q ∈ ps, p.cpv.sameAs q.cpv = true → p = q

namespace Masking
variable {m m' : Masking} {ps : List Available} {p : Available}

/-- Of every record that the other masking shows the first shows the version, if only by a record
that compares equal. -/
def ShowsAllOf (m m' : Masking) (ps : List Available) : Prop :=
  ∀ p ∈ ps, m'.isVisible p = true → ∃ q ∈ ps, p.cpv.sameAs q.cpv = true ∧ m.isVisible q = true

theorem showsAllOf_iff :
    m.ShowsAllOf m' ps ↔ ∀ x ∈ (ps.filter m'.isVisible).map Available.cpv,
      ∃ y ∈ (ps.filter m.isVisible).map Available.cpv, x.sameAs y = true := by
  simp only [ShowsAllOf, List.mem_map, List.mem_filter]
  constructor
  · rintro h _ ⟨p, ⟨hp, hv⟩, rfl⟩
    obtain ⟨q, hq, hs, hv'⟩ := h p hp hv
    exact ⟨q.cpv, ⟨q, ⟨hq, hv'⟩, rfl⟩, hs⟩
  · intro h p hp hv
    obtain ⟨_, ⟨q, ⟨hq, hv'⟩, rfl⟩, hs⟩ := h p.cpv ⟨p, ⟨hp, hv⟩, rfl⟩
    exact ⟨q, hq, hs, hv'⟩

theorem showsAllOf_of_eq (h : ∀ p ∈ ps, m.isVisible p = m'.isVisible p) : m.ShowsAllOf m' ps := by
  intro p hp hv
  exact ⟨p, hp, Cpv.sameAs_self _, (h p hp).trans hv⟩

theorem isVisible_of_showsAllOf (hd : Available.ToldApart ps) (h : m.ShowsAllOf m' ps)
    (hp : p ∈ ps) (hv : m'.isVisible p = true) : m.isVisible p = true := by
  obtain ⟨q, hq, hs, hv'⟩ := h p hp hv
  rwa [hd p hp q hq hs]

theorem isVisible_congr (hd : Available.ToldApart ps) (h : m.ShowsAllOf m' ps)
    (h' : m'.ShowsAllOf m ps) (hp : p ∈ ps) : m.isVisible p = m'.isVisible p := by
  rw [Bool.eq_iff_iff]
  exact ⟨isVisible_of_showsAllOf hd h' hp, isVisible_of_showsAllOf hd h hp⟩

end Masking

namespace Database
variable {db : Database} {a : Atom}

theorem judgeKeywords_db (h : db.presence? a = none) (rule : VisibilityRule) (value : Text) :
    (db.judgeKeywords rule a value).2 = db.acceptKeywords a (db.keywordsOfValue value) := by
  simp [judgeKeywords, h]

theorem judgeKeywords_redundant_iff (h : db.presence? a = none) (rule : VisibilityRule)
    (value : Text) :
    (db.judgeKeywords rule a value).1.map Verdict.kind = some .redundant ↔
      sameVersions (db.visible rule a) ((db.judgeKeywords rule a value).2.visible rule a) =
        true := by
  simp only [judgeKeywords, h]
  split
  · next hsame => simp [hsame, Verdict.kind]
  · next hsame =>
    split <;> simp [hsame, Verdict.kind]

theorem kind_of_judgeKeywords {rule : VisibilityRule} {value : Text} {v : Verdict}
    (h : db.presence? a = none) (hv : (db.judgeKeywords rule a value).1 = some v) :
    v.kind = .redundant ∨ v.kind = .irrelevant := by
  simp only [judgeKeywords, h] at hv
  split at hv
  · obtain rfl := Option.some.inj hv
    exact .inl rfl
  · split at hv
    · obtain rfl := Option.some.inj hv
      exact .inr rfl
    · contradiction

theorem sameVersions_visible_iff (m : Masking) :
    sameVersions (db.visible .byRecord a) ({ db with masking := m }.visible .byRecord a) = true ↔
      m.ShowsAllOf db.masking (db.selected a) ∧ db.masking.ShowsAllOf m (db.selected a) := by
  rw [sameVersions_iff, Masking.showsAllOf_iff, Masking.showsAllOf_iff]
  rfl

/-- An override for keywords whose package is there and installed is called redundant when, with
versions that compare equal taken as one, it shows the versions that were visible and no others. -/
theorem keywords_redundant_iff (hm : db.matching a ≠ [])
    (hi : db.installedMatching a.package ≠ []) (value : Text) :
    let judged := db.judgeKeywords .byRecord a value
    let redundant := judged.1.map Verdict.kind = some .redundant
    let before := db.masking
    let after := judged.2.masking
    let unchanged := ∀ p ∈ db.selected a, after.isVisible p = before.isVisible p
    (redundant ↔ after.ShowsAllOf before (db.selected a) ∧
        before.ShowsAllOf after (db.selected a)) ∧
      (unchanged → redundant) ∧
      (Available.ToldApart (db.selected a) → (redundant ↔ unchanged)) := by
  intro judged redundant before after unchanged
  have hp := presence?_eq_none_iff.2 ⟨hm, hi⟩
  have hafter : judged.2 = { db with masking := after } := by
    simp only [after, judged, judgeKeywords_db hp]
    rfl
  have hiff : redundant ↔ after.ShowsAllOf before (db.selected a) ∧
      before.ShowsAllOf after (db.selected a) := by
    simp only [redundant, judged]
    rw [judgeKeywords_redundant_iff hp, ← sameVersions_visible_iff, ← hafter]
  have hunchanged : unchanged → redundant := by
    intro h
    exact hiff.2 ⟨Masking.showsAllOf_of_eq h, Masking.showsAllOf_of_eq fun p hp => (h p hp).symm⟩
  refine ⟨hiff, hunchanged, fun hd => ⟨fun h p hp => ?_, hunchanged⟩⟩
  obtain ⟨hshows, hshown⟩ := hiff.1 h
  exact Masking.isVisible_congr hd hshows hshown hp

theorem keywords_redundant_iff_twoSlots :
    let record (slot keywords : String) : Available :=
      .ofTexts ⟨['a'], ['b'], ⟨['1'], [], none, [], none⟩⟩ slot.toList keywords.toList [] none
    let db := { Database.empty with masking := Masking.empty.accept "amd64".toList }
      |>.insertAvailable (record "0" "amd64") |>.insertAvailable (record "1" "~amd64")
      |>.insertInstalled (.ofTexts (record "0" "").cpv ['0'] [] none)
    let both := Atom.ofPackage ⟨['a'], ['b']⟩
    let second := { both with slot := some ['1'] }
    let redundant (a : Atom) :=
      (db.judgeKeywords .byRecord a "~amd64".toList).1.map Verdict.kind = some .redundant
    (∀ a ∈ [both, second], db.matching a ≠ [] ∧ db.installedMatching a.package ≠ []) ∧
      redundant both ∧ ¬redundant second := by
  intro record db both second redundant
  have hthere : ∀ a ∈ [both, second],
      db.matching a ≠ [] ∧ db.installedMatching a.package ≠ [] := by decide
  refine ⟨hthere, ?_, ?_⟩
  · obtain ⟨hm, hi⟩ := hthere both (by simp)
    refine (keywords_redundant_iff hm hi "~amd64".toList).1.2 ?_
    unfold Masking.ShowsAllOf
    decide
  · obtain ⟨hm, hi⟩ := hthere second (by simp)
    have hselected : db.selected second = [record "1" "~amd64"] := rfl
    have hapart : Available.ToldApart (db.selected second) := by
      simp [hselected, Available.ToldApart]
    have hiff := (keywords_redundant_iff hm hi "~amd64".toList).2.2 hapart
    intro hredundant
    exact absurd (hiff.1 hredundant) (by decide)

/-- The override for both records is redundant although it makes the second visible. -/
theorem redundant_of_equal_shown :
    let record (slot keywords : String) : Available :=
      .ofTexts ⟨['a'], ['b'], ⟨['1'], [], none, [], none⟩⟩ slot.toList keywords.toList [] none
    let db := { Database.empty with masking := Masking.empty.accept "amd64".toList }
      |>.insertAvailable (record "0" "amd64") |>.insertAvailable (record "1" "~amd64")
      |>.insertInstalled (.ofTexts (record "0" "").cpv ['0'] [] none)
    let a := Atom.ofPackage ⟨['a'], ['b']⟩
    let judged := db.judgeKeywords .byRecord a "~amd64".toList
    db.matching a ≠ [] ∧ db.installedMatching a.package ≠ [] ∧
      ¬(judged.1.map Verdict.kind = some .redundant ↔
        ∀ p ∈ db.selected a, judged.2.masking.isVisible p = db.masking.isVisible p) := by
  decide

end Database
end OverrideAudit
