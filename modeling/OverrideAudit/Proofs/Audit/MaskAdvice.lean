import OverrideAudit.Proofs.Audit.Run
import OverrideAudit.Proofs.Database.Selection
import OverrideAudit.Proofs.Masking.Additions

/-! Advice about masks is safe to follow. Masks that were called redundant may justify one another,
but the first mask that meets a version never is, and neither is the unmask that first lifts it. -/
namespace OverrideAudit

namespace Database
variable {db k : Database} {a : Atom} {p : Available} {v : Verdict}

theorem isMaskedVersion_self (hd : db.HasDistinctVersions) (hp : db.Offers p) :
    db.isMaskedVersion p.cpv = db.masking.isMasked p := by
  rw [isMaskedVersion_eq, lookupAvailable?_self hd hp, Option.any_some]

theorem isMasked_of_judgeMask (hd : db.HasDistinctVersions) (hp : db.Offers p)
    (hm : p.meets a = true) (hv : db.judgeMask a = some v)
    (hk : v.kind = .absent ∨ v.kind = .redundant) : db.masking.isMasked p = true := by
  rw [judgeMask, matching_ne_nil hp hm] at hv
  split at hv
  · contradiction
  · split at hv
    · obtain rfl := Option.some.inj hv
      simp [Verdict.kind] at hk
    · split at hv
      · next hall =>
        rw [← isMaskedVersion_self hd hp]
        exact List.all_eq_true.1 hall _ (mem_matching_of_meets hp hm)
      · contradiction

theorem isMasked_of_judgeUnmask (hd : db.HasDistinctVersions) (hp : db.Offers p)
    (hm : p.meets a = true) (hv : db.judgeUnmask a = some v)
    (hk : v.kind = .absent ∨ v.kind = .redundant) : db.masking.isMasked p = false := by
  rw [judgeUnmask, presence?, matching_ne_nil hp hm] at hv
  cases hi : (db.installedMatching a.package).isEmpty with
  | true =>
    obtain rfl : Verdict.notInstalled = v := by simpa [hi] using hv
    simp [Verdict.kind] at hk
  | false =>
    simp only [hi] at hv
    by_cases hany : (db.matching a).any db.isMaskedVersion = true
    · have holder : (if db.selectsOlder a then some Verdict.olderUnmasked else none) = some v := by
        simpa [hany] using hv
      split at holder
      · obtain rfl := Option.some.inj holder
        simp [Verdict.kind] at hk
      · contradiction
    · rw [← isMaskedVersion_self hd hp]
      have hnone := List.any_eq_false.1 (Bool.eq_false_iff.2 hany)
      simpa using hnone _ (mem_matching_of_meets hp hm)

end Database

/-- A database under audit and one that follows the advice, while they agree on what selects a
version. -/
structure MarkedAlike (p : Available) (db k : Database) : Prop where
  distinct : db.HasDistinctVersions
  offers : db.Offers p
  hit : k.masking.isHit p = db.masking.isHit p
  lifted : k.masking.isLifted p = db.masking.isLifted p

/-- The same when unmasks of what is not masked may be missing from the second. -/
structure MaskedAlike (p : Available) (db k : Database) : Prop where
  distinct : db.HasDistinctVersions
  offers : db.Offers p
  hit : k.masking.isHit p = db.masking.isHit p
  lifted : db.masking.isHit p = true → k.masking.isLifted p = db.masking.isLifted p

theorem MarkedAlike.maskedAlike {p : Available} {db k : Database} (h : MarkedAlike p db k) :
    MaskedAlike p db k := ⟨h.distinct, h.offers, h.hit, fun _ => h.lifted⟩

theorem MaskedAlike.isMasked_eq {p : Available} {db k : Database} (h : MaskedAlike p db k) :
    k.masking.isMasked p = db.masking.isMasked p := by
  rw [Masking.isMasked_eq, Masking.isMasked_eq, h.hit]
  cases hhit : db.masking.isHit p with
  | false => rfl
  | true => rw [h.lifted hhit]

namespace Auditor

/-- The advice about masks and unmasks that are called absent or redundant. -/
def maskAdvice : List IssueCode :=
  [⟨.mask, .absent⟩, ⟨.mask, .redundant⟩, ⟨.unmask, .absent⟩, ⟨.unmask, .redundant⟩]

theorem mem_maskAdvice {category : Category} {kind : IssueKind}
    (h : ⟨category, kind⟩ ∈ maskAdvice) : kind = .absent ∨ kind = .redundant := by
  simp only [maskAdvice, List.mem_cons, IssueCode.mk.injEq, List.not_mem_nil, or_false] at h
  obtain h | h | h | h := h <;> simp [h.2]

theorem markedAlike_masks {p : Available} {s : Auditor} {k : Database}
    (h : MarkedAlike p s.db k) (rule : VisibilityRule) (ms : List Record) :
    let audit := (s.answers rule (ms.map (.mask, ·))).value
    MarkedAlike p audit.2.db
      (appliedAll k (withoutFound maskAdvice audit.1 (ms.map (.mask, ·)))) := by
  refine withoutFound_induction (P := MarkedAlike p) (by decide) ?keep ?drop ms h
  case keep =>
    intro db k r h
    cases ha : Atom.read r.atom with
    | error fault => rwa [applied_of_error ha, applied_of_error ha]
    | ok a =>
      rw [applied_of_read ha, applied_of_read ha]
      exact ⟨h.distinct, h.offers, by simp [applyOverride, Database.mask, h.hit], h.lifted⟩
  case drop =>
    intro db k r a v ha hv hmem h
    -- A mask that meets `p` is dropped only when an earlier one has hit `p`.
    have hhit : db.masking.isHit p = true ∨ p.meets a = false := by
      cases hm : p.meets a with
      | false => exact .inr rfl
      | true =>
        have hmasked := Database.isMasked_of_judgeMask h.distinct h.offers hm hv
          (mem_maskAdvice hmem)
        rw [Masking.isMasked_eq, Bool.and_eq_true] at hmasked
        exact .inl hmasked.1
    rw [applied_of_read ha]
    refine ⟨h.distinct, h.offers, ?_, h.lifted⟩
    rw [h.hit, applyOverride, Database.mask, Masking.isHit_addMask]
    cases hhit with
    | inl hhit => simp [hhit]
    | inr hmiss => simp [hmiss]

theorem maskedAlike_unmasks {p : Available} {s : Auditor} {k : Database}
    (h : MaskedAlike p s.db k) (rule : VisibilityRule) (us : List Record) :
    let audit := (s.answers rule (us.map (.unmask, ·))).value
    MaskedAlike p audit.2.db
      (appliedAll k (withoutFound maskAdvice audit.1 (us.map (.unmask, ·)))) := by
  refine withoutFound_induction (P := MaskedAlike p) (by decide) ?keep ?drop us h
  case keep =>
    intro db k r h
    cases ha : Atom.read r.atom with
    | error fault => rwa [applied_of_error ha, applied_of_error ha]
    | ok a =>
      rw [applied_of_read ha, applied_of_read ha]
      refine ⟨h.distinct, h.offers, h.hit, ?_⟩
      intro hhit
      simp [applyOverride, Database.unmask, h.lifted hhit]
  case drop =>
    intro db k r a v ha hv hmem h
    rw [applied_of_read ha]
    refine ⟨h.distinct, h.offers, h.hit, ?_⟩
    intro hhit
    -- An unmask that meets `p` is dropped only when `p` is unmasked, and as `p` is hit, by an
    -- earlier one.
    have hbefore : db.masking.isHit p = true := hhit
    rw [h.lifted hbefore, applyOverride, Database.unmask, Masking.isLifted_addUnmask]
    cases hm : p.meets a with
    | false => simp
    | true =>
      have hunmasked := Database.isMasked_of_judgeUnmask h.distinct h.offers hm hv
        (mem_maskAdvice hmem)
      rw [Masking.isMasked_eq, hbefore, Bool.true_and] at hunmasked
      simpa using hunmasked

/-- To follow the advice about masks is safe: when all masks and unmasks that an audit calls absent
or redundant are dropped together, the rest mask the versions that all of them did. -/
theorem maskAdvice_safe {db : Database} (hd : db.HasDistinctVersions) (rule : VisibilityRule)
    (ms us : List Record) :
    let rs := ms.map (Category.mask, ·) ++ us.map (Category.unmask, ·)
    let audit := ((ofDatabase db).answers rule rs).value
    let kept := withoutFound maskAdvice audit.1 rs
    ∀ p, db.Offers p →
      (appliedAll db kept).masking.isMasked p = audit.2.db.masking.isMasked p := by
  intro rs audit kept p hp
  have hstart : MarkedAlike p (ofDatabase db).db db := ⟨hd, hp, rfl, rfl⟩
  have hmasks := markedAlike_masks hstart rule ms
  have hunmasks := maskedAlike_unmasks hmasks.maskedAlike rule us
  simp only [kept, audit, rs, answers_append]
  rw [withoutFound_append (length_answers _), appliedAll, List.foldl_append]
  exact hunmasks.isMasked_eq

theorem maskAdvice_safe_twoVersions :
    let version (n : Char) : Available :=
      .ofTexts ⟨['a'], ['b'], ⟨[n], [], none, [], none⟩⟩ ['0'] [] [] none
    let db := (Database.empty.insertAvailable (version '1')).insertAvailable (version '2')
      |>.insertInstalled (.ofTexts (version '1').cpv ['0'] [] none)
    let record (atom : String) : Record := ⟨atom.toList, [], [], 1, false⟩
    let ms := ["a/b", "=a/b-1", "a/z"].map record
    let us := ["=a/b-2", "=a/b-2"].map record
    let rs := ms.map (Category.mask, ·) ++ us.map (Category.unmask, ·)
    let audit := ((ofDatabase db).answers .byRecord rs).value
    let kept := withoutFound maskAdvice audit.1 rs
    db.HasDistinctVersions ∧ kept.map (·.2.atom) = ["a/b".toList, "=a/b-2".toList] ∧
      audit.2.db.masking.isMasked (version '1') = true ∧
      audit.2.db.masking.isMasked (version '2') = false ∧
      ∀ p ∈ [version '1', version '2'], db.Offers p ∧
        (appliedAll db kept).masking.isMasked p = audit.2.db.masking.isMasked p := by
  intro version db record ms us rs audit kept
  have hd : db.HasDistinctVersions :=
    (Database.hasDistinctVersions_empty.insertAvailable (by decide)).insertAvailable (by decide)
  have hoffers : ∀ p ∈ [version '1', version '2'], db.Offers p := by
    intro p hp
    have hlist : db.availableOf ⟨['a'], ['b']⟩ = [version '1', version '2'] := rfl
    have hpackage : p.cpv.package = ⟨['a'], ['b']⟩ := by
      simp only [List.mem_cons, List.not_mem_nil, or_false] at hp
      obtain rfl | rfl := hp <;> rfl
    rwa [Database.Offers, hpackage, hlist]
  exact ⟨hd, by decide, by decide, by decide, fun p hp =>
    ⟨hoffers p hp, maskAdvice_safe hd .byRecord ms us p (hoffers p hp)⟩⟩

end Auditor
end OverrideAudit
