import OverrideAudit.Database.Basic
import OverrideAudit.Proofs.Sorted

/-! What atoms select: an atom meets versions of its own package only, and a look-up stays within
the package of the version that is looked up. Where no two versions of a package compare equal, a
version stands for its record. -/
namespace OverrideAudit

theorem Available.package_of_meets {p : Available} {a : Atom} (h : p.meets a = true) :
    p.cpv.package = a.packageName := by
  simp only [meets, Atom.selects, Atom.matchesVersion, Atom.isFor, Bool.and_eq_true,
    beq_iff_eq] at h
  simp [Cpv.package, Atom.packageName, h.1.1.1]

instance : Std.OrientedCmp Available.compare :=
  inferInstanceAs (Std.OrientedCmp (comparePart Version.compare fun p : Available => p.cpv.version))

theorem Cpv.package_of_sameAs {c d : Cpv} (h : c.sameAs d = true) : c.package = d.package := by
  simp only [sameAs, Bool.and_eq_true, beq_iff_eq] at h
  simp [package, h.1]

namespace Database

def Offers (db : Database) (p : Available) : Prop := p ∈ db.availableOf p.cpv.package

/-- No two offered versions of a package compare equal. -/
def HasDistinctVersions (db : Database) : Prop :=
  ∀ n, (db.availableOf n).Pairwise fun p q => Available.compare p q ≠ .eq

theorem mem_selected_iff {db : Database} {a : Atom} {p : Available} :
    p ∈ db.selected a ↔ db.Offers p ∧ p.meets a = true := by
  rw [selected, List.mem_filter, Offers]
  constructor
  · intro ⟨hp, hm⟩
    exact ⟨by rwa [Available.package_of_meets hm], hm⟩
  · intro ⟨hp, hm⟩
    exact ⟨by rwa [← Available.package_of_meets hm], hm⟩

theorem mem_matching_of_meets {db : Database} {a : Atom} {p : Available} (hp : db.Offers p)
    (hm : p.meets a = true) : p.cpv ∈ db.matching a :=
  List.mem_map_of_mem (mem_selected_iff.2 ⟨hp, hm⟩)

theorem matching_ne_nil {db : Database} {a : Atom} {p : Available} (hp : db.Offers p)
    (hm : p.meets a = true) : (db.matching a).isEmpty = false := by
  simpa using List.ne_nil_of_mem (mem_matching_of_meets hp hm)

theorem offers_of_lookup {db : Database} {c : Cpv} {p : Available}
    (h : db.lookupAvailable? c = some p) : db.Offers p ∧ p.cpv.package = c.package := by
  rw [lookupAvailable?] at h
  have hsame : p.cpv.sameAs c = true := by simpa using List.find?_some h
  have hpackage := Cpv.package_of_sameAs hsame
  refine ⟨?_, hpackage⟩
  rw [Offers, hpackage]
  exact List.mem_of_find?_eq_some h

theorem hasDistinctVersions_empty : empty.HasDistinctVersions := by
  intro n
  simp [availableOf, empty]

theorem HasDistinctVersions.insertAvailable {db : Database} (hd : db.HasDistinctVersions)
    {p : Available} (h : ∀ q ∈ db.availableOf p.cpv.package, Available.compare p q ≠ .eq) :
    (db.insertAvailable p).HasDistinctVersions := by
  intro n
  rw [availableOf, Database.insertAvailable, Std.TreeMap.getD_insert]
  split
  · have hsymm : ∀ {q r : Available}, Available.compare q r ≠ .eq → Available.compare r q ≠ .eq :=
      fun hne heq => hne (Std.OrientedCmp.eq_symm heq)
    rw [(perm_insertStable Available.compare p _).pairwise_iff hsymm, List.pairwise_cons]
    exact ⟨h, hd _⟩
  · exact hd n

theorem lookupAvailable?_self {db : Database} (hd : db.HasDistinctVersions) {p : Available}
    (hp : db.Offers p) : db.lookupAvailable? p.cpv = some p := by
  obtain ⟨before, after, hsplit⟩ := List.append_of_mem hp
  have hbefore : ∀ q ∈ before, q.cpv.sameAs p.cpv = false := by
    intro q hq
    have hpair := hd p.cpv.package
    rw [hsplit, List.pairwise_append] at hpair
    have hne := hpair.2.2 q hq p List.mem_cons_self
    rw [Bool.eq_false_iff]
    intro hs
    simp only [Cpv.sameAs, Bool.and_eq_true, Version.sameAs_iff] at hs
    exact hne hs.2
  rw [lookupAvailable?, hsplit, List.find?_append, List.find?_eq_none.2 (by simpa using hbefore)]
  simp [Cpv.sameAs_self]

theorem eq_of_sameAs {db : Database} (hd : db.HasDistinctVersions) {p q : Available}
    (hp : db.Offers p) (hq : db.Offers q) (h : p.cpv.sameAs q.cpv = true) : p = q := by
  have hpackage := Cpv.package_of_sameAs h
  have heq : Available.compare p q = .eq := by
    simp only [Cpv.sameAs, Bool.and_eq_true, Version.sameAs_iff] at h
    exact h.2
  have hlist : ∀ n, p ∈ db.availableOf n → q ∈ db.availableOf n → p = q := by
    intro n hp hq
    obtain ⟨i, hi, rfl⟩ := List.getElem_of_mem hp
    obtain ⟨j, hj, rfl⟩ := List.getElem_of_mem hq
    have hpair := List.pairwise_iff_getElem.1 (hd n)
    obtain hlt | rfl | hgt := Nat.lt_trichotomy i j
    · exact absurd heq (hpair i j hi hj hlt)
    · rfl
    · exact absurd (Std.OrientedCmp.eq_symm heq) (hpair j i hj hi hgt)
  rw [Offers, ← hpackage] at hq
  exact hlist _ hp hq

/-- Where no two versions compare equal, both rules show the records that are visible. -/
theorem visible_eq_byRecord {db : Database} (hd : db.HasDistinctVersions) (rule : VisibilityRule)
    (a : Atom) : db.visible rule a = db.visible .byRecord a := by
  cases rule with
  | byRecord => rfl
  | byVersion =>
    simp only [visible, matching, List.filter_map]
    congr 1
    refine List.filter_congr ?_
    intro p hp
    simp [maskReasons, lookupAvailable?_self hd (mem_selected_iff.1 hp).1, Masking.isVisible]

end Database
end OverrideAudit
