import OverrideAudit.Proofs.FileTree.Canonical
import OverrideAudit.Proofs.Masking.ProfileDepth

/-! The order of a profile and its ancestors: each of them once, behind its parents. Profiles are
told apart by their canonical paths, or by the paths they were reached by where there are no such.
-/
namespace OverrideAudit

open Relation (ReflTransGen TransGen)

namespace FileTree
variable {tree : FileTree} {path : Text} {s : ProfileSearch}

theorem last_of_enterProfile
    {visit : Text → ProfileSearch → Logged (Except FileFault ProfileSearch)}
    (h : (tree.enterProfile visit path ⟨[], []⟩).value = .ok s) :
    s.order.getLast? = some (tree.profileKey path) := by
  obtain ⟨hseen, _⟩ | ⟨_, parents, u, _, _, rfl⟩ := enterProfile_ok h
  · contradiction
  · exact List.getLast?_concat

theorem left_of_visitProfile {depth : Nat}
    (h : (tree.visitProfile depth path ⟨[], []⟩).value = .ok s) : s.order.Perm s.seen := by
  obtain ⟨es, ls, hgrows⟩ := visitProfile_grows h
  rw [hgrows.order, hgrows.seen, List.append_nil]
  exact hgrows.perm

theorem searched_of_visitProfile {depth : Nat}
    (h : (tree.visitProfile depth path ⟨[], []⟩).value = .ok s) :
    tree.Searched (tree.profileKey path) s :=
  (tree.keepsSearch_visitProfile _ depth (searched_start _ _) .refl (by simp) h).1

/-- The order of a profile and its ancestors by the paths that they go by: the profile last, each of
them once, and each behind its parents but for those that were being visited when they were read. -/
structure ParentsFirst (tree : FileTree) (root : Text) (s : ProfileSearch) : Prop where
  last : s.order.getLast? = some root
  distinct : Path.Distinct s.order
  reached : ∀ d ∈ s.order, ReflTransGen tree.IsParent root d
  parents : ∀ d ∈ s.order, ∀ p, tree.IsParent d p → ∃ q ∈ s.order, Path.sameAs p q = true ∧
    ([q, d].Sublist s.order ∨ s.OpenAt d q ∧ ReflTransGen tree.IsParent q d)

theorem parentsFirst_of_visitProfile
    (h : (tree.visitProfile tree.profileDepth path ⟨[], []⟩).value = .ok s) :
    tree.ParentsFirst (tree.profileKey path) s := by
  have hs := searched_of_visitProfile h
  have hleft := left_of_visitProfile h
  refine ⟨last_of_enterProfile h, hs.distinct.perm hleft.symm, ?_, ?_⟩
  · exact fun d hd => hs.reached d (hs.entered d hd)
  · intro d hd p hp
    obtain ⟨q, hq, hsame, hplace⟩ := hs.settled d hd p hp
    exact ⟨q, hleft.mem_iff.2 hq, hsame, hplace⟩

/-- Whether the system finds canonical paths of a profile and of all parents that exist above it. -/
structure HasCanonicalPaths (tree : FileTree) (path : Text) : Prop where
  working : ∀ name ∈ tree.workingFolder, IsEntryName name
  given : ∃ c, tree.canonicalPath path = .ok c
  parents : ∀ d, ReflTransGen tree.IsParent (tree.profileKey path) d →
    ∀ q ∈ tree.existingParents d, ∃ c, tree.canonicalPath q = .ok c

theorem profileKey_of_canonical {c : Text} (h : tree.canonicalPath path = .ok c) :
    tree.profileKey path = c := by
  rw [profileKey, h]
  rfl

theorem HasCanonicalPaths.canonical (h : tree.HasCanonicalPaths path) {d : Text}
    (hd : ReflTransGen tree.IsParent (tree.profileKey path) d) :
    ∃ q, tree.canonicalPath q = .ok d := by
  cases hd with
  | refl =>
    obtain ⟨c, hc⟩ := h.given
    exact ⟨path, by rw [hc, profileKey_of_canonical hc]⟩
  | tail hreach hparent =>
    obtain ⟨q, hq, rfl⟩ := hparent
    obtain ⟨c, hc⟩ := h.parents _ hreach q hq
    exact ⟨q, by rw [hc, profileKey_of_canonical hc]⟩

/-- The order by canonical paths: just the profiles that are reached, each behind its parents but
for those that were being visited when they were read, which are on a cycle with it. -/
structure CanonicalParentsFirst (tree : FileTree) (root : Text) (s : ProfileSearch) : Prop where
  last : s.order.getLast? = some root
  listed : ∀ d, d ∈ s.order ↔ ReflTransGen tree.IsParent root d
  canonical : ∀ d ∈ s.order, ∃ q, tree.canonicalPath q = .ok d
  nodup : s.order.Nodup
  parents : ∀ d ∈ s.order, ∀ p, tree.IsParent d p →
    [p, d].Sublist s.order ∨ s.OpenAt d p ∧ ReflTransGen tree.IsParent p d
  acyclic : (∀ d ∈ s.order, ¬TransGen tree.IsParent d d) →
    ∀ d ∈ s.order, ∀ p, tree.IsParent d p → [p, d].Sublist s.order

theorem HasCanonicalPaths.parents_listed (h : tree.HasCanonicalPaths path)
    (hs : tree.ParentsFirst (tree.profileKey path) s) {d p : Text} (hd : d ∈ s.order)
    (hp : tree.IsParent d p) :
    p ∈ s.order ∧
      ([p, d].Sublist s.order ∨ s.OpenAt d p ∧ ReflTransGen tree.IsParent p d) := by
  obtain ⟨q, hq, hsame, hplace⟩ := hs.parents d hd p hp
  obtain ⟨_, hpath⟩ := h.canonical ((hs.reached d hd).tail hp)
  obtain ⟨_, hpath'⟩ := h.canonical (hs.reached q hq)
  obtain rfl := eq_of_sameAs_canonical h.working hpath hpath' hsame
  exact ⟨hq, hplace⟩

theorem ParentsFirst.canonical (hs : tree.ParentsFirst (tree.profileKey path) s)
    (h : tree.HasCanonicalPaths path) :
    tree.CanonicalParentsFirst (tree.profileKey path) s := by
  have hlisted : ∀ d, ReflTransGen tree.IsParent (tree.profileKey path) d → d ∈ s.order := by
    intro d hd
    induction hd with
    | refl => exact List.mem_of_getLast? hs.last
    | tail _ hp ih => exact (h.parents_listed hs ih hp).1
  refine ⟨hs.last, fun d => ⟨hs.reached d, hlisted d⟩, fun d hd => h.canonical (hs.reached d hd),
    hs.distinct.nodup, fun d hd p hp => (h.parents_listed hs hd hp).2, ?_⟩
  intro hacyclic d hd p hp
  obtain hbefore | ⟨_, hback⟩ := (h.parents_listed hs hd hp).2
  · exact hbefore
  · exact absurd (TransGen.head' hp hback) (hacyclic d hd)

/-- A search for a profile and its ancestors ends whatever stands beyond its depth. If it succeeds,
it lists them parents first, by the paths that they go by, and by their canonical paths where there
are such. -/
theorem profileOrder_parentsFirst (tree : FileTree) (path : Text) :
    (∀ beyond depth, tree.profileDepth ≤ depth →
      tree.enterProfile^[depth] beyond path ⟨[], []⟩ =
        tree.visitProfile tree.profileDepth path ⟨[], []⟩) ∧
    ∀ s, (tree.visitProfile tree.profileDepth path ⟨[], []⟩).value = .ok s →
      (tree.profileOrder path).value = .ok s.order ∧
      tree.ParentsFirst (tree.profileKey path) s ∧
      (tree.HasCanonicalPaths path → tree.CanonicalParentsFirst (tree.profileKey path) s) := by
  refine ⟨fun beyond _ => iterate_enterProfile_start beyond path, fun s h => ?_⟩
  have horder : (tree.profileOrder path).value = .ok s.order := by
    rw [profileOrder, Logged.value_bind, h]
    rfl
  have hs := parentsFirst_of_visitProfile h
  exact ⟨horder, hs, hs.canonical⟩

theorem profileOrder_parentsFirst_diamond :
    let file (content : String) : Node := .file (some content.toList)
    let tree : FileTree := ((((ofWorkingFolder []).add "/base".toList .folder).add "/link".toList
      (.link "base".toList)).add "/a/parent".toList (file "../base")).add "/b/parent".toList
      (file "../link/.") |>.add "/top/parent".toList (file "../a\n# comment\n../b\n../none\n")
    let path : Text := "/b/../top/".toList
    let order : List Text := ["/base".toList, "/a".toList, "/b".toList, "/top".toList]
    let s : ProfileSearch := ⟨["/b".toList, "/base".toList, "/a".toList, "/top".toList], order⟩
    (tree.visitProfile tree.profileDepth path ⟨[], []⟩).value = .ok s ∧
      tree.HasCanonicalPaths path ∧ (∀ d ∈ s.order, ¬TransGen tree.IsParent d d) ∧
      (tree.profileOrder path).value = .ok order ∧
      (∀ d, d ∈ order ↔ ReflTransGen tree.IsParent "/top".toList d) ∧
      ∀ d ∈ order, ∀ p, tree.IsParent d p → [p, d].Sublist order := by
  intro file tree path order s
  have hrun : (tree.visitProfile tree.profileDepth path ⟨[], []⟩).value = .ok s := by
    decide +kernel
  have hkey : tree.profileKey path = "/top".toList := by decide +kernel
  -- Every parent is listed under its canonical path, before its child.
  have hparents : ∀ d ∈ order, ∀ q ∈ tree.existingParents d, tree.profileKey q ∈ order ∧
      tree.canonicalPath q = .ok (tree.profileKey q) ∧
      order.idxOf (tree.profileKey q) < order.idxOf d := by decide +kernel
  have hlisted : ∀ d, ReflTransGen tree.IsParent (tree.profileKey path) d → d ∈ order := by
    intro d hd
    induction hd with
    | refl =>
      rw [hkey]
      decide
    | tail _ hp ih =>
      obtain ⟨q, hq, rfl⟩ := hp
      exact (hparents _ ih q hq).1
  have hcanonical : tree.HasCanonicalPaths path := by
    have hworking : tree.workingFolder = [] := by decide +kernel
    refine ⟨by simp [hworking], ⟨"/top".toList, by decide +kernel⟩, fun d hd q hq => ?_⟩
    exact ⟨_, (hparents d (hlisted d hd) q hq).2.1⟩
  have hacyclic : ∀ d ∈ order, ¬TransGen tree.IsParent d d := by
    intro d hd hcycle
    have hdown : ∀ e, TransGen tree.IsParent d e → e ∈ order ∧ order.idxOf e < order.idxOf d := by
      intro e he
      induction he with
      | single hp =>
        obtain ⟨q, hq, rfl⟩ := hp
        have hparent := hparents d hd q hq
        exact ⟨hparent.1, hparent.2.2⟩
      | tail _ hp ih =>
        obtain ⟨q, hq, rfl⟩ := hp
        have hparent := hparents _ ih.1 q hq
        exact ⟨hparent.1, hparent.2.2.trans ih.2⟩
    exact Nat.lt_irrefl _ (hdown d hcycle).2
  obtain ⟨horder, _, hlists⟩ := (profileOrder_parentsFirst tree path).2 s hrun
  have hfirst := hlists hcanonical
  exact ⟨hrun, hcanonical, hacyclic, horder, hkey ▸ hfirst.listed, hfirst.acyclic hacyclic⟩

example :
    let tree : FileTree := ((ofWorkingFolder []).add "/base/parent".toList
      (.file (some "../top".toList))).add "/top/parent".toList
      (.file (some "../top\n../base".toList))
    (tree.profileOrder "/top".toList).value = .ok ["/base".toList, "/top".toList] := by
  decide +kernel

/-- Behind a link that leads too deep for canonical paths, a profile that is reached in two ways is
listed twice. -/
theorem profileOrder_repeats :
    let name : Text := List.replicate 250 'n'
    let chain : Text := ['/'].intercalate (List.replicate 15 name)
    let far (below : String) : Text := "l/".toList ++ name ++ '/' :: name ++ below.toList
    let tree : FileTree := ((((ofWorkingFolder []).add chain .folder).add ['l'] (.link chain)).add
      (far "/b") .folder).add (far "/top/parent") (.file (some "../b\n../top/../b".toList))
    let twice : Location := List.replicate 17 name ++ [['b']]
    ∃ order, (tree.profileOrder (far "/top")).value = .ok order ∧
      order.countP (fun d => (tree.resolve d).toOption = some twice) = 2 := by
  intro name chain far tree twice
  refine ⟨[far "/top/../b", far "/top/../top/../b", far "/top"], ?_, ?_⟩
  · decide +kernel
  · decide +kernel

end FileTree
end OverrideAudit
