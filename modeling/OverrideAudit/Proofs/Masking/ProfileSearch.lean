import Mathlib.Logic.Relation
import OverrideAudit.Masking.Profile

/-! The search for the ancestors of a profile. Every profile that a search enters it leaves again,
and it leaves a profile behind those of its parents that it did not come from. -/
namespace OverrideAudit

open Relation (ReflTransGen)

namespace Path

theorem sameAs_refl (p : Text) : sameAs p p = true := beq_self_eq_true _

theorem sameAs_symm {p q : Text} (h : sameAs p q = true) : sameAs q p = true := by
  rw [sameAs, beq_iff_eq] at h ⊢
  exact h.symm

def Distinct (paths : List Text) : Prop := paths.Pairwise fun p q => sameAs p q = false

theorem distinct_cons_iff {p : Text} {paths : List Text} :
    Distinct (p :: paths) ↔ paths.any (sameAs p) = false ∧ Distinct paths := by
  simp [Distinct, List.pairwise_cons]

theorem Distinct.nodup {paths : List Text} (h : Distinct paths) : paths.Nodup := by
  refine h.imp ?_
  rintro p q hpq rfl
  rw [sameAs_refl] at hpq
  contradiction

theorem Distinct.perm {ps qs : List Text} (h : Distinct ps) (hperm : ps.Perm qs) : Distinct qs := by
  have hsymm : ∀ {p q : Text}, sameAs p q = false → sameAs q p = false := by
    intro p q hpq
    rw [Bool.eq_false_iff] at hpq ⊢
    exact fun hqp => hpq (sameAs_symm hqp)
  exact (hperm.pairwise_iff hsymm).1 h

end Path

namespace FileTree

def existingParents (tree : FileTree) (folder : Text) : List Text :=
  ((tree.parentPaths folder).toOption.getD []).filter tree.isFolder

def IsParent (tree : FileTree) (folder parent : Text) : Prop :=
  ∃ path ∈ tree.existingParents folder, tree.profileKey path = parent

section
variable {tree : FileTree} {path : Text} {paths : List Text} {s t : ProfileSearch}
  {visit : Text → ProfileSearch → Logged (Except FileFault ProfileSearch)}

theorem visitParents_cons_ok
    (h : (tree.visitParents visit (path :: paths) s).value = .ok t) :
    (tree.isFolder path = true ∧ ∃ u, (visit path s).value = .ok u ∧
      (tree.visitParents visit paths u).value = .ok t) ∨
    (tree.isFolder path = false ∧ (tree.visitParents visit paths s).value = .ok t) := by
  rw [visitParents] at h
  cases hfolder : tree.isFolder path with
  | false =>
    rw [hfolder] at h
    exact .inr ⟨rfl, h⟩
  | true =>
    rw [hfolder, if_pos rfl, Logged.value_bind] at h
    cases hvisit : (visit path s).value with
    | error fault =>
      rw [hvisit] at h
      contradiction
    | ok u =>
      rw [hvisit] at h
      exact .inl ⟨rfl, u, rfl, h⟩

theorem enterProfile_ok (h : (tree.enterProfile visit path s).value = .ok t) :
    (s.seen.any (Path.sameAs (tree.profileKey path)) = true ∧ t = s) ∨
    (s.seen.any (Path.sameAs (tree.profileKey path)) = false ∧ ∃ parents u,
      tree.parentPaths (tree.profileKey path) = .ok parents ∧
      (tree.visitParents visit parents { s with seen := tree.profileKey path :: s.seen }).value =
        .ok u ∧ t = { u with order := u.order ++ [tree.profileKey path] }) := by
  simp only [enterProfile] at h
  cases hseen : s.seen.any (Path.sameAs (tree.profileKey path)) with
  | true =>
    rw [hseen] at h
    exact .inl ⟨rfl, (Except.ok.inj h).symm⟩
  | false =>
    rw [hseen, if_neg Bool.false_ne_true] at h
    refine .inr ⟨rfl, ?_⟩
    cases hparents : tree.parentPaths (tree.profileKey path) with
    | error fault =>
      rw [hparents] at h
      contradiction
    | ok parents =>
      rw [hparents] at h
      dsimp only at h
      rw [Logged.value_bind] at h
      cases hvisit : (tree.visitParents visit parents
          { s with seen := tree.profileKey path :: s.seen }).value with
      | error fault =>
        rw [hvisit] at h
        contradiction
      | ok u =>
        rw [hvisit] at h
        exact ⟨parents, u, rfl, hvisit, (Except.ok.inj h).symm⟩

end
end FileTree

/-- A search that goes on from a state: it enters profiles that were not entered before, and leaves
just these. -/
structure ProfileSearch.Grows (s t : ProfileSearch) (entered left : List Text) : Prop where
  seen : t.seen = entered ++ s.seen
  order : t.order = s.order ++ left
  perm : left.Perm entered
  distinct : Path.Distinct s.seen → Path.Distinct t.seen

theorem ProfileSearch.Grows.refl (s : ProfileSearch) : s.Grows s [] [] :=
  ⟨rfl, (List.append_nil _).symm, .refl _, id⟩

theorem ProfileSearch.Grows.trans {s t u : ProfileSearch} {es ls es' ls' : List Text}
    (h : s.Grows t es ls) (h' : t.Grows u es' ls') : s.Grows u (es' ++ es) (ls ++ ls') where
  seen := by rw [h'.seen, h.seen, List.append_assoc]
  order := by rw [h'.order, h.order, List.append_assoc]
  perm := (h.perm.append h'.perm).trans List.perm_append_comm
  distinct := h'.distinct ∘ h.distinct

theorem ProfileSearch.Grows.seen_suffix {s t : ProfileSearch} {es ls : List Text}
    (h : s.Grows t es ls) : s.seen <:+ t.seen := ⟨es, h.seen.symm⟩

namespace FileTree
variable {tree : FileTree} {path : Text} {paths : List Text} {s t : ProfileSearch}
  {visit : Text → ProfileSearch → Logged (Except FileFault ProfileSearch)}

theorem visitParents_grows
    (hvisit : ∀ {path s t}, (visit path s).value = .ok t → ∃ es ls, s.Grows t es ls)
    (h : (tree.visitParents visit paths s).value = .ok t) : ∃ es ls, s.Grows t es ls := by
  induction paths generalizing s with
  | nil =>
    obtain rfl := Except.ok.inj h
    exact ⟨[], [], .refl s⟩
  | cons path paths ih =>
    obtain ⟨_, u, hu, h⟩ | ⟨_, h⟩ := visitParents_cons_ok h
    · obtain ⟨es, ls, hfirst⟩ := hvisit hu
      obtain ⟨es', ls', hrest⟩ := ih h
      exact ⟨_, _, hfirst.trans hrest⟩
    · exact ih h

theorem enterProfile_grows
    (hvisit : ∀ {path s t}, (visit path s).value = .ok t → ∃ es ls, s.Grows t es ls)
    (h : (tree.enterProfile visit path s).value = .ok t) : ∃ es ls, s.Grows t es ls := by
  obtain ⟨_, rfl⟩ | ⟨hseen, parents, u, _, hu, rfl⟩ := enterProfile_ok h
  · exact ⟨[], [], .refl t⟩
  · obtain ⟨es, ls, hgrows⟩ := visitParents_grows hvisit hu
    refine ⟨es ++ [tree.profileKey path], ls ++ [tree.profileKey path], ?_, ?_, ?_, ?_⟩
    · simp [hgrows.seen]
    · simp [hgrows.order]
    · exact hgrows.perm.append_right _
    · intro hdistinct
      exact hgrows.distinct (Path.distinct_cons_iff.2 ⟨hseen, hdistinct⟩)

theorem visitProfile_grows {depth : Nat} (h : (tree.visitProfile depth path s).value = .ok t) :
    ∃ es ls, s.Grows t es ls := by
  induction depth generalizing path s t with
  | zero => contradiction
  | succ depth ih => exact enterProfile_grows ih h

end FileTree

namespace ProfileSearch
variable {s t : ProfileSearch} {d p : Text} {es ls : List Text}

theorem Grows.open_before (h : s.Grows t es ls) (hseen : p ∈ t.seen) (horder : p ∉ t.order) :
    p ∈ s.seen ∧ p ∉ s.order := by
  rw [h.seen, List.mem_append] at hseen
  rw [h.order, List.mem_append, not_or, h.perm.mem_iff] at horder
  exact ⟨hseen.resolve_left horder.2, horder.1⟩

/-- Whether `p` was being visited when the parents of `d` were read: it is `d` itself, or was
entered before `d` and not left before it. The newest profile stands first among those that were
entered. -/
def OpenAt (s : ProfileSearch) (d p : Text) : Prop :=
  p = d ∨ [d, p].Sublist s.seen ∧ (p ∈ s.order → [d, p].Sublist s.order)

theorem OpenAt.grow (h : s.OpenAt d p) (hd : d ∈ s.order) (hseen : s.seen <:+ t.seen)
    (horder : s.order <+: t.order) : t.OpenAt d p := by
  cases h with
  | inl heq => exact .inl heq
  | inr hopen =>
    right
    refine ⟨hopen.1.trans hseen.sublist, fun hp => ?_⟩
    obtain ⟨ls, hls⟩ := horder
    rw [← hls] at hp ⊢
    obtain hp | hp := List.mem_append.1 hp
    · exact (hopen.2 hp).trans (List.sublist_append_left ..)
    · exact (List.singleton_sublist.2 hd).append (List.singleton_sublist.2 hp)

end ProfileSearch

namespace FileTree
variable {tree : FileTree} {root d p : Text}

/-- How a parent stands to a profile that named it: before it, unless it was being visited when the
parents of the profile were read. Then it descends from the profile. -/
def Settled (tree : FileTree) (s : ProfileSearch) (d p : Text) : Prop :=
  ∃ q ∈ s.seen, Path.sameAs p q = true ∧
    ([q, d].Sublist s.order ∨ s.OpenAt d q ∧ ReflTransGen tree.IsParent q d)

theorem Settled.grow {s t : ProfileSearch} (h : tree.Settled s d p) (hd : d ∈ s.order)
    (hseen : s.seen <:+ t.seen) (horder : s.order <+: t.order) : tree.Settled t d p := by
  obtain ⟨q, hq, hsame, hplace⟩ := h
  refine ⟨q, hseen.subset hq, hsame, ?_⟩
  cases hplace with
  | inl hbefore => exact .inl (hbefore.trans horder.sublist)
  | inr hopen => exact .inr ⟨hopen.1.grow hd hseen horder, hopen.2⟩

structure Searched (tree : FileTree) (root : Text) (s : ProfileSearch) : Prop where
  distinct : Path.Distinct s.seen
  reached : ∀ d ∈ s.seen, ReflTransGen tree.IsParent root d
  entered : ∀ d ∈ s.order, d ∈ s.seen
  settled : ∀ d ∈ s.order, ∀ p, tree.IsParent d p → tree.Settled s d p

theorem searched_start (tree : FileTree) (root : Text) : tree.Searched root ⟨[], []⟩ :=
  ⟨.nil, by simp, by simp, by simp⟩

section
variable {path : Text} {paths : List Text} {s t : ProfileSearch}
  {visit : Text → ProfileSearch → Logged (Except FileFault ProfileSearch)}

theorem Searched.enter (hs : tree.Searched root s) (hd : ReflTransGen tree.IsParent root d)
    (hnew : s.seen.any (Path.sameAs d) = false) :
    tree.Searched root { s with seen := d :: s.seen } where
  distinct := Path.distinct_cons_iff.2 ⟨hnew, hs.distinct⟩
  reached := List.forall_mem_cons.2 ⟨hd, hs.reached⟩
  entered e he := List.mem_cons_of_mem _ (hs.entered e he)
  settled e he p hp := (hs.settled e he p hp).grow he (List.suffix_cons ..) (List.prefix_refl _)

theorem Searched.leave (hs : tree.Searched root s) (hd : d ∈ s.seen)
    (hparents : ∀ p, tree.IsParent d p →
      tree.Settled { s with order := s.order ++ [d] } d p) :
    tree.Searched root { s with order := s.order ++ [d] } where
  distinct := hs.distinct
  reached := hs.reached
  entered e he := by
    obtain he | he := List.mem_append.1 he
    · exact hs.entered e he
    · rwa [List.mem_singleton.1 he]
  settled e he p hp := by
    obtain he | he := List.mem_append.1 he
    · exact (hs.settled e he p hp).grow he (List.suffix_refl _) (List.prefix_append ..)
    · rw [List.mem_singleton.1 he] at hp ⊢
      exact hparents p hp

/-- A visit that keeps what holds of a search, where every profile that is open descends from the
one that is visited. It leaves that profile entered. -/
def KeepsSearch (tree : FileTree) (root : Text)
    (visit : Text → ProfileSearch → Logged (Except FileFault ProfileSearch)) : Prop :=
  ∀ {path s t}, tree.Searched root s → ReflTransGen tree.IsParent root (tree.profileKey path) →
    (∀ g ∈ s.seen, g ∉ s.order → ReflTransGen tree.IsParent g (tree.profileKey path)) →
    (visit path s).value = .ok t →
    tree.Searched root t ∧ ∃ q ∈ t.seen, Path.sameAs (tree.profileKey path) q = true

theorem KeepsSearch.visitParents (hkeeps : tree.KeepsSearch root visit)
    (hgrows : ∀ {path s t}, (visit path s).value = .ok t → ∃ es ls, s.Grows t es ls)
    (hd : ReflTransGen tree.IsParent root d)
    (hpaths : ∀ path ∈ paths, tree.isFolder path = true → tree.IsParent d (tree.profileKey path))
    (hs : tree.Searched root s)
    (hopen : ∀ g ∈ s.seen, g ∉ s.order → ReflTransGen tree.IsParent g d)
    (h : (tree.visitParents visit paths s).value = .ok t) :
    tree.Searched root t ∧ ∀ path ∈ paths, tree.isFolder path = true →
      ∃ q ∈ t.seen, Path.sameAs (tree.profileKey path) q = true := by
  induction paths generalizing s with
  | nil =>
    obtain rfl := Except.ok.inj h
    exact ⟨hs, by simp⟩
  | cons path paths ih =>
    obtain ⟨hpath, hpaths⟩ := List.forall_mem_cons.1 hpaths
    obtain ⟨hfolder, u, hu, h⟩ | ⟨hmissing, h⟩ := visitParents_cons_ok h
    · have hparent := hpath hfolder
      obtain ⟨hsearched, q, hq, hsame⟩ := hkeeps hs (hd.tail hparent)
        (fun g hg hleft => (hopen g hg hleft).tail hparent) hu
      obtain ⟨es, ls, hgrowth⟩ := hgrows hu
      have hopen' : ∀ g ∈ u.seen, g ∉ u.order → ReflTransGen tree.IsParent g d := by
        intro g hg hleft
        obtain ⟨hg, hleft⟩ := hgrowth.open_before hg hleft
        exact hopen g hg hleft
      obtain ⟨hdone, hall⟩ := ih hpaths hsearched hopen' h
      obtain ⟨es', ls', hgrowth'⟩ := visitParents_grows hgrows h
      refine ⟨hdone, List.forall_mem_cons.2 ⟨fun _ => ?_, hall⟩⟩
      exact ⟨q, hgrowth'.seen_suffix.subset hq, hsame⟩
    · obtain ⟨hdone, hall⟩ := ih hpaths hs hopen h
      refine ⟨hdone, List.forall_mem_cons.2 ⟨fun hfolder => ?_, hall⟩⟩
      rw [hmissing] at hfolder
      contradiction

theorem KeepsSearch.enterProfile (hkeeps : tree.KeepsSearch root visit)
    (hgrows : ∀ {path s t}, (visit path s).value = .ok t → ∃ es ls, s.Grows t es ls) :
    tree.KeepsSearch root (tree.enterProfile visit) := by
  intro path s t hs hroot hopen h
  obtain ⟨hseen, rfl⟩ | ⟨hnew, parents, u, hparents, hu, rfl⟩ := enterProfile_ok h
  · obtain ⟨q, hq, hsame⟩ := List.any_eq_true.1 hseen
    exact ⟨hs, q, hq, hsame⟩
  · generalize tree.profileKey path = d at *
    have hexisting : tree.existingParents d = parents.filter tree.isFolder := by
      rw [existingParents, hparents]
      rfl
    have hopen' : ∀ g ∈ d :: s.seen, g ∉ s.order → ReflTransGen tree.IsParent g d :=
      List.forall_mem_cons.2 ⟨fun _ => .refl, hopen⟩
    have hpaths : ∀ q ∈ parents, tree.isFolder q = true → tree.IsParent d (tree.profileKey q) := by
      intro q hq hfolder
      exact ⟨q, hexisting ▸ List.mem_filter.2 ⟨hq, hfolder⟩, rfl⟩
    obtain ⟨hdone, hall⟩ :=
      hkeeps.visitParents hgrows hroot hpaths (hs.enter hroot hnew) hopen' hu
    obtain ⟨es, ls, hgrowth⟩ := visitParents_grows hgrows hu
    have hentered : d :: s.seen <:+ u.seen := hgrowth.seen_suffix
    have hd : d ∈ u.seen := hentered.subset List.mem_cons_self
    refine ⟨hdone.leave hd fun p hp => ?_, d, hd, Path.sameAs_refl d⟩
    obtain ⟨q, hq, rfl⟩ := hp
    rw [hexisting, List.mem_filter] at hq
    obtain ⟨k, hk, hsame⟩ := hall q hq.1 hq.2
    refine ⟨k, hk, hsame, ?_⟩
    -- A parent that was left stands before `d` now; one that was not was open when `d` was entered.
    by_cases hleft : k ∈ u.order
    · left
      exact (List.singleton_sublist.2 hleft).append (List.Sublist.refl [d])
    · right
      obtain ⟨hk, hk'⟩ := hgrowth.open_before hk hleft
      refine ⟨?_, hopen' k hk hk'⟩
      obtain rfl | hbefore := List.mem_cons.1 hk
      · exact .inl rfl
      · right
        have hnewer := (List.singleton_sublist.2 hbefore).cons_cons d
        refine ⟨hnewer.trans hentered.sublist, fun hlist => ?_⟩
        obtain hlist | hlist := List.mem_append.1 hlist
        · exact absurd hlist hleft
        · obtain rfl := List.mem_singleton.1 hlist
          have hknown := List.any_eq_false.1 hnew k hbefore
          exact absurd (Path.sameAs_refl k) hknown

theorem keepsSearch_visitProfile (tree : FileTree) (root : Text) (depth : Nat) :
    tree.KeepsSearch root (tree.visitProfile depth) := by
  induction depth with
  | zero => exact fun _ _ _ h => by contradiction
  | succ depth ih => exact ih.enterProfile visitProfile_grows

end
end FileTree
end OverrideAudit
