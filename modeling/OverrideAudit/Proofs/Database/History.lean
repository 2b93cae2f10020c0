import OverrideAudit.Database.Folders
import OverrideAudit.Proofs.Database.Selection
import OverrideAudit.Proofs.Masking.Additions

/-! What a database answers after any changes. Its lists hold the records that were added, in order
of their versions, whatever happens to the masking in between. -/
namespace OverrideAudit

namespace Atom
variable {a : Atom} {c : Cpv} {written : Text} {origin : Option Text}

/-- What an atom asks of a version with a written slot, and of its repository if that is known. -/
structure Allows (a : Atom) (c : Cpv) (written : Text) (origin : Option Text) : Prop where
  category : a.category = c.category
  name : a.name = c.name
  version : ∀ wanted ∈ a.version, a.operator.admits wanted c.version = true
  slot : ∀ wanted ∈ a.slot, wanted = (cutSlot written).1
  subslot : a.slot.isSome → ∀ wanted ∈ a.subslot, ∀ known ∈ (cutSlot written).2, wanted = known
  repository : ∀ wanted ∈ a.repository, ∀ known ∈ origin, wanted = known

theorem meets_iff {wanted known : Option Text} :
    meets wanted known = true ↔ ∀ w ∈ wanted, ∀ k ∈ known, w = k := by
  cases wanted <;> cases known <;> simp [meets]

theorem matchesVersion_iff :
    a.matchesVersion c = true ↔ (a.category = c.category ∧ a.name = c.name) ∧
      ∀ wanted ∈ a.version, a.operator.admits wanted c.version = true := by
  rw [matchesVersion, isFor]
  cases a.version <;> simp

theorem meetsSlot_iff :
    a.meetsSlot (some written) = true ↔ (∀ wanted ∈ a.slot, wanted = (cutSlot written).1) ∧
      (a.slot.isSome → ∀ wanted ∈ a.subslot, ∀ known ∈ (cutSlot written).2, wanted = known) := by
  rw [meetsSlot.eq_def]
  cases a.slot with
  | none => simp
  | some wanted => simp [meets_iff]

theorem selects_iff : a.selects c (some written) origin = true ↔ a.Allows c written origin := by
  rw [selects, Bool.and_eq_true, Bool.and_eq_true, matchesVersion_iff, meetsSlot_iff, meets_iff]
  constructor
  · rintro ⟨⟨⟨⟨hcategory, hname⟩, hversion⟩, hslot, hsubslot⟩, hrepository⟩
    exact ⟨hcategory, hname, hversion, hslot, hsubslot, hrepository⟩
  · intro h
    exact ⟨⟨⟨⟨h.category, h.name⟩, h.version⟩, h.slot, h.subslot⟩, h.repository⟩

theorem package_selects_eq {slot : Option Text} :
    a.package.selects c slot origin = a.isFor c.category c.name := by
  simp [selects, matchesVersion, package, ofPackage, packageName, isFor, meetsSlot, meets]

end Atom

theorem Installed.package_of_meets {p : Installed} {a : Atom} (h : p.meets a = true) :
    p.cpv.package = a.packageName := by
  have hallows := Atom.selects_iff.1 h
  rw [Cpv.package, Atom.packageName, hallows.category, hallows.name]

instance : Std.LawfulEqOrd PackageName where
  eq_of_compare {m n} h := by
    have hparts := Ordering.then_eq_eq.1 (show PackageName.compare m n = .eq from h)
    simp only [Std.LawfulEqOrd.compare_eq_iff_eq] at hparts
    cases m
    cases n
    simpa using hparts

namespace Database

inductive Change
  | offer (p : Available)
  | install (p : Installed)
  | mask (a : Atom)
  | unmask (a : Atom)
  | keywords (a : Atom) (tokens : List Text)
  | maskLines (lines : List MaskLine)
  | repositoryMasks (tree : FileTree) (repository : Text)
  | profile (tree : FileTree) (path : Text)
  | accept (value : Text)
  | setArch (arch : Text)
  | defaultArch

def Change.offered? : Change → Option Available
  | offer p => some p
  | _ => none

def Change.installed? : Change → Option Installed
  | install p => some p
  | _ => none

def change (db : Database) : Change → Database
  | .offer p => db.insertAvailable p
  | .install p => db.insertInstalled p
  | .mask a => db.mask a
  | .unmask a => db.unmask a
  | .keywords a tokens => db.acceptKeywords a tokens
  | .maskLines lines => { db with masking := db.masking.applyLines lines }
  | .repositoryMasks tree repository =>
    { db with masking := (db.masking.withRepositoryMasks tree repository).value.1 }
  | .profile tree path => { db with masking := (db.masking.withProfile tree path).value.1 }
  | .accept value => { db with masking := db.masking.accept value }
  | .setArch arch => { db with masking := db.masking.setArch arch }
  | .defaultArch => db.withDefaultArch

def changeAll (db : Database) (changes : List Change) : Database := changes.foldl change db

def offeredBy (changes : List Change) : List Available := changes.filterMap Change.offered?

def installedBy (changes : List Change) : List Installed := changes.filterMap Change.installed?

variable {changes : List Change} {a : Atom}

theorem getD_insertStable {α : Type _} (cmp : α → α → Ordering) (p : α)
    (lists : Std.TreeMap PackageName (List α)) (m n : PackageName) :
    (lists.insert m (insertStable cmp p (lists.getD m []))).getD n [] =
      if m = n then insertStable cmp p (lists.getD n []) else lists.getD n [] := by
  rw [Std.TreeMap.getD_insert]
  simp only [Std.LawfulEqOrd.compare_eq_iff_eq]
  split
  · next h => rw [h]
  · rfl

/-- How records of one kind are kept: by package, and each change adds to the list of a package what
it brings for it, in order of the versions. -/
structure Shelf (α : Type) where
  cpv : α → Cpv
  meets : α → Atom → Bool
  brought? : Change → Option α
  listOf : Database → PackageName → List α
  package_of_meets : ∀ {p a}, meets p a = true → (cpv p).package = a.packageName
  listOf_empty : ∀ n, listOf empty n = []
  listOf_change : ∀ db x n, listOf (db.change x) n =
    ((brought? x).toList.filter fun p => (cpv p).package = n).foldl
      (fun sorted p => insertStable (comparePart Version.compare fun p => (cpv p).version) p sorted)
      (listOf db n)

def Shelf.available : Shelf Available where
  cpv := Available.cpv
  meets := Available.meets
  brought? := Change.offered?
  listOf := availableOf
  package_of_meets := Available.package_of_meets
  listOf_empty _ := rfl
  listOf_change db x n := by
    cases x with
    | offer p =>
      have hinsert : (db.change (.offer p)).availableOf n =
          if p.cpv.package = n then insertStable Available.compare p (db.availableOf n)
          else db.availableOf n := getD_insertStable ..
      rw [hinsert]
      by_cases h : p.cpv.package = n
      · simp only [Change.offered?, Option.toList_some, List.filter_cons, h, decide_true]
        rfl
      · simp [Change.offered?, h]
    | _ => rfl

def Shelf.installed : Shelf Installed where
  cpv := Installed.cpv
  meets := Installed.meets
  brought? := Change.installed?
  listOf := installedOf
  package_of_meets := Installed.package_of_meets
  listOf_empty _ := rfl
  listOf_change db x n := by
    cases x with
    | install p =>
      have hinsert : (db.change (.install p)).installedOf n =
          if p.cpv.package = n then insertStable Installed.compare p (db.installedOf n)
          else db.installedOf n := getD_insertStable ..
      rw [hinsert]
      by_cases h : p.cpv.package = n
      · simp only [Change.installed?, Option.toList_some, List.filter_cons, h, decide_true]
        rfl
      · simp [Change.installed?, h]
    | _ => rfl

/-- The same versions, in orders that differ at most among versions that compare equal. -/
structure SameUpToTies (cs ds : List Cpv) : Prop where
  perm : cs.Perm ds
  level : List.Forall₂ (fun c d => c.version.compare d.version = .eq) cs ds

namespace Shelf
variable {α : Type} (shelf : Shelf α)

def compare (p q : α) : Ordering := Version.compare (shelf.cpv p).version (shelf.cpv q).version

def brought (changes : List Change) : List α := changes.filterMap shelf.brought?

def selected (db : Database) (a : Atom) : List α :=
  (shelf.listOf db a.packageName).filter (shelf.meets · a)

theorem compare_laws :
    TotalPreorderOn (fun p => (shelf.cpv p).version.Readable) shelf.compare := by
  have hkey : ∀ p q, (shelf.cpv p).version.Readable → (shelf.cpv q).version.Readable →
      shelf.compare p q = comparePart Version.keyOrder (fun p => (shelf.cpv p).version) p q :=
    fun _ _ => Version.compare_eq
  exact .of_eq hkey

theorem listOf_changeAll (db : Database) (changes : List Change) (n : PackageName) :
    shelf.listOf (db.changeAll changes) n =
      ((shelf.brought changes).filter fun p => (shelf.cpv p).package = n).foldl
        (fun sorted p => insertStable shelf.compare p sorted) (shelf.listOf db n) := by
  induction changes generalizing db with
  | nil => rfl
  | cons x changes ih =>
    have hsplit : shelf.brought (x :: changes) =
        (shelf.brought? x).toList ++ shelf.brought changes := by
      rw [brought, List.filterMap_cons]
      cases shelf.brought? x <;> rfl
    calc
      _ = shelf.listOf ((db.change x).changeAll changes) n := rfl
      _ = _ := by
        rw [ih, shelf.listOf_change, hsplit, List.filter_append, List.foldl_append]
        rfl

theorem listOf_history (changes : List Change) (n : PackageName) :
    shelf.listOf (empty.changeAll changes) n = sortStable shelf.compare
      ((shelf.brought changes).filter fun p => (shelf.cpv p).package = n) := by
  rw [shelf.listOf_changeAll, shelf.listOf_empty]
  rfl

theorem selected_perm (changes : List Change) (a : Atom) :
    (shelf.selected (empty.changeAll changes) a).Perm
      ((shelf.brought changes).filter (shelf.meets · a)) := by
  have hown : ((shelf.brought changes).filter
      fun p => (shelf.cpv p).package = a.packageName).filter (shelf.meets · a) =
      (shelf.brought changes).filter (shelf.meets · a) := by
    rw [List.filter_filter]
    refine List.filter_congr fun p _ => ?_
    cases hm : shelf.meets p a with
    | false => rfl
    | true => simp [shelf.package_of_meets hm]
  rw [selected, listOf_history, ← hown]
  exact (perm_sortStable _ _).filter _

variable {shelf} in
theorem selected_readable (h : ∀ p ∈ shelf.brought changes, (shelf.cpv p).version.Readable) :
    ∀ p ∈ shelf.selected (empty.changeAll changes) a, (shelf.cpv p).version.Readable :=
  fun p hp => h p (List.mem_of_mem_filter ((shelf.selected_perm changes a).mem_iff.1 hp))

variable {shelf} in
theorem selected_ascending (h : ∀ p ∈ shelf.brought changes, (shelf.cpv p).version.Readable)
    (a : Atom) : Ascending shelf.compare (shelf.selected (empty.changeAll changes) a) := by
  rw [selected, listOf_history]
  refine (ascending_sortStable shelf.compare_laws fun p hp => ?_).filter _
  exact h p (List.mem_of_mem_filter hp)

variable {shelf} in
theorem selected_sameUpToTies {others : List Change}
    (h : ∀ p ∈ shelf.brought changes, (shelf.cpv p).version.Readable)
    (hperm : (shelf.brought others).Perm (shelf.brought changes)) (a : Atom) (keep : α → Bool) :
    SameUpToTies (((shelf.selected (empty.changeAll others) a).filter keep).map shelf.cpv)
      (((shelf.selected (empty.changeAll changes) a).filter keep).map shelf.cpv) := by
  have hothers : ∀ p ∈ shelf.brought others, (shelf.cpv p).version.Readable :=
    fun p hp => h p (hperm.mem_iff.1 hp)
  have hselected := (shelf.selected_perm others a).trans
    ((hperm.filter (shelf.meets · a)).trans (shelf.selected_perm changes a).symm)
  have hreadable : ∀ p ∈ (shelf.selected (empty.changeAll others) a).filter keep,
      (shelf.cpv p).version.Readable :=
    fun p hp => selected_readable hothers p (List.mem_of_mem_filter hp)
  have hkept := hselected.filter keep
  refine ⟨hkept.map _, ?_⟩
  rw [List.forall₂_map_left_iff, List.forall₂_map_right_iff]
  exact forall₂_eq_of_perm shelf.compare_laws hreadable ((selected_ascending hothers a).filter _)
    ((selected_ascending h a).filter _) hkept

end Shelf

/-- The versions that an atom selects are those of the records that were added and meet it, each as
often as it was added, ascending; the visible ones are those without a reason not to be. Other
changes that add the same records give the same answers up to ties. -/
theorem answers_of_history (changes : List Change)
    (hoffered : ∀ p ∈ offeredBy changes, p.cpv.version.Readable)
    (hinstalled : ∀ p ∈ installedBy changes, p.cpv.version.Readable) (a : Atom) :
    let db := empty.changeAll changes
    (∃ records : List Available, Ascending Available.compare records ∧
      records.Perm ((offeredBy changes).filter (·.meets a)) ∧
      db.matching a = records.map Available.cpv ∧
      db.visible .byRecord a =
        (records.filter fun p => (db.masking.reasons p).isEmpty).map Available.cpv) ∧
    (∃ records : List Installed, Ascending Installed.compare records ∧
      records.Perm ((installedBy changes).filter (·.meets a)) ∧
      db.installedMatching a = records.map Installed.cpv) ∧
    (∀ p : Available, p.meets a = true ↔ a.Allows p.cpv p.slot p.repository) ∧
    (∀ p : Installed, p.meets a = true ↔ a.Allows p.cpv p.slot p.repository) ∧
    ∀ others : List Change, (offeredBy others).Perm (offeredBy changes) →
      (installedBy others).Perm (installedBy changes) →
      let other := empty.changeAll others
      SameUpToTies (other.matching a) (db.matching a) ∧
      SameUpToTies (other.installedMatching a) (db.installedMatching a) ∧
      ((∀ p, other.masking.reasons p = db.masking.reasons p) →
        SameUpToTies (other.visible .byRecord a) (db.visible .byRecord a)) := by
  intro db
  refine ⟨⟨_, Shelf.available.selected_ascending hoffered a,
      Shelf.available.selected_perm changes a, rfl, rfl⟩,
    ⟨_, Shelf.installed.selected_ascending hinstalled a,
      Shelf.installed.selected_perm changes a, rfl⟩,
    fun _ => Atom.selects_iff, fun _ => Atom.selects_iff, ?_⟩
  intro others hoffers hinstalls other
  have hall := Shelf.available.selected_sameUpToTies hoffered hoffers a
  refine ⟨?_, ?_, fun hreasons => ?_⟩
  · have hlists := hall fun _ => true
    simp only [List.filter_true] at hlists
    exact hlists
  · have hlists := Shelf.installed.selected_sameUpToTies hinstalled hinstalls a fun _ => true
    simp only [List.filter_true] at hlists
    exact hlists
  · have hsame : other.masking.isVisible = db.masking.isVisible := by
      funext p
      rw [Masking.isVisible, Masking.isVisible, hreasons]
    simp only [visible, hsame]
    exact hall db.masking.isVisible

theorem answers_of_history_tie :
    let version (n : Char) (revision : Option Text) : Version := ⟨[n], [], none, [], revision⟩
    let offered (n : Char) (revision : Option Text) : Available :=
      .ofTexts ⟨['a'], ['b'], version n revision⟩ ['0'] [] [] none
    let installed : Installed := .ofTexts ⟨['a'], ['b'], version '1' none⟩ ['0'] [] none
    let all : Atom := ⟨.any, ['a'], ['b'], none, none, none, none⟩
    let changes : List Change := [.offer (offered '2' none), .mask all, .offer (offered '1' none),
      .install installed, .offer (offered '1' (some ['0']))]
    let db := empty.changeAll changes
    let other := empty.changeAll changes.reverse
    (db.matching all).map (·.version.toText) = ["1".toList, "1-r0".toList, "2".toList] ∧
      (other.matching all).map (·.version.toText) = ["1-r0".toList, "1".toList, "2".toList] ∧
      SameUpToTies (other.matching all) (db.matching all) ∧
      SameUpToTies (other.visible .byRecord all) (db.visible .byRecord all) := by
  intro version offered installed all changes db other
  have hoffered : ∀ p ∈ offeredBy changes, p.cpv.version.Readable := by
    have hlist : offeredBy changes =
        [offered '2' none, offered '1' none, offered '1' (some ['0'])] := rfl
    rw [hlist]
    intro p hp
    simp only [List.mem_cons, List.not_mem_nil, or_false] at hp
    obtain rfl | rfl | rfl := hp
    · exact ⟨"2".toList, by decide⟩
    · exact ⟨"1".toList, by decide⟩
    · exact ⟨"1-r0".toList, by decide⟩
  have hinstalled : ∀ p ∈ installedBy changes, p.cpv.version.Readable := by
    have hlist : installedBy changes = [installed] := rfl
    rw [hlist]
    intro p hp
    obtain rfl := List.mem_singleton.1 hp
    exact ⟨"1".toList, by decide⟩
  obtain ⟨hmatching, _, hvisible⟩ := (answers_of_history changes hoffered hinstalled all).2.2.2.2
    changes.reverse ((List.reverse_perm _).filterMap _) ((List.reverse_perm _).filterMap _)
  exact ⟨by decide, by decide, hmatching, hvisible fun _ => rfl⟩

theorem availableOf_history (changes : List Change) (n : PackageName) :
    (empty.changeAll changes).availableOf n =
      sortStable Available.compare ((offeredBy changes).filter (·.cpv.package = n)) :=
  Shelf.available.listOf_history changes n

theorem hasDistinctVersions_history
    (h : (offeredBy changes).Pairwise fun p q =>
      p.cpv.package = q.cpv.package → Available.compare p q ≠ .eq) :
    (empty.changeAll changes).HasDistinctVersions := by
  intro n
  have hsymm : ∀ {q r : Available}, Available.compare q r ≠ .eq → Available.compare r q ≠ .eq :=
    fun hne heq => hne (Std.OrientedCmp.eq_symm heq)
  rw [availableOf_history, (perm_sortStable _ _).pairwise_iff hsymm, List.pairwise_filter]
  refine h.imp fun {p q} hne hp hq => hne ?_
  rw [of_decide_eq_true hp, of_decide_eq_true hq]

theorem offers_of_history {p : Available} (h : p ∈ offeredBy changes) :
    (empty.changeAll changes).Offers p := by
  rw [Offers, availableOf_history, (perm_sortStable _ _).mem_iff]
  simp [h]

/-- Where no two versions of a package that were offered compare equal, a version that is listed
leads back to its own record, so it is the same to look for visible records or for versions without
a reason. -/
theorem visible_eq_unmasked (changes : List Change)
    (h : (offeredBy changes).Pairwise fun p q =>
      p.cpv.package = q.cpv.package → Available.compare p q ≠ .eq) (a : Atom) :
    let db := empty.changeAll changes
    db.visible .byRecord a = (db.matching a).filter (fun c => (db.maskReasons c).isEmpty) ∧
    (∀ c ∈ db.matching a, ∃ p ∈ offeredBy changes, p.cpv = c ∧ p.meets a = true ∧
      db.lookupAvailable? c = some p) ∧
    ∀ p ∈ offeredBy changes, p.meets a = true →
      p.cpv ∈ db.matching a ∧ db.maskReasons p.cpv = db.masking.reasons p := by
  intro db
  have hd : db.HasDistinctVersions := hasDistinctVersions_history h
  refine ⟨(visible_eq_byRecord hd .byVersion a).symm, ?_, ?_⟩
  · intro c hc
    obtain ⟨p, hp, rfl⟩ := List.mem_map.1 hc
    have hselected := (Shelf.available.selected_perm changes a).mem_iff.1 hp
    obtain ⟨hoffered, hmeets⟩ := List.mem_filter.1 hselected
    exact ⟨p, hoffered, rfl, hmeets, lookupAvailable?_self hd (offers_of_history hoffered)⟩
  · intro p hp hmeets
    have hoffers : db.Offers p := offers_of_history hp
    refine ⟨mem_matching_of_meets hoffers hmeets, ?_⟩
    rw [maskReasons, lookupAvailable?_self hd hoffers]
    rfl

theorem visible_eq_unmasked_newer :
    let version (n : Char) : Available :=
      .ofTexts ⟨['a'], ['b'], ⟨[n], [], none, [], none⟩⟩ ['0'] ['x'] [] none
    let all : Atom := ⟨.any, ['a'], ['b'], none, none, none, none⟩
    let newer : Atom := { all with operator := .greater, version := some (version '1').cpv.version }
    let changes : List Change := [.offer (version '2'), .maskLines [.add newer], .accept ['x'],
      .offer (version '1')]
    let db := empty.changeAll changes
    db.matching all = [(version '1').cpv, (version '2').cpv] ∧
      db.visible .byRecord all = [(version '1').cpv] ∧
      db.visible .byRecord all = (db.matching all).filter (fun c => (db.maskReasons c).isEmpty) ∧
      db.masking.reasons (version '2') = [.packageMask] ∧
      db.maskReasons (version '2').cpv = db.masking.reasons (version '2') := by
  intro version all newer changes db
  obtain ⟨hvisible, _, hreasons⟩ := visible_eq_unmasked changes (by decide) all
  have hoffered : version '2' ∈ offeredBy changes := List.mem_cons_self
  exact ⟨by decide, by decide, hvisible, by decide, (hreasons _ hoffered (by decide)).2⟩

end Database
end OverrideAudit
