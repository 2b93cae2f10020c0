import OverrideAudit.Proofs.Database.History

/-! How the operators of atoms cut the list of a package. The versions below a given one, those that
are level with it and those above it follow each other, and those that differ from it at most in the
revision stand together. -/
namespace OverrideAudit

namespace Atom

def restrict (a : Atom) (op : Operator) (v : Version) : Atom :=
  { a with operator := op, version := some v }

def unversioned (a : Atom) : Atom := { a with operator := .any, version := none }

variable {a : Atom} {c : Cpv} {slot repository : Option Text}

theorem selects_restrict (a : Atom) (op : Operator) (v : Version) :
    (a.restrict op v).selects c slot repository =
      (op.admits v c.version && a.unversioned.selects c slot repository) := by
  simp only [selects, matchesVersion, unversioned, restrict, isFor, meetsSlot, Bool.and_true]
  ac_rfl

theorem selects_package (h : a.selects c slot repository = true) :
    a.package.selects c slot repository = true := by
  have hfor : a.isFor c.category c.name = true := by
    rw [selects, Bool.and_eq_true, Bool.and_eq_true, matchesVersion, Bool.and_eq_true] at h
    exact h.1.1.1
  rw [package_selects_eq, hfor]

end Atom

namespace Database
variable {changes : List Change} {a : Atom} {v : Version}

/-- How answers to atoms that differ in their version restriction hang together. -/
structure CutAt (answer : Atom → List Cpv) (a : Atom) (v : Version) : Prop where
  parts : answer (a.restrict .less v) ++ answer (a.restrict .equal v) ++
    answer (a.restrict .greater v) = answer a.unversioned
  greaterEqual : answer (a.restrict .greaterEqual v) =
    answer (a.restrict .equal v) ++ answer (a.restrict .greater v)
  lessEqual : answer (a.restrict .lessEqual v) =
    answer (a.restrict .less v) ++ answer (a.restrict .equal v)
  equal : (answer (a.restrict .equal v)).Sublist (answer (a.restrict .anyRevision v))
  anyRevision : answer (a.restrict .anyRevision v) <:+: answer a.unversioned

theorem cutAt_of_ascending {α : Type} {cpv : α → Cpv} {records : List α}
    {answer : Atom → List Cpv} (hv : v.Readable)
    (hreadable : ∀ p ∈ records, (cpv p).version.Readable)
    (hs : Ascending (comparePart Version.compare fun p => (cpv p).version) records)
    (hall : answer a.unversioned = records.map cpv)
    (hanswer : ∀ op, answer (a.restrict op v) =
      (records.filter fun p => op.admits v (cpv p).version).map cpv) : CutAt answer a v := by
  have hpasses : Passes (fun p => (cpv p).version.compare v) records :=
    hs.passes (.of_eq fun _ _ => Version.compare_eq) hreadable hv
  -- Revisions come last in the order, so the list ascends without regard to them too.
  have hunrevised : Ascending (comparePart Version.compareUnrevised fun p => (cpv p).version)
      records := by
    refine List.Pairwise.imp (fun {p q} hle => ?_) hs
    rw [comparePart, Version.compare] at hle
    rw [comparePart]
    cases hc : (cpv p).version.compareUnrevised (cpv q).version <;> simp_all
  have hrevisions : Passes (fun p => (cpv p).version.compareUnrevised v) records :=
    hunrevised.passes (.of_eq fun _ _ => Version.compareUnrevised_eq) hreadable hv
  constructor
  · rw [hanswer, hanswer, hanswer, hall, ← List.map_append, ← List.map_append]
    exact congrArg (List.map cpv) hpasses.parts
  · rw [hanswer, hanswer, hanswer, ← List.map_append]
    exact congrArg (List.map cpv) hpasses.notBelow
  · rw [hanswer, hanswer, hanswer, ← List.map_append]
    exact congrArg (List.map cpv) hpasses.notAbove
  · rw [hanswer, hanswer]
    refine (List.monotone_filter_right records fun p hequal => ?_).map cpv
    have heq := (Ordering.then_eq_eq.1 (Version.sameAs_iff.1 hequal)).1
    exact beq_iff_eq.2 heq
  · rw [hanswer, hall]
    exact List.IsInfix.map cpv ⟨_, _, hrevisions.parts⟩

namespace Shelf
variable {α : Type} {shelf : Shelf α} {slot repository : α → Option Text}

variable (hmeets : ∀ p a, shelf.meets p a = a.selects (shelf.cpv p) (slot p) (repository p))
include hmeets

theorem selected_restrict (db : Database) (a : Atom) (op : Operator) (v : Version) :
    shelf.selected db (a.restrict op v) =
      (shelf.selected db a.unversioned).filter fun p => op.admits v (shelf.cpv p).version := by
  rw [selected, selected, List.filter_filter]
  refine List.filter_congr fun p _ => ?_
  rw [hmeets, hmeets, Atom.selects_restrict]

theorem cutAt (h : ∀ p ∈ shelf.brought changes, (shelf.cpv p).version.Readable)
    (hv : v.Readable) (a : Atom) :
    CutAt (fun a => (shelf.selected (empty.changeAll changes) a).map shelf.cpv) a v :=
  cutAt_of_ascending hv (selected_readable h) (selected_ascending h a.unversioned) rfl
    fun _ => congrArg (List.map shelf.cpv) (selected_restrict hmeets ..)

theorem selected_sublist (db : Database) (a : Atom) :
    (shelf.selected db a).Sublist (shelf.selected db a.package) := by
  refine List.monotone_filter_right (shelf.listOf db a.packageName) fun p hp => ?_
  rw [hmeets] at hp ⊢
  exact Atom.selects_package hp

end Shelf

/-- The version operators cut the list of a package, under any other restrictions and for offered
and installed versions alike, into what is below a version, level with it and above it. -/
theorem versionIntervals_of_history (changes : List Change)
    (hoffered : ∀ p ∈ offeredBy changes, p.cpv.version.Readable)
    (hinstalled : ∀ p ∈ installedBy changes, p.cpv.version.Readable) (a : Atom) (v : Version)
    (hv : v.Readable) :
    let db := empty.changeAll changes
    CutAt db.matching a v ∧ CutAt db.installedMatching a v ∧
    (db.matching a).Sublist (db.matching a.package) ∧
    (db.installedMatching a).Sublist (db.installedMatching a.package) := by
  intro db
  have havailable : ∀ p a, Shelf.available.meets p a =
      a.selects (Shelf.available.cpv p) (some p.slot) p.repository := fun _ _ => rfl
  have hinstalls : ∀ p a, Shelf.installed.meets p a =
      a.selects (Shelf.installed.cpv p) (some p.slot) p.repository := fun _ _ => rfl
  exact ⟨Shelf.cutAt havailable hoffered hv a, Shelf.cutAt hinstalls hinstalled hv a,
    (Shelf.selected_sublist havailable db a).map _, (Shelf.selected_sublist hinstalls db a).map _⟩

theorem versionIntervals_of_history_slot :
    let version (n : Char) (revision : Option Text) : Version := ⟨[n], [], none, [], revision⟩
    let offered (v : Version) (slot : Char) : Available :=
      .ofTexts ⟨['a'], ['b'], v⟩ [slot, '/', 'x'] [] [] none
    let installed : Installed := .ofTexts ⟨['a'], ['b'], version '1' (some ['1'])⟩ ['0'] [] none
    let changes : List Change := [.offer (offered (version '2' none) '0'),
      .offer (offered (version '1' (some ['1'])) '0'), .offer (offered (version '1' none) '0'),
      .install installed, .offer (offered (version '3' none) '1'),
      .offer (offered (version '1' (some ['0'])) '0')]
    let db := empty.changeAll changes
    let a : Atom := ⟨.any, ['a'], ['b'], none, some ['0'], some ['x'], none⟩
    let v := version '1' none
    let texts (b : Atom) : List Text := (db.matching b).map (·.version.toText)
    texts (a.restrict .equal v) = ["1".toList, "1-r0".toList] ∧
      texts (a.restrict .anyRevision v) = ["1".toList, "1-r0".toList, "1-r1".toList] ∧
      texts (a.restrict .greater v) = ["1-r1".toList, "2".toList] ∧
      texts a.package = ["1".toList, "1-r0".toList, "1-r1".toList, "2".toList, "3".toList] ∧
      CutAt db.matching a v ∧ CutAt db.installedMatching a v ∧
      (db.matching a).Sublist (db.matching a.package) := by
  intro version offered installed changes db a v texts
  have hoffered : ∀ p ∈ offeredBy changes, p.cpv.version.Readable := by
    have hlist : offeredBy changes = [offered (version '2' none) '0',
        offered (version '1' (some ['1'])) '0', offered (version '1' none) '0',
        offered (version '3' none) '1', offered (version '1' (some ['0'])) '0'] := rfl
    rw [hlist]
    intro p hp
    simp only [List.mem_cons, List.not_mem_nil, or_false] at hp
    obtain rfl | rfl | rfl | rfl | rfl := hp
    · exact ⟨"2".toList, by decide⟩
    · exact ⟨"1-r1".toList, by decide⟩
    · exact ⟨"1".toList, by decide⟩
    · exact ⟨"3".toList, by decide⟩
    · exact ⟨"1-r0".toList, by decide⟩
  have hinstalled : ∀ p ∈ installedBy changes, p.cpv.version.Readable := by
    have hlist : installedBy changes = [installed] := rfl
    rw [hlist]
    intro p hp
    obtain rfl := List.mem_singleton.1 hp
    exact ⟨"1-r1".toList, by decide⟩
  obtain ⟨hmatching, hinstalls, hpackage, -⟩ :=
    versionIntervals_of_history changes hoffered hinstalled a v ⟨"1".toList, by decide⟩
  exact ⟨by decide +kernel, by decide +kernel, by decide +kernel, by decide +kernel, hmatching,
    hinstalls, hpackage⟩

end Database
end OverrideAudit
