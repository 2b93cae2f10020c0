import OverrideAudit.Proofs.Audit.UnknownFlags
import OverrideAudit.Proofs.Database.History

/-! Which kind of finding an override has. The checks of a category come one after another: whether
its atom selects anything, whether its package is installed, whether it changes anything, and
whether what is installed is newer than all that it selects. What a check finds is always a kind
that the category can have, so that nothing gets lost. -/
namespace OverrideAudit

namespace Database
variable {db : Database} {rule : VisibilityRule} {category : Category} {a : Atom} {value : Text}
  {v : Verdict}

/-- Whether an override changes nothing, as far as its category tells: one for keywords shows the
versions that are visible anyhow, one that unmasks finds no mask to lift. -/
def changesNothing (db : Database) (rule : VisibilityRule) (category : Category) (a : Atom)
    (value : Text) : Bool :=
  match category with
  | .keywords => sameVersions (db.visible rule a)
      ((db.acceptKeywords a (db.keywordsOfValue value)).visible rule a)
  | .unmask => !(db.matching a).any db.isMaskedVersion
  | _ => false

/-- The kind that the first of the four checks finds that applies. -/
def checkedKind? (db : Database) (rule : VisibilityRule) (category : Category) (a : Atom)
    (value : Text) : Option IssueKind :=
  if db.matching a = [] then some .absent
  else if db.installedMatching a.package = [] then some .notInstalled
  else if db.changesNothing rule category a value = true then some .redundant
  else if db.selectsOlder a = true then some .irrelevant
  else none

theorem kind_of_checks (idle older : Verdict) (hidle : idle.kind = .redundant)
    (holder : older.kind = .irrelevant)
    (h : db.verdict? rule category a value = (db.presence? a).or
      (if db.changesNothing rule category a value = true then some idle
      else if db.selectsOlder a = true then some older else none)) :
    (db.verdict? rule category a value).map Verdict.kind =
      db.checkedKind? rule category a value := by
  rw [h, checkedKind?, presence?]
  simp only [List.isEmpty_iff]
  split
  · rfl
  · split
    · rfl
    · split
      · exact congrArg some hidle
      · split
        · exact congrArg some holder
        · rfl

theorem kind_of_verdict (hmask : category ≠ .mask) (huse : category ≠ .use) :
    (db.verdict? rule category a value).map Verdict.kind =
      db.checkedKind? rule category a value := by
  cases category with
  | mask => contradiction
  | use => contradiction
  | keywords =>
    refine kind_of_checks .noEffect .olderChanged rfl rfl ?_
    rw [verdict?, judgeKeywords]
    cases db.presence? a <;> rfl
  | unmask => exact kind_of_checks .notMasked .olderUnmasked rfl rfl rfl
  | _ => exact kind_of_checks .noEffect .olderAffected rfl rfl rfl

theorem checkedKind?_absent_iff :
    db.checkedKind? rule category a value = some .absent ↔ db.matching a = [] := by
  grind [checkedKind?]

theorem checkedKind?_notInstalled_iff :
    db.checkedKind? rule category a value = some .notInstalled ↔
      db.matching a ≠ [] ∧ db.installedMatching a.package = [] := by
  grind [checkedKind?]

theorem checkedKind?_redundant_iff : db.checkedKind? rule category a value = some .redundant ↔
    db.matching a ≠ [] ∧ db.installedMatching a.package ≠ [] ∧
      db.changesNothing rule category a value = true := by
  grind [checkedKind?]

theorem checkedKind?_irrelevant_iff : db.checkedKind? rule category a value = some .irrelevant ↔
    db.matching a ≠ [] ∧ db.installedMatching a.package ≠ [] ∧
      db.changesNothing rule category a value = false ∧ db.selectsOlder a = true := by
  grind [checkedKind?]

theorem verdict?_of_no_match (h : db.matching a = []) :
    db.verdict? rule category a value = some .absent := by
  have hpresence : db.presence? a = some .absent := by rw [presence?, h]; rfl
  cases category with
  | keywords => rw [verdict?, judgeKeywords, hpresence]
  | mask => rw [verdict?, judgeMask, h]; rfl
  | unmask => rw [verdict?, judgeUnmask, hpresence]; rfl
  | use => rw [verdict?, judgeUse_value, h]; rfl
  | _ => rw [verdict?, judgePlain, hpresence]; rfl

theorem kind_of_judgeMask (hm : db.matching a ≠ []) (h : db.judgeMask a = some v) :
    v.kind = .notInstalled ∨ v.kind = .redundant := by
  simp only [judgeMask, List.isEmpty_iff, if_neg hm] at h
  split at h
  · obtain rfl := Option.some.inj h
    exact .inl rfl
  · split at h
    · obtain rfl := Option.some.inj h
      exact .inr rfl
    · contradiction

theorem kind_of_judgeUse {warned : List Text} (hm : db.matching a ≠ [])
    (h : (db.judgeUse a value warned).value.1 = some v) :
    v.kind = .notInstalled ∨ v.kind = .iuse ∨ v.kind = .redundant := by
  by_cases hi : db.installedMatching a = []
  · simp only [judgeUse_value, hi, List.isEmpty_iff, if_neg hm] at h
    obtain rfl := Option.some.inj h
    exact .inl rfl
  · rw [judgeUse_of_installed hm hi] at h
    split at h
    · split at h
      · contradiction
      · exact .inr (.inr (kind_of_judgeChanges h))
    · obtain rfl := Option.some.inj h
      exact .inr (.inl rfl)

theorem kind_absent_iff :
    (db.verdict? rule category a value).map Verdict.kind = some .absent ↔ db.matching a = [] := by
  constructor
  · intro hkind
    by_contra hm
    obtain ⟨v, hv, habsent⟩ := Option.map_eq_some_iff.1 hkind
    by_cases hmask : category = .mask
    · subst hmask
      obtain hother | hother := kind_of_judgeMask hm hv <;> simp [hother] at habsent
    · by_cases huse : category = .use
      · subst huse
        obtain hother | hother | hother := kind_of_judgeUse hm hv <;> simp [hother] at habsent
      · rw [kind_of_verdict hmask huse] at hkind
        exact hm (checkedKind?_absent_iff.1 hkind)
  · intro hm
    rw [verdict?_of_no_match hm]
    rfl

theorem checkedKind?_mem {kind : IssueKind} (hmask : category ≠ .mask) (huse : category ≠ .use)
    (h : db.checkedKind? rule category a value = some kind) :
    kind ∈ IssueKind.ofCategory category := by
  rw [checkedKind?] at h
  split at h
  · obtain rfl := Option.some.inj h
    cases category <;> decide
  · split at h
    · obtain rfl := Option.some.inj h
      cases category <;> decide
    · split at h
      · next hidle =>
        obtain rfl := Option.some.inj h
        cases category with
        | keywords | unmask => decide
        | mask | use => contradiction
        | _ => exact absurd hidle Bool.false_ne_true
      · split at h
        · obtain rfl := Option.some.inj h
          cases category with
          | mask | use => contradiction
          | _ => decide
        · contradiction

theorem kind_mem_ofCategory (h : db.verdict? rule category a value = some v) :
    v.kind ∈ IssueKind.ofCategory category := by
  by_cases hm : db.matching a = []
  · obtain rfl := Option.some.inj (h.symm.trans (verdict?_of_no_match hm))
    cases category <;> decide
  · by_cases hmask : category = .mask
    · subst hmask
      obtain hkind | hkind := kind_of_judgeMask hm h <;> rw [hkind] <;> decide
    · by_cases huse : category = .use
      · subst huse
        obtain hkind | hkind | hkind := kind_of_judgeUse hm h <;> rw [hkind] <;> decide
      · have hkind : db.checkedKind? rule category a value = some v.kind := by
          rw [← kind_of_verdict hmask huse, h, Option.map_some]
        exact checkedKind?_mem hmask huse hkind

variable {changes : List Change}

def OffersAny (changes : List Change) (a : Atom) : Prop :=
  ∃ p ∈ offeredBy changes, a.Allows p.cpv p.slot p.repository

def InstallsAny (changes : List Change) (n : PackageName) : Prop :=
  ∃ p ∈ installedBy changes, p.cpv.package = n

/-- Whether a version of the atom's package was installed that is above all offered versions that
the atom asks for. -/
def InstallsNewer (changes : List Change) (a : Atom) : Prop :=
  ∃ i ∈ installedBy changes, i.cpv.package = a.packageName ∧
    ∀ p ∈ offeredBy changes, a.Allows p.cpv p.slot p.repository →
      i.cpv.version.compare p.cpv.version = .gt

namespace Shelf
variable {α : Type} {shelf : Shelf α}

theorem mem_selected_history {p : α} : p ∈ shelf.selected (empty.changeAll changes) a ↔
    p ∈ shelf.brought changes ∧ shelf.meets p a = true :=
  (shelf.selected_perm changes a).mem_iff.trans List.mem_filter

theorem mem_selected_map {c : Cpv} :
    c ∈ (shelf.selected (empty.changeAll changes) a).map shelf.cpv ↔
      ∃ p ∈ shelf.brought changes, shelf.meets p a = true ∧ shelf.cpv p = c := by
  simp only [List.mem_map, mem_selected_history, and_assoc]

section
variable (h : ∀ p ∈ shelf.brought changes, (shelf.cpv p).version.Readable) (a : Atom)
include h

theorem versions_readable :
    ∀ v ∈ ((shelf.selected (empty.changeAll changes) a).map shelf.cpv).map Cpv.version,
      v.Readable := by
  rintro _ hv
  obtain ⟨c, hc, rfl⟩ := List.mem_map.1 hv
  obtain ⟨p, hp, rfl⟩ := List.mem_map.1 hc
  exact selected_readable h p hp

theorem versions_ascending : Ascending Version.compare
    (((shelf.selected (empty.changeAll changes) a).map shelf.cpv).map Cpv.version) :=
  List.pairwise_map.2 (List.pairwise_map.2 (selected_ascending h a))

end
end Shelf

theorem mem_matching_history {c : Cpv} : c ∈ (empty.changeAll changes).matching a ↔
    ∃ p ∈ offeredBy changes, a.Allows p.cpv p.slot p.repository ∧ p.cpv = c :=
  (Shelf.available.mem_selected_map).trans
    (exists_congr fun _ => and_congr_right fun _ => and_congr_left fun _ => Atom.selects_iff)

theorem meets_package_iff {p : Installed} :
    p.meets a.package = true ↔ p.cpv.package = a.packageName := by
  refine ⟨Installed.package_of_meets, fun h => ?_⟩
  obtain ⟨hcategory, hname⟩ := PackageName.mk.inj h
  rw [Installed.meets, Atom.package_selects_eq, Atom.isFor, hcategory, hname]
  simp

theorem mem_installedMatching_history {c : Cpv} :
    c ∈ (empty.changeAll changes).installedMatching a.package ↔
      ∃ p ∈ installedBy changes, p.cpv.package = a.packageName ∧ p.cpv = c :=
  (Shelf.installed.mem_selected_map).trans
    (exists_congr fun _ => and_congr_right fun _ => and_congr_left fun _ => meets_package_iff)

theorem matching_eq_nil_iff : (empty.changeAll changes).matching a = [] ↔ ¬OffersAny changes a := by
  rw [List.eq_nil_iff_forall_not_mem]
  simp only [mem_matching_history, OffersAny]
  grind

theorem installedMatching_eq_nil_iff : (empty.changeAll changes).installedMatching a.package = [] ↔
    ¬InstallsAny changes a.packageName := by
  rw [List.eq_nil_iff_forall_not_mem]
  simp only [mem_installedMatching_history, InstallsAny]
  grind

section
variable (hoffered : ∀ p ∈ offeredBy changes, p.cpv.version.Readable)
  (hinstalled : ∀ p ∈ installedBy changes, p.cpv.version.Readable)
include hoffered hinstalled

theorem selectsOlder_iff (ho : OffersAny changes a) (hi : InstallsAny changes a.packageName) :
    (empty.changeAll changes).selectsOlder a = true ↔ InstallsNewer changes a := by
  have hmatching := mt matching_eq_nil_iff.1 (not_not.2 ho)
  have hinstalls := mt installedMatching_eq_nil_iff.1 (not_not.2 hi)
  set db := empty.changeAll changes
  obtain ⟨m, hm⟩ := Option.ne_none_iff_exists'.1 (mt List.getLast?_eq_none_iff.1 hmatching)
  obtain ⟨i, hi⟩ := Option.ne_none_iff_exists'.1 (mt List.getLast?_eq_none_iff.1 hinstalls)
  have hlaws : TotalPreorderOn Version.Readable Version.compare :=
    .of_eq fun _ _ => Version.compare_eq
  calc
    db.selectsOlder a = true ↔ i.version.compare m.version = .gt := by
      rw [selectsOlder, endsAbove, hi, hm, beq_iff_eq]
    _ ↔ ∃ v ∈ (db.installedMatching a.package).map Cpv.version,
        ∀ w ∈ (db.matching a).map Cpv.version, v.compare w = .gt :=
      last_gt_iff hlaws
        (Shelf.installed.versions_readable hinstalled a.package)
        (Shelf.available.versions_readable hoffered a)
        (Shelf.installed.versions_ascending hinstalled a.package)
        (Shelf.available.versions_ascending hoffered a)
        (List.getLast?_map.trans (congrArg (Option.map Cpv.version) hi))
        (List.getLast?_map.trans (congrArg (Option.map Cpv.version) hm))
    _ ↔ InstallsNewer changes a := by
      simp only [List.mem_map, mem_matching_history, mem_installedMatching_history, db,
        InstallsNewer]
      grind

end

end Database

namespace Auditor
open Database
variable {s : Auditor} {rule : VisibilityRule} {category : Category} {r : Record} {a : Atom}

theorem step_finding (ha : Atom.read r.atom = .ok a) (hs : r.skip = false) :
    (s.step rule category r).value.1 = (s.db.verdict? rule category a r.value).map fun v =>
      ⟨⟨category, v.kind⟩, r.source, r.line, r.atom, v.message⟩ := by
  rw [step_of_judge ha hs]
  cases hv : s.db.verdict? rule category a r.value with
  | none => rfl
  | some v =>
    have hissue : IssueCode.of? category v.kind = some ⟨category, v.kind⟩ :=
      if_pos (List.contains_iff_mem.2 (kind_mem_ofCategory hv))
    simp only [Option.bind_some, Option.map_some, Verdict.finding?, hissue]

theorem issue_of_step (ha : Atom.read r.atom = .ok a) (hs : r.skip = false) (kind : IssueKind) :
    (s.step rule category r).value.1.map Finding.issue = some ⟨category, kind⟩ ↔
      (s.db.verdict? rule category a r.value).map Verdict.kind = some kind := by
  rw [step_finding ha hs]
  cases s.db.verdict? rule category a r.value <;> simp

theorem matching_answers (rs : List (Category × Record)) :
    (s.answers rule rs).value.2.db.matching a = s.db.matching a := by
  obtain ⟨_, hdb⟩ := answers_masking s rule rs
  rw [hdb]
  rfl

theorem installedMatching_answers (rs : List (Category × Record)) :
    (s.answers rule rs).value.2.db.installedMatching a = s.db.installedMatching a := by
  obtain ⟨_, hdb⟩ := answers_masking s rule rs
  rw [hdb]
  rfl

theorem selectsOlder_answers (rs : List (Category × Record)) :
    (s.answers rule rs).value.2.db.selectsOlder a = s.db.selectsOlder a := by
  rw [selectsOlder, matching_answers, installedMatching_answers, selectsOlder]

/-- Whatever an audit has gone through, a record that is judged yields what its category finds. It
is absent if nothing was offered that it asks for; for all categories but masks and USE flags the
other kinds follow in this order: not installed, redundant, irrelevant. -/
theorem finding_of_history {changes : List Change}
    (hoffered : ∀ p ∈ offeredBy changes, p.cpv.version.Readable)
    (hinstalled : ∀ p ∈ installedBy changes, p.cpv.version.Readable) (rule : VisibilityRule)
    (earlier : List (Category × Record)) (category : Category) {r : Record} {a : Atom}
    (ha : Atom.read r.atom = .ok a) (hs : r.skip = false) :
    let s := ((ofDatabase (empty.changeAll changes)).answers rule earlier).value.2
    let found := (s.step rule category r).value.1
    let yields (kind : IssueKind) : Prop := found.map Finding.issue = some ⟨category, kind⟩
    (found = (s.judge rule category a r.value).value.1.map fun v =>
      ⟨⟨category, v.kind⟩, r.source, r.line, r.atom, v.message⟩) ∧
    (yields .absent ↔ ¬OffersAny changes a) ∧
    (category ≠ .mask → category ≠ .use →
      (yields .notInstalled ↔ OffersAny changes a ∧ ¬InstallsAny changes a.packageName) ∧
      (yields .redundant ↔ OffersAny changes a ∧ InstallsAny changes a.packageName ∧
        s.db.changesNothing rule category a r.value = true) ∧
      (yields .irrelevant ↔ OffersAny changes a ∧ InstallsAny changes a.packageName ∧
        s.db.changesNothing rule category a r.value = false ∧ InstallsNewer changes a)) ∧
    (category = .mask ∨ category = .use → ¬yields .irrelevant) := by
  intro s found yields
  have hyields (kind : IssueKind) : yields kind ↔
      (s.db.verdict? rule category a r.value).map Verdict.kind = some kind :=
    issue_of_step ha hs kind
  have hoffers : s.db.matching a = [] ↔ ¬OffersAny changes a := by
    rw [matching_answers]
    exact matching_eq_nil_iff
  have hinstalls : s.db.installedMatching a.package = [] ↔
      ¬InstallsAny changes a.packageName := by
    rw [installedMatching_answers]
    exact installedMatching_eq_nil_iff
  have holder (ho : OffersAny changes a) (hi : InstallsAny changes a.packageName) :
      s.db.selectsOlder a = true ↔ InstallsNewer changes a := by
    rw [selectsOlder_answers]
    exact selectsOlder_iff hoffered hinstalled ho hi
  refine ⟨?_, ?_, fun hmask huse => ⟨?_, ?_, ?_⟩, ?_⟩
  · rw [judge_verdict]
    exact step_finding ha hs
  · rw [hyields, kind_absent_iff, hoffers]
  · rw [hyields, kind_of_verdict hmask huse, checkedKind?_notInstalled_iff, Ne, hoffers, hinstalls,
      not_not]
  · rw [hyields, kind_of_verdict hmask huse, checkedKind?_redundant_iff, Ne, Ne, hoffers, hinstalls,
      not_not, not_not]
  · rw [hyields, kind_of_verdict hmask huse, checkedKind?_irrelevant_iff, Ne, Ne, hoffers,
      hinstalls, not_not, not_not]
    exact and_congr_right fun ho => and_congr_right fun hi => and_congr_right fun _ => holder ho hi
  · intro hcategory hirrelevant
    obtain ⟨v, hv, hkind⟩ := Option.map_eq_some_iff.1 ((hyields _).1 hirrelevant)
    have hmem := kind_mem_ofCategory hv
    rw [hkind] at hmem
    obtain rfl | rfl := hcategory <;> simp [IssueKind.ofCategory] at hmem

theorem finding_of_history_otherSlot :
    let cpv (n : Char) : Cpv := ⟨['a'], ['b'], ⟨[n], [], none, [], none⟩⟩
    let asked : Available := .ofTexts (cpv '1') ['0'] "~x".toList [] none
    let other : Available := .ofTexts (cpv '4') ['0'] ['x'] [] none
    let installed : Installed := .ofTexts (cpv '3') ['2'] [] none
    let changes : List Change := [.accept ['x'], .offer other, .offer asked, .install installed]
    let a : Atom := ⟨.less, ['a'], ['b'], some (cpv '2').version, some ['0'], none, none⟩
    let r : Record := ⟨"<a/b-2:0".toList, "~x".toList, "f".toList, 1, false⟩
    let earlier : List (Category × Record) := [(.mask, ⟨"=a/b-4".toList, [], "g".toList, 1, false⟩)]
    let s := ((ofDatabase (empty.changeAll changes)).answers .byRecord earlier).value.2
    Atom.read r.atom = .ok a ∧
      (s.step .byRecord .keywords r).value.1.map Finding.issue = some ⟨.keywords, .irrelevant⟩ ∧
      (s.step .byRecord .mask r).value.1.map Finding.issue ≠ some ⟨.mask, .irrelevant⟩ := by
  intro cpv asked other installed changes a r earlier s
  have hread : Atom.read r.atom = .ok a := by decide +kernel
  have hoffers : ∀ p ∈ offeredBy changes, p = other ∨ p = asked := by
    simp [offeredBy, changes, Change.offered?, eq_comm]
  have hinstalls : ∀ p ∈ installedBy changes, p = installed := by
    simp [installedBy, changes, Change.installed?, eq_comm]
  have hoffered : ∀ p ∈ offeredBy changes, p.cpv.version.Readable := by
    intro p hp
    obtain rfl | rfl := hoffers p hp
    · exact ⟨"4".toList, by decide⟩
    · exact ⟨"1".toList, by decide⟩
  have hinstalled : ∀ p ∈ installedBy changes, p.cpv.version.Readable := by
    intro p hp
    obtain rfl := hinstalls p hp
    exact ⟨"3".toList, by decide⟩
  have hasked : asked ∈ offeredBy changes := List.mem_cons_of_mem _ List.mem_cons_self
  have hhas : installed ∈ installedBy changes := List.mem_cons_self
  have hnewer : InstallsNewer changes a := by
    refine ⟨installed, hhas, rfl, fun p hp hallows => ?_⟩
    obtain rfl | rfl := hoffers p hp
    · exact absurd (Atom.selects_iff.2 hallows) (by decide)
    · decide
  obtain ⟨-, -, hchecks, -⟩ :=
    finding_of_history hoffered hinstalled .byRecord earlier .keywords hread rfl
  obtain ⟨-, -, -, hmask⟩ :=
    finding_of_history hoffered hinstalled .byRecord earlier .mask hread rfl
  obtain ⟨-, -, hirrelevant⟩ := hchecks (by decide) (by decide)
  refine ⟨hread, hirrelevant.2 ⟨⟨asked, hasked, ?_⟩, ⟨installed, hhas, rfl⟩, ?_, hnewer⟩,
    hmask (.inl rfl)⟩
  · exact Atom.selects_iff.1 (by decide)
  · decide +kernel

end Auditor
end OverrideAudit
