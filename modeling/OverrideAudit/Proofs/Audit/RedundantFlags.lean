import OverrideAudit.Proofs.Audit.Advisories
import OverrideAudit.Proofs.Audit.UnknownFlags
import OverrideAudit.Proofs.Database.History
import OverrideAudit.Proofs.UseFlag.LastChange

/-! When an override for USE flags is called redundant. All installed versions that the atom selects
have to agree, and all their flags have to be known; the tokens that are named as redundant change
nothing at some place, and where they do so at every place they can be left out. -/
namespace OverrideAudit

namespace Database
variable {db other : Database} {a : Atom} {value : Text} {warned : List Text} {tokens : List Text}
  {token : Text} {sets others : List FlagSet}

theorem mem_idleForAll_iff (h : sets ≠ []) :
    token ∈ idleForAll tokens sets ↔ ∀ s ∈ sets, token ∈ s.idleTokens tokens := by
  cases sets with
  | nil => exact absurd rfl h
  | cons s sets => simp [idleForAll, mem_sortDistinct]

theorem idleForAll_ascends (tokens : List Text) (sets : List FlagSet) :
    (idleForAll tokens sets).Pairwise (compare · · = .lt) := by
  cases sets with
  | nil => exact .nil
  | cons s sets => exact sortDistinct_ascends _

theorem judgeChanges_of_unchanged (h : ∀ s ∈ sets, s.isUnchangedBy tokens = true) :
    judgeChanges tokens sets = some .noFlagChange := by
  rw [judgeChanges, if_pos (List.all_eq_true.2 h)]

theorem judgeChanges_of_changed (h : ¬∀ s ∈ sets, s.isUnchangedBy tokens = true) :
    judgeChanges tokens sets =
      if idleForAll tokens sets = [] then none
      else some (.redundantFlags (idleForAll tokens sets)) := by
  rw [judgeChanges, if_neg fun hall => h (List.all_eq_true.1 hall)]
  split
  · next hnone => rw [if_pos hnone]
  · next hsome => rw [if_neg hsome]

/-- Whether two lists hold the same sets of flags, in any order. -/
structure HoldSame (sets others : List FlagSet) : Prop where
  kept : ∀ s ∈ sets, ∃ t ∈ others, t.sameAs s = true
  known : ∀ t ∈ others, ∃ s ∈ sets, t.sameAs s = true

theorem HoldSame.forall_iff (h : HoldSame sets others) {P : FlagSet → Prop}
    (hP : ∀ {s t : FlagSet}, t.sameAs s = true → (P t ↔ P s)) :
    (∀ t ∈ others, P t) ↔ ∀ s ∈ sets, P s := by
  constructor
  · intro hall s hs
    obtain ⟨t, ht, hsame⟩ := h.kept s hs
    exact (hP hsame).1 (hall t ht)
  · intro hall t ht
    obtain ⟨s, hs, hsame⟩ := h.known t ht
    exact (hP hsame).2 (hall s hs)

theorem HoldSame.judgeChanges_eq (h : HoldSame sets others) (hne : sets ≠ []) :
    judgeChanges tokens others = judgeChanges tokens sets := by
  obtain ⟨s, hs⟩ := List.exists_mem_of_ne_nil sets hne
  obtain ⟨t, ht, -⟩ := h.kept s hs
  have hunchanged : (∀ t ∈ others, t.isUnchangedBy tokens = true) ↔
      ∀ s ∈ sets, s.isUnchangedBy tokens = true := h.forall_iff FlagSet.isUnchangedBy_congr
  by_cases hall : ∀ s ∈ sets, s.isUnchangedBy tokens = true
  · rw [judgeChanges_of_unchanged hall, judgeChanges_of_unchanged (hunchanged.2 hall)]
  · have hidle : idleForAll tokens others = idleForAll tokens sets := by
      refine eq_of_ascending (idleForAll_ascends ..) (idleForAll_ascends ..) fun token => ?_
      rw [mem_idleForAll_iff hne, mem_idleForAll_iff (List.ne_nil_of_mem ht)]
      exact h.forall_iff FlagSet.mem_idleTokens_congr
    rw [judgeChanges_of_changed hall, judgeChanges_of_changed (mt hunchanged.1 hall), hidle]

theorem mem_knownFlags_iff {cs : List Cpv} {s : FlagSet} :
    s ∈ db.knownFlags cs ↔ ∃ c ∈ cs, db.currentFlags? c = some s := List.mem_filterMap

theorem forall_knownFlags {cs : List Cpv} {P : FlagSet → Prop} :
    (∀ s ∈ db.knownFlags cs, P s) ↔ ∀ c ∈ cs, ∀ s ∈ db.currentFlags? c, P s := by
  simp only [mem_knownFlags_iff, Option.mem_def]
  exact ⟨fun h c hc s hs => h s ⟨c, hc, hs⟩, fun h s ⟨c, hc, hs⟩ => h c hc s hs⟩

theorem knownFlags_ne_nil (h : db.installedMatching a ≠ []) :
    db.knownFlags (db.installedMatching a) ≠ [] := by
  obtain ⟨c, hc⟩ := List.exists_mem_of_ne_nil _ h
  obtain ⟨s, hs⟩ := Option.isSome_iff_exists.1 (currentFlags?_isSome hc)
  exact List.ne_nil_of_mem (mem_knownFlags_iff.2 ⟨c, hc, hs⟩)

/-- Whether two databases answer alike when they are asked for the versions that an atom selects,
though they may list the installed ones in another order. -/
structure ListsAlike (db other : Database) (a : Atom) : Prop where
  offered : other.matching a = [] ↔ db.matching a = []
  installed : ∀ c, c ∈ other.installedMatching a ↔ c ∈ db.installedMatching a
  declared : ∀ c ∈ db.installedMatching a, other.declaredFlags? c = db.declaredFlags? c
  current : ∀ c ∈ db.installedMatching a, ∀ s ∈ db.currentFlags? c,
    ∃ t ∈ other.currentFlags? c, t.sameAs s = true

theorem ListsAlike.unknownFlags_eq (h : db.ListsAlike other a) (value : Text) :
    other.unknownFlags a value = db.unknownFlags a value := by
  refine sortDistinct_congr fun flag => ?_
  rw [mem_undeclared_iff, mem_undeclared_iff]
  refine and_congr_left fun _ => ⟨fun hflag => ?_, fun hflag => ?_⟩
  · refine ⟨hflag.named, hflag.switched, fun c hc => ?_⟩
    rw [← h.declared c hc]
    exact hflag.undeclared c ((h.installed c).2 hc)
  · refine ⟨hflag.named, hflag.switched, fun c hc => ?_⟩
    have hc := (h.installed c).1 hc
    rw [h.declared c hc]
    exact hflag.undeclared c hc

theorem ListsAlike.knowsFlags_iff (h : db.ListsAlike other a) :
    (∀ c ∈ other.installedMatching a, other.KnowsFlags c) ↔
      ∀ c ∈ db.installedMatching a, db.KnowsFlags c := by
  simp only [h.installed]
  refine forall₂_congr fun c hc => ?_
  rw [KnowsFlags, KnowsFlags, h.declared c hc, currentFlags?_isSome hc,
    currentFlags?_isSome ((h.installed c).2 hc)]

theorem ListsAlike.holdSame (h : db.ListsAlike other a) :
    HoldSame (db.knownFlags (db.installedMatching a))
      (other.knownFlags (other.installedMatching a)) := by
  constructor
  · intro s hs
    obtain ⟨c, hc, hs⟩ := mem_knownFlags_iff.1 hs
    obtain ⟨t, ht, hsame⟩ := h.current c hc s hs
    exact ⟨t, mem_knownFlags_iff.2 ⟨c, (h.installed c).2 hc, ht⟩, hsame⟩
  · intro t ht
    obtain ⟨c, hc, ht⟩ := mem_knownFlags_iff.1 ht
    have hc := (h.installed c).1 hc
    obtain ⟨s, hs⟩ := Option.isSome_iff_exists.1 (currentFlags?_isSome hc)
    obtain ⟨t', ht', hsame⟩ := h.current c hc s hs
    obtain rfl := Option.some.inj (ht.symm.trans ht')
    exact ⟨s, mem_knownFlags_iff.2 ⟨c, hc, hs⟩, hsame⟩

theorem ListsAlike.judgeUse_eq (h : db.ListsAlike other a) (hm : db.matching a ≠ [])
    (hi : db.installedMatching a ≠ []) (value : Text) (warned warned' : List Text) :
    (other.judgeUse a value warned').value.1 = (db.judgeUse a value warned).value.1 := by
  obtain ⟨c, hc⟩ := List.exists_mem_of_ne_nil _ hi
  have hm' : other.matching a ≠ [] := fun hnil => hm (h.offered.1 hnil)
  have hi' : other.installedMatching a ≠ [] := List.ne_nil_of_mem ((h.installed c).2 hc)
  have hflags := h.unknownFlags_eq value
  by_cases hnone : db.unknownFlags a value = []
  · by_cases hknown : ∀ c ∈ db.installedMatching a, db.KnowsFlags c
    · rw [judgeUse_of_known hm hi warned hnone hknown,
        judgeUse_of_known hm' hi' warned' (hflags.trans hnone) (h.knowsFlags_iff.2 hknown)]
      exact h.holdSame.judgeChanges_eq (knownFlags_ne_nil hi)
    · have hlost' : ¬∀ c ∈ other.installedMatching a, other.KnowsFlags c :=
        fun hknown' => hknown (h.knowsFlags_iff.1 hknown')
      rw [judgeUse_of_lost hm hi warned hnone (by simpa using hknown),
        judgeUse_of_lost hm' hi' warned' (hflags.trans hnone) (by simpa using hlost')]
  · rw [judgeUse_of_unknown hm hi warned hnone,
      judgeUse_of_unknown hm' hi' warned' (hflags ▸ hnone), hflags]

/-- Whether the installed versions of a package that the order does not tell apart were built with
the same flags. The flags of all of them are looked up in the first. -/
def TiesAgree (db : Database) (n : PackageName) : Prop :=
  ∀ p ∈ db.installedOf n, ∀ q ∈ db.installedOf n,
    q.cpv.sameAs p.cpv = true → q.useFlags.sameAs p.useFlags = true

/-- Whether another database offers the same versions of a package and has the same ones installed,
which it may list in another order. -/
structure Reorders (db other : Database) (n : PackageName) : Prop where
  offered : other.availableOf n = db.availableOf n
  installed : (other.installedOf n).Perm (db.installedOf n)

theorem TiesAgree.currentFlags (h : db.TiesAgree a.packageName) {p : Installed}
    (hp : p ∈ db.installedOf a.packageName) (hmeets : p.meets a = true) :
    ∃ s ∈ db.currentFlags? p.cpv, s.sameAs p.useFlags = true := by
  have hfound : (db.lookupInstalled? p.cpv).isSome = true := by
    rw [lookupInstalled?, Installed.package_of_meets hmeets, List.find?_isSome]
    exact ⟨p, hp, Cpv.sameAs_self p.cpv⟩
  obtain ⟨q, hq⟩ := Option.isSome_iff_exists.1 hfound
  refine ⟨q.useFlags, ?_, ?_⟩
  · rw [currentFlags?, hq]
    rfl
  · rw [lookupInstalled?, Installed.package_of_meets hmeets] at hq
    have hsame : q.cpv.sameAs p.cpv = true :=
      List.find?_some (p := fun r : Installed => r.cpv.sameAs p.cpv) hq
    exact h p hp q (List.mem_of_find?_eq_some hq) hsame

theorem TiesAgree.of_reorders {n : PackageName} (h : db.TiesAgree n)
    (horder : db.Reorders other n) : other.TiesAgree n := by
  intro p hp q hq
  exact h p (horder.installed.mem_iff.1 hp) q (horder.installed.mem_iff.1 hq)

theorem TiesAgree.listsAlike (h : db.TiesAgree a.packageName)
    (horder : db.Reorders other a.packageName) : db.ListsAlike other a := by
  refine ⟨?_, fun c => ?_, fun c hc => ?_, fun c hc s hs => ?_⟩
  · rw [matching, matching, selected, selected, horder.offered]
  · exact ((horder.installed.filter _).map Installed.cpv).mem_iff
  · obtain ⟨p, hp, rfl⟩ := List.mem_map.1 hc
    have hpackage := Installed.package_of_meets (List.mem_filter.1 hp).2
    rw [declaredFlags?, declaredFlags?, lookupAvailable?, lookupAvailable?, hpackage,
      horder.offered]
  · obtain ⟨p, hp, rfl⟩ := List.mem_map.1 hc
    obtain ⟨hlist, hmeets⟩ := List.mem_filter.1 hp
    obtain ⟨s', hs', hown⟩ := h.currentFlags hlist hmeets
    obtain rfl := Option.some.inj (hs.symm.trans hs')
    obtain ⟨t, ht, hother⟩ :=
      (h.of_reorders horder).currentFlags (horder.installed.mem_iff.2 hlist) hmeets
    refine ⟨t, ht, FlagSet.sameAs_iff.2 fun flag => ?_⟩
    rw [FlagSet.sameAs_iff.1 hother, FlagSet.sameAs_iff.1 hown]

section
variable {changes others : List Change} {n : PackageName}

theorem installedOf_history_perm (changes : List Change) (n : PackageName) :
    ((empty.changeAll changes).installedOf n).Perm
      ((installedBy changes).filter (·.cpv.package = n)) :=
  (List.Perm.of_eq (Shelf.installed.listOf_history changes n)).trans (perm_sortStable ..)

theorem reorders_of_history (hoffered : offeredBy others = offeredBy changes)
    (hinstalled : (installedBy others).Perm (installedBy changes)) :
    (empty.changeAll changes).Reorders (empty.changeAll others) n := by
  constructor
  · rw [availableOf_history, availableOf_history, hoffered]
  · exact (installedOf_history_perm others n).trans
      ((hinstalled.filter _).trans (installedOf_history_perm changes n).symm)

theorem tiesAgree_of_history (h : ∀ p ∈ installedBy changes, ∀ q ∈ installedBy changes,
      q.cpv.sameAs p.cpv = true → q.useFlags.sameAs p.useFlags = true) :
    (empty.changeAll changes).TiesAgree n := by
  have hmem {p : Installed} (hp : p ∈ (empty.changeAll changes).installedOf n) :
      p ∈ installedBy changes :=
    List.mem_of_mem_filter ((installedOf_history_perm changes n).mem_iff.1 hp)
  exact fun p hp q hq => h p (hmem hp) q (hmem hq)

end

/-- An override for USE flags is called redundant only if the flags of all installed versions are
known, and then all of them are asked. The order of these versions plays no part but for the one
whose flags are found for those that compare equal. -/
theorem useRedundancy_forAll (db : Database) (a : Atom) (value : Text) (warned : List Text)
    (hm : db.matching a ≠ []) (hi : db.installedMatching a ≠ [])
    (hiuse : ¬∃ v, (db.judgeUse a value warned).value.1 = some v ∧ v.kind = .iuse) :
    let answer := (db.judgeUse a value warned).value.1
    let tokens := expandUse value
    let installed := db.installedMatching a
    let unchanged := ∀ c ∈ installed, ∀ s ∈ db.currentFlags? c,
      (s.applyAll tokens).sameAs s = true
    (∀ v, answer = some v → v.kind = .redundant → ∀ c ∈ installed, db.KnowsFlags c) ∧
    ((∃ c ∈ installed, ¬db.KnowsFlags c) → answer = none) ∧
    ((∀ c ∈ installed, db.KnowsFlags c) →
      (answer = some .noFlagChange ↔ unchanged) ∧
      (¬unchanged → ∃ idle : List Text, idle.Pairwise (compare · · = .lt) ∧
        (∀ token, token ∈ idle ↔
          ∀ c ∈ installed, ∀ s ∈ db.currentFlags? c, token ∈ s.idleTokens tokens) ∧
        answer = if idle = [] then none else some (.redundantFlags idle))) ∧
    (∀ other warned', db.ListsAlike other a →
      (other.judgeUse a value warned').value.1 = answer) ∧
    (db.TiesAgree a.packageName →
      (∀ p ∈ db.installedOf a.packageName, p.meets a = true →
        ∃ s ∈ db.currentFlags? p.cpv, s.sameAs p.useFlags = true) ∧
      ∀ other, db.Reorders other a.packageName → db.ListsAlike other a) := by
  intro answer tokens installed unchanged
  have hnone : db.unknownFlags a value = [] :=
    not_not.1 (mt (kind_of_judgeUse_iff hm hi warned).2 hiuse)
  have hlost : (∃ c ∈ installed, ¬db.KnowsFlags c) → answer = none :=
    judgeUse_of_lost hm hi warned hnone
  refine ⟨?_, hlost, fun hknown => ?_, fun other warned' h => h.judgeUse_eq hm hi value ..,
    fun hties => ⟨fun p hp hmeets => hties.currentFlags hp hmeets,
      fun other horder => hties.listsAlike horder⟩⟩
  · intro v hv _
    by_contra hnot
    rw [hlost (by simpa using hnot)] at hv
    contradiction
  · have hanswer : answer = judgeChanges tokens (db.knownFlags installed) :=
      judgeUse_of_known hm hi warned hnone hknown
    have hunchanged : unchanged ↔ ∀ s ∈ db.knownFlags installed, s.isUnchangedBy tokens = true :=
      forall_knownFlags.symm
    have hchanged (h : ¬unchanged) := judgeChanges_of_changed (mt hunchanged.2 h)
    refine ⟨⟨fun h => ?_, fun h => ?_⟩, fun h => ?_⟩
    · by_contra hnot
      rw [hanswer, hchanged hnot] at h
      split at h <;> cases h
    · rw [hanswer, judgeChanges_of_unchanged (hunchanged.1 h)]
    · refine ⟨idleForAll tokens (db.knownFlags installed), idleForAll_ascends .., fun token => ?_,
        hanswer.trans (hchanged h)⟩
      rw [mem_idleForAll_iff (knownFlags_ne_nil hi), forall_knownFlags]

theorem useRedundancy_forAll_twoVersions :
    let cpv (n : Char) : Cpv := ⟨['a'], ['b'], ⟨[n], [], none, [], none⟩⟩
    let offer (n : Char) : Change :=
      .offer (.ofTexts (cpv n) ['0'] [] "doc gtk ssl".toList none)
    let older : Change := .install (.ofTexts (cpv '1') ['0'] "ssl".toList none)
    let newer : Change := .install (.ofTexts (cpv '2') ['0'] "gtk ssl".toList none)
    let db := Database.empty.changeAll [offer '1', offer '2', older, newer]
    let other := Database.empty.changeAll [offer '1', offer '2', newer, older]
    let all := Atom.ofPackage ⟨['a'], ['b']⟩
    let value := "+ssl gtk -doc".toList
    let answer := (db.judgeUse all value []).value.1
    db.matching all ≠ [] ∧ db.installedMatching all = [cpv '1', cpv '2'] ∧
      (¬∃ v, answer = some v ∧ v.kind = .iuse) ∧ (∀ c ∈ db.installedMatching all, db.KnowsFlags c) ∧
      answer = some (.redundantFlags ["+ssl".toList, "-doc".toList]) ∧
      (∃ idle : List Text, answer = some (.redundantFlags idle) ∧
        ∀ token ∈ idle, ∀ c ∈ db.installedMatching all, ∀ s ∈ db.currentFlags? c,
          token ∈ s.idleTokens (expandUse value)) ∧
      db.TiesAgree all.packageName ∧ (other.judgeUse all value []).value.1 = answer := by
  intro cpv offer older newer db other all value answer
  have hm : db.matching all ≠ [] := by decide +kernel
  have hlist : db.installedMatching all = [cpv '1', cpv '2'] := by decide +kernel
  have hi : db.installedMatching all ≠ [] := by
    rw [hlist]
    simp
  have hanswer : answer = some (.redundantFlags ["+ssl".toList, "-doc".toList]) := by
    decide +kernel
  have hiuse : ¬∃ v, answer = some v ∧ v.kind = .iuse := by
    rintro ⟨v, hv, hkind⟩
    obtain rfl := Option.some.inj (hanswer.symm.trans hv)
    cases hkind
  have hknown : ∀ c ∈ db.installedMatching all, db.KnowsFlags c := by decide +kernel
  obtain ⟨-, -, hall, halike, hties⟩ := useRedundancy_forAll db all value [] hm hi hiuse
  obtain ⟨hunchanged, hidle⟩ := hall hknown
  have hchanged : answer ≠ some .noFlagChange := by
    rw [hanswer]
    simp
  obtain ⟨idle, -, hmem, hfound⟩ := hidle (mt hunchanged.2 hchanged)
  have hne : idle ≠ [] := by
    rintro rfl
    exact Option.some_ne_none _ (hanswer.symm.trans hfound)
  have hagree : db.TiesAgree all.packageName := tiesAgree_of_history (by decide +kernel)
  have horder : db.Reorders other all.packageName := reorders_of_history rfl (.swap ..)
  exact ⟨hm, hlist, hiuse, hknown, hanswer, ⟨idle, hfound.trans (if_neg hne), fun token =>
    (hmem token).1⟩, hagree, halike other [] ((hties hagree).2 other horder)⟩

theorem useRedundancy_of_tie :
    let cpv (revision : Option Text) : Cpv := ⟨['a'], ['b'], ⟨['1'], [], none, [], revision⟩⟩
    let offer : Change := .offer (.ofTexts (cpv none) ['0'] [] "ssl".toList none)
    let plain : Installed := .ofTexts (cpv none) ['0'] "ssl".toList none
    let revised : Installed := .ofTexts (cpv (some ['0'])) ['0'] [] none
    let db := Database.empty.changeAll [offer, .install plain, .install revised]
    let other := Database.empty.changeAll [offer, .install revised, .install plain]
    let all := Atom.ofPackage ⟨['a'], ['b']⟩
    let value := "ssl".toList
    let answer := (db.judgeUse all value []).value.1
    db.matching all ≠ [] ∧ db.installedMatching all = [plain.cpv, revised.cpv] ∧
      answer = some .noFlagChange ∧ (other.judgeUse all value []).value.1 = none ∧
      (∀ c ∈ db.installedMatching all, db.KnowsFlags c) ∧
      (∀ c ∈ other.installedMatching all, other.KnowsFlags c) ∧
      ¬(answer = some .noFlagChange ↔ ∀ p ∈ [plain, revised],
        (p.useFlags.applyAll (expandUse value)).sameAs p.useFlags = true) := by
  intro cpv offer plain revised db other all value answer
  have hanswer : answer = some .noFlagChange := by decide +kernel
  refine ⟨by decide +kernel, by decide +kernel, hanswer, by decide +kernel, by decide +kernel,
    by decide +kernel, fun hiff => ?_⟩
  exact absurd (hiff.1 hanswer revised (by simp)) (by decide)

section
variable {idle : List Text}

theorem eq_idleForAll_of_judgeChanges (h : judgeChanges tokens sets = some (.redundantFlags idle)) :
    idle = idleForAll tokens sets := by
  by_cases hall : ∀ s ∈ sets, s.isUnchangedBy tokens = true
  · rw [judgeChanges_of_unchanged hall] at h
    cases h
  · rw [judgeChanges_of_changed hall] at h
    split at h
    · cases h
    · exact (Verdict.redundantFlags.inj (Option.some.inj h)).symm

theorem judgeChanges_of_redundantFlags (hi : db.installedMatching a ≠ [])
    (h : (db.judgeUse a value warned).value.1 = some (.redundantFlags idle)) :
    judgeChanges (expandUse value) (db.knownFlags (db.installedMatching a)) =
      some (.redundantFlags idle) := by
  have hm : db.matching a ≠ [] := by
    intro hnil
    rw [judgeUse_value, hnil] at h
    cases h
  by_cases hnone : db.unknownFlags a value = []
  · by_cases hknown : ∀ c ∈ db.installedMatching a, db.KnowsFlags c
    · rw [← h, judgeUse_of_known hm hi warned hnone hknown]
    · rw [judgeUse_of_lost hm hi warned hnone (by simpa using hknown)] at h
      cases h
  · rw [judgeUse_of_unknown hm hi warned hnone] at h
    cases h

theorem idle_of_redundantFlags
    (h : (db.judgeUse a value warned).value.1 = some (.redundantFlags idle)) {c : Cpv}
    (hc : c ∈ db.installedMatching a) :
    ∃ s, db.currentFlags? c = some s ∧ ∀ token ∈ idle, token ∈ s.idleTokens (expandUse value) := by
  have hi := List.ne_nil_of_mem hc
  obtain ⟨s, hs⟩ := Option.isSome_iff_exists.1 (currentFlags?_isSome hc)
  refine ⟨s, hs, fun token htoken => ?_⟩
  rw [eq_idleForAll_of_judgeChanges (judgeChanges_of_redundantFlags hi h),
    mem_idleForAll_iff (knownFlags_ne_nil hi)] at htoken
  exact htoken s (mem_knownFlags_iff.2 ⟨c, hc, hs⟩)

end

/-- For each installed version every token that is called redundant stands at a place where it
changes nothing, and tokens can be left out at any such places. They can be left out wherever they
are written if they change nothing at any place, as those that are written once. -/
theorem redundantFlags_leaveOut (db : Database) (a : Atom) (value : Text) (warned : List Text)
    (idle : List Text)
    (h : (db.judgeUse a value warned).value.1 = some (.redundantFlags idle)) :
    let tokens := expandUse value
    ∀ c ∈ db.installedMatching a, ∃ s, db.currentFlags? c = some s ∧
      (∀ token ∈ idle, ∃ before after, tokens = before ++ token :: after ∧
        (s.applyAll before).Ignores token) ∧
      (∀ kept, s.LeavesOut tokens kept → (s.applyAll kept).sameAs (s.applyAll tokens) = true) ∧
      ((∀ token ∈ idle, s.IgnoresThroughout tokens token ∨ tokens.count token = 1) →
        (s.applyAll (tokens.filter fun token => !idle.contains token)).sameAs
          (s.applyAll tokens) = true) := by
  intro tokens c hc
  obtain ⟨s, hs, hidle⟩ := idle_of_redundantFlags h hc
  refine ⟨s, hs, fun token htoken => ?_, fun kept hkept => hkept.sameAs_applyAll, fun hplaces => ?_⟩
  · obtain ⟨before, after, htokens, hidle⟩ := FlagSet.mem_idleTokens_iff.1 (hidle token htoken)
    exact ⟨before, after, htokens, FlagSet.ignores_of_isIdle hidle⟩
  · refine (FlagSet.leavesOut_filter fun token hout => ?_).sameAs_applyAll
    have htoken : token ∈ idle := by simpa using hout
    obtain hthroughout | honce := hplaces token htoken
    · exact hthroughout
    · exact FlagSet.ignoresThroughout_of_count_eq_one honce (hidle token htoken)

theorem redundantFlags_leaveOut_twoVersions :
    let cpv (n : Char) : Cpv := ⟨['a'], ['b'], ⟨[n], [], none, [], none⟩⟩
    let db := Database.empty
      |>.insertAvailable (.ofTexts (cpv '1') ['0'] [] "doc gtk ssl".toList none)
      |>.insertAvailable (.ofTexts (cpv '2') ['0'] [] "doc gtk ssl".toList none)
      |>.insertInstalled (.ofTexts (cpv '1') ['0'] "ssl".toList none)
      |>.insertInstalled (.ofTexts (cpv '2') ['0'] "gtk ssl".toList none)
    let all := Atom.ofPackage ⟨['a'], ['b']⟩
    let value := "+ssl gtk -doc".toList
    db.installedMatching all = [cpv '1', cpv '2'] ∧
      (db.judgeUse all value []).value.1 =
        some (.redundantFlags ["+ssl".toList, "-doc".toList]) ∧
      ∀ c ∈ db.installedMatching all, ∃ s, db.currentFlags? c = some s ∧
        (s.applyAll ["gtk".toList]).sameAs (s.applyAll (expandUse value)) = true := by
  intro cpv db all value
  have hanswer : (db.judgeUse all value []).value.1 =
      some (.redundantFlags ["+ssl".toList, "-doc".toList]) := by decide +kernel
  refine ⟨by decide +kernel, hanswer, fun c hc => ?_⟩
  obtain ⟨s, hs, -, -, hleft⟩ := redundantFlags_leaveOut db all value [] _ hanswer c hc
  refine ⟨s, hs, hleft fun token htoken => .inr ?_⟩
  simp only [List.mem_cons, List.not_mem_nil, or_false] at htoken
  obtain rfl | rfl := htoken
  · decide
  · decide

/-- The first `a` changes nothing, as the flag is on; the second puts it on again. -/
theorem redundantFlags_written_twice :
    let cpv : Cpv := ⟨['a'], ['b'], ⟨['1'], [], none, [], none⟩⟩
    let db := Database.empty
      |>.insertAvailable (.ofTexts cpv ['0'] [] "a b".toList none)
      |>.insertInstalled (.ofTexts cpv ['0'] "a".toList none)
    let all := Atom.ofPackage ⟨['a'], ['b']⟩
    let value := "a -a a b".toList
    let idle : List Text := [['a']]
    (db.judgeUse all value []).value.1 = some (.redundantFlags idle) ∧
      ¬∀ c ∈ db.installedMatching all, ∀ s ∈ db.currentFlags? c,
        (s.applyAll ((expandUse value).filter fun token => !idle.contains token)).sameAs
          (s.applyAll (expandUse value)) = true := by
  intro cpv db all value idle
  refine ⟨by decide +kernel, fun hall => ?_⟩
  have hsame := hall cpv (by decide +kernel) (.ofText ['a']) (by rfl)
  exact absurd hsame (by decide)

end Database
end OverrideAudit
