import OverrideAudit.Masking.Profile
import OverrideAudit.Masking.Basic
import OverrideAudit.Proofs.Atom.RoundTrip
import OverrideAudit.Proofs.Version.TotalOrder

/-! What equal atoms have in common. Atoms count as equal when their versions compare equal, however
these are spelled, and every operator but one asks the order alone. A glob asks for the version as
it is written, so that equal globs in two spellings are told apart. -/
namespace OverrideAudit

theorem Version.eq_of_toText {v w : Version} (hv : v.Readable) (hw : w.Readable)
    (h : v.toText = w.toText) : v = w := by
  have hread := Version.read?_toText (Version.readable_iff.1 hv)
  rw [h, Version.read?_toText (Version.readable_iff.1 hw)] at hread
  exact (Option.some.inj hread).symm

theorem Operator.admits_congr {op : Operator} {v w c : Version} (hv : v.Readable)
    (hw : w.Readable) (hc : c.Readable) (h : v.sameAs w = true)
    (hglob : op = .glob → c.toText.startsWith v.toText = c.toText.startsWith w.toText) :
    op.admits v c = op.admits w c := by
  have heq := Version.sameAs_iff.1 h
  have hcompare : c.compare v = c.compare w := by
    rw [Version.compare_eq hv hw] at heq
    rw [Version.compare_eq hc hv, Version.compare_eq hc hw]
    exact Std.TransCmp.congr_right heq
  have hunrevised : c.compareUnrevised v = c.compareUnrevised w := by
    have hbase := (Ordering.then_eq_eq.1 heq).1
    rw [Version.compareUnrevised_eq hv hw] at hbase
    rw [Version.compareUnrevised_eq hc hv, Version.compareUnrevised_eq hc hw]
    exact Std.TransCmp.congr_right hbase
  cases op with
  | glob => exact hglob rfl
  | anyRevision => rw [admits, admits, hunrevised]
  | any => rfl
  | equal => rw [admits, admits, Version.sameAs, Version.sameAs, hcompare]
  | greater | greaterEqual | less | lessEqual => rw [admits, admits, hcompare]

namespace Atom
variable {a b : Atom} {c : Cpv} {s t : Text}

theorem sameAs_iff :
    a.sameAs b = true ↔ ∃ version, b = { a with version } ∧
      Option.Rel (fun v w => v.sameAs w = true) a.version version := by
  obtain ⟨op, category, name, v, slot, subslot, repository⟩ := a
  obtain ⟨op', category', name', w, slot', subslot', repository'⟩ := b
  simp only [sameAs, Bool.and_eq_true, beq_iff_eq, mk.injEq]
  constructor
  · rintro ⟨⟨⟨⟨⟨⟨rfl, rfl⟩, rfl⟩, hversion⟩, rfl⟩, rfl⟩, rfl⟩
    refine ⟨w, ⟨rfl, rfl, rfl, rfl, rfl, rfl, rfl⟩, ?_⟩
    cases v <;> cases w <;> simp_all
  · rintro ⟨version, ⟨rfl, rfl, rfl, rfl, rfl, rfl, rfl⟩, hrel⟩
    refine ⟨⟨⟨⟨⟨⟨rfl, rfl⟩, rfl⟩, ?_⟩, rfl⟩, rfl⟩, rfl⟩
    cases hrel with
    | none => rfl
    | some h => exact h

theorem WellFormed.readable (h : a.WellFormed) : ∀ v ∈ a.version, v.Readable :=
  fun v hv => (h.version v hv).readable

/-- A version is written with the version of the one atom in front exactly if it is with that of the
other. -/
def LeadAlike (a b : Atom) (c : Version) : Prop :=
  ∀ v ∈ a.version, ∀ w ∈ b.version, c.toText.startsWith v.toText = c.toText.startsWith w.toText

theorem matchesVersion_eq (a : Atom) (c : Cpv) :
    a.matchesVersion c = (a.isFor c.category c.name &&
      a.version.all fun v => a.operator.admits v c.version) := by
  rw [matchesVersion]
  cases a.version <;> rfl

theorem selects_congr (ha : a.WellFormed) (hb : b.WellFormed) (hc : c.version.Readable)
    (h : a.sameAs b = true) (hglob : a.operator = .glob → LeadAlike a b c.version)
    (slot repository : Option Text) :
    a.selects c slot repository = b.selects c slot repository := by
  obtain ⟨version, rfl, hrel⟩ := sameAs_iff.1 h
  have hadmits : (a.version.all fun v => a.operator.admits v c.version) =
      version.all fun w => a.operator.admits w c.version := by
    cases hv : a.version with
    | none =>
      rw [hv] at hrel
      cases hrel
      rfl
    | some v =>
      rw [hv] at hrel
      cases hrel with
      | some hsame =>
        exact Operator.admits_congr (ha.readable _ hv) (hb.readable _ rfl) hc hsame
          fun hop => hglob hop _ hv _ rfl
  rw [selects, selects, matchesVersion_eq, matchesVersion_eq, hadmits]
  rfl

theorem selects_own (a : Atom) (v : Version) :
    a.selects ⟨a.category, a.name, v⟩ none none =
      a.version.all fun wanted => a.operator.admits wanted v := by
  have hslot : a.meetsSlot none = true := by
    rw [meetsSlot.eq_def]
    cases a.slot <;> rfl
  have hrepository : meets a.repository none = true := by cases a.repository <;> rfl
  simp [selects, hslot, hrepository, matchesVersion_eq, isFor]

theorem version_eq_of_selects (ha : a.WellFormed) (hb : b.WellFormed) (h : a.sameAs b = true)
    (hop : a.operator = .glob)
    (hall : ∀ c : Cpv, c.version.Readable → a.selects c none none = b.selects c none none) :
    a.version = b.version := by
  obtain ⟨version, rfl, hrel⟩ := sameAs_iff.1 h
  have hlead : ∀ c : Version, c.Readable →
      (a.version.all fun v => c.toText.startsWith v.toText) =
        version.all fun w => c.toText.startsWith w.toText := by
    intro c hc
    have hsame := hall ⟨a.category, a.name, c⟩ hc
    rw [selects_own, selects_own { a with version }] at hsame
    simpa only [hop, Operator.admits] using hsame
  cases hv : a.version with
  | none =>
    rw [hv] at hrel
    cases hrel
    rfl
  | some v =>
    rw [hv] at hrel hlead
    cases hrel with
    | @some _ w hsame =>
      have hvr : v.Readable := ha.readable v hv
      have hwr : w.Readable := hb.readable w rfl
      have hself : ∀ t : Text, t.startsWith t = true := fun t =>
        List.isPrefixOf_iff_prefix.2 (List.prefix_refl t)
      have hwv : w.toText <+: v.toText :=
        List.isPrefixOf_iff_prefix.1 ((hlead v hvr).symm.trans (hself v.toText))
      have hvw : v.toText <+: w.toText :=
        List.isPrefixOf_iff_prefix.1 ((hlead w hwr).trans (hself w.toText))
      rw [Version.eq_of_toText hvr hwr (hvw.eq_of_length_le hwv.length_le)]

/-- A removal takes the masks away that are equal to its atom, and so lifts masks only from versions
that its atom selects, if equal globs among them are spelled as it is. -/
theorem meets_of_lifted {masks : List Atom} {p : Available} (ha : a.WellFormed)
    (hmasks : ∀ m ∈ masks, m.WellFormed)
    (hglob : a.operator = .glob → ∀ m ∈ masks, m.sameAs a = true → m.version = a.version)
    (hp : p.cpv.version.Readable) (hbefore : masks.any p.meets = true)
    (hafter : (MaskLine.applyTo masks (.remove a)).any p.meets = false) : p.meets a = true := by
  obtain ⟨m, hm, hmeets⟩ := List.any_eq_true.1 hbefore
  have hsame : m.sameAs a = true := by
    cases hsame : m.sameAs a with
    | true => rfl
    | false =>
      have hstays : m ∈ MaskLine.applyTo masks (.remove a) :=
        List.mem_filter.2 ⟨hm, by simp [hsame]⟩
      exact absurd hmeets (List.any_eq_false.1 hafter m hstays)
  have hlead : m.operator = .glob → LeadAlike m a p.cpv.version := by
    intro hop v hv w hw
    obtain ⟨version, rfl, -⟩ := sameAs_iff.1 hsame
    have hversion := hglob hop m hm hsame
    rw [hversion, Option.mem_def.1 hw] at hv
    rw [Option.some.inj hv]
  exact (selects_congr (hmasks m hm) ha hp hsame hlead _ _).symm.trans hmeets

/-- Equal atoms select the same, but for globs, which ask for their version as it is written. A
removal lifts masks only from versions that its atom selects, unless it is a glob and an equal one
is spelled otherwise. -/
theorem sameAs_selectsAlike (ha : read s = .ok a) (hb : read t = .ok b)
    (h : a.sameAs b = true) :
    (∀ c : Cpv, c.version.Readable → (a.operator = .glob → LeadAlike a b c.version) →
      ∀ slot repository, a.selects c slot repository = b.selects c slot repository) ∧
    ((∀ c : Cpv, c.version.Readable →
        ∀ slot repository, a.selects c slot repository = b.selects c slot repository) ↔
      (a.operator = .glob → a.version = b.version)) ∧
    ∀ masks : List Atom, (∀ m ∈ masks, ∃ line, read line = .ok m) →
      (a.operator = .glob → ∀ m ∈ masks, m.sameAs a = true → m.version = a.version) →
      ∀ p : Available, p.cpv.version.Readable → masks.any p.meets = true →
        (MaskLine.applyTo masks (.remove a)).any p.meets = false → p.meets a = true := by
  have hwa := (read_eq_ok_iff.1 ha).1
  have hwb := (read_eq_ok_iff.1 hb).1
  refine ⟨fun c hc hglob => selects_congr hwa hwb hc h hglob, ⟨?_, ?_⟩, ?_⟩
  · intro hall hop
    exact version_eq_of_selects hwa hwb h hop fun c hc => hall c hc none none
  · intro hversion c hc
    refine selects_congr hwa hwb hc h fun hop v hv w hw => ?_
    rw [hversion hop, Option.mem_def.1 hw] at hv
    rw [Option.some.inj hv]
  · intro masks hmasks hglob p hp
    refine meets_of_lifted hwa (fun m hm => ?_) hglob hp
    obtain ⟨line, hline⟩ := hmasks m hm
    exact (read_eq_ok_iff.1 hline).1

theorem sameAs_selectsAlike_glob :
    let glob (zeros : String) : Atom :=
      ⟨.glob, ['a'], ['b'], some ⟨['1'], [zeros.toList], none, [], none⟩, some ['0'], none, none⟩
    let version (second : String) : Cpv := ⟨['a'], ['b'], ⟨['1'], [second.toList], none, [], none⟩⟩
    let p : Available := .ofTexts (version "05") ['0'] [] [] none
    (read "=a/b-1.0*:0".toList = .ok (glob "0") ∧ read "=a/b-1.00*:0".toList = .ok (glob "00") ∧
      (glob "0").sameAs (glob "00") = true) ∧
    (glob "0").selects (version "000") none none = true ∧
    (glob "0").selects (version "000") none none = (glob "00").selects (version "000") none none ∧
    (¬∀ c : Cpv, c.version.Readable → ∀ slot repository,
      (glob "0").selects c slot repository = (glob "00").selects c slot repository) ∧
    p.meets (glob "0") = true := by
  intro glob version p
  have ha : read "=a/b-1.0*:0".toList = .ok (glob "0") := rfl
  have hb : read "=a/b-1.00*:0".toList = .ok (glob "00") := rfl
  obtain ⟨hselects, halike, hlifts⟩ := sameAs_selectsAlike ha hb (by decide)
  refine ⟨⟨ha, hb, by decide⟩, by decide, ?_, ?_, ?_⟩
  · refine hselects (version "000") ⟨"1.000".toList, by decide⟩ (fun _ v hv w hw => ?_) none none
    obtain rfl := Option.some.inj hv
    obtain rfl := Option.some.inj hw
    decide
  · rw [halike]
    decide
  · refine hlifts [glob "0"] (fun m hm => ?_) (fun _ m hm _ => ?_) p ⟨"1.05".toList, by decide⟩
      (by decide) (by decide)
    · exact ⟨_, List.mem_singleton.1 hm ▸ ha⟩
    · rw [List.mem_singleton.1 hm]

/-- Of two equal atoms the one selects a version that the other does not. -/
theorem sameAs_globs_differ :
    ∃ a b : Atom, ∃ c : Cpv, read "=a/b-1.0*".toList = .ok a ∧ read "=a/b-1.00*".toList = .ok b ∧
      Cpv.read "a/b-1.05".toList = .ok c ∧ a.sameAs b = true ∧
      a.selects c none none = true ∧ b.selects c none none = false := by
  refine ⟨⟨.glob, ['a'], ['b'], some ⟨['1'], [['0']], none, [], none⟩, none, none, none⟩,
    ⟨.glob, ['a'], ['b'], some ⟨['1'], [['0', '0']], none, [], none⟩, none, none, none⟩,
    ⟨['a'], ['b'], ⟨['1'], [['0', '5']], none, [], none⟩⟩, rfl, rfl, rfl, ?_⟩
  decide

end Atom
end OverrideAudit
