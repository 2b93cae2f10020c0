import OverrideAudit.Proofs.Atom.RoundTrip
import OverrideAudit.Proofs.Version.TotalOrder

/-! Package versions and their texts. A text is cut into a name and a version in one way at most, so
what is written is read again, also behind the sign of an atom. -/
namespace OverrideAudit.Cpv

/-- A text made of a name, a hyphen and the text of a version that starts with a digit from `0` to
`9`. -/
structure MadeOf (t name written : Text) (v : Version) : Prop where
  nonempty : name ≠ []
  parts : t = name ++ '-' :: written
  reads : Version.read? written = some v
  digit : ∃ c ∈ written.head?, c.isDigit = true

theorem cutNameVersion?_iff_madeOf {t name : Text} {v : Version} :
    cutNameVersion? t = some (name, v) ↔ ∃ written, MadeOf t name written v := by
  rw [cutNameVersion?_eq_some_iff]
  constructor
  · intro h
    obtain ⟨hname, hv, ht⟩ := h
    have hread := Version.read?_toText (Version.readable_iff.1 hv.readable)
    exact ⟨v.toText, hname, ht, hread, hv.digit⟩
  · intro h
    obtain ⟨written, h⟩ := h
    obtain rfl : written = v.toText := (Version.toText_of_read? h.reads).2
    exact ⟨h.nonempty, ⟨⟨_, h.reads⟩, h.digit⟩, h.parts⟩

theorem MadeOf.unique {t name name' written written' : Text} {v v' : Version}
    (h : MadeOf t name written v) (h' : MadeOf t name' written' v') :
    name = name' ∧ written = written' ∧ v = v' := by
  have hcut : cutNameVersion? t = some (name, v) := cutNameVersion?_iff_madeOf.2 ⟨written, h⟩
  rw [cutNameVersion?_iff_madeOf.2 ⟨written', h'⟩] at hcut
  obtain ⟨rfl, rfl⟩ := Prod.mk.inj (Option.some.inj hcut)
  rw [(Version.toText_of_read? h.reads).2, (Version.toText_of_read? h'.reads).2]
  exact ⟨rfl, rfl, rfl⟩

/-- A package version that can be written: a category and a name without slashes, and a version that
starts with a digit. -/
structure WellFormed (c : Cpv) : Prop where
  category : c.category ≠ [] ∧ '/' ∉ c.category
  name : c.name ≠ [] ∧ '/' ∉ c.name
  version : c.version.Plain

theorem toText_eq (c : Cpv) :
    c.toText = c.category ++ '/' :: (c.name ++ '-' :: c.version.toText) := by
  simp [toText, package, PackageName.toText]

theorem read_eq_ok_iff {t : Text} {c : Cpv} : read t = .ok c ↔ c.WellFormed ∧ t = c.toText := by
  constructor
  · intro h
    rw [read] at h
    split at h
    · contradiction
    · next category rest hslash =>
      split at h
      · contradiction
      · next hparts =>
        split at h
        · contradiction
        · next name v hcut =>
          obtain rfl := Except.ok.inj h
          obtain ⟨hcategory, rfl⟩ := Text.cutAt_eq_some_iff.1 hslash
          obtain ⟨hname, hv, rfl⟩ := cutNameVersion?_eq_some_iff.1 hcut
          simp only [Bool.or_eq_true, List.isEmpty_iff, List.contains_iff_mem, not_or,
            List.mem_append] at hparts
          exact ⟨⟨⟨hparts.1, hcategory⟩, ⟨hname, hparts.2.1⟩, hv⟩,
            (toText_eq ⟨category, name, v⟩).symm⟩
  · intro h
    obtain ⟨hc, rfl⟩ := h
    have hslash : c.toText.cutAt '/' = some (c.category, c.name ++ '-' :: c.version.toText) :=
      Text.cutAt_eq_some_iff.2 ⟨hc.category.2, toText_eq c⟩
    have hcut : cutNameVersion? (c.name ++ '-' :: c.version.toText) = some (c.name, c.version) :=
      cutNameVersion?_eq_some_iff.2 ⟨hc.name.1, hc.version, rfl⟩
    have hrest : '/' ∉ c.name ++ '-' :: c.version.toText := by
      have hversion := Atom.not_mem_version hc.version (d := '/') (by decide)
      simpa [hc.name.2] using hversion
    have hparts : (c.category.isEmpty ||
        (c.name ++ '-' :: c.version.toText).contains '/') = false := by
      simpa [hc.category.1] using hrest
    simp only [read, hslash, hparts, hcut, Bool.false_eq_true, if_false]

def exactAtom (c : Cpv) : Atom := ⟨.equal, c.category, c.name, some c.version, none, none, none⟩

theorem toText_exactAtom (c : Cpv) : c.exactAtom.toText = '=' :: c.toText := by
  simp [exactAtom, Atom.toText, Atom.slotText, Atom.packageName, Operator.sign, toText, package]

theorem exactAtom_wellFormed {c : Cpv} (hcategory : Atom.isLabel c.category = true)
    (hname : Atom.isName c.name = true) (hv : c.version.Plain) : c.exactAtom.WellFormed where
  category := hcategory
  name := hname
  version_iff := by simp [exactAtom]
  version := by simpa [exactAtom] using hv
  uncut := by simp [exactAtom]
  slot := by simp [exactAtom]
  subslot := by simp [exactAtom]
  repository := by simp [exactAtom]
  subslot_slot := by simp [exactAtom]

theorem exactAtom_matchesVersion (c : Cpv) : c.exactAtom.matchesVersion c = true := by
  have hsame : c.version.sameAs c.version = true := Version.sameAs_iff.2 Std.ReflCmp.compare_self
  simp [exactAtom, Atom.matchesVersion, Atom.isFor, Operator.admits, hsame]

/-- A text is made of a name and a version in one way at most, and is cut there if it is; so reading
a package version and writing it are inverse to each other. -/
theorem read_cut_roundTrip :
    (∀ t name written v name' written' v', MadeOf t name written v →
      MadeOf t name' written' v' → name = name' ∧ written = written' ∧ v = v') ∧
    (∀ t name v, cutNameVersion? t = some (name, v) ↔ ∃ written, MadeOf t name written v) ∧
    (∀ t c, read t = .ok c → c.toText = t ∧ c.WellFormed) ∧
    (∀ c : Cpv, c.WellFormed → read c.toText = .ok c ∧
      ∀ t, Version.read? t = some c.version → c.version.toText = t) ∧
    ∀ c : Cpv, Atom.isLabel c.category = true → Atom.isName c.name = true → c.version.Plain →
      Atom.read ('=' :: c.toText) = .ok c.exactAtom ∧ c.exactAtom.matchesVersion c = true := by
  refine ⟨fun t name written v name' written' v' => MadeOf.unique,
    fun t name v => cutNameVersion?_iff_madeOf, ?_, ?_, ?_⟩
  · intro t c h
    obtain ⟨hc, rfl⟩ := read_eq_ok_iff.1 h
    exact ⟨rfl, hc⟩
  · intro c hc
    exact ⟨read_eq_ok_iff.2 ⟨hc, rfl⟩, fun t h => (Version.toText_of_read? h).2.symm⟩
  · intro c hcategory hname hv
    have ha := exactAtom_wellFormed hcategory hname hv
    rw [← toText_exactAtom]
    exact ⟨Atom.read_eq_ok_iff.2 ⟨ha, Atom.trim_toText ha⟩, exactAtom_matchesVersion c⟩

example : (read "x-y/a-1-b-2.0_p1-r3".toList).toOption.map (fun c => (c.name, c.version.toText)) =
    some ("a-1-b".toList, "2.0_p1-r3".toList) := by decide

end OverrideAudit.Cpv
