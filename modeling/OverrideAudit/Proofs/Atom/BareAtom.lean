import OverrideAudit.Proofs.Cpv.RoundTrip
import OverrideAudit.Proofs.Text.Pieces

/-! The package of an atom as an atom of its own. It is written as a category and a name alone, and
is refused only where the name itself looks like a name with a version, which no name does that was
read without an operator. -/
namespace OverrideAudit.Atom
variable {a : Atom} {s category name : Text}

/-- A name made of a name, a hyphen and a version that starts with a digit from `0` to `9`. -/
def LooksVersioned (name : Text) : Prop := ∃ base written v, Cpv.MadeOf name base written v

theorem looksVersioned_iff : LooksVersioned name ↔ Cpv.cutNameVersion? name ≠ none := by
  rw [Option.ne_none_iff_exists']
  constructor
  · rintro ⟨base, written, v, h⟩
    exact ⟨(base, v), Cpv.cutNameVersion?_iff_madeOf.2 ⟨written, h⟩⟩
  · rintro ⟨⟨base, v⟩, h⟩
    obtain ⟨written, hmade⟩ := Cpv.cutNameVersion?_iff_madeOf.1 h
    exact ⟨base, written, v, hmade⟩

theorem not_mem_bare (hc : isLabel category = true) (hn : isName name = true) {d : Char}
    (hd : isLabelChar d = false) (hslash : d ≠ '/') : d ∉ category ++ '/' :: name := by
  simp [not_mem_label hc hd, not_mem_name hn hd, hslash]

/-- Nothing is peeled off a category and a name, so that the name alone decides. -/
theorem readTrimmed_bare (hc : isLabel category = true) (hn : isName name = true) :
    readTrimmed (category ++ '/' :: name) =
      (takeVersion .any name).map fun _ => ofPackage ⟨category, name⟩ := by
  have hcolon : ':' ∉ category ++ '/' :: name := not_mem_bare hc hn (by decide) (by decide)
  have hstar : '*' ∉ category ++ '/' :: name := not_mem_bare hc hn (by decide) (by decide)
  have hne : (category ++ '/' :: name).isEmpty = false := by cases category <;> rfl
  have hoperator : takeOperator (category ++ '/' :: name) = (.any, category ++ '/' :: name) := by
    cases hcat : category with
    | nil => exact absurd hcat (label_ne_nil hc)
    | cons c r => exact takeOperator_append .any (isLabelChar_of_label hc (by simp [hcat]))
  have hrepository : takeRepository (category ++ '/' :: name) =
      .ok (category ++ '/' :: name, none) := by
    have hcut := Text.cutAtText_append [':'] [] hcolon
    rw [List.append_nil] at hcut
    simp [takeRepository, hcut, Text.cutAtText]
  have hslot : takeSlot (category ++ '/' :: name) = .ok (category ++ '/' :: name, none, none) := by
    simp [takeSlot, Text.cutAt_eq_none_iff.2 hcolon]
  have hwildcard : takeWildcard .any (category ++ '/' :: name) =
      .ok (.any, category ++ '/' :: name) := by
    have hnone : ['*'].isSuffixOf? (category ++ '/' :: name) = none :=
      Text.isSuffixOf?_eq_none fun r hr => hstar (by rw [hr]; simp)
    simp [takeWildcard, hnone]
  have hslash : Text.cutAt '/' (category ++ '/' :: name) = some (category, name) :=
    Text.cutAt_eq_some_iff.2 ⟨not_mem_label hc (by decide), rfl⟩
  simp only [readTrimmed, hne, hoperator, hrepository, hslot, hwildcard, hslash, hc,
    Bool.false_eq_true, if_false, if_true, bind, Except.bind, pure, Except.pure]
  cases hcut : Cpv.cutNameVersion? name with
  | none => simp [takeVersion, hcut, hn, Except.map, ofPackage]
  | some p => simp [takeVersion, hcut, Except.map]

theorem trim_bare (hc : isLabel category = true) (hn : isName name = true) :
    (category ++ '/' :: name).trim = category ++ '/' :: name := by
  refine Text.trim_of_isUnbroken fun d hd => ?_
  rw [Bool.eq_false_iff]
  intro hblank
  obtain ⟨hlabel, -, hmarks⟩ := not_char_of_isBlank hblank
  exact not_mem_bare hc hn hlabel (fun h => hmarks (by simp [h])) hd

theorem read_bare (hc : isLabel category = true) (hn : isName name = true) :
    (¬LooksVersioned name → read (category ++ '/' :: name) = .ok (ofPackage ⟨category, name⟩)) ∧
    (LooksVersioned name → read (category ++ '/' :: name) =
      .error (.atom .versionWithoutOperator (category ++ '/' :: name))) := by
  rw [looksVersioned_iff, read, trim_bare hc hn, readTrimmed_bare hc hn]
  cases hcut : Cpv.cutNameVersion? name with
  | none =>
    have htake : takeVersion .any name = .ok (name, none) := by simp [takeVersion, hcut]
    rw [htake]
    exact ⟨fun _ => rfl, fun hlooks => absurd rfl hlooks⟩
  | some p =>
    have htake : takeVersion .any name = .error .versionWithoutOperator := by
      simp [takeVersion, hcut]
    rw [htake]
    exact ⟨fun hplain => absurd (Option.some_ne_none p) hplain, fun _ => rfl⟩

theorem toText_package (a : Atom) : a.package.toText = a.category ++ '/' :: a.name := by
  simp [package, ofPackage, packageName, toText, slotText, PackageName.toText, Operator.sign]

theorem WellFormed.not_looksVersioned (h : a.WellFormed) (hversion : a.version = none) :
    ¬LooksVersioned a.name := by
  have hop : ¬a.operator ≠ .any := fun hop => by simpa [hversion] using h.version_iff.2 hop
  rw [looksVersioned_iff, h.uncut (Decidable.not_not.1 hop)]
  exact fun hne => hne rfl

/-- The category and name of an atom that was read. Unless the name looks like one with a version
they are read as the bare atom of the package, otherwise they are refused; no atom without a version
has such a name. -/
theorem read_package (h : read s = .ok a) :
    a.package.toText = a.category ++ '/' :: a.name ∧
    (isValid a.package.toText = true ↔ ¬LooksVersioned a.name) ∧
    (¬LooksVersioned a.name → read a.package.toText = .ok a.package) ∧
    (LooksVersioned a.name → read a.package.toText =
      .error (.atom .versionWithoutOperator a.package.toText)) ∧
    ((∃ t b, read t = .ok b ∧ b.version = none ∧ b.name = a.name) ↔ ¬LooksVersioned a.name) := by
  have ha := (read_eq_ok_iff.1 h).1
  obtain ⟨hok, herror⟩ := read_bare ha.category ha.name
  rw [← toText_package] at hok herror
  refine ⟨toText_package a, ⟨?_, ?_⟩, hok, herror, ?_, ?_⟩
  · intro hvalid hlooks
    rw [isValid, herror hlooks] at hvalid
    contradiction
  · intro hlooks
    rw [isValid, hok hlooks]
    rfl
  · rintro ⟨t, b, hb, hversion, hname⟩
    rw [← hname]
    exact (read_eq_ok_iff.1 hb).1.not_looksVersioned hversion
  · exact fun hlooks => ⟨_, _, hok hlooks, rfl, rfl⟩

theorem read_package_dpi :
    let font : Atom := ⟨.greaterEqual, ['a'], "b-100dpi".toList, some ⟨['1'], [], none, [], none⟩,
      some ['0'], none, none⟩
    let twice : Atom := ⟨.equal, ['a'], "b-1".toList, some ⟨['2'], [], none, [], none⟩,
      none, none, none⟩
    (read ">=a/b-100dpi-1:0".toList = .ok font ∧ read "=a/b-1-2".toList = .ok twice) ∧
    ¬LooksVersioned font.name ∧ LooksVersioned twice.name ∧
    read "a/b-100dpi".toList = .ok font.package ∧
    read "a/b-1".toList = .error (.atom .versionWithoutOperator "a/b-1".toList) := by
  intro font twice
  have hfont : read ">=a/b-100dpi-1:0".toList = .ok font := rfl
  have htwice : read "=a/b-1-2".toList = .ok twice := rfl
  have hplain : ¬LooksVersioned font.name := by
    rw [looksVersioned_iff]
    decide
  have hlooks : LooksVersioned twice.name := by
    rw [looksVersioned_iff]
    decide
  obtain ⟨-, -, hok, -, -⟩ := read_package hfont
  obtain ⟨-, -, -, herror, -⟩ := read_package htwice
  exact ⟨⟨hfont, htwice⟩, hplain, hlooks, hok hplain, herror hlooks⟩

/-- An atom whose package is no valid atom. -/
theorem package_not_valid :
    ∃ a : Atom, read "=a/b-1-2".toList = .ok a ∧ a.package.toText = "a/b-1".toList ∧
      isValid a.package.toText = false :=
  ⟨⟨.equal, ['a'], "b-1".toList, some ⟨['2'], [], none, [], none⟩, none, none, none⟩, rfl, rfl, rfl⟩

end OverrideAudit.Atom
