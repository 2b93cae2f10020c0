import OverrideAudit.Atom
import OverrideAudit.Proofs.Cpv.Split

/-! Atoms and their texts. The parts of an atom are told apart by characters that the other parts
cannot hold, so what is read is what is written, and what is written is read again. -/
namespace OverrideAudit.Atom

/-- An atom that can be written: every part fits its pattern, a version stands exactly behind an
operator, and a name alone does not look like a name with a version. -/
structure WellFormed (a : Atom) : Prop where
  category : isLabel a.category = true
  name : isName a.name = true
  version_iff : a.version.isSome = true ↔ a.operator ≠ .any
  version : ∀ v ∈ a.version, v.Plain
  uncut : a.operator = .any → Cpv.cutNameVersion? a.name = none
  slot : ∀ s ∈ a.slot, isLabel s = true
  subslot : ∀ s ∈ a.subslot, isLabel s = true
  repository : ∀ r ∈ a.repository, isName r = true
  subslot_slot : a.subslot.isSome = true → a.slot.isSome = true

theorem isLabelChar_of_label {t : Text} (h : isLabel t = true) {c : Char} (hc : c ∈ t) :
    isLabelChar c = true := by
  cases t with
  | nil => contradiction
  | cons d r =>
    simp only [isLabel, Bool.and_eq_true, List.all_eq_true] at h
    obtain rfl | hc := List.mem_cons.1 hc
    · simp [isLabelChar, isNameChar, h.1]
    · exact h.2 c hc

theorem isLabel_of_isName {t : Text} (h : isName t = true) : isLabel t = true := by
  cases t with
  | nil => contradiction
  | cons d r =>
    simp only [isName, Bool.and_eq_true, List.all_eq_true] at h
    simp only [isLabel, Bool.and_eq_true, List.all_eq_true]
    exact ⟨h.1, fun c hc => by simp [isLabelChar, h.2 c hc]⟩

theorem label_ne_nil {t : Text} (h : isLabel t = true) : t ≠ [] := by
  intro heq
  subst heq
  contradiction

theorem not_mem_label {t : Text} (h : isLabel t = true) {d : Char} (hd : isLabelChar d = false) :
    d ∉ t := by
  intro hm
  simp [isLabelChar_of_label h hm] at hd

theorem not_mem_name {t : Text} (h : isName t = true) {d : Char} (hd : isLabelChar d = false) :
    d ∉ t :=
  not_mem_label (isLabel_of_isName h) hd

theorem not_mem_version {v : Version} (h : v.Plain) {d : Char}
    (hd : Version.isVersionChar d = false) : d ∉ v.toText := by
  intro hm
  simp [Version.isVersionChar_of_mem (Version.readable_iff.1 h.readable) hm] at hd

def versionText (v : Option Version) : Text := v.elim [] fun v => '-' :: v.toText

def repositoryText (r : Option Text) : Text := r.elim [] fun r => ':' :: ':' :: r

def wildcardText (op : Operator) : Text := if op = .glob then ['*'] else []

def packageText (a : Atom) : Text := a.packageName.toText ++ versionText a.version

theorem toText_eq (a : Atom) :
    a.toText = a.operator.sign ++ (a.packageText ++ wildcardText a.operator ++
      (a.slotText ++ repositoryText a.repository)) := by
  simp [toText, packageText, wildcardText, versionText, repositoryText]

theorem not_mem_packageText {a : Atom} (h : a.WellFormed) {d : Char} (hl : isLabelChar d = false)
    (hv : Version.isVersionChar d = false) (hs : d ≠ '/') : d ∉ a.packageText := by
  have hhyphen : d ≠ '-' := by
    intro heq
    subst heq
    exact absurd hl (by decide)
  have hversion : d ∉ versionText a.version := by
    cases hav : a.version with
    | none => simp [versionText]
    | some v => simpa [versionText, hhyphen] using not_mem_version (h.version v hav) hv
  simp only [packageText, packageName, PackageName.toText, List.mem_append, List.mem_cons, not_or]
  exact ⟨⟨not_mem_label h.category hl, hs, not_mem_name h.name hl⟩, hversion⟩

def signOperator (op : Operator) : Operator := if op = .glob then .equal else op

theorem takeOperator_append (op : Operator) {c : Char} {r : Text} (hc : isLabelChar c = true) :
    takeOperator (op.sign ++ c :: r) = (signOperator op, c :: r) := by
  have hne : ∀ d, isLabelChar d = false → c ≠ d := by
    intro d hd heq
    subst heq
    simp [hc] at hd
  have h1 := hne '=' (by decide)
  have h2 := hne '<' (by decide)
  have h3 := hne '>' (by decide)
  have h4 := hne '~' (by decide)
  cases op <;> simp [Operator.sign, signOperator, takeOperator, h1, h2, h3, h4]

theorem append_of_takeOperator {t r : Text} {op : Operator} (h : takeOperator t = (op, r)) :
    t = op.sign ++ r ∧ op ≠ .glob := by
  rw [takeOperator.eq_def] at h
  split at h <;> obtain ⟨rfl, rfl⟩ := Prod.mk.inj h <;> exact ⟨rfl, by simp⟩

theorem takeWildcard_append {op : Operator} {t : Text} (h : '*' ∉ t) :
    takeWildcard (signOperator op) (t ++ wildcardText op) = .ok (op, t) := by
  by_cases hop : op = .glob
  · simp [takeWildcard, signOperator, wildcardText, hop, List.isSuffixOf?_eq_some_iff_append_eq.2]
  · have hnone : ['*'].isSuffixOf? t = none := by
      refine Text.isSuffixOf?_eq_none fun r hr => h ?_
      simp [hr]
    simp [takeWildcard, signOperator, wildcardText, hop, hnone]

theorem append_of_takeWildcard {op op' : Operator} {t r : Text}
    (h : takeWildcard op t = .ok (op', r)) (hop : op ≠ .glob) :
    t = r ++ wildcardText op' ∧ op'.sign = op.sign := by
  rw [takeWildcard] at h
  split at h
  · obtain ⟨rfl, rfl⟩ := Prod.mk.inj (Except.ok.inj h)
    simp [wildcardText, hop]
  · next rest hrest =>
    split at h
    · next heq =>
      obtain ⟨rfl, rfl⟩ := Prod.mk.inj (Except.ok.inj h)
      rw [heq]
      exact ⟨(List.isSuffixOf?_eq_some_iff_append_eq.1 hrest).symm, rfl⟩
    · contradiction

theorem cutAtText_slotText {a : Atom} (h : a.WellFormed) (t : Text) :
    Text.cutAtText [':', ':'] (a.slotText ++ t) =
      (Text.cutAtText [':', ':'] t).map fun (x, y) => (a.slotText ++ x, y) := by
  cases hs : a.slot with
  | none => simp [slotText, hs]
  | some s =>
    have hslot := h.slot s hs
    have hcolon : ':' ∉ s := not_mem_label hslot (by decide)
    cases hsub : a.subslot with
    | none =>
      have hcut := Text.cutAtText_double t (label_ne_nil hslot) hcolon
      simpa [slotText, hs, hsub] using hcut
    | some sub =>
      have hw : ':' ∉ s ++ '/' :: sub := by
        simpa [hcolon] using not_mem_label (h.subslot sub hsub) (d := ':') (by decide)
      have hcut := Text.cutAtText_double t (by simp) hw
      simpa [slotText, hs, hsub] using hcut

theorem takeRepository_append {a : Atom} (h : a.WellFormed) {t : Text} (ht : ':' ∉ t) :
    takeRepository (t ++ (a.slotText ++ repositoryText a.repository)) =
      .ok (t ++ a.slotText, a.repository) := by
  have hcut := Text.cutAtText_append [':'] (a.slotText ++ repositoryText a.repository) ht
  rw [cutAtText_slotText h] at hcut
  cases hr : a.repository with
  | none =>
    simp only [hr, repositoryText, Option.elim_none, List.append_nil] at hcut ⊢
    simp [takeRepository, hcut, Text.cutAtText]
  | some r =>
    simp only [hr, repositoryText, Option.elim_some] at hcut ⊢
    simp [takeRepository, hcut, Text.cutAtText, List.isPrefixOf?, h.repository r hr]

theorem append_of_takeRepository {t rest : Text} {r : Option Text}
    (h : takeRepository t = .ok (rest, r)) :
    t = rest ++ repositoryText r ∧ ∀ n ∈ r, isName n = true := by
  rw [takeRepository] at h
  split at h
  · obtain ⟨rfl, rfl⟩ := Prod.mk.inj (Except.ok.inj h)
    simp [repositoryText]
  · next hcut =>
    split at h
    · next hname =>
      obtain ⟨rfl, rfl⟩ := Prod.mk.inj (Except.ok.inj h)
      exact ⟨by simpa [repositoryText] using Text.append_of_cutAtText hcut, by simpa using hname⟩
    · contradiction

theorem takeSlot_append {a : Atom} (h : a.WellFormed) {t : Text} (ht : ':' ∉ t) :
    takeSlot (t ++ a.slotText) = .ok (t, a.slot, a.subslot) := by
  cases hs : a.slot with
  | none =>
    have hsub : a.subslot = none := by
      cases hsub : a.subslot with
      | none => rfl
      | some _ => simpa [hs] using h.subslot_slot (by simp [hsub])
    simp [takeSlot, slotText, hs, hsub, Text.cutAt_eq_none_iff.2 ht]
  | some s =>
    have hslot := h.slot s hs
    have hslash : '/' ∉ s := not_mem_label hslot (by decide)
    have hcut : ∀ w, Text.cutAt ':' (t ++ ':' :: w) = some (t, w) :=
      fun w => Text.cutAt_eq_some_iff.2 ⟨ht, rfl⟩
    cases hsub : a.subslot with
    | none =>
      have hnone := Text.cutAt_eq_none_iff.2 hslash
      simp [takeSlot, slotText, hs, hsub, hcut, cutSlot, hnone, hslot]
    | some sub =>
      have hsome : Text.cutAt '/' (s ++ '/' :: sub) = some (s, sub) :=
        Text.cutAt_eq_some_iff.2 ⟨hslash, rfl⟩
      simp [takeSlot, slotText, hs, hsub, hcut, cutSlot, hsome, hslot, h.subslot sub hsub]

theorem eq_of_cutSlot {t s : Text} {sub : Option Text} (h : cutSlot t = (s, sub)) :
    t = s ++ sub.elim [] fun sub => '/' :: sub := by
  rw [cutSlot] at h
  split at h
  · next hcut =>
    obtain ⟨rfl, rfl⟩ := Prod.mk.inj h
    exact (Text.cutAt_eq_some_iff.1 hcut).2
  · obtain ⟨rfl, rfl⟩ := Prod.mk.inj h
    simp

theorem append_of_takeSlot {a : Atom} {t rest : Text}
    (h : takeSlot t = .ok (rest, a.slot, a.subslot)) :
    t = rest ++ a.slotText ∧ (∀ s ∈ a.slot, isLabel s = true) ∧
      (∀ s ∈ a.subslot, isLabel s = true) ∧ (a.subslot.isSome = true → a.slot.isSome = true) := by
  rw [takeSlot] at h
  split at h
  · obtain ⟨rfl, hparts⟩ := Prod.mk.inj (Except.ok.inj h)
    obtain ⟨hs, hsub⟩ := Prod.mk.inj hparts
    simp [slotText, ← hs, ← hsub]
  · next rest' written hcut =>
    obtain ⟨s, sub, hw⟩ : ∃ s sub, cutSlot written = (s, sub) := ⟨_, _, rfl⟩
    simp only [hw] at h
    split at h
    · next hlabels =>
      obtain ⟨rfl, hparts⟩ := Prod.mk.inj (Except.ok.inj h)
      obtain ⟨hs, hsub⟩ := Prod.mk.inj hparts
      rw [Bool.and_eq_true, Option.all_eq_true] at hlabels
      refine ⟨?_, by simpa [← hs] using hlabels.1, by simpa [← hsub] using hlabels.2,
        by simp [← hs]⟩
      rw [(Text.cutAt_eq_some_iff.1 hcut).2, eq_of_cutSlot hw, slotText, ← hs, ← hsub]
      rfl
    · contradiction

theorem takeVersion_of_ne {op : Operator} (hop : op ≠ .any) (t : Text) :
    takeVersion op t = match Cpv.cutNameVersion? t with
      | none => .error .operatorWithoutVersion
      | some (name, v) => .ok (name, some v) := by
  rw [takeVersion.eq_def]
  cases Cpv.cutNameVersion? t <;> cases op <;> first | contradiction | rfl

theorem takeVersion_append {a : Atom} (h : a.WellFormed) :
    takeVersion a.operator (a.name ++ versionText a.version) = .ok (a.name, a.version) := by
  by_cases hop : a.operator = .any
  · have hv : a.version = none := by
      cases hav : a.version with
      | none => rfl
      | some _ => exact absurd hop (h.version_iff.1 (by simp [hav]))
    simp [hop, hv, versionText, takeVersion, h.uncut hop]
  · obtain ⟨v, hav⟩ := Option.isSome_iff_exists.1 (h.version_iff.2 hop)
    have hcut : Cpv.cutNameVersion? (a.name ++ '-' :: v.toText) = some (a.name, v) :=
      Cpv.cutNameVersion?_eq_some_iff.2
        ⟨label_ne_nil (isLabel_of_isName h.name), h.version v hav, rfl⟩
    rw [takeVersion_of_ne hop, hav, versionText, Option.elim_some, hcut]

theorem append_of_takeVersion {op : Operator} {t name : Text} {v : Option Version}
    (h : takeVersion op t = .ok (name, v)) :
    t = name ++ versionText v ∧ (v.isSome = true ↔ op ≠ .any) ∧ (∀ w ∈ v, w.Plain) ∧
      (op = .any → Cpv.cutNameVersion? name = none) := by
  by_cases hop : op = .any
  · subst hop
    cases hcut : Cpv.cutNameVersion? t with
    | none =>
      simp only [takeVersion, hcut, Except.ok.injEq, Prod.mk.injEq] at h
      obtain ⟨rfl, rfl⟩ := h
      simp [versionText, hcut]
    | some p => simp [takeVersion, hcut] at h
  · rw [takeVersion_of_ne hop] at h
    split at h
    · contradiction
    · next hcut =>
      obtain ⟨rfl, rfl⟩ := Prod.mk.inj (Except.ok.inj h)
      obtain ⟨_, hw, ht⟩ := Cpv.cutNameVersion?_eq_some_iff.1 hcut
      exact ⟨ht, by simpa using hop, by simpa using hw, fun he => absurd he hop⟩

theorem packageText_eq (a : Atom) :
    a.packageText = a.category ++ '/' :: (a.name ++ versionText a.version) := by
  simp [packageText, packageName, PackageName.toText]

theorem readTrimmed_toText {a : Atom} (h : a.WellFormed) : readTrimmed a.toText = .ok a := by
  have hcolon : ':' ∉ a.packageText ++ wildcardText a.operator := by
    have hp := not_mem_packageText h (d := ':') (by decide) (by decide) (by decide)
    rw [wildcardText]
    split <;> simpa using hp
  have hstar : '*' ∉ a.packageText :=
    not_mem_packageText h (by decide) (by decide) (by decide)
  have hslash : Text.cutAt '/' a.packageText = some (a.category, a.name ++ versionText a.version) :=
    Text.cutAt_eq_some_iff.2 ⟨not_mem_label h.category (by decide), packageText_eq a⟩
  obtain ⟨c, r, hcategory, hc⟩ : ∃ c r, a.category = c :: r ∧ isLabelChar c = true := by
    cases hcat : a.category with
    | nil => exact absurd hcat (label_ne_nil h.category)
    | cons c r => exact ⟨c, r, rfl, isLabelChar_of_label h.category (by simp [hcat])⟩
  have hoperator : takeOperator a.toText = (signOperator a.operator,
      a.packageText ++ wildcardText a.operator ++ (a.slotText ++ repositoryText a.repository)) := by
    rw [toText_eq, packageText_eq, hcategory]
    exact takeOperator_append a.operator hc
  have hne : a.toText.isEmpty = false := by
    rw [toText_eq, packageText_eq, hcategory]
    cases a.operator <;> rfl
  rw [readTrimmed, hne, hoperator]
  simp only [Bool.false_eq_true, if_false, takeRepository_append h hcolon, takeSlot_append h hcolon,
    takeWildcard_append hstar, hslash, takeVersion_append h, h.category, h.name, if_true, bind,
    Except.bind, pure, Except.pure]

theorem bind_eq_ok_iff {ε α β : Type} {x : Except ε α} {f : α → Except ε β} {b : β} :
    (x >>= f) = .ok b ↔ ∃ a, x = .ok a ∧ f a = .ok b := by
  cases x <;> simp [bind, Except.bind]

theorem toText_of_readTrimmed {t : Text} {a : Atom} (h : readTrimmed t = .ok a) :
    a.WellFormed ∧ t = a.toText := by
  obtain ⟨op, t₁, hop⟩ : ∃ op t₁, takeOperator t = (op, t₁) := ⟨_, _, rfl⟩
  obtain ⟨ht, hglob⟩ := append_of_takeOperator hop
  rw [readTrimmed, hop] at h
  split at h
  · contradiction
  obtain ⟨⟨t₂, repository⟩, hrepository, h⟩ := bind_eq_ok_iff.1 h
  obtain ⟨⟨t₃, slot, subslot⟩, hslot, h⟩ := bind_eq_ok_iff.1 h
  obtain ⟨⟨t₄, t₅⟩, hwildcard, h⟩ := bind_eq_ok_iff.1 h
  simp only at h
  split at h
  · contradiction
  · next category t₆ hslash =>
    split at h
    · next hcategory =>
      obtain ⟨⟨name, version⟩, hversion, h⟩ := bind_eq_ok_iff.1 h
      simp only at h
      split at h
      · next hname =>
        obtain rfl := Except.ok.inj h
        obtain ⟨ht₁, hrepository⟩ := append_of_takeRepository hrepository
        obtain ⟨ht₂, hslot, hsubslot, hboth⟩ := append_of_takeSlot
          (a := ⟨t₄, category, name, version, slot, subslot, repository⟩) hslot
        obtain ⟨ht₃, hsign⟩ := append_of_takeWildcard hwildcard hglob
        obtain ⟨ht₆, hiff, hplain, huncut⟩ := append_of_takeVersion hversion
        refine ⟨⟨hcategory, hname, hiff, hplain, huncut, hslot, hsubslot, hrepository, hboth⟩, ?_⟩
        rw [toText_eq, packageText_eq, hsign, ← ht₆, ← (Text.cutAt_eq_some_iff.1 hslash).2, ← ht₃,
          ht, ht₁, ht₂, List.append_assoc]
      · contradiction
    · contradiction

theorem not_char_of_isBlank {c : Char} (h : isBlank c = true) :
    isLabelChar c = false ∧ Version.isVersionChar c = false ∧ c ∉ "/:*<>=~".toList := by
  have table : ∀ n ∈ Text.blankCodes, isLabelChar (Char.ofNat n) = false ∧
      Version.isVersionChar (Char.ofNat n) = false ∧ Char.ofNat n ∉ "/:*<>=~".toList := by decide
  rw [← Char.ofNat_toNat c]
  exact table c.toNat (Text.mem_blankCodes h)

theorem blank_not_mem_toText {a : Atom} (h : a.WellFormed) {c : Char} (hc : isBlank c = true) :
    c ∉ a.toText := by
  obtain ⟨hl, hv, hm⟩ := not_char_of_isBlank hc
  have hslash : c ≠ '/' := fun he => hm (by simp [he])
  have hcolon : c ≠ ':' := fun he => hm (by simp [he])
  have hstar : c ≠ '*' := fun he => hm (by simp [he])
  have hsign : c ∉ a.operator.sign := by
    intro hs
    cases hop : a.operator <;> simp [hop, Operator.sign] at hs <;> simp_all
  have hwildcard : c ∉ wildcardText a.operator := by
    rw [wildcardText]
    split <;> simp [hstar]
  have hslot : c ∉ a.slotText := by
    cases hs : a.slot with
    | none => simp [slotText, hs]
    | some s =>
      have hn := not_mem_label (h.slot s hs) hl
      cases hsub : a.subslot with
      | none => simp [slotText, hs, hsub, hcolon, hn]
      | some sub =>
        have hm := not_mem_label (h.subslot sub hsub) hl
        simp [slotText, hs, hsub, hcolon, hslash, hn, hm]
  have hrepository : c ∉ repositoryText a.repository := by
    cases hr : a.repository with
    | none => simp [repositoryText]
    | some r => simp [repositoryText, hcolon, not_mem_name (h.repository r hr) hl]
  rw [toText_eq]
  simp [hsign, not_mem_packageText h hl hv hslash, hwildcard, hslot, hrepository]

theorem trim_toText {a : Atom} (h : a.WellFormed) : a.toText.trim = a.toText := by
  have hclean : ∀ c ∈ a.toText, isBlank c = false := by
    intro c hc
    rw [Bool.eq_false_iff]
    exact fun hb => blank_not_mem_toText h hb hc
  exact Text.trim_eq_self (fun c hc => hclean c (List.mem_of_head? hc))
    fun c hc => hclean c (List.mem_of_getLast? hc)

theorem read_eq_ok_iff {s : Text} {a : Atom} :
    read s = .ok a ↔ a.WellFormed ∧ s.trim = a.toText := by
  have hread : read s = .ok a ↔ readTrimmed s.trim = .ok a := by
    rw [read]
    cases readTrimmed s.trim with
    | ok b => constructor <;> intro h <;> cases h <;> rfl
    | error fault => constructor <;> intro h <;> cases h
  rw [hread]
  constructor
  · exact toText_of_readTrimmed
  · intro h
    obtain ⟨ha, ht⟩ := h
    rw [ht]
    exact readTrimmed_toText ha

/-- Reading an atom and writing it are inverse to each other: what is read is written as the trimmed
text, an atom that can be written is read again with every part as it was, and no other texts are
atoms. -/
theorem read_toText_roundTrip :
    (∀ s a, read s = .ok a → a.toText = s.trim ∧ a.WellFormed) ∧
    (∀ a : Atom, a.WellFormed → read a.toText = .ok a ∧
      ∀ v ∈ a.version, ∀ t, Version.read? t = some v → v.toText = t) ∧
    ∀ s, isValid s = true ↔ ∃ a : Atom, a.WellFormed ∧ s.trim = a.toText := by
  refine ⟨?_, ?_, ?_⟩
  · intro s a h
    obtain ⟨ha, ht⟩ := read_eq_ok_iff.1 h
    exact ⟨ht.symm, ha⟩
  · intro a ha
    refine ⟨read_eq_ok_iff.2 ⟨ha, trim_toText ha⟩, ?_⟩
    intro v _ t hv
    exact (Version.toText_of_read? hv).2.symm
  · intro s
    rw [isValid]
    constructor
    · intro h
      cases hs : read s with
      | error fault => simp [hs, Except.toBool] at h
      | ok a => exact ⟨a, read_eq_ok_iff.1 hs⟩
    · intro h
      obtain ⟨a, ha⟩ := h
      rw [read_eq_ok_iff.2 ha]
      rfl

example : (read " =dev-libs/a-b-1.0-r2*:0/1-2::c-d\t".toList).toOption.map toText =
    some "=dev-libs/a-b-1.0-r2*:0/1-2::c-d".toList := by decide

end OverrideAudit.Atom
