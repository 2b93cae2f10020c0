import OverrideAudit.Atom
import OverrideAudit.Proofs.Version.Grammar

/-! Where `name-version` is cut. Every hyphen of a version stands before its revision, so there is
never more than one hyphen at which a text can be cut. -/
namespace OverrideAudit

namespace Version

/-- Versions whose text starts with a digit `0` to `9`. -/
structure Plain (v : Version) : Prop where
  readable : v.Readable
  digit : ∃ c ∈ v.toText.head?, c.isDigit = true

def isVersionChar (c : Char) : Bool :=
  isDecimalDigit c || ('a' ≤ c && c ≤ 'z') || c == '.' || c == '_' || c == '-'

theorem isVersionChar_of_digits {t : Text} (h : t.all isDecimalDigit = true) {c : Char}
    (hc : c ∈ t) : isVersionChar c = true := by
  simp [isVersionChar, List.all_eq_true.1 h c hc]

theorem isVersionChar_of_mem {v : Version} (h : v.WellFormed) {c : Char} (hc : c ∈ v.toText) :
    isVersionChar c = true := by
  rw [toText_eq] at hc
  simp only [List.mem_append] at hc
  obtain hc | hc | hc | hc := hc
  · have := isNumberChar_of_mem h.numbers hc
    simp only [isNumberChar, Bool.or_eq_true] at this
    obtain h | h := this <;> simp [isVersionChar, h]
  · have := h.letter c (by simpa using hc)
    simp [isVersionChar, this]
  · obtain ⟨s, hs, hc⟩ := List.mem_flatMap.1 hc
    obtain rfl | hc := List.mem_cons.1 hc
    · decide
    · obtain hc | hc := List.mem_append.1 hc
      · have hwords : s.kind.word.all isVersionChar = true := by cases s.kind <;> decide
        exact List.all_eq_true.1 hwords c hc
      · exact isVersionChar_of_digits (h.suffixes s hs) hc
  · cases hr : v.writtenRevision with
    | none => simp [revisionText, hr] at hc
    | some n =>
      rw [hr, revisionText, Option.elim_some, List.mem_cons, List.mem_cons] at hc
      obtain rfl | rfl | hc := hc
      · decide
      · decide
      · exact isVersionChar_of_digits (isNumeral_iff.1 (h.revision n hr)).2 hc

theorem hyphen_not_mem_front {v : Version} (h : v.WellFormed) :
    '-' ∉ ['.'].intercalate v.numbers ++ (v.letter.toList ++ suffixText v.suffixes) := by
  intro hm
  obtain hm | hm := List.mem_append.1 hm
  · exact absurd (isNumberChar_of_mem h.numbers hm) (by decide)
  · obtain hm | hm := List.mem_append.1 hm
    · exact absurd (h.letter '-' (by simpa using hm)) (by decide)
    · exact hyphen_not_mem_suffixText h.suffixes hm

theorem after_hyphen {v : Version} (h : v.WellFormed) {a b : Text}
    (he : v.toText = a ++ '-' :: b) : ∃ n, b = 'r' :: n := by
  have hfront := hyphen_not_mem_front h
  rw [toText_eq, ← List.append_assoc, ← List.append_assoc] at he
  rw [← List.append_assoc] at hfront
  cases hr : v.writtenRevision with
  | none =>
    rw [hr, revisionText, Option.elim_none, List.append_nil] at he
    exact absurd (he ▸ List.mem_append_right a List.mem_cons_self) hfront
  | some n =>
    rw [hr, revisionText, Option.elim_some] at he
    have hn : '-' ∉ 'r' :: n := by
      simpa using not_mem_digits (isNumeral_iff.1 (h.revision n hr)).2 (d := '-') (by decide)
    -- The two hyphens are the same, as neither the front nor the revision holds one.
    obtain ⟨c, rfl, hc⟩ | ⟨c, hc, hb⟩ := List.append_eq_append_iff.1 he
    · cases c with
      | nil => exact ⟨n, (List.cons.inj hc).2.symm⟩
      | cons x c =>
        exact absurd (by rw [(List.cons.inj hc).2]; simp) hn
    · cases c with
      | nil => exact ⟨n, (List.cons.inj hb).2⟩
      | cons x c =>
        obtain ⟨rfl, _⟩ := List.cons.inj hb
        exact absurd (by rw [hc]; simp) hfront

end Version

namespace Cpv

theorem readPlainVersion?_eq_some_iff {t : Text} {v : Version} :
    readPlainVersion? t = some v ↔ v.Plain ∧ t = v.toText := by
  cases t with
  | nil =>
    simp only [readPlainVersion?, reduceCtorEq, false_iff, not_and]
    intro hplain he
    obtain ⟨_, c, hc, _⟩ := hplain
    simp [← he] at hc
  | cons c r =>
    simp only [readPlainVersion?]
    constructor
    · intro h
      split at h
      · next hd =>
        have ht := (Version.toText_of_read? h).2
        exact ⟨⟨⟨_, h⟩, c, by simp [← ht], hd⟩, ht⟩
      · contradiction
    · intro hparts
      obtain ⟨⟨hv, d, hd, hdigit⟩, ht⟩ := hparts
      obtain rfl : c = d := by simpa [← ht] using hd
      rw [if_pos hdigit, ht]
      exact Version.read?_toText (Version.readable_iff.1 hv)

/-- No cut in front of the one before a version leads to a version. -/
theorem readPlainVersion?_append {v : Version} (hv : v.Plain) (n : Text) :
    readPlainVersion? (n ++ '-' :: v.toText) = none := by
  rw [Option.eq_none_iff_forall_ne_some]
  intro w hw
  obtain ⟨hw, ht⟩ := readPlainVersion?_eq_some_iff.1 hw
  obtain ⟨m, hm⟩ := Version.after_hyphen (Version.readable_iff.1 hw.readable) ht.symm
  obtain ⟨c, hc, hdigit⟩ := hv.digit
  obtain rfl : 'r' = c := by simpa [hm] using hc
  exact absurd hdigit (by decide)

theorem cutVersion?_append {v : Version} (hv : v.Plain) (n : Text) :
    cutVersion? (n ++ '-' :: v.toText) = some (n, v) := by
  induction n with
  | nil => simp [cutVersion?, readPlainVersion?_eq_some_iff.2 ⟨hv, rfl⟩]
  | cons c n ih =>
    rw [List.cons_append, cutVersion?, ih]
    split
    · rw [readPlainVersion?_append hv]
      rfl
    · rfl

theorem append_of_cutVersion? {t n : Text} {v : Version} (h : cutVersion? t = some (n, v)) :
    v.Plain ∧ t = n ++ '-' :: v.toText := by
  induction t generalizing n with
  | nil => contradiction
  | cons c r ih =>
    have later : (∃ x, cutVersion? r = some x ∧ (c :: x.1, x.2) = (n, v)) →
        v.Plain ∧ c :: r = n ++ '-' :: v.toText := by
      intro h
      obtain ⟨⟨m, w⟩, hm, he⟩ := h
      obtain ⟨rfl, rfl⟩ := Prod.mk.inj he
      obtain ⟨hv, rfl⟩ := ih hm
      exact ⟨hv, rfl⟩
    simp only [cutVersion?] at h
    split at h
    · next hc =>
      split at h
      · next w hw =>
        obtain ⟨rfl, rfl⟩ := Prod.mk.inj (Option.some.inj h)
        obtain ⟨hv, rfl⟩ := readPlainVersion?_eq_some_iff.1 hw
        exact ⟨hv, by rw [hc]; rfl⟩
      · exact later (Option.map_eq_some_iff.1 h)
    · exact later (Option.map_eq_some_iff.1 h)

theorem cutNameVersion?_eq_some_iff {t name : Text} {v : Version} :
    cutNameVersion? t = some (name, v) ↔ name ≠ [] ∧ v.Plain ∧ t = name ++ '-' :: v.toText := by
  cases t with
  | nil => simp [cutNameVersion?]
  | cons c r =>
    simp only [cutNameVersion?, Option.map_eq_some_iff]
    constructor
    · intro h
      obtain ⟨⟨n, w⟩, hn, he⟩ := h
      obtain ⟨rfl, rfl⟩ := Prod.mk.inj he
      obtain ⟨hv, rfl⟩ := append_of_cutVersion? hn
      exact ⟨by simp, hv, rfl⟩
    · intro h
      obtain ⟨hne, hv, ht⟩ := h
      cases name with
      | nil => exact absurd rfl hne
      | cons d n =>
        obtain ⟨rfl, rfl⟩ := List.cons.inj ht
        exact ⟨(n, v), cutVersion?_append hv n, rfl⟩

end Cpv
end OverrideAudit
