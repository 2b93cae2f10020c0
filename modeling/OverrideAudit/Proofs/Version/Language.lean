import Mathlib.Computability.Language
import OverrideAudit.Proofs.Version.Grammar

/-! The texts of versions as a regular language. What reads as a version is exactly what lies in the
language; its parts make up the whole text; and a search that would pass over anything between
suffixes finds all that were read. -/
namespace OverrideAudit
open scoped Computability

def oneOf (p : Char → Bool) : Language Char := {t | ∃ c, p c = true ∧ t = [c]}

theorem mem_oneOf {p : Char → Bool} {t : Text} : t ∈ oneOf p ↔ ∃ c, p c = true ∧ t = [c] := Iff.rfl

theorem mem_singleton_language {w t : Text} : t ∈ ({w} : Language Char) ↔ t = w := Iff.rfl

theorem mem_kstar_iff_flatMap {α : Type} {L : Language Char} {P : α → Prop} {f : α → Text}
    (h : ∀ t, t ∈ L ↔ ∃ x, P x ∧ t = f x) {t : Text} :
    t ∈ L∗ ↔ ∃ xs : List α, (∀ x ∈ xs, P x) ∧ t = xs.flatMap f := by
  rw [Language.mem_kstar]
  constructor
  · rintro ⟨pieces, rfl, hpieces⟩
    induction pieces with
    | nil => exact ⟨[], by simp, rfl⟩
    | cons piece pieces ih =>
      obtain ⟨hpiece, htail⟩ := List.forall_mem_cons.1 hpieces
      obtain ⟨x, hx, rfl⟩ := (h piece).1 hpiece
      obtain ⟨xs, hxs, hflat⟩ := ih htail
      exact ⟨x :: xs, List.forall_mem_cons.2 ⟨hx, hxs⟩, by simp [hflat]⟩
  · rintro ⟨xs, hxs, rfl⟩
    refine ⟨xs.map f, by rw [List.flatMap_def], fun piece hpiece => ?_⟩
    obtain ⟨x, hx, rfl⟩ := List.mem_map.1 hpiece
    exact (h _).2 ⟨x, hxs x hx, rfl⟩

theorem mem_kstar_oneOf {p : Char → Bool} {t : Text} : t ∈ (oneOf p)∗ ↔ t.all p = true := by
  rw [mem_kstar_iff_flatMap fun t => mem_oneOf]
  simp

theorem mem_singleton_mul {w t : Text} {L : Language Char} :
    t ∈ {w} * L ↔ ∃ r ∈ L, t = w ++ r := by
  rw [Language.mem_mul]
  simp [mem_singleton_language, eq_comm]

theorem mem_one_add {t : Text} {L : Language Char} : t ∈ 1 + L ↔ t = [] ∨ t ∈ L := by
  rw [Language.mem_add, Language.mem_one]

namespace Version

def numeralTexts : Language Char := oneOf isDecimalDigit * (oneOf isDecimalDigit)∗

def dottedTexts : Language Char := numeralTexts * ({['.']} * numeralTexts)∗

def letterTexts : Language Char := 1 + oneOf fun c => 'a' ≤ c && c ≤ 'z'

def kindTexts : Language Char :=
  {"alpha".toList, "beta".toList, "pre".toList, "rc".toList, "p".toList}

def suffixTexts : Language Char := {['_']} * (kindTexts * (oneOf isDecimalDigit)∗)

def revisionTexts : Language Char := 1 + {['-', 'r']} * numeralTexts

/-- The texts of versions: dotted numerals, a letter, suffixes and a revision. -/
def texts : Language Char := dottedTexts * (letterTexts * (suffixTexts∗ * revisionTexts))

theorem mem_numeralTexts {t : Text} : t ∈ numeralTexts ↔ isNumeral t = true := by
  rw [numeralTexts, Language.mem_mul, isNumeral_iff]
  constructor
  · rintro ⟨_, ⟨c, hc, rfl⟩, r, hr, rfl⟩
    rw [mem_kstar_oneOf] at hr
    simpa [hc] using hr
  · rintro ⟨hne, hall⟩
    obtain ⟨c, r, rfl⟩ := List.exists_cons_of_ne_nil hne
    rw [List.all_cons, Bool.and_eq_true] at hall
    exact ⟨[c], ⟨c, hall.1, rfl⟩, r, mem_kstar_oneOf.2 hall.2, rfl⟩

theorem mem_dottedTexts {t : Text} :
    t ∈ dottedTexts ↔ ∃ first others, (∀ n ∈ first :: others, isNumeral n = true) ∧
      t = ['.'].intercalate (first :: others) := by
  have hpointed : ∀ t : Text, t ∈ {['.']} * numeralTexts ↔
      ∃ n, isNumeral n = true ∧ t = ['.'] ++ n := by
    intro t
    simp only [mem_singleton_mul, mem_numeralTexts]
  rw [dottedTexts, Language.mem_mul]
  simp only [mem_numeralTexts, mem_kstar_iff_flatMap hpointed, Text.intercalate_cons,
    List.forall_mem_cons]
  constructor
  · rintro ⟨first, hfirst, _, ⟨others, hothers, rfl⟩, rfl⟩
    exact ⟨first, others, ⟨hfirst, hothers⟩, rfl⟩
  · rintro ⟨first, others, ⟨hfirst, hothers⟩, rfl⟩
    exact ⟨first, hfirst, _, ⟨others, hothers, rfl⟩, rfl⟩

theorem mem_letterTexts {t : Text} :
    t ∈ letterTexts ↔ ∃ l : Option Char, (∀ c ∈ l, 'a' ≤ c ∧ c ≤ 'z') ∧ t = l.toList := by
  rw [letterTexts, mem_one_add, mem_oneOf]
  constructor
  · rintro (rfl | ⟨c, hc, rfl⟩)
    · exact ⟨none, by simp, rfl⟩
    · exact ⟨some c, by simpa using hc, rfl⟩
  · rintro ⟨_ | c, hl, rfl⟩
    · exact .inl rfl
    · exact .inr ⟨c, by simpa using hl c rfl, rfl⟩

theorem mem_kindTexts {t : Text} : t ∈ kindTexts ↔ ∃ kind : SuffixKind, t = kind.word := by
  have hcases : t ∈ kindTexts ↔ t = "alpha".toList ∨ t = "beta".toList ∨ t = "pre".toList ∨
      t = "rc".toList ∨ t = "p".toList := Iff.rfl
  rw [hcases]
  constructor
  · rintro (rfl | rfl | rfl | rfl | rfl)
    exacts [⟨.alpha, rfl⟩, ⟨.beta, rfl⟩, ⟨.pre, rfl⟩, ⟨.rc, rfl⟩, ⟨.patch, rfl⟩]
  · rintro ⟨kind, rfl⟩
    cases kind <;> simp [SuffixKind.word]

theorem mem_suffixTexts {t : Text} :
    t ∈ suffixTexts ↔ ∃ s : Suffix, s.number.all isDecimalDigit = true ∧ t = '_' :: s.toText := by
  rw [suffixTexts, mem_singleton_mul]
  simp only [Language.mem_mul, mem_kindTexts, mem_kstar_oneOf]
  constructor
  · rintro ⟨_, ⟨_, ⟨kind, rfl⟩, number, hnumber, rfl⟩, rfl⟩
    exact ⟨⟨kind, number⟩, hnumber, rfl⟩
  · rintro ⟨⟨kind, number⟩, hnumber, rfl⟩
    exact ⟨_, ⟨_, ⟨kind, rfl⟩, number, hnumber, rfl⟩, rfl⟩

theorem mem_revisionTexts {t : Text} :
    t ∈ revisionTexts ↔ ∃ r : Option Text, (∀ n ∈ r, isNumeral n = true) ∧ t = revisionText r := by
  rw [revisionTexts, mem_one_add, mem_singleton_mul]
  simp only [mem_numeralTexts]
  constructor
  · rintro (rfl | ⟨n, hn, rfl⟩)
    · exact ⟨none, by simp, rfl⟩
    · exact ⟨some n, by simpa using hn, rfl⟩
  · rintro ⟨_ | n, hr, rfl⟩
    · exact .inl rfl
    · exact .inr ⟨n, hr n rfl, rfl⟩

theorem mem_texts {t : Text} : t ∈ texts ↔ ∃ v : Version, v.WellFormed ∧ t = v.toText := by
  simp only [texts, Language.mem_mul, mem_dottedTexts, mem_letterTexts,
    mem_kstar_iff_flatMap fun _ => mem_suffixTexts, mem_revisionTexts]
  constructor
  · rintro ⟨_, ⟨first, others, hn, rfl⟩, _, ⟨_, ⟨l, hl, rfl⟩, _,
      ⟨_, ⟨ss, hs, rfl⟩, _, ⟨r, hr, rfl⟩, rfl⟩, rfl⟩, rfl⟩
    refine ⟨⟨first, others, l, ss, r⟩, ⟨hn, hl, hs, hr⟩, ?_⟩
    rw [toText_eq]
    rfl
  · rintro ⟨⟨first, others, l, ss, r⟩, ⟨hn, hl, hs, hr⟩, rfl⟩
    rw [toText_eq]
    exact ⟨_, ⟨first, others, hn, rfl⟩, _, ⟨_, ⟨l, hl, rfl⟩, _,
      ⟨_, ⟨ss, hs, rfl⟩, _, ⟨r, hr, rfl⟩, rfl⟩, rfl⟩, rfl⟩

/-- The suffix at the front of a text and what stands behind it: of the kinds the first whose word
follows the underscore, with all digits that follow the word. -/
def takeSuffix? : Text → Option (Suffix × Text)
  | '_' :: t => SuffixKind.all.findSome? fun kind =>
    (kind.word.isPrefixOf? t).map fun r =>
      (⟨kind, r.takeWhile isDecimalDigit⟩, r.dropWhile isDecimalDigit)
  | _ => none

theorem length_lt_of_takeSuffix? {t r : Text} {s : Suffix} (h : takeSuffix? t = some (s, r)) :
    r.length < t.length := by
  rw [takeSuffix?.eq_def] at h
  split at h
  · next t =>
    obtain ⟨kind, -, hkind⟩ := List.exists_of_findSome?_eq_some h
    obtain ⟨rest, hrest, hparts⟩ := Option.map_eq_some_iff.1 hkind
    obtain ⟨-, rfl⟩ := Prod.mk.inj hparts
    have hdrop := (List.dropWhile_sublist isDecimalDigit (l := rest)).length_le
    rw [← List.isPrefixOf?_eq_some_iff_append_eq.1 hrest, List.length_cons, List.length_append]
    omega
  · contradiction

/-- The suffixes that a search from the front finds. It goes on behind each one, and passes over a
character at which none starts. -/
def findSuffixes : Text → List Suffix
  | [] => []
  | c :: r =>
    match _h : takeSuffix? (c :: r) with
    | some (s, rest) => s :: findSuffixes rest
    | none => findSuffixes r
termination_by t => t.length
decreasing_by
  · exact length_lt_of_takeSuffix? ‹_›
  · simp

theorem takeSuffix?_append {s : Suffix} (hs : s.number.all isDecimalDigit = true) {t : Text}
    (ht : ∀ c ∈ t.head?, isDecimalDigit c = false ∧ c ≠ 'r') :
    takeSuffix? ('_' :: (s.toText ++ t)) = some (s, t) := by
  obtain ⟨kind, number⟩ := s
  obtain ⟨htake, hdrop⟩ := Text.span_append (List.all_eq_true.1 hs) fun c hc => (ht c hc).1
  -- `pre` and a patch level share their first letter.
  have hpre : ['r', 'e'].isPrefixOf? (number ++ t) = none := by
    rw [Option.eq_none_iff_forall_ne_some]
    intro r hr
    have heq := (List.isPrefixOf?_eq_some_iff_append_eq.1 hr).symm
    cases number with
    | nil =>
      obtain rfl : t = 'r' :: 'e' :: r := heq
      exact (ht 'r' rfl).2 rfl
    | cons d number =>
      rw [List.all_cons, Bool.and_eq_true] at hs
      exact digit_ne hs.1 (by decide) (List.cons.inj heq).1
  cases kind <;> simp_all [takeSuffix?, SuffixKind.all, SuffixKind.word, Suffix.toText,
    List.isPrefixOf?]

theorem findSuffixes_suffixText {ss : List Suffix}
    (h : ∀ s ∈ ss, s.number.all isDecimalDigit = true) : findSuffixes (suffixText ss) = ss := by
  induction ss with
  | nil => simp [suffixText, findSuffixes]
  | cons s ss ih =>
    obtain ⟨hs, hss⟩ := List.forall_mem_cons.1 h
    have hcons : suffixText (s :: ss) = '_' :: (s.toText ++ suffixText ss) := by simp [suffixText]
    have hhead : ∀ c ∈ (suffixText ss).head?, isDecimalDigit c = false ∧ c ≠ 'r' := by
      intro c hc
      cases ss with
      | nil => simp [suffixText] at hc
      | cons s' ss =>
        obtain rfl : '_' = c := by simpa [suffixText] using hc
        decide
    rw [hcons, findSuffixes]
    split
    · next hfound =>
      rw [takeSuffix?_append hs hhead] at hfound
      obtain ⟨rfl, rfl⟩ := Prod.mk.inj (Option.some.inj hfound)
      rw [ih hss]
    · next hnone =>
      rw [takeSuffix?_append hs hhead] at hnone
      contradiction

theorem read_eq_ok_iff {t : Text} {v : Version} :
    read t = .ok v ↔ v.WellFormed ∧ t = v.toText := by
  rw [← read?_eq_some_iff, read]
  cases read? t <;> simp

theorem read_of_not_mem_texts {t : Text} (h : t ∉ texts) : read t = .error (.version t) := by
  have hnone : read? t = none := by
    rw [Option.eq_none_iff_forall_ne_some]
    intro v hv
    exact h (mem_texts.2 ⟨v, read?_eq_some_iff.1 hv⟩)
  rw [read, hnone]

/-- A text reads as a version exactly when it lies in the language, and nothing of it is lost: it is
made of the numerals, the letter, the suffixes and the revision. A search through what stands
between the letter and the revision finds the suffixes, in order. -/
theorem read_of_texts (t : Text) :
    ((∃ v, read t = .ok v) ↔ t ∈ texts) ∧ (t ∉ texts → read t = .error (.version t)) ∧
    ∀ v, read t = .ok v →
      let front := ['.'].intercalate v.numbers ++ v.letter.toList
      let group := v.suffixes.flatMap fun s => '_' :: (s.kind.word ++ s.number)
      v.WellFormed ∧
      (t = front ++ group ∧ v.revision = ['0'] ∨
        t = front ++ group ++ '-' :: 'r' :: v.revision) ∧
      findSuffixes group = v.suffixes := by
  refine ⟨?_, read_of_not_mem_texts, fun v hv => ?_⟩
  · rw [mem_texts]
    exact exists_congr fun v => read_eq_ok_iff
  · obtain ⟨hparts, ht⟩ := read_eq_ok_iff.1 hv
    intro front group
    have hwhole : t = front ++ group ++ revisionText v.writtenRevision := by
      rw [ht, toText_eq]
      simp [front, group, suffixText, Suffix.toText]
    refine ⟨hparts, ?_, findSuffixes_suffixText hparts.suffixes⟩
    cases hr : v.writtenRevision with
    | none => exact .inl ⟨by simpa [hr, revisionText] using hwhole, by simp [revision, hr]⟩
    | some n => exact .inr (by simpa [hr, revisionText, revision] using hwhole)

theorem read_of_texts_kinds :
    let t := "1.٣b_pre_p02_alpha-r0".toList
    let v : Version := ⟨['1'], [['٣']], some 'b',
      [⟨.pre, []⟩, ⟨.patch, ['0', '2']⟩, ⟨.alpha, []⟩], some ['0']⟩
    read t = .ok v ∧ t ∈ texts ∧ v.WellFormed ∧
      t = "1.٣b".toList ++ "_pre_p02_alpha".toList ++ '-' :: 'r' :: v.revision ∧
      findSuffixes "_pre_p02_alpha".toList = v.suffixes ∧
      "1_pre_x".toList ∉ texts ∧ read "1_pre_x".toList = .error (.version "1_pre_x".toList) := by
  intro t v
  have hv : read t = .ok v := by decide
  obtain ⟨hiff, -, hparts⟩ := read_of_texts t
  obtain ⟨hwell, htext, hfound⟩ := hparts v hv
  obtain ⟨hiff', hfault, -⟩ := read_of_texts "1_pre_x".toList
  have hnot : "1_pre_x".toList ∉ texts := by
    rw [← hiff']
    rintro ⟨w, hw⟩
    have hfails : (read "1_pre_x".toList).toBool = false := by decide
    rw [hw] at hfails
    contradiction
  exact ⟨hv, hiff.1 ⟨v, hv⟩, hwell, htext.resolve_left (fun h => absurd h.1 (by decide)), hfound,
    hnot, hfault hnot⟩

end Version
end OverrideAudit
