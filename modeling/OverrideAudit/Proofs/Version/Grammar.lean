import OverrideAudit.Version
import OverrideAudit.Proofs.Text.Pieces

/-! The grammar of versions: a text reads as a version exactly when it is what the version is
written as, so that reading loses nothing and writing can be undone. -/
namespace OverrideAudit.Version

/-- The parts of a version are such as can be written. -/
structure WellFormed (v : Version) : Prop where
  numbers : ∀ n ∈ v.numbers, isNumeral n = true
  letter : ∀ c ∈ v.letter, 'a' ≤ c ∧ c ≤ 'z'
  suffixes : ∀ s ∈ v.suffixes, s.number.all isDecimalDigit = true
  revision : ∀ r ∈ v.writtenRevision, isNumeral r = true

def suffixText (ss : List Suffix) : Text := ss.flatMap fun s => '_' :: s.toText

def revisionText (r : Option Text) : Text := r.elim [] fun r => '-' :: 'r' :: r

theorem toText_eq (v : Version) :
    v.toText = ['.'].intercalate v.numbers ++
      (v.letter.toList ++ (suffixText v.suffixes ++ revisionText v.writtenRevision)) := by
  simp [toText, suffixText, revisionText]

theorem digit_ne {c d : Char} (hc : isDecimalDigit c = true) (hd : isDecimalDigit d = false) :
    c ≠ d := by
  intro heq
  subst heq
  simp [hc] at hd

theorem not_mem_digits {t : Text} {d : Char} (ht : t.all isDecimalDigit = true)
    (hd : isDecimalDigit d = false) : d ∉ t :=
  fun h => digit_ne (List.all_eq_true.1 ht d h) hd rfl

theorem letter_not_digit {c : Char} (h : 'a' ≤ c ∧ c ≤ 'z') : isDecimalDigit c = false := by
  rw [Bool.eq_false_iff]
  intro hc
  have h1 : 97 ≤ c.toNat := h.1
  have h2 : c.toNat ≤ 122 := h.2
  have := toNat_of_isDecimalDigit hc
  omega

theorem isNumeral_iff {t : Text} :
    isNumeral t = true ↔ t ≠ [] ∧ t.all isDecimalDigit = true := by
  simp [isNumeral]

theorem readRevision?_eq_some_iff {t : Text} {r : Option Text} :
    readRevision? t = some r ↔ (∀ n ∈ r, isNumeral n = true) ∧ t = revisionText r := by
  constructor
  · intro h
    rw [readRevision?.eq_def] at h
    split at h
    · obtain rfl := Option.some.inj h
      simp [revisionText]
    · split at h
      · next hn =>
        obtain rfl := Option.some.inj h
        simpa [revisionText] using hn
      · contradiction
    · cases h
  · intro hparts
    obtain ⟨hr, rfl⟩ := hparts
    cases r with
    | none => rfl
    | some n => simp [revisionText, readRevision?, hr n rfl]

theorem readSuffix?_toText {s : Suffix} (h : s.number.all isDecimalDigit = true) :
    readSuffix? s.toText = some s := by
  obtain ⟨kind, number⟩ := s
  -- `pre` and a patch level share their first letter, so the number must not go on with an `r`.
  have hp : ['r', 'e'].isPrefixOf? number = none := by
    cases number with
    | nil => rfl
    | cons c r =>
      have hc : 'r' ≠ c := (digit_ne (by simp_all) (by decide)).symm
      simp [List.isPrefixOf?, hc]
  cases kind <;> simp_all [readSuffix?, SuffixKind.all, SuffixKind.word, Suffix.toText,
    List.isPrefixOf?]

theorem readSuffix?_eq_some_iff {t : Text} {s : Suffix} :
    readSuffix? t = some s ↔ s.number.all isDecimalDigit = true ∧ t = s.toText := by
  constructor
  · intro h
    obtain ⟨kind, _, hk⟩ := List.exists_of_findSome?_eq_some h
    split at hk
    · next number hl =>
      split at hk
      · next hd =>
        obtain rfl := Option.some.inj hk
        exact ⟨hd, (List.isPrefixOf?_eq_some_iff_append_eq.1 hl).symm⟩
      · contradiction
    · contradiction
  · intro hparts
    obtain ⟨hs, rfl⟩ := hparts
    exact readSuffix?_toText hs

theorem mapM_readSuffix?_eq_some_iff {ts : List Text} {ss : List Suffix} :
    ts.mapM readSuffix? = some ss ↔
      (∀ s ∈ ss, s.number.all isDecimalDigit = true) ∧ ts = ss.map Suffix.toText := by
  induction ts generalizing ss with
  | nil => cases ss <;> simp
  | cons t ts ih =>
    simp only [List.mapM_cons, Option.bind_eq_bind, Option.bind_eq_some_iff, Option.pure_def,
      Option.some.injEq, ih, readSuffix?_eq_some_iff]
    constructor
    · intro hparts
      obtain ⟨s, ⟨hs, rfl⟩, ss, ⟨hss, rfl⟩, rfl⟩ := hparts
      exact ⟨by simpa using ⟨List.all_eq_true.1 hs, fun s h => List.all_eq_true.1 (hss s h)⟩, rfl⟩
    · intro hparts
      obtain ⟨h, he⟩ := hparts
      cases ss with
      | nil => simp at he
      | cons s ss =>
        obtain ⟨rfl, rfl⟩ := List.cons.inj he
        exact ⟨s, ⟨h s (by simp), rfl⟩, ss, ⟨fun x hx => h x (by simp [hx]), rfl⟩, rfl⟩

theorem suffixText_eq_intercalate (ss : List Suffix) :
    suffixText ss = ['_'].intercalate ([] :: ss.map Suffix.toText) := by
  rw [Text.intercalate_cons, List.flatMap_map]
  rfl

theorem mark_not_mem_toText {s : Suffix} (h : s.number.all isDecimalDigit = true) {d : Char}
    (hd : isDecimalDigit d = false) (hw : ∀ k : SuffixKind, d ∉ k.word) : d ∉ s.toText := by
  rw [Suffix.toText, List.mem_append, not_or]
  exact ⟨hw s.kind, not_mem_digits h hd⟩

theorem readSuffixes?_eq_some_iff {t : Text} {ss : List Suffix} :
    readSuffixes? t = some ss ↔
      (∀ s ∈ ss, s.number.all isDecimalDigit = true) ∧ t = suffixText ss := by
  constructor
  · intro h
    rw [readSuffixes?] at h
    split at h
    · next pieces hp =>
      obtain ⟨hd, rfl⟩ := mapM_readSuffix?_eq_some_iff.1 h
      refine ⟨hd, ?_⟩
      rw [suffixText_eq_intercalate, ← hp, List.intercalate_splitOn]
    · contradiction
  · intro hparts
    obtain ⟨hd, rfl⟩ := hparts
    have hp : (suffixText ss).splitOn '_' = [] :: ss.map Suffix.toText := by
      rw [suffixText_eq_intercalate]
      refine List.splitOn_intercalate _ (fun q hq => ?_) (List.cons_ne_nil _ _)
      obtain rfl | hq := List.mem_cons.1 hq
      · simp
      · obtain ⟨s, hs, rfl⟩ := List.mem_map.1 hq
        exact mark_not_mem_toText (hd s hs) (by decide) (by intro k; cases k <;> decide)
    rw [readSuffixes?, hp]
    exact mapM_readSuffix?_eq_some_iff.2 ⟨hd, rfl⟩

theorem takeLetter_eq {t tail : Text} {l : Option Char} (h : takeLetter t = (l, tail)) :
    (∀ c ∈ l, 'a' ≤ c ∧ c ≤ 'z') ∧ t = l.toList ++ tail := by
  cases t with
  | nil =>
    obtain ⟨rfl, rfl⟩ := Prod.mk.inj h
    simp
  | cons c r =>
    rw [takeLetter] at h
    split at h
    · next hc =>
      obtain ⟨rfl, rfl⟩ := Prod.mk.inj h
      simpa using hc
    · obtain ⟨rfl, rfl⟩ := Prod.mk.inj h
      simp

theorem takeLetter_append {l : Option Char} {tail : Text} (hl : ∀ c ∈ l, 'a' ≤ c ∧ c ≤ 'z')
    (ht : ∀ c ∈ tail.head?, ¬('a' ≤ c ∧ c ≤ 'z')) : takeLetter (l.toList ++ tail) = (l, tail) := by
  cases l with
  | some c => simp [takeLetter, hl c rfl]
  | none =>
    cases tail with
    | nil => rfl
    | cons c r =>
      have hc : ('a' ≤ c && c ≤ 'z') = false := by simpa using ht c rfl
      simp [takeLetter, hc]

theorem isNumberChar_of_mem {ns : List Text} (h : ∀ n ∈ ns, isNumeral n = true) {c : Char}
    (hc : c ∈ ['.'].intercalate ns) : isNumberChar c = true := by
  obtain rfl | ⟨n, hn, hc⟩ := Text.mem_intercalate hc
  · decide
  · simp [isNumberChar, List.all_eq_true.1 (isNumeral_iff.1 (h n hn)).2 c hc]

theorem head?_suffixText_append {ss : List Suffix} {r : Option Text} {c : Char}
    (hc : c ∈ (suffixText ss ++ revisionText r).head?) : c = '_' ∨ c = '-' := by
  cases ss with
  | nil =>
    cases r with
    | none => simp [suffixText, revisionText] at hc
    | some n => exact .inr (Option.some.inj hc).symm
  | cons s ss => exact .inl (Option.some.inj hc).symm

theorem head?_letter_append {l : Option Char} (hl : ∀ c ∈ l, 'a' ≤ c ∧ c ≤ 'z') (ss : List Suffix)
    (r : Option Text) {c : Char}
    (hc : c ∈ (l.toList ++ (suffixText ss ++ revisionText r)).head?) : isNumberChar c = false := by
  cases l with
  | some d =>
    obtain rfl : d = c := by simpa using hc
    have hd : d ≠ '.' := by
      intro heq
      subst heq
      exact absurd (hl '.' rfl) (by decide)
    simp [isNumberChar, letter_not_digit (hl d rfl), hd]
  | none => obtain rfl | rfl := head?_suffixText_append hc <;> decide

theorem hyphen_not_mem_suffixText {ss : List Suffix}
    (h : ∀ s ∈ ss, s.number.all isDecimalDigit = true) : '-' ∉ suffixText ss := by
  intro hm
  obtain ⟨s, hs, hm⟩ := List.mem_flatMap.1 hm
  obtain hm | hm := List.mem_cons.1 hm
  · exact absurd hm (by decide)
  · exact mark_not_mem_toText (h s hs) (by decide) (by intro k; cases k <;> decide) hm

theorem read?_toText {v : Version} (h : v.WellFormed) : read? v.toText = some v := by
  obtain ⟨first, others, letter, suffixes, revision⟩ := v
  have hn : ∀ n ∈ first :: others, isNumeral n = true := h.numbers
  have hsplit : (['.'].intercalate (first :: others)).splitOn '.' = first :: others :=
    List.splitOn_intercalate _
      (fun n hm => not_mem_digits (isNumeral_iff.1 (hn n hm)).2 (by decide))
      (List.cons_ne_nil _ _)
  obtain ⟨hfront, hrest⟩ := Text.span_append (fun c => isNumberChar_of_mem hn)
    (fun c => head?_letter_append h.letter suffixes revision)
  have hletter : takeLetter (letter.toList ++ (suffixText suffixes ++ revisionText revision)) =
      (letter, suffixText suffixes ++ revisionText revision) :=
    takeLetter_append h.letter fun c hc => by
      obtain rfl | rfl := head?_suffixText_append hc <;> decide
  obtain ⟨hsuffix, hrevision⟩ := Text.span_append (p := (· != '-')) (s := suffixText suffixes)
    (t := revisionText revision)
    (fun c hc => by
      simp only [bne_iff_ne]
      intro heq
      subst heq
      exact hyphen_not_mem_suffixText h.suffixes hc)
    (by cases revision <;> simp [revisionText])
  have hall : (isNumeral first && others.all isNumeral) = true := by simpa using hn
  rw [toText_eq]
  simp only [read?, numbers, hfront, hrest, hsplit, hletter, hall, if_true, hsuffix, hrevision,
    readSuffixes?_eq_some_iff.2 ⟨h.suffixes, rfl⟩, readRevision?_eq_some_iff.2 ⟨h.revision, rfl⟩]
  rfl

theorem toText_of_read? {t : Text} {v : Version} (h : read? t = some v) :
    v.WellFormed ∧ t = v.toText := by
  obtain ⟨l, tail, hl⟩ : ∃ l tail, takeLetter (t.dropWhile isNumberChar) = (l, tail) :=
    ⟨_, _, rfl⟩
  simp only [read?, hl] at h
  split at h
  · contradiction
  · next first others hsplit =>
    split at h
    · next hnum =>
      obtain ⟨ss, hss, h⟩ := Option.bind_eq_some_iff.1 h
      obtain ⟨r, hr, h⟩ := Option.bind_eq_some_iff.1 h
      obtain rfl := Option.some.inj h
      obtain ⟨hletter, hrest⟩ := takeLetter_eq hl
      obtain ⟨hsuffix, hst⟩ := readSuffixes?_eq_some_iff.1 hss
      obtain ⟨hrevision, hrt⟩ := readRevision?_eq_some_iff.1 hr
      refine ⟨⟨by simpa [numbers] using hnum, hletter, hsuffix, hrevision⟩, ?_⟩
      calc
        t = t.takeWhile isNumberChar ++ t.dropWhile isNumberChar :=
          List.takeWhile_append_dropWhile.symm
        _ = ['.'].intercalate (first :: others) ++ (l.toList ++ tail) := by
          rw [← hsplit, List.intercalate_splitOn, hrest]
        _ = ['.'].intercalate (first :: others) ++ (l.toList ++
              (tail.takeWhile (· != '-') ++ tail.dropWhile (· != '-'))) := by
          rw [List.takeWhile_append_dropWhile]
        _ = _ := by rw [hst, hrt, toText_eq, numbers]
    · contradiction

theorem read?_eq_some_iff {t : Text} {v : Version} :
    read? t = some v ↔ v.WellFormed ∧ t = v.toText := by
  constructor
  · exact toText_of_read?
  · intro h
    obtain ⟨hv, rfl⟩ := h
    exact read?_toText hv

def Readable (v : Version) : Prop := ∃ t, read? t = some v

theorem readable_iff {v : Version} : v.Readable ↔ v.WellFormed := by
  constructor
  · intro hparts
    obtain ⟨t, ht⟩ := hparts
    exact (toText_of_read? ht).1
  · exact fun h => ⟨_, read?_toText h⟩

end OverrideAudit.Version
