import Mathlib.Data.List.Basic
import OverrideAudit.Text.Basic

/-! Cutting a text and putting it together again: a cut loses nothing but its mark, and is made at
the first place where the mark stands. -/
namespace OverrideAudit.Text

theorem cutWhere_eq_none_iff {p : Char → Bool} {t : Text} :
    t.cutWhere p = none ↔ ∀ c ∈ t, p c = false := by
  induction t with
  | nil => simp [cutWhere]
  | cons c r ih => cases h : p c <;> simp [cutWhere, h, ih]

theorem cutWhere_eq_some_iff {p : Char → Bool} {t a b : Text} :
    t.cutWhere p = some (a, b) ↔ (∀ c ∈ a, p c = false) ∧ ∃ c, p c = true ∧ t = a ++ c :: b := by
  induction t generalizing a with
  | nil => simp [cutWhere]
  | cons c r ih =>
    cases hc : p c with
    | true =>
      simp only [cutWhere, hc, if_true, Option.some.injEq, Prod.mk.injEq]
      constructor
      · intro hparts
        obtain ⟨rfl, rfl⟩ := hparts
        exact ⟨by simp, c, hc, rfl⟩
      · intro hparts
        obtain ⟨ha, d, _, ht⟩ := hparts
        cases a with
        | nil => simp_all
        | cons x xs =>
          obtain ⟨rfl, _⟩ := List.cons.inj ht
          simp [ha c (by simp)] at hc
    | false =>
      simp only [cutWhere, hc, Bool.false_eq_true, if_false, Option.map_eq_some_iff]
      constructor
      · intro hparts
        obtain ⟨⟨a', b'⟩, h', he⟩ := hparts
        obtain ⟨rfl, rfl⟩ := Prod.mk.inj he
        obtain ⟨ha, d, hd, rfl⟩ := ih.1 h'
        exact ⟨by simpa [hc] using ha, d, hd, rfl⟩
      · intro hparts
        obtain ⟨ha, d, hd, ht⟩ := hparts
        cases a with
        | nil =>
          obtain ⟨rfl, _⟩ := List.cons.inj ht
          simp [hc] at hd
        | cons x xs =>
          obtain ⟨rfl, rfl⟩ := List.cons.inj ht
          exact ⟨(xs, b), ih.2 ⟨fun y hy => ha y (by simp [hy]), d, hd, rfl⟩, rfl⟩

theorem span_append {p : Char → Bool} {s t : Text} (hs : ∀ c ∈ s, p c = true)
    (ht : ∀ c ∈ t.head?, p c = false) :
    (s ++ t).takeWhile p = s ∧ (s ++ t).dropWhile p = t := by
  rw [List.takeWhile_append_of_pos hs, List.dropWhile_append_of_pos hs]
  cases t with
  | nil => simp
  | cons c r => simp [ht c rfl]

theorem cutAt_eq_none_iff {sep : Char} {t : Text} : t.cutAt sep = none ↔ sep ∉ t := by
  simp only [cutAt, cutWhere_eq_none_iff, beq_eq_false_iff_ne]
  exact ⟨fun h hm => h sep hm rfl, fun h c hc he => h (he ▸ hc)⟩

theorem cutAt_eq_some_iff {sep : Char} {t a b : Text} :
    t.cutAt sep = some (a, b) ↔ sep ∉ a ∧ t = a ++ sep :: b := by
  simp only [cutAt, cutWhere_eq_some_iff, beq_eq_false_iff_ne, beq_iff_eq, exists_eq_left]
  exact and_congr_left fun _ => ⟨fun h hm => h sep hm rfl, fun h c hc he => h (he ▸ hc)⟩

theorem isSuffixOf?_eq_none {tail t : Text} (h : ∀ r, t ≠ r ++ tail) : tail.isSuffixOf? t = none :=
  Option.eq_none_iff_forall_ne_some.2 fun r hr =>
    h r (List.isSuffixOf?_eq_some_iff_append_eq.1 hr).symm

theorem cutAtText_append {m : Char} {a : Text} (ms t : Text) (h : m ∉ a) :
    cutAtText (m :: ms) (a ++ t) = (cutAtText (m :: ms) t).map fun (x, y) => (a ++ x, y) := by
  induction a with
  | nil => simp
  | cons c r ih =>
    have hc : m ≠ c := fun he => h (by simp [he])
    have hr : m ∉ r := fun hm => h (by simp [hm])
    simp [cutAtText, List.isPrefixOf?, hc, ih hr, Option.map_map, Function.comp_def]

/-- A single mark is no double one, so the search goes on behind the characters that follow it. -/
theorem cutAtText_double {m : Char} {a : Text} (t : Text) (ha : a ≠ []) (h : m ∉ a) :
    cutAtText [m, m] (m :: (a ++ t)) =
      (cutAtText [m, m] t).map fun (x, y) => (m :: (a ++ x), y) := by
  have happ := cutAtText_append [m] t h
  cases a with
  | nil => exact absurd rfl ha
  | cons c r =>
    have hc : m ≠ c := fun he => h (by simp [he])
    have hlead : [m, m].isPrefixOf? (m :: (c :: r ++ t)) = none := by
      simp [List.isPrefixOf?, hc]
    rw [cutAtText, hlead, happ]
    simp [Option.map_map, Function.comp_def]

theorem append_of_cutAtText {mark t a b : Text} (h : cutAtText mark t = some (a, b)) :
    t = a ++ mark ++ b := by
  induction t generalizing a with
  | nil => cases mark <;> simp_all [cutAtText]
  | cons c r ih =>
    rw [cutAtText] at h
    split at h
    · next rest hrest =>
      obtain ⟨rfl, rfl⟩ := Prod.mk.inj (Option.some.inj h)
      simpa using (List.isPrefixOf?_eq_some_iff_append_eq.1 hrest).symm
    · obtain ⟨⟨a', b'⟩, h', he⟩ := Option.map_eq_some_iff.1 h
      obtain ⟨rfl, rfl⟩ := Prod.mk.inj he
      simp [ih h']

theorem not_infix_of_cutAtText {mark t a b : Text} (hmark : mark ≠ [])
    (h : cutAtText mark t = some (a, b)) : ¬ mark <:+: a ++ mark.dropLast := by
  induction t generalizing a with
  | nil => cases mark <;> simp_all [cutAtText]
  | cons c r ih =>
    have happend := append_of_cutAtText h
    rw [cutAtText] at h
    split at h
    · next rest hrest =>
      obtain ⟨rfl, rfl⟩ := Prod.mk.inj (Option.some.inj h)
      intro hpart
      have hlength := hpart.length_le
      have hpos := List.length_pos_iff.2 hmark
      rw [List.nil_append, List.length_dropLast] at hlength
      omega
    · next hnone =>
      obtain ⟨⟨a', b'⟩, h', he⟩ := Option.map_eq_some_iff.1 h
      obtain ⟨rfl, rfl⟩ := Prod.mk.inj he
      rw [List.cons_append, List.infix_cons_iff]
      refine not_or.2 ⟨fun hlead => ?_, ih h'⟩
      have hstart : c :: (a' ++ mark.dropLast) <+: c :: r := by
        rw [happend]
        simpa using ((List.prefix_append_right_inj a').2 (List.dropLast_prefix mark)).trans
          (List.prefix_append _ b')
      obtain ⟨rest, hrest⟩ := hlead.trans hstart
      rw [List.isPrefixOf?_eq_some_iff_append_eq.2 hrest] at hnone
      exact absurd hnone (by simp)

theorem mentions_iff {t mark : Text} : t.mentions mark = true ↔ mark <:+: t := by
  rw [mentions, Option.isSome_iff_exists]
  constructor
  · intro ⟨⟨a, b⟩, hcut⟩
    exact ⟨a, b, (append_of_cutAtText hcut).symm⟩
  · intro h
    induction t with
    | nil =>
      obtain rfl := List.eq_nil_of_infix_nil h
      exact ⟨_, rfl⟩
    | cons c r ih =>
      rw [cutAtText]
      obtain hlead | hpart := List.infix_cons_iff.1 h
      · obtain ⟨rest, hrest⟩ := hlead
        rw [List.isPrefixOf?_eq_some_iff_append_eq.2 hrest]
        exact ⟨_, rfl⟩
      · obtain ⟨parts, hparts⟩ := ih hpart
        cases mark.isPrefixOf? (c :: r) with
        | some rest => exact ⟨_, rfl⟩
        | none => exact ⟨_, by rw [hparts, Option.map_some]⟩

theorem intercalate_cons (sep first : Text) (others : List Text) :
    sep.intercalate (first :: others) = first ++ others.flatMap (sep ++ ·) := by
  induction others generalizing first with
  | nil => simp
  | cons second others ih => simp [List.intercalate_cons_cons, ih]

theorem mem_intercalate {sep c : Char} {ps : List Text} (h : c ∈ [sep].intercalate ps) :
    c = sep ∨ ∃ p ∈ ps, c ∈ p := by
  cases ps with
  | nil => simp at h
  | cons p ps =>
    simp only [intercalate_cons, List.mem_append, List.mem_flatMap, List.mem_singleton] at h
    obtain h | ⟨q, hq, rfl | h⟩ := h
    · exact .inr ⟨p, by simp, h⟩
    · exact .inl rfl
    · exact .inr ⟨q, List.mem_cons_of_mem p hq, h⟩

def blankCodes : List Nat :=
  List.range' 9 5 ++ [32, 0x85, 0xA0, 0x1680] ++ List.range' 0x2000 11 ++
    [0x2028, 0x2029, 0x202F, 0x205F, 0x3000]

theorem mem_blankCodes {c : Char} (h : isBlank c = true) : c.toNat ∈ blankCodes := by
  simp only [isBlank, isBlankCode, Bool.or_eq_true, Bool.and_eq_true, decide_eq_true_eq,
    beq_iff_eq] at h
  simp only [blankCodes, List.mem_append, List.mem_range'_1, List.mem_cons, List.not_mem_nil,
    or_false]
  omega

theorem trim_eq_self {t : Text} (hf : ∀ c ∈ t.head?, isBlank c = false)
    (hb : ∀ c ∈ t.getLast?, isBlank c = false) : t.trim = t := by
  have keep : ∀ s : Text, (∀ c ∈ s.head?, isBlank c = false) → s.dropWhile isBlank = s := by
    intro s hs
    cases s with
    | nil => rfl
    | cons c r => simp [hs c rfl]
  rw [trim, trimFrontWhere, keep t hf, trimBackWhere,
    keep t.reverse fun c hc => hb c (by simpa using hc), List.reverse_reverse]

theorem trimBackWhere_cons (p : Char → Bool) (c : Char) (r : Text) :
    (∃ s, trimBackWhere p (c :: r) = c :: s) ∨ trimBackWhere p (c :: r) = [] ∧ p c = true := by
  simp only [trimBackWhere, List.reverse_cons, List.dropWhile_append]
  split
  · next hr =>
    cases hc : p c with
    | true => exact .inr (by simp [hc])
    | false => exact .inl ⟨[], by simp [hc]⟩
  · exact .inl ⟨_, by rw [List.reverse_append, List.reverse_singleton, List.singleton_append]⟩

theorem startsWith_trim {c : Char} (hc : isBlank c = false) (d : Char) (r : Text) :
    (trim (c :: r)).startsWith [d] = (d == c) := by
  have hfront : trimFrontWhere isBlank (c :: r) = c :: r := by simp [trimFrontWhere, hc]
  rw [trim, hfront]
  obtain ⟨s, hs⟩ | ⟨-, hblank⟩ := trimBackWhere_cons isBlank c r
  · simp [hs, startsWith, List.isPrefixOf]
  · exact absurd hblank (by simp [hc])

theorem not_of_mem_splitOnP {p : Char → Bool} {t piece : Text} (h : piece ∈ t.splitOnP p) :
    ∀ c ∈ piece, p c = false := by
  induction t generalizing piece with
  | nil =>
    obtain rfl : piece = [] := by simpa using h
    simp
  | cons c r ih =>
    rw [List.splitOnP_cons_eq_if_modifyHead] at h
    cases hc : p c with
    | true =>
      rw [if_pos hc, List.mem_cons] at h
      obtain rfl | h := h
      · simp
      · exact ih h
    | false =>
      obtain ⟨q, qs, hr⟩ := List.exists_cons_of_ne_nil (List.splitOnP_ne_nil p r)
      rw [hc, if_neg Bool.false_ne_true, hr, List.modifyHead_cons, List.mem_cons] at h
      rw [hr] at ih
      obtain rfl | h := h
      · exact List.forall_mem_cons.2 ⟨hc, ih (by simp)⟩
      · exact ih (by simp [h])

theorem not_blank_of_mem_words {t word : Text} (h : word ∈ t.words) :
    word ≠ [] ∧ ∀ c ∈ word, isBlank c = false := by
  obtain ⟨hpiece, hne⟩ := List.mem_filter.1 h
  exact ⟨by simpa using hne, not_of_mem_splitOnP hpiece⟩

def IsUnbroken (t : Text) : Prop := ∀ c ∈ t, isBlank c = false

instance (t : Text) : Decidable t.IsUnbroken :=
  List.decidableBAll (fun c => isBlank c = false) t

theorem trim_of_isUnbroken {t : Text} (h : t.IsUnbroken) : t.trim = t :=
  trim_eq_self (fun c hc => h c (List.mem_of_mem_head? hc))
    (fun c hc => h c (List.mem_of_getLast? hc))

theorem words_of_isUnbroken {word : Text} (hne : word ≠ []) (h : word.IsUnbroken) :
    words word = [word] := by
  simp [words, List.splitOnP_eq_singleton h, hne]

theorem words_append_cons {c : Char} {word : Text} (hne : word ≠ []) (h : word.IsUnbroken)
    (hc : isBlank c = true) (r : Text) : words (word ++ c :: r) = word :: words r := by
  simp [words, List.splitOnP_append_cons_of_forall_mem h c hc, hne]

theorem words_intercalate {ws : List Text} (h : ∀ w ∈ ws, w ≠ [] ∧ w.IsUnbroken) :
    words ([' '].intercalate ws) = ws := by
  induction ws with
  | nil => rfl
  | cons w ws ih =>
    obtain ⟨⟨hne, hunbroken⟩, hws⟩ := List.forall_mem_cons.1 h
    cases ws with
    | nil => simpa using words_of_isUnbroken hne hunbroken
    | cons v vs =>
      rw [List.intercalate_cons_cons, List.append_assoc, List.singleton_append,
        words_append_cons hne hunbroken (by decide), ih hws]

theorem words_of_forall_isBlank {t : Text} (h : ∀ c ∈ t, isBlank c = true) : words t = [] := by
  induction t with
  | nil => rfl
  | cons c r ih =>
    obtain ⟨hc, hr⟩ := List.forall_mem_cons.1 h
    simpa [words, List.splitOnP_cons_eq_if_modifyHead, hc] using ih hr

theorem utf8Length_append (s t : Text) :
    utf8Length (s ++ t) = s.utf8Length + t.utf8Length := by
  induction s with
  | nil => simp [utf8Length]
  | cons c s ih =>
    rw [List.cons_append, utf8Length, utf8Length, ih]
    omega

theorem length_le_utf8Length (t : Text) : t.length ≤ t.utf8Length := by
  induction t with
  | nil => simp [utf8Length]
  | cons c r ih =>
    have hpos := c.utf8Size_pos
    rw [List.length_cons, utf8Length]
    omega

end OverrideAudit.Text
