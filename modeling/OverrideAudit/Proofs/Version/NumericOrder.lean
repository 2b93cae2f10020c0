import Mathlib.Data.List.DropRight
import Mathlib.Data.Nat.Digits.Lemmas
import OverrideAudit.Proofs.Version.TotalOrder

/-! The order of versions in terms of numbers. Versions are compared digit by digit, and no number
is ever computed; of versions with ASCII digits it is nevertheless the values of their numerals, as
large as they may be, that decide. -/
namespace OverrideAudit

theorem compare_char (c d : Char) : compare c d = compare c.toNat d.toNat := by
  obtain h | h | h := lt_trichotomy c.toNat d.toNat
  · rw [Nat.compare_eq_lt.2 h]
    exact compareOfLessAndEq_eq_lt.2 h
  · rw [Char.toNat_inj.1 h, Nat.compare_eq_eq.2 rfl]
    exact Std.ReflCmp.compare_self
  · rw [Nat.compare_eq_gt.2 h]
    exact Std.OrientedCmp.gt_of_lt (compareOfLessAndEq_eq_lt.2 h)

theorem compare_add_right (m n k : Nat) : compare (m + k) (n + k) = compare m n := by
  obtain h | h | h := lt_trichotomy m n
  · rw [Nat.compare_eq_lt.2 h, Nat.compare_eq_lt.2 (Nat.add_lt_add_right h k)]
  · rw [h, Nat.compare_eq_eq.2 rfl, Nat.compare_eq_eq.2 rfl]
  · rw [Nat.compare_eq_gt.2 h, Nat.compare_eq_gt.2 (Nat.add_lt_add_right h k)]

namespace Text
variable {a b n : Text} {c : Char}

def digit (c : Char) : Nat := c.toNat - '0'.toNat

def value (n : Text) : Nat := Nat.ofDigits 10 (n.reverse.map digit)

theorem toNat_eq_digit (h : c.isDigit = true) : c.toNat = digit c + 48 ∧ digit c < 10 := by
  have hzero : '0'.toNat = 48 := rfl
  simp only [Char.isDigit, Bool.and_eq_true, decide_eq_true_eq] at h
  have hlow : 48 ≤ c.toNat := h.1
  have hhigh : c.toNat ≤ 57 := h.2
  rw [digit]
  omega

theorem value_cons (c : Char) (n : Text) : value (c :: n) = value n + 10 ^ n.length * digit c := by
  simp [value, Nat.ofDigits_append]

theorem value_lt (h : ∀ c ∈ n, c.isDigit = true) : n.value < 10 ^ n.length := by
  have hdigits : ∀ k ∈ n.reverse.map digit, k < 10 := by
    intro k hk
    obtain ⟨c, hc, rfl⟩ := List.mem_map.1 hk
    exact (toNat_eq_digit (h c (List.mem_reverse.1 hc))).2
  simpa [value] using Nat.ofDigits_lt_base_pow_length (by decide) hdigits

theorem pow_le_value (hc : c.isDigit = true) (hzero : c ≠ '0') (n : Text) :
    10 ^ n.length ≤ value (c :: n) := by
  have hpos : 0 < digit c := by
    refine Nat.pos_of_ne_zero fun hd => hzero (Char.toNat_inj.1 ?_)
    rw [(toNat_eq_digit hc).1, hd]
    rfl
  rw [value_cons]
  exact (Nat.le_mul_of_pos_right _ hpos).trans (Nat.le_add_left ..)

theorem utf8Length_eq_length (h : ∀ c ∈ n, c.isDigit = true) : n.utf8Length = n.length := by
  induction n with
  | nil => rfl
  | cons c n ih =>
    have hc := toNat_eq_digit (h c (by simp))
    have hsize : c.utf8Size = 1 := Char.utf8Size_eq_one_iff.2 (UInt32.le_iff_toNat_le.2 (by
      change c.toNat ≤ 127
      omega))
    rw [utf8Length, hsize, ih fun d hd => h d (by simp [hd]), List.length_cons, Nat.add_comm]

theorem mem_intercalate_of_mem {sep p : Text} {ps : List Text} (hp : p ∈ ps) (hc : c ∈ p) :
    c ∈ sep.intercalate ps := by
  cases ps with
  | nil => contradiction
  | cons q ps =>
    rw [intercalate_cons]
    obtain rfl | hp := List.mem_cons.1 hp
    · exact List.mem_append_left _ hc
    · exact List.mem_append_right _
        (List.mem_flatMap.2 ⟨p, hp, List.mem_append_right sep hc⟩)

theorem compare_eq_of_length_eq (ha : ∀ c ∈ a, c.isDigit = true) (hb : ∀ c ∈ b, c.isDigit = true)
    (h : a.length = b.length) : compare a b = compare a.value b.value := by
  induction a generalizing b with
  | nil =>
    cases b with
    | nil => rfl
    | cons d b => simp at h
  | cons c a ih =>
    cases b with
    | nil => simp at h
    | cons d b =>
      have hlength : a.length = b.length := Nat.succ.inj h
      have hdigits : ∀ e ∈ a, e.isDigit = true := fun e he => ha e (by simp [he])
      have hdigits' : ∀ e ∈ b, e.isDigit = true := fun e he => hb e (by simp [he])
      obtain ⟨hc, -⟩ := toNat_eq_digit (ha c (by simp))
      obtain ⟨hd, -⟩ := toNat_eq_digit (hb d (by simp))
      have hlt := value_lt hdigits
      have hlt' := value_lt hdigits'
      rw [List.compare_cons_cons, compare_char, ih hdigits hdigits' hlength, value_cons,
        value_cons, hc, hd, hlength]
      rw [hlength] at hlt
      -- The rests are below the weight of the first digits.
      obtain hcd | hcd | hcd := lt_trichotomy (digit c) (digit d)
      · have hweight : 10 ^ b.length * (digit c + 1) ≤ 10 ^ b.length * digit d :=
          Nat.mul_le_mul_left _ hcd
        rw [Nat.mul_succ] at hweight
        rw [Nat.compare_eq_lt.2 (Nat.add_lt_add_right hcd 48)]
        exact (Nat.compare_eq_lt.2 (by omega)).symm
      · rw [hcd, Nat.compare_eq_eq.2 rfl]
        exact (compare_add_right (value a) (value b) _).symm
      · have hweight : 10 ^ b.length * (digit d + 1) ≤ 10 ^ b.length * digit c :=
          Nat.mul_le_mul_left _ hcd
        rw [Nat.mul_succ] at hweight
        rw [Nat.compare_eq_gt.2 (Nat.add_lt_add_right hcd 48)]
        exact (Nat.compare_eq_gt.2 (by omega)).symm

end Text

namespace Version
variable {a b n : Text} {v w : Version}

theorem value_dropLeadingZeros (n : Text) : (dropLeadingZeros n).value = n.value := by
  induction n with
  | nil => rfl
  | cons c n ih =>
    by_cases hc : c = '0'
    · subst hc
      have hzero : Text.digit '0' = 0 := rfl
      rw [Text.value_cons, hzero, Nat.mul_zero, Nat.add_zero, ← ih]
      rfl
    · simp [dropLeadingZeros, hc]

theorem dropLeadingZeros_cases (h : ∀ c ∈ n, c.isDigit = true) :
    dropLeadingZeros n = [] ∨
      ∃ m, (dropLeadingZeros n).length = m + 1 ∧ 10 ^ m ≤ (dropLeadingZeros n).value := by
  induction n with
  | nil => exact .inl rfl
  | cons c n ih =>
    by_cases hc : c = '0'
    · subst hc
      exact ih fun d hd => h d (by simp [hd])
    · have hdrop : dropLeadingZeros (c :: n) = c :: n := by simp [dropLeadingZeros, hc]
      rw [hdrop]
      exact .inr ⟨n.length, rfl, Text.pow_le_value (h c (by simp)) hc n⟩

theorem isDigit_dropLeadingZeros (h : ∀ c ∈ n, c.isDigit = true) :
    ∀ c ∈ dropLeadingZeros n, c.isDigit = true :=
  fun c hc => h c ((List.dropWhile_suffix _).subset hc)

theorem value_lt_of_length_lt (ha : ∀ c ∈ a, c.isDigit = true) (hb : ∀ c ∈ b, c.isDigit = true)
    (h : (dropLeadingZeros a).length < (dropLeadingZeros b).length) :
    (dropLeadingZeros a).value < (dropLeadingZeros b).value := by
  obtain hnil | ⟨m, hm, hpow⟩ := dropLeadingZeros_cases hb
  · simp [hnil] at h
  · calc
      (dropLeadingZeros a).value < 10 ^ (dropLeadingZeros a).length :=
        Text.value_lt (isDigit_dropLeadingZeros ha)
      _ ≤ 10 ^ m := Nat.pow_le_pow_right (by decide) (by omega)
      _ ≤ (dropLeadingZeros b).value := hpow

theorem compareWhole_eq_value (ha : ∀ c ∈ a, c.isDigit = true) (hb : ∀ c ∈ b, c.isDigit = true) :
    compareWhole a b = Ord.compare a.value b.value := by
  have hdigits := isDigit_dropLeadingZeros ha
  have hdigits' := isDigit_dropLeadingZeros hb
  rw [compareWhole, Text.utf8Length_eq_length hdigits, Text.utf8Length_eq_length hdigits',
    ← value_dropLeadingZeros a, ← value_dropLeadingZeros b]
  obtain h | h | h := lt_trichotomy (dropLeadingZeros a).length (dropLeadingZeros b).length
  · rw [Nat.compare_eq_lt.2 h, Nat.compare_eq_lt.2 (value_lt_of_length_lt ha hb h)]
    rfl
  · rw [Nat.compare_eq_eq.2 h, ← Text.compare_eq_of_length_eq hdigits hdigits' h]
    rfl
  · rw [Nat.compare_eq_gt.2 h, Nat.compare_eq_gt.2 (value_lt_of_length_lt hb ha h)]
    rfl

def firstDifference (os : List Ordering) : Ordering := os.foldr Ordering.then .eq

/-- Numerals behind the first by value, or as texts without the zeros at their ends if one of them
has a zero in front. -/
def numeralOrder (a b : Text) : Ordering :=
  if a.head? = some '0' ∨ b.head? = some '0' then
    Ord.compare (a.rdropWhile (· == '0')) (b.rdropWhile (· == '0'))
  else Ord.compare a.value b.value

def letterOrder : Option Char → Option Char → Ordering
  | none, none => .eq
  | none, some _ => .lt
  | some _, none => .gt
  | some c, some d => Ord.compare c d

def suffixOrder (s t : Suffix) : Ordering :=
  firstDifference [Ord.compare s.kind.rank t.kind.rank, Ord.compare s.number.value t.number.value]

/-- The end of a list against the next suffix of the other: above it unless it is a patch level. -/
def endOrder : Option Suffix → Option Suffix → Ordering
  | none, some t => if t.kind = .patch then .lt else .gt
  | some s, none => if s.kind = .patch then .gt else .lt
  | _, _ => .eq

/-- The order of versions by the values of their numerals. -/
def numericOrder (v w : Version) : Ordering :=
  firstDifference [
    Ord.compare v.first.value w.first.value,
    firstDifference (List.zipWith numeralOrder v.others w.others),
    Ord.compare v.numbers.length w.numbers.length,
    letterOrder v.letter w.letter,
    firstDifference (List.zipWith suffixOrder v.suffixes w.suffixes),
    endOrder v.suffixes[w.suffixes.length]? w.suffixes[v.suffixes.length]?,
    Ord.compare (v.writtenRevision.elim 0 Text.value) (w.writtenRevision.elim 0 Text.value)]

@[simp] theorem firstDifference_nil : firstDifference [] = .eq := rfl

@[simp] theorem firstDifference_cons (o : Ordering) (os : List Ordering) :
    firstDifference (o :: os) = o.then (firstDifference os) := rfl

theorem compareFraction_eq_numeralOrder (ha : ∀ c ∈ a, c.isDigit = true)
    (hb : ∀ c ∈ b, c.isDigit = true) : compareFraction a b = numeralOrder a b := by
  have hzero : ∀ n : Text, n.startsWith ['0'] = true ↔ n.head? = some '0' := by
    intro n
    cases n with
    | nil => simp [Text.startsWith]
    | cons c n => simp [startsWith_zero_cons]
  rw [compareFraction, numeralOrder, compareWhole_eq_value ha hb]
  simp only [Bool.or_eq_true, hzero]
  rfl

theorem compareOthers_eq_zipWith {as bs : List Text} (ha : ∀ n ∈ as, ∀ c ∈ n, c.isDigit = true)
    (hb : ∀ n ∈ bs, ∀ c ∈ n, c.isDigit = true) :
    compareOthers as bs = (firstDifference (List.zipWith numeralOrder as bs)).then
      (Ord.compare as.length bs.length) := by
  induction as generalizing bs with
  | nil =>
    cases bs with
    | nil => rfl
    | cons b bs => exact (Nat.compare_eq_lt.2 (Nat.succ_pos bs.length)).symm
  | cons a as ih =>
    cases bs with
    | nil => exact (Nat.compare_eq_gt.2 (Nat.succ_pos as.length)).symm
    | cons b bs =>
      rw [compareOthers, compareFraction_eq_numeralOrder (ha a (by simp)) (hb b (by simp)),
        ih (fun n hn => ha n (by simp [hn])) fun n hn => hb n (by simp [hn]),
        List.zipWith_cons_cons, firstDifference_cons, Ordering.then_assoc, List.length_cons,
        List.length_cons, compare_add_right]

theorem compareSuffixes_eq_zipWith {ss ts : List Suffix}
    (hs : ∀ s ∈ ss, ∀ c ∈ s.number, c.isDigit = true)
    (ht : ∀ t ∈ ts, ∀ c ∈ t.number, c.isDigit = true) :
    compareSuffixes ss ts = (firstDifference (List.zipWith suffixOrder ss ts)).then
      (endOrder ss[ts.length]? ts[ss.length]?) := by
  induction ss generalizing ts with
  | nil => cases ts <;> rfl
  | cons s ss ih =>
    cases ts with
    | nil => rfl
    | cons t ts =>
      have hhead : compareSuffix s t = suffixOrder s t := by
        rw [compareSuffix, compareWhole_eq_value (hs s (by simp)) (ht t (by simp))]
        simp [suffixOrder]
      rw [compareSuffixes, hhead,
        ih (fun s hm => hs s (by simp [hm])) fun t hm => ht t (by simp [hm]),
        List.zipWith_cons_cons, firstDifference_cons, Ordering.then_assoc]
      rfl

theorem compare_letter (l m : Option Char) :
    Ord.compare (l.map Char.toNat) (m.map Char.toNat) = letterOrder l m := by
  cases l with
  | none => cases m <;> rfl
  | some c =>
    cases m with
    | none => rfl
    | some d => exact (compare_char c d).symm

def HasAsciiDigits (v : Version) : Prop :=
  ∀ c ∈ v.toText, isDecimalDigit c = true → c.isDigit = true

instance : Decidable v.HasAsciiDigits := List.decidableBAll _ v.toText

theorem isDigit_of_mem_number (hv : v.Readable) (h : v.HasAsciiDigits) (hn : n ∈ v.numbers) :
    ∀ c ∈ n, c.isDigit = true := by
  intro c hc
  have hmem : c ∈ v.toText := by
    rw [toText_eq]
    exact List.mem_append_left _ (Text.mem_intercalate_of_mem hn hc)
  have hdigits := (isNumeral_iff.1 ((readable_iff.1 hv).numbers n hn)).2
  exact h c hmem (List.all_eq_true.1 hdigits c hc)

theorem isDigit_of_mem_suffix {s : Suffix} (hv : v.Readable) (h : v.HasAsciiDigits)
    (hs : s ∈ v.suffixes) : ∀ c ∈ s.number, c.isDigit = true := by
  intro c hc
  have htext : c ∈ suffixText v.suffixes :=
    List.mem_flatMap.2 ⟨s, hs, List.mem_cons_of_mem _ (List.mem_append_right _ hc)⟩
  have hmem : c ∈ v.toText := by simp [toText_eq, htext]
  exact h c hmem (List.all_eq_true.1 ((readable_iff.1 hv).suffixes s hs) c hc)

theorem isDigit_of_mem_revision (hv : v.Readable) (h : v.HasAsciiDigits) :
    ∀ c ∈ v.revision, c.isDigit = true := by
  intro c hc
  cases hr : v.writtenRevision with
  | none =>
    have hzero : c = '0' := by simpa [revision, hr] using hc
    rw [hzero]
    rfl
  | some r =>
    have hcr : c ∈ r := by simpa [revision, hr] using hc
    have hmem : c ∈ v.toText := by simp [toText_eq, hr, revisionText, hcr]
    have hdigits := (isNumeral_iff.1 ((readable_iff.1 hv).revision r hr)).2
    exact h c hmem (List.all_eq_true.1 hdigits c hcr)

theorem value_revision (v : Version) :
    v.revision.value = v.writtenRevision.elim 0 Text.value := by
  cases h : v.writtenRevision with
  | none => simp [revision, h, Text.value, Text.digit]
  | some r => simp [revision, h]

end Version
end OverrideAudit
