import OverrideAudit.Atom
import OverrideAudit.Proofs.Version.Grammar

/-! The order of versions is total and transitive, although two rules for numerals and a suffix list
that may end between two kinds of suffix take part in it. Each comparison is that of sort keys. -/
namespace OverrideAudit

section Laws
variable {α β : Type _}

/-- Among the members of `P` the comparison is a total preorder. -/
structure TotalPreorderOn (P : α → Prop) (cmp : α → α → Ordering) : Prop where
  swap : ∀ {a b}, P a → P b → cmp b a = (cmp a b).swap
  le_trans : ∀ {a b c}, P a → P b → P c →
    (cmp a b).isLE = true → (cmp b c).isLE = true → (cmp a c).isLE = true
  lt_trans : ∀ {a b c}, P a → P b → P c → cmp a b = .lt → cmp b c = .lt → cmp a c = .lt

/-- Among the members of `P` the comparison is a total order up to `same`, which is an equivalence
that no comparison sees through. -/
structure TotalOrderOn (P : α → Prop) (cmp : α → α → Ordering) (same : α → α → Bool) : Prop
    extends TotalPreorderOn P cmp where
  same_iff : ∀ {a b}, P a → P b → (same a b = true ↔ cmp a b = .eq)
  same_refl : ∀ {a}, P a → same a a = true
  same_symm : ∀ {a b}, P a → P b → same a b = true → same b a = true
  same_trans : ∀ {a b c}, P a → P b → P c →
    same a b = true → same b c = true → same a c = true
  congr : ∀ {a b c}, P a → P b → P c → same a b = true →
    cmp a c = cmp b c ∧ cmp c a = cmp c b

theorem TotalPreorderOn.of_eq {P : α → Prop} {cmp key : α → α → Ordering} [Std.TransCmp key]
    (h : ∀ a b, P a → P b → cmp a b = key a b) : TotalPreorderOn P cmp where
  swap ha hb := by
    rw [h _ _ ha hb, h _ _ hb ha]
    exact Std.OrientedCmp.eq_swap
  le_trans ha hb hc hab hbc := by
    rw [h _ _ ha hb] at hab
    rw [h _ _ hb hc] at hbc
    rw [h _ _ ha hc]
    exact Std.TransCmp.isLE_trans hab hbc
  lt_trans ha hb hc hab hbc := by
    rw [h _ _ ha hb] at hab
    rw [h _ _ hb hc] at hbc
    rw [h _ _ ha hc]
    exact Std.TransCmp.lt_trans hab hbc

theorem TotalOrderOn.of_eq {P : α → Prop} {cmp key : α → α → Ordering} {same : α → α → Bool}
    [Std.TransCmp key] (h : ∀ a b, P a → P b → cmp a b = key a b)
    (hs : ∀ a b, same a b = true ↔ cmp a b = .eq) : TotalOrderOn P cmp same where
  toTotalPreorderOn := .of_eq h
  same_iff _ _ := hs _ _
  same_refl ha := by
    rw [hs, h _ _ ha ha]
    exact Std.ReflCmp.compare_self
  same_symm ha hb hab := by
    rw [hs, h _ _ ha hb] at hab
    rw [hs, h _ _ hb ha]
    exact Std.OrientedCmp.eq_symm hab
  same_trans ha hb hc hab hbc := by
    rw [hs, h _ _ ha hb] at hab
    rw [hs, h _ _ hb hc] at hbc
    rw [hs, h _ _ ha hc]
    exact Std.TransCmp.eq_trans hab hbc
  congr ha hb hc hab := by
    rw [hs, h _ _ ha hb] at hab
    rw [h _ _ ha hc, h _ _ hb hc, h _ _ hc ha, h _ _ hc hb]
    exact ⟨Std.TransCmp.congr_left hab, Std.TransCmp.congr_right hab⟩

def comparePart (cmp : β → β → Ordering) (part : α → β) (a b : α) : Ordering :=
  cmp (part a) (part b)

instance (cmp : β → β → Ordering) (part : α → β) [Std.OrientedCmp cmp] :
    Std.OrientedCmp (comparePart cmp part) where
  eq_swap {a b} := by
    show cmp (part a) (part b) = (cmp (part b) (part a)).swap
    exact Std.OrientedCmp.eq_swap

instance (cmp : β → β → Ordering) (part : α → β) [Std.TransCmp cmp] :
    Std.TransCmp (comparePart cmp part) where
  isLE_trans {a b c} hab hbc := by
    show (cmp (part a) (part c)).isLE = true
    exact Std.TransCmp.isLE_trans hab hbc

end Laws

namespace Version

instance : Std.TransCmp compareWhole :=
  inferInstanceAs (Std.TransCmp
    (compareLex (compareOn fun n => (dropLeadingZeros n).utf8Length) (compareOn dropLeadingZeros)))

def fractionWeight (n : Text) : Nat := if n.startsWith ['0'] then 0 else n.utf8Length

def fractionDigits (n : Text) : Text := if n.startsWith ['0'] then dropTrailingZeros n else n

def fractionOrder : Text → Text → Ordering :=
  compareLex (compareOn fractionWeight) (compareOn fractionDigits)

instance : Std.TransCmp fractionOrder :=
  inferInstanceAs (Std.TransCmp (compareLex (compareOn fractionWeight) (compareOn fractionDigits)))

theorem startsWith_zero_cons (c : Char) (r : Text) :
    Text.startsWith (c :: r) ['0'] = (c == '0') := by
  simp [Text.startsWith, List.isPrefixOf, Bool.beq_comm]

theorem isNumeral_cons {n : Text} (h : isNumeral n = true) :
    ∃ c r, n = c :: r ∧ (c = '0' ∨ '0'.toNat < c.toNat) := by
  obtain ⟨hne, hd⟩ := isNumeral_iff.1 h
  cases n with
  | nil => exact absurd rfl hne
  | cons c r =>
    have hc := toNat_of_isDecimalDigit (List.all_eq_true.1 hd c (by simp))
    refine ⟨c, r, rfl, ?_⟩
    by_cases h0 : c.toNat = '0'.toNat
    · exact .inl (Char.toNat_inj.1 h0)
    · exact .inr (by
        have : '0'.toNat = 48 := rfl
        omega)

theorem utf8Length_pos (c : Char) (r : Text) : 0 < Text.utf8Length (c :: r) := by
  have := c.utf8Size_pos
  simp only [Text.utf8Length]
  omega

theorem dropTrailingZeros_cons (c : Char) (r : Text) :
    (∃ s, dropTrailingZeros (c :: r) = c :: s) ∨ dropTrailingZeros (c :: r) = [] ∧ c = '0' := by
  simpa [dropTrailingZeros] using Text.trimBackWhere_cons (· == '0') c r

theorem fraction_lt {d : Char} {r s : Text} (hd : '0'.toNat < d.toNat) :
    Ord.compare (dropTrailingZeros ('0' :: r)) (dropTrailingZeros (d :: s)) = .lt := by
  have hne : d ≠ '0' := by
    intro heq
    subst heq
    exact Nat.lt_irrefl _ hd
  obtain ⟨s', hs⟩ : ∃ s', dropTrailingZeros (d :: s) = d :: s' := by
    obtain h | ⟨_, h⟩ := dropTrailingZeros_cons d s
    · exact h
    · exact absurd h hne
  rw [hs]
  obtain ⟨r', hr⟩ | ⟨hr, _⟩ := dropTrailingZeros_cons '0' r
  · have hlt : Ord.compare '0' d = .lt := compareOfLessAndEq_eq_lt.2 hd
    rw [hr, List.compare_cons_cons, hlt]
    rfl
  · rw [hr, List.compare_nil_cons]

/-- Among numerals the two rules for those behind the first are one order: whatever starts with a
zero stands below whatever does not. -/
theorem compareFraction_eq {a b : Text} (ha : isNumeral a = true) (hb : isNumeral b = true) :
    compareFraction a b = fractionOrder a b := by
  obtain ⟨c, r, rfl, hc⟩ := isNumeral_cons ha
  obtain ⟨d, s, rfl, hd⟩ := isNumeral_cons hb
  by_cases hc0 : c = '0' <;> by_cases hd0 : d = '0'
  · simp [compareFraction, fractionOrder, compareLex, compareOn, fractionWeight, fractionDigits,
      startsWith_zero_cons, hc0, hd0]
  · subst hc0
    have hlt := fraction_lt (r := r) (s := s) (hd.resolve_left hd0)
    have hw : Ord.compare 0 (Text.utf8Length (d :: s)) = .lt :=
      Nat.compare_eq_lt.2 (utf8Length_pos d s)
    simp [compareFraction, fractionOrder, compareLex, compareOn, fractionWeight,
      startsWith_zero_cons, hd0, hw, hlt]
  · subst hd0
    have hlt := fraction_lt (r := s) (s := r) (hc.resolve_left hc0)
    have hw : Ord.compare (Text.utf8Length (c :: r)) 0 = .gt :=
      Nat.compare_eq_gt.2 (utf8Length_pos c r)
    simp [compareFraction, fractionOrder, compareLex, compareOn, fractionWeight,
      startsWith_zero_cons, hc0, hw, Std.OrientedCmp.gt_of_lt hlt]
  · simp [compareFraction, fractionOrder, compareLex, compareOn, fractionWeight, fractionDigits,
      startsWith_zero_cons, hc0, hd0, compareWhole, dropLeadingZeros]

theorem compareOthers_eq {as bs : List Text} (ha : ∀ n ∈ as, isNumeral n = true)
    (hb : ∀ n ∈ bs, isNumeral n = true) :
    compareOthers as bs = List.compareLex fractionOrder as bs := by
  induction as generalizing bs with
  | nil => cases bs <;> simp [compareOthers, List.compareLex]
  | cons a as ih =>
    cases bs with
    | nil => simp [compareOthers, List.compareLex]
    | cons b bs =>
      rw [compareOthers, List.compareLex_cons_cons,
        compareFraction_eq (ha a (by simp)) (hb b (by simp)),
        ih (fun n hn => ha n (by simp [hn])) fun n hn => hb n (by simp [hn])]

def markRank : Option Suffix → Nat
  | none => 4
  | some s => if s.kind = .patch then 5 else s.kind.rank

def markNumber (m : Option Suffix) : Text := m.elim [] Suffix.number

def markOrder : Option Suffix → Option Suffix → Ordering :=
  compareLex (compareOn markRank) (comparePart compareWhole markNumber)

instance : Std.TransCmp markOrder :=
  inferInstanceAs (Std.TransCmp
    (compareLex (compareOn markRank) (comparePart compareWhole markNumber)))

def marks (ss : List Suffix) : List (Option Suffix) := ss.map some ++ [none]

theorem compareSuffix_eq (a b : Suffix) : compareSuffix a b = markOrder (some a) (some b) := by
  obtain ⟨k, m⟩ := a
  obtain ⟨l, n⟩ := b
  cases k <;> cases l <;> rfl

theorem markOrder_none_some (s : Suffix) :
    markOrder none (some s) = if s.kind = .patch then .lt else .gt := by
  obtain ⟨k, n⟩ := s
  cases k <;> rfl

theorem markOrder_some_none (s : Suffix) :
    markOrder (some s) none = if s.kind = .patch then .gt else .lt := by
  obtain ⟨k, n⟩ := s
  cases k <;> rfl

/-- Suffix lists compare as the lists of their marks, of which none continues another. -/
theorem compareSuffixes_eq (as bs : List Suffix) :
    compareSuffixes as bs = List.compareLex markOrder (marks as) (marks bs) := by
  induction as generalizing bs with
  | nil =>
    cases bs with
    | nil => rfl
    | cons b bs =>
      rw [compareSuffixes, marks, marks, List.map_nil, List.nil_append, List.map_cons,
        List.cons_append, List.compareLex_cons_cons, markOrder_none_some]
      split <;> rfl
  | cons a as ih =>
    cases bs with
    | nil =>
      rw [compareSuffixes, marks, marks, List.map_nil, List.nil_append, List.map_cons,
        List.cons_append, List.compareLex_cons_cons, markOrder_some_none]
      split <;> rfl
    | cons b bs =>
      rw [compareSuffixes, compareSuffix_eq, ih, ← List.compareLex_cons_cons]
      rfl

def unrevisedOrder : Version → Version → Ordering :=
  compareLex (comparePart compareWhole first) <|
    compareLex (comparePart (List.compareLex fractionOrder) others) <|
    compareLex (compareOn fun v => v.letter.map Char.toNat) <|
    comparePart (List.compareLex markOrder) fun v => marks v.suffixes

instance : Std.TransCmp unrevisedOrder :=
  inferInstanceAs (Std.TransCmp (compareLex (comparePart compareWhole first) <|
    compareLex (comparePart (List.compareLex fractionOrder) others) <|
    compareLex (compareOn fun v => v.letter.map Char.toNat) <|
    comparePart (List.compareLex markOrder) fun v => marks v.suffixes))

def keyOrder : Version → Version → Ordering :=
  compareLex unrevisedOrder (comparePart compareWhole revision)

instance : Std.TransCmp keyOrder :=
  inferInstanceAs (Std.TransCmp (compareLex unrevisedOrder (comparePart compareWhole revision)))

theorem compareUnrevised_eq {v w : Version} (hv : v.Readable) (hw : w.Readable) :
    compareUnrevised v w = unrevisedOrder v w := by
  have hothers := compareOthers_eq
    (fun n hn => (readable_iff.1 hv).numbers n (List.mem_cons_of_mem _ hn))
    (fun n hn => (readable_iff.1 hw).numbers n (List.mem_cons_of_mem _ hn))
  rw [compareUnrevised, hothers, compareSuffixes_eq]
  rfl

theorem compare_eq {v w : Version} (hv : v.Readable) (hw : w.Readable) :
    compare v w = keyOrder v w := by
  rw [compare, compareUnrevised_eq hv hw]
  rfl

theorem sameAs_iff {v w : Version} : v.sameAs w = true ↔ compare v w = .eq := by
  simp [sameAs]

instance : Std.OrientedCmp compareFraction where
  eq_swap {a b} := by
    rw [compareFraction, compareFraction, Bool.or_comm]
    split
    · exact Std.OrientedCmp.eq_swap
    · exact Std.OrientedCmp.eq_swap

instance : Std.OrientedCmp compareOthers where
  eq_swap {as bs} := by
    induction as generalizing bs with
    | nil => cases bs <;> rfl
    | cons a as ih =>
      cases bs with
      | nil => rfl
      | cons b bs =>
        have hhead : compareFraction a b = (compareFraction b a).swap := Std.OrientedCmp.eq_swap
        rw [compareOthers, compareOthers, Ordering.swap_then, hhead, ih]

instance : Std.OrientedCmp compareSuffixes where
  eq_swap {as bs} := by
    rw [compareSuffixes_eq, compareSuffixes_eq]
    exact Std.OrientedCmp.eq_swap

instance : Std.OrientedCmp compareUnrevised :=
  inferInstanceAs (Std.OrientedCmp (compareLex (comparePart compareWhole first) <|
    compareLex (comparePart compareOthers others) <|
    compareLex (compareOn fun v => v.letter.map Char.toNat) <|
    comparePart compareSuffixes suffixes))

instance : Std.OrientedCmp compare :=
  inferInstanceAs
    (Std.OrientedCmp (compareLex compareUnrevised (comparePart compareWhole revision)))

end Version

namespace Cpv

def keyOrder : Cpv → Cpv → Ordering :=
  compareLex (compareLex (compareOn category) (compareOn name))
    (comparePart Version.keyOrder version)

instance : Std.TransCmp keyOrder :=
  inferInstanceAs (Std.TransCmp (compareLex (compareLex (compareOn category) (compareOn name))
    (comparePart Version.keyOrder version)))

theorem compare_eq {c d : Cpv} (hc : c.version.Readable) (hd : d.version.Readable) :
    compare c d = keyOrder c d := by
  rw [compare, Version.compare_eq hc hd]
  rfl

theorem sameAs_iff {c d : Cpv} : c.sameAs d = true ↔ compare c d = .eq := by
  simp only [sameAs, compare, PackageName.compare, package, Bool.and_eq_true, beq_iff_eq,
    Ordering.then_eq_eq, Std.LawfulEqOrd.compare_eq_iff_eq, Version.sameAs_iff]

theorem sameAs_self (c : Cpv) : c.sameAs c = true := by
  have hself : Version.compare c.version c.version = .eq := Std.ReflCmp.compare_self
  simp [sameAs, Version.sameAs_iff, hself]

end Cpv

/-- Versions that can be read are totally ordered up to sameness, with or without regard to
revisions, and so are the package versions that carry them. -/
theorem version_order_laws :
    TotalOrderOn Version.Readable Version.compare Version.sameAs ∧
    TotalPreorderOn Version.Readable Version.compareUnrevised ∧
    (∀ v w, Version.compare v w = .eq → Version.compareUnrevised v w = .eq) ∧
    TotalOrderOn (fun c : Cpv => c.version.Readable) Cpv.compare Cpv.sameAs := by
  refine ⟨?_, ?_, ?_, ?_⟩
  · exact .of_eq (fun _ _ => Version.compare_eq) fun _ _ => Version.sameAs_iff
  · exact .of_eq fun _ _ => Version.compareUnrevised_eq
  · intro v w h
    exact (Ordering.then_eq_eq.1 h).1
  · exact .of_eq (fun _ _ => Cpv.compare_eq) fun _ _ => Cpv.sameAs_iff

example : (["1.010", "1.02", "1.9", "1.10_rc1", "1.10", "1.10_p"].mapM
    fun t => Version.read? t.toList).any fun vs =>
      decide (vs.Pairwise fun v w => v.compare w = .lt) := by decide

end OverrideAudit
