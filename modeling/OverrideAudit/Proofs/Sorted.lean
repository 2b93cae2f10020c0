import Mathlib.Data.List.Forall2
import OverrideAudit.Text.Basic
import OverrideAudit.Proofs.Version.TotalOrder

/-! Lists kept in order by insertion: they hold what was inserted, and a lawful comparison keeps
them ascending. Ascending lists of the same elements differ at most in the order of elements that
compare equal. -/
namespace OverrideAudit
variable {α : Type _} {cmp : α → α → Ordering} {P : α → Prop} {x : α} {xs ys : List α}

theorem perm_insertStable (cmp : α → α → Ordering) (x : α) (xs : List α) :
    (insertStable cmp x xs).Perm (x :: xs) := by
  induction xs with
  | nil => exact .refl _
  | cons y ys ih =>
    rw [insertStable]
    split
    · exact .refl _
    · exact (ih.cons y).trans (.swap x y ys)

theorem perm_foldl_insertStable (cmp : α → α → Ordering) (xs sorted : List α) :
    (xs.foldl (fun sorted x => insertStable cmp x sorted) sorted).Perm (sorted ++ xs) := by
  induction xs generalizing sorted with
  | nil => simp
  | cons x xs ih =>
    calc
      _ = xs.foldl (fun sorted x => insertStable cmp x sorted) (insertStable cmp x sorted) := rfl
      List.Perm _ (insertStable cmp x sorted ++ xs) := ih _
      List.Perm _ ((x :: sorted) ++ xs) := (perm_insertStable cmp x sorted).append_right xs
      List.Perm _ (sorted ++ x :: xs) := List.perm_middle.symm

theorem perm_sortStable (cmp : α → α → Ordering) (xs : List α) : (sortStable cmp xs).Perm xs :=
  perm_foldl_insertStable cmp xs []

def Ascending (cmp : α → α → Ordering) (xs : List α) : Prop :=
  xs.Pairwise fun a b => (cmp a b).isLE = true

theorem Ascending.insertStable (h : TotalPreorderOn P cmp) (hx : P x) (hxs : ∀ y ∈ xs, P y)
    (hs : Ascending cmp xs) : Ascending cmp (insertStable cmp x xs) := by
  induction xs with
  | nil => simp [OverrideAudit.insertStable, Ascending]
  | cons y ys ih =>
    obtain ⟨hy, hys⟩ := List.forall_mem_cons.1 hxs
    obtain ⟨hle, hs⟩ := List.pairwise_cons.1 hs
    rw [OverrideAudit.insertStable]
    split
    · next hlt =>
      have hxy : (cmp x y).isLE = true := by simp [hlt]
      refine List.pairwise_cons.2 ⟨?_, List.pairwise_cons.2 ⟨hle, hs⟩⟩
      intro z hz
      obtain rfl | hz := List.mem_cons.1 hz
      · exact hxy
      · exact h.le_trans hx hy (hys z hz) hxy (hle z hz)
    · next hge =>
      have hyx : (cmp y x).isLE = true := by
        rw [h.swap hx hy]
        cases hc : cmp x y <;> simp_all
      refine List.pairwise_cons.2 ⟨?_, ih hys hs⟩
      intro z hz
      obtain rfl | hz := List.mem_cons.1 ((perm_insertStable cmp x ys).mem_iff.1 hz)
      · exact hyx
      · exact hle z hz

theorem ascending_sortStable (h : TotalPreorderOn P cmp) (hxs : ∀ x ∈ xs, P x) :
    Ascending cmp (sortStable cmp xs) := by
  have hfold : ∀ sorted, (∀ y ∈ sorted, P y) → Ascending cmp sorted →
      Ascending cmp (xs.foldl (fun sorted x => insertStable cmp x sorted) sorted) := by
    induction xs with
    | nil => exact fun _ _ hs => hs
    | cons x xs ih =>
      intro sorted hsorted hs
      obtain ⟨hx, hxs⟩ := List.forall_mem_cons.1 hxs
      refine ih hxs _ ?_ (hs.insertStable h hx hsorted)
      intro y hy
      obtain rfl | hy := List.mem_cons.1 ((perm_insertStable cmp x sorted).mem_iff.1 hy)
      · exact hx
      · exact hsorted y hy
  exact hfold [] (by simp) .nil

theorem TotalPreorderOn.self {a : α} (h : TotalPreorderOn P cmp) (ha : P a) : cmp a a = .eq := by
  have hswap := h.swap ha ha
  cases hc : cmp a a <;> simp_all

theorem Ascending.le_getElem (hs : Ascending cmp xs) (hself : ∀ a ∈ xs, cmp a a = .eq) {i j : Nat}
    (hij : i ≤ j) (hj : j < xs.length) : (cmp xs[i] xs[j]).isLE = true := by
  obtain hlt | rfl := Nat.lt_or_eq_of_le hij
  · exact List.pairwise_iff_getElem.1 hs i j (by omega) hj hlt
  · simp [hself xs[i] (List.getElem_mem hj)]

/-- No element stands below the one at the same place of an ascending list of the same elements:
there would be more elements up to it in one list than in the other. -/
theorem not_lt_getElem (h : TotalPreorderOn P cmp) (hxs : ∀ x ∈ xs, P x)
    (hx : Ascending cmp xs) (hy : Ascending cmp ys) (hp : xs.Perm ys) {i : Nat}
    (hi : i < xs.length) (hi' : i < ys.length) : cmp xs[i] ys[i] ≠ .lt := by
  intro hlt
  have hys : ∀ y ∈ ys, P y := fun y hy => hxs y (hp.mem_iff.2 hy)
  have hPx := hxs _ (List.getElem_mem hi)
  let upTo (a : α) : Bool := (cmp a xs[i]).isLE
  have hmany : i + 1 ≤ xs.countP upTo := by
    have hall : (xs.take (i + 1)).countP upTo = (xs.take (i + 1)).length := by
      refine List.countP_eq_length.2 fun a ha => ?_
      obtain ⟨j, hj, rfl⟩ := List.getElem_of_mem ha
      rw [List.length_take] at hj
      simpa [upTo] using hx.le_getElem (fun a ha => h.self (hxs a ha)) (by omega) hi
    calc
      i + 1 = (xs.take (i + 1)).countP upTo := by rw [hall, List.length_take]; omega
      _ ≤ xs.countP upTo := (List.take_sublist _ _).countP_le
  have hfew : ys.countP upTo ≤ i := by
    have hnone : (ys.drop i).countP upTo = 0 := by
      refine List.countP_eq_zero.2 fun b hb hle => ?_
      obtain ⟨j, hj, rfl⟩ := List.getElem_of_mem hb
      rw [List.length_drop] at hj
      rw [List.getElem_drop] at hle
      have hPj := hys _ (List.getElem_mem (by omega : i + j < ys.length))
      have hPi := hys _ (List.getElem_mem hi')
      have hback : (cmp ys[i] xs[i]).isLE = true :=
        h.le_trans hPi hPj hPx
          (hy.le_getElem (fun a ha => h.self (hys a ha)) (by omega) (by omega)) hle
      rw [h.swap hPx hPi, hlt] at hback
      contradiction
    calc
      ys.countP upTo = (ys.take i).countP upTo + (ys.drop i).countP upTo := by
        rw [← List.countP_append, List.take_append_drop]
      _ ≤ i := by
        rw [hnone]
        exact Nat.le_trans List.countP_le_length (List.length_take_le _ _)
  rw [hp.countP_eq] at hmany
  omega

theorem forall₂_eq_of_perm (h : TotalPreorderOn P cmp) (hxs : ∀ x ∈ xs, P x)
    (hx : Ascending cmp xs) (hy : Ascending cmp ys) (hp : xs.Perm ys) :
    List.Forall₂ (fun a b => cmp a b = .eq) xs ys := by
  refine List.forall₂_iff_get.2 ⟨hp.length_eq, fun i hi hi' => ?_⟩
  have hys : ∀ y ∈ ys, P y := fun y hy => hxs y (hp.mem_iff.2 hy)
  have hlt := not_lt_getElem h hxs hx hy hp hi hi'
  have hgt := not_lt_getElem h hys hy hx hp.symm hi' hi
  rw [h.swap (hxs _ (List.getElem_mem hi)) (hys _ (List.getElem_mem hi'))] at hgt
  simp only [List.get_eq_getElem]
  cases hc : cmp xs[i] ys[i] <;> simp_all

theorem Ascending.le_last {last : α} (hs : Ascending cmp xs) (hself : ∀ a ∈ xs, cmp a a = .eq)
    (hlast : xs.getLast? = some last) (hx : x ∈ xs) : (cmp x last).isLE = true := by
  obtain ⟨i, hi, rfl⟩ := List.getElem_of_mem hx
  rw [List.getLast?_eq_getElem?, List.getElem?_eq_some_iff] at hlast
  obtain ⟨hlength, rfl⟩ := hlast
  exact hs.le_getElem hself (by omega) hlength

theorem last_gt_iff {y : α} (h : TotalPreorderOn P cmp) (hxs : ∀ a ∈ xs, P a) (hys : ∀ b ∈ ys, P b)
    (hsx : Ascending cmp xs) (hsy : Ascending cmp ys) (hx : xs.getLast? = some x)
    (hy : ys.getLast? = some y) :
    cmp x y = .gt ↔ ∃ a ∈ xs, ∀ b ∈ ys, cmp a b = .gt := by
  have hPx := hxs x (List.mem_of_getLast? hx)
  have hPy := hys y (List.mem_of_getLast? hy)
  constructor
  · intro hgt
    refine ⟨x, List.mem_of_getLast? hx, fun b hb => ?_⟩
    by_contra hnot
    have hby := hsy.le_last (fun b hb => h.self (hys b hb)) hy hb
    have hxy := h.le_trans hPx (hys b hb) hPy (Ordering.ne_gt_iff_isLE.1 hnot) hby
    rw [hgt] at hxy
    contradiction
  · rintro ⟨a, ha, hab⟩
    by_contra hnot
    have hax := hsx.le_last (fun a ha => h.self (hxs a ha)) hx ha
    have hay := h.le_trans (hxs a ha) hPx hPy hax (Ordering.ne_gt_iff_isLE.1 hnot)
    rw [hab y (List.mem_of_getLast? hy)] at hay
    contradiction

theorem filter_append_filter_not {p : α → Bool}
    (h : xs.Pairwise fun a b => p b = true → p a = true) :
    xs.filter p ++ xs.filter (fun a => !p a) = xs := by
  induction xs with
  | nil => rfl
  | cons x xs ih =>
    obtain ⟨hx, hxs⟩ := List.pairwise_cons.1 h
    cases hp : p x with
    | true =>
      rw [List.filter_cons_of_pos hp, List.filter_cons_of_neg (by simp [hp]), List.cons_append,
        ih hxs]
    | false =>
      have hnone : ∀ b ∈ x :: xs, p b = false := by
        intro b hb
        obtain rfl | hb := List.mem_cons.1 hb
        · exact hp
        · exact Bool.eq_false_iff.2 fun hpb => by simp [hx b hb hpb] at hp
      rw [List.filter_eq_nil_iff.2 fun b hb => by simp [hnone b hb],
        List.filter_eq_self.2 fun b hb => by simp [hnone b hb], List.nil_append]

/-- Whether a list passes a threshold: what stands below comes first, then what is level with it,
then what stands above. -/
def Passes (stand : α → Ordering) (xs : List α) : Prop :=
  xs.Pairwise fun a b => (stand b = .lt → stand a = .lt) ∧ (stand a = .gt → stand b = .gt)

theorem Ascending.passes {β : Type _} {key : β → α} {bs : List β} (h : TotalPreorderOn P cmp)
    (hbs : ∀ b ∈ bs, P (key b)) (hx : P x) (hs : Ascending (comparePart cmp key) bs) :
    Passes (fun b => cmp (key b) x) bs := by
  refine hs.imp_of_mem fun {a b} ha hb hle => ?_
  have ha := hbs a ha
  have hb := hbs b hb
  refine ⟨fun (hlt : cmp (key b) x = .lt) => ?_, fun (hgt : cmp (key a) x = .gt) => ?_⟩
  · by_contra (hnot : cmp (key a) x ≠ .lt)
    have hxa : (cmp x (key a)).isLE = true := by
      rw [h.swap ha hx]
      cases hc : cmp (key a) x <;> simp_all
    have hxb := h.le_trans hx ha hb hxa hle
    rw [h.swap hb hx, hlt] at hxb
    contradiction
  · by_contra (hnot : cmp (key b) x ≠ .gt)
    have hax := h.le_trans ha hb hx hle (Ordering.ne_gt_iff_isLE.1 hnot)
    rw [hgt] at hax
    contradiction

section
variable {stand : α → Ordering}

theorem Passes.below (h : Passes stand xs) :
    xs.filter (stand · == .lt) ++ xs.filter (stand · != .lt) = xs :=
  filter_append_filter_not (h.imp fun hab => by simpa using hab.1)

theorem Passes.notBelow (h : Passes stand xs) :
    xs.filter (stand · != .lt) = xs.filter (stand · == .eq) ++ xs.filter (stand · == .gt) := by
  have hcut : Passes stand (xs.filter (stand · != .lt)) := h.filter _
  have hparts := filter_append_filter_not (p := (stand · != .gt))
    (hcut.imp fun {a b} hab => by simpa using mt hab.2)
  rw [← hparts, List.filter_filter, List.filter_filter]
  congr 1
  · refine List.filter_congr fun a _ => ?_
    cases stand a <;> rfl
  · refine List.filter_congr fun a _ => ?_
    cases stand a <;> rfl

theorem Passes.parts (h : Passes stand xs) :
    xs.filter (stand · == .lt) ++ xs.filter (stand · == .eq) ++ xs.filter (stand · == .gt) =
      xs := by
  rw [List.append_assoc, ← h.notBelow, h.below]

theorem Passes.notAbove (h : Passes stand xs) :
    xs.filter (stand · != .gt) = xs.filter (stand · == .lt) ++ xs.filter (stand · == .eq) := by
  have hcut : Passes stand (xs.filter (stand · != .gt)) := h.filter _
  rw [← hcut.below, List.filter_filter, List.filter_filter]
  congr 1
  · refine List.filter_congr fun a _ => ?_
    cases stand a <;> rfl
  · refine List.filter_congr fun a _ => ?_
    cases stand a <;> rfl

end

theorem mem_insertDistinct [Std.LawfulEqCmp cmp] {z : α} :
    z ∈ insertDistinct cmp x xs ↔ z = x ∨ z ∈ xs := by
  induction xs with
  | nil => simp [insertDistinct]
  | cons y ys ih =>
    rw [insertDistinct]
    split
    · simp
    · next heq =>
      obtain rfl := Std.LawfulEqCmp.eq_of_compare heq
      simp
    · simp only [List.mem_cons, ih, or_left_comm]

theorem mem_sortDistinct [Std.LawfulEqCmp cmp] {z : α} : z ∈ sortDistinct cmp xs ↔ z ∈ xs := by
  have hfold : ∀ sorted, z ∈ xs.foldl (fun sorted x => insertDistinct cmp x sorted) sorted ↔
      z ∈ sorted ∨ z ∈ xs := by
    induction xs with
    | nil => simp
    | cons x xs ih =>
      intro sorted
      rw [List.foldl_cons, ih, mem_insertDistinct, List.mem_cons, or_assoc, or_left_comm]
  simpa [sortDistinct] using hfold []

theorem insertDistinct_ascends [Std.TransCmp cmp] [Std.LawfulEqCmp cmp]
    (hs : xs.Pairwise (cmp · · = .lt)) : (insertDistinct cmp x xs).Pairwise (cmp · · = .lt) := by
  induction xs with
  | nil => simp [insertDistinct]
  | cons y ys ih =>
    obtain ⟨hlt, hys⟩ := List.pairwise_cons.1 hs
    rw [insertDistinct]
    split
    · next hxy =>
      refine List.pairwise_cons.2 ⟨fun z hz => ?_, hs⟩
      obtain rfl | hz := List.mem_cons.1 hz
      · exact hxy
      · exact Std.TransCmp.lt_trans hxy (hlt z hz)
    · exact hs
    · next hxy =>
      refine List.pairwise_cons.2 ⟨fun z hz => ?_, ih hys⟩
      obtain rfl | hz := mem_insertDistinct.1 hz
      · exact Std.OrientedCmp.lt_of_gt hxy
      · exact hlt z hz

theorem sortDistinct_ascends [Std.TransCmp cmp] [Std.LawfulEqCmp cmp] (xs : List α) :
    (sortDistinct cmp xs).Pairwise (cmp · · = .lt) := by
  have hfold : ∀ sorted : List α, sorted.Pairwise (cmp · · = .lt) →
      (xs.foldl (fun sorted x => insertDistinct cmp x sorted) sorted).Pairwise (cmp · · = .lt) := by
    induction xs with
    | nil => exact fun _ hs => hs
    | cons x xs ih => exact fun sorted hs => ih _ (insertDistinct_ascends hs)
  exact hfold [] .nil

theorem eq_of_ascending [Std.OrientedCmp cmp] (hxs : xs.Pairwise (cmp · · = .lt))
    (hys : ys.Pairwise (cmp · · = .lt)) (h : ∀ z, z ∈ xs ↔ z ∈ ys) : xs = ys := by
  have hnodup : ∀ {zs : List α}, zs.Pairwise (cmp · · = .lt) → zs.Nodup := by
    intro zs hzs
    refine hzs.imp ?_
    rintro z _ hlt rfl
    simp [Std.ReflCmp.compare_self] at hlt
  have hperm := (List.perm_ext_iff_of_nodup (hnodup hxs) (hnodup hys)).2 h
  refine hperm.eq_of_pairwise (fun a b _ _ hab hba => ?_) hxs hys
  exact absurd hba (Std.OrientedCmp.not_lt_of_lt hab)

theorem sortDistinct_congr [Std.TransCmp cmp] [Std.LawfulEqCmp cmp] (h : ∀ z, z ∈ xs ↔ z ∈ ys) :
    sortDistinct cmp xs = sortDistinct cmp ys :=
  eq_of_ascending (sortDistinct_ascends xs) (sortDistinct_ascends ys) fun z => by
    rw [mem_sortDistinct, mem_sortDistinct, h]

end OverrideAudit
