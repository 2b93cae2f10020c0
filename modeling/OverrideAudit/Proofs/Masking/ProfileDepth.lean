import Mathlib.Data.Nat.Digits.Lemmas
import OverrideAudit.Proofs.FileTree.Canonical
import OverrideAudit.Proofs.Masking.ProfileSearch

/-! The order of a profile and its ancestors. A search ends, as it enters a profile under different
paths only and there are not so many that are short enough; and the order has each of them once,
behind its parents. -/
namespace OverrideAudit

open Relation (ReflTransGen TransGen)

namespace Text

def code (t : Text) : Nat := Nat.ofDigits 0x110001 (t.map (·.toNat + 1))

theorem digit_lt {t : Text} {k : Nat} (h : k ∈ t.map (·.toNat + 1)) : k < 0x110001 := by
  obtain ⟨c, _, rfl⟩ := List.mem_map.1 h
  have hvalid : c.toNat < 0xd800 ∨ 0xdfff < c.toNat ∧ c.toNat < 0x110000 := c.valid
  omega

theorem code_injective : Function.Injective code := by
  have hdigits : ∀ t : Text, Nat.digits 0x110001 t.code = t.map (·.toNat + 1) := by
    intro t
    refine Nat.digits_ofDigits _ (by decide) _ (fun _ => digit_lt) fun hne => ?_
    obtain ⟨c, _, hlast⟩ := List.mem_map.1 (List.getLast_mem hne)
    rw [← hlast]
    exact Nat.succ_ne_zero _
  intro s t h
  have hmap : s.map (·.toNat + 1) = t.map (·.toNat + 1) := by rw [← hdigits s, h, hdigits t]
  refine List.map_injective_iff.2 (fun c d hcd => ?_) hmap
  exact Char.toNat_inj.1 (Nat.succ.inj hcd)

/-- There are no more texts of so few bytes than numerals of so few digits. -/
theorem length_le_of_short {ts : List Text} {n : Nat} (hnodup : ts.Nodup)
    (hshort : ∀ t ∈ ts, t.utf8Length ≤ n) : ts.length ≤ 0x110001 ^ n := by
  have hcodes : ts.map code ⊆ List.range (0x110001 ^ n) := by
    intro k hk
    obtain ⟨t, ht, rfl⟩ := List.mem_map.1 hk
    have hlength : (t.map (·.toNat + 1)).length ≤ n := by
      rw [List.length_map]
      exact (length_le_utf8Length t).trans (hshort t ht)
    rw [List.mem_range]
    calc
      t.code < 0x110001 ^ (t.map (·.toNat + 1)).length :=
        Nat.ofDigits_lt_base_pow_length (by decide) fun _ => digit_lt
      _ ≤ 0x110001 ^ n := Nat.pow_le_pow_right (by decide) hlength
  simpa using (List.subperm_of_subset (hnodup.map code_injective) hcodes).length_le

end Text

theorem Logged.bind_congr {α β : Type} {x : Logged α} {f g : α → Logged β}
    (h : f x.value = g x.value) : x >>= f = x >>= g :=
  Logged.ext (by simp [h]) (by simp [h])

namespace FileTree
variable {tree : FileTree} {path : Text} {paths : List Text} {s t : ProfileSearch}

theorem fits_of_isFolder (h : tree.isFolder path = true) : path.utf8Length ≤ Path.pathLimit := by
  rw [isFolder, find, resolve, arrive] at h
  cases hfits : Path.fits path with
  | true => exact of_decide_eq_true hfits
  | false =>
    rw [hfits] at h
    cases hnul : path.contains '\x00' with
    | true =>
      rw [hnul] at h
      contradiction
    | false =>
      rw [hnul] at h
      contradiction

theorem profileKey_short (h : tree.isFolder path = true) :
    (tree.profileKey path).utf8Length ≤ tree.longestKey := by
  rw [profileKey, longestKey]
  cases hcanonical : tree.canonicalPath path with
  | ok canonical => exact utf8Length_canonicalPath hcanonical
  | error fault => exact (fits_of_isFolder h).trans (Nat.le_max_left ..)

def isShort (tree : FileTree) (key : Text) : Bool := key.utf8Length ≤ tree.longestKey

/-- A search that may go so much deeper: the profiles left to be entered are fewer than that. -/
structure HasRoom (tree : FileTree) (depth : Nat) (s : ProfileSearch) : Prop where
  distinct : Path.Distinct s.seen
  room : 0x110001 ^ tree.longestKey < s.seen.countP tree.isShort + depth

theorem not_hasRoom_zero : ¬tree.HasRoom 0 s := by
  intro h
  have hnodup : (s.seen.filter tree.isShort).Nodup := h.distinct.nodup.filter _
  have hlength := Text.length_le_of_short hnodup fun t ht =>
    of_decide_eq_true (List.mem_filter.1 ht).2
  have hroom := h.room
  rw [List.countP_eq_length_filter] at hroom
  omega

theorem HasRoom.grow {depth : Nat} {es ls : List Text} (h : tree.HasRoom depth s)
    (hgrows : s.Grows t es ls) : tree.HasRoom depth t where
  distinct := hgrows.distinct h.distinct
  room := by
    have hcount := hgrows.seen_suffix.sublist.countP_le (p := tree.isShort)
    have hroom := h.room
    omega

theorem HasRoom.enter {depth : Nat} {key : Text} (h : tree.HasRoom (depth + 1) s)
    (hshort : tree.isShort key = true) (hnew : s.seen.any (Path.sameAs key) = false) :
    tree.HasRoom depth { s with seen := key :: s.seen } where
  distinct := Path.distinct_cons_iff.2 ⟨hnew, h.distinct⟩
  room := by
    have hroom := h.room
    rw [List.countP_cons_of_pos hshort]
    omega

section
variable {visit : Text → ProfileSearch → Logged (Except FileFault ProfileSearch)} {depth : Nat}

/-- While there is room, it does not count what is there beyond the depth of a search. -/
theorem visitParents_eq (hvisit : ∀ path s, tree.isFolder path = true → tree.HasRoom depth s →
      visit path s = tree.visitProfile depth path s) (hs : tree.HasRoom depth s) :
    tree.visitParents visit paths s = tree.visitParents (tree.visitProfile depth) paths s := by
  induction paths generalizing s with
  | nil => rfl
  | cons path paths ih =>
    rw [visitParents, visitParents]
    cases hfolder : tree.isFolder path with
    | false =>
      rw [if_neg Bool.false_ne_true, if_neg Bool.false_ne_true, ih hs]
    | true =>
      rw [if_pos rfl, if_pos rfl, hvisit path s hfolder hs]
      refine Logged.bind_congr ?_
      cases hu : (tree.visitProfile depth path s).value with
      | error fault => rfl
      | ok u =>
        obtain ⟨es, ls, hgrows⟩ := visitProfile_grows hu
        exact ih (hs.grow hgrows)

theorem enterProfile_eq (hvisit : ∀ path s, tree.isFolder path = true → tree.HasRoom depth s →
      visit path s = tree.visitProfile depth path s)
    (hs : s.seen.any (Path.sameAs (tree.profileKey path)) = false →
      tree.HasRoom depth { s with seen := tree.profileKey path :: s.seen }) :
    tree.enterProfile visit path s = tree.visitProfile (depth + 1) path s := by
  show _ = tree.enterProfile (tree.visitProfile depth) path s
  simp only [enterProfile]
  cases hseen : s.seen.any (Path.sameAs (tree.profileKey path)) with
  | true => rfl
  | false =>
    rw [if_neg Bool.false_ne_true, if_neg Bool.false_ne_true]
    cases tree.parentPaths (tree.profileKey path) with
    | error fault => rfl
    | ok parents =>
      dsimp only
      rw [visitParents_eq hvisit (hs hseen)]

end

theorem iterate_enterProfile_eq
    (beyond : Text → ProfileSearch → Logged (Except FileFault ProfileSearch)) (depth : Nat)
    (hfolder : tree.isFolder path = true) (hs : tree.HasRoom depth s) :
    tree.enterProfile^[depth] beyond path s = tree.visitProfile depth path s := by
  induction depth generalizing path s with
  | zero => exact absurd hs not_hasRoom_zero
  | succ depth ih =>
    rw [Function.iterate_succ_apply']
    exact enterProfile_eq (fun path s hfolder hs => ih hfolder hs)
      (hs.enter (decide_eq_true (profileKey_short hfolder)))

theorem iterate_enterProfile_start
    (beyond : Text → ProfileSearch → Logged (Except FileFault ProfileSearch)) (path : Text)
    {depth : Nat} (hdepth : tree.profileDepth ≤ depth) :
    tree.enterProfile^[depth] beyond path ⟨[], []⟩ =
      tree.visitProfile tree.profileDepth path ⟨[], []⟩ := by
  obtain ⟨more, rfl⟩ := Nat.exists_eq_add_of_le hdepth
  rw [Function.iterate_add_apply, profileDepth, Function.iterate_succ_apply']
  refine enterProfile_eq (fun path s hfolder hs => iterate_enterProfile_eq _ _ hfolder hs) ?_
  intro hnew
  refine ⟨Path.distinct_cons_iff.2 ⟨hnew, .nil⟩, ?_⟩
  rw [Nat.pow_eq]
  omega

end FileTree
end OverrideAudit
