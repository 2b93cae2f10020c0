import OverrideAudit.Text.LowerCase
import OverrideAudit.Text.Basic

/-! What lower case does not bring into a text: a blank or a sign that stands in it stood there
before. -/
namespace OverrideAudit

def isMark (c : Char) : Bool := isBlank c || c == '+' || c == '-'

def IsMarkCode (n : Nat) : Prop :=
  0 < n ∧ n < 0x61 ∨ n = 0x85 ∨ n = 0xA0 ∨ n = 0x1680 ∨ 0x2000 ≤ n ∧ n ≤ 0x205F ∨ n = 0x3000

theorem isMarkCode_of_isMark {c : Char} (h : isMark c = true) : IsMarkCode c.toNat := by
  simp only [isMark, isBlank, isBlankCode, Bool.or_eq_true, Bool.and_eq_true, decide_eq_true_eq,
    beq_iff_eq] at h
  rw [IsMarkCode]
  rcases h with (h | rfl) | rfl
  · omega
  · decide
  · decide

theorem isMarkCode_of_isMark_ofNat {n : Nat} (h : isMark (Char.ofNat n) = true) :
    IsMarkCode n := by
  have hcode := isMarkCode_of_isMark h
  by_cases hvalid : n.isValidChar
  · rw [Char.ofNat, dif_pos hvalid] at hcode
    exact hcode
  · rw [Char.ofNat, dif_neg hvalid] at hcode
    exact absurd hcode (by simp [IsMarkCode, Char.toNat])

/-- The small letters of a run of capitals lie in a gap between blanks and signs. -/
theorem capitalRuns_in_gaps :
    ∀ run ∈ capitalRuns,
      0x61 ≤ run.first + run.shift ∧ run.last + run.shift < 0x85 ∨
      0xA0 < run.first + run.shift ∧ run.last + run.shift < 0x1680 ∨
      0x1680 < run.first + run.shift ∧ run.last + run.shift < 0x2000 ∨
      0x205F < run.first + run.shift ∧ run.last + run.shift < 0x3000 ∨
      0x3000 < run.first + run.shift := by
  decide +kernel

theorem lowerChar_of_isMark {c : Char} (h : isMark (lowerChar c) = true) : lowerChar c = c := by
  have ascii : ∀ n < 128, isMark (Char.ofNat n).toLower = true →
      (Char.ofNat n).toLower = Char.ofNat n := by decide +kernel
  rw [lowerChar] at h ⊢
  split
  · next hc =>
    rw [if_pos hc] at h
    have hsmall := ascii c.toNat hc
    rw [Char.ofNat_toNat] at hsmall
    exact hsmall h
  · next hc =>
    rw [if_neg hc] at h
    split
    · next run hrun =>
      simp only [hrun] at h
      have hcode : IsMarkCode (c.toNat + run.shift).toNat := isMarkCode_of_isMark_ofNat h
      have hgap := capitalRuns_in_gaps run (List.mem_of_find?_eq_some hrun)
      have hhas := List.find?_some hrun
      simp only [CapitalRun.has, Bool.and_eq_true, decide_eq_true_eq] at hhas
      rw [IsMarkCode] at hcode
      omega
    · rfl

theorem eq_of_mem_lowerAmong {before behind : Text} {c d : Char}
    (h : d ∈ lowerAmong before c behind) (hd : isMark d = true) : d = c := by
  rw [lowerAmong] at h
  split at h
  · split at h <;> obtain rfl := List.mem_singleton.1 h <;> exact absurd hd (by decide)
  · split at h
    · obtain rfl | rfl : d = 'i' ∨ d = '\u0307' := by simpa using h
      · exact absurd hd (by decide)
      · exact absurd hd (by decide)
    · obtain rfl := List.mem_singleton.1 h
      exact lowerChar_of_isMark hd

theorem lowerAmong_ne_nil (before : Text) (c : Char) (behind : Text) :
    lowerAmong before c behind ≠ [] := by
  rw [lowerAmong]
  split
  · simp
  · split <;> simp

namespace Text
variable {t : Text} {d : Char}

theorem mem_of_mem_lowerBehind {before : Text} (h : d ∈ lowerBehind before t)
    (hd : isMark d = true) : d ∈ t := by
  induction t generalizing before with
  | nil => exact h
  | cons c r ih =>
    obtain h | h := List.mem_append.1 h
    · rw [eq_of_mem_lowerAmong h hd]
      exact List.mem_cons_self
    · exact List.mem_cons_of_mem c (ih h)

theorem mem_of_mem_lower (h : d ∈ t.lower) (hd : isMark d = true) : d ∈ t :=
  mem_of_mem_lowerBehind h hd

theorem head?_of_head?_lower (h : d ∈ t.lower.head?) (hd : isMark d = true) : d ∈ t.head? := by
  cases t with
  | nil => exact h
  | cons c r =>
    have hne := lowerAmong_ne_nil [] c r
    have hhead : d ∈ (lowerAmong [] c r).head? := by
      rw [lower, lowerBehind, List.head?_append] at h
      simpa [List.head?_eq_some_head hne] using h
    rw [eq_of_mem_lowerAmong (List.mem_of_mem_head? hhead) hd]
    rfl

end Text
end OverrideAudit
