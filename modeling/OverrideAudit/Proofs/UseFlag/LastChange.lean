import Mathlib.Data.List.Basic
import OverrideAudit.UseFlag

/-! What a list of change tokens makes of a set of flags: of the tokens that are about a flag the
last one decides, and tokens that change nothing when their turn comes can be left out. -/
namespace OverrideAudit

namespace UseChange

/-- Whether a change puts a flag on or off, if it is about the flag. -/
def sets? (flag : Text) : UseChange → Option Bool
  | clearAll => some false
  | clearGroup lead => if flag.startsWith lead then some false else none
  | enable f => if f = flag then some true else none
  | disable f => if f = flag then some false else none

theorem contains_apply (s : FlagSet) (c : UseChange) (flag : Text) :
    (c.apply s).contains flag = (c.sets? flag).getD (s.contains flag) := by
  cases c with
  | clearAll => rfl
  | clearGroup lead =>
    cases h : flag.startsWith lead <;>
      simp [apply, sets?, FlagSet.contains, FlagSet.eraseGroup, h]
  | enable f =>
    by_cases h : f = flag
    · simp [apply, sets?, FlagSet.contains, FlagSet.insert, h]
    · simp [apply, sets?, FlagSet.contains, FlagSet.insert, h, Ne.symm h]
  | disable f =>
    by_cases h : f = flag
    · simp [apply, sets?, FlagSet.contains, FlagSet.erase, h]
    · simp [apply, sets?, FlagSet.contains, FlagSet.erase, h, Ne.symm h]

end UseChange

/-- What the last token that is about a flag does to it. -/
def lastSetting? (tokens : List Text) (flag : Text) : Option Bool :=
  (tokens.filterMap fun token => (UseChange.read token).sets? flag).getLast?

theorem lastSetting?_cons (token : Text) (tokens : List Text) (flag : Text) :
    lastSetting? (token :: tokens) flag =
      (lastSetting? tokens flag).or ((UseChange.read token).sets? flag) := by
  cases h : (UseChange.read token).sets? flag with
  | none => simp [lastSetting?, h]
  | some on => simp [lastSetting?, h, List.getLast?_cons, Option.or_some]

namespace FlagSet
variable {s t : FlagSet} {tokens kept : List Text} {token flag : Text}

def stateAfter (s : FlagSet) (tokens : List Text) (flag : Text) : Bool :=
  (lastSetting? tokens flag).getD (s.contains flag)

theorem contains_applyAll (s : FlagSet) (tokens : List Text) (flag : Text) :
    (s.applyAll tokens).contains flag = s.stateAfter tokens flag := by
  induction tokens generalizing s with
  | nil => rfl
  | cons token tokens ih =>
    have hcons : s.applyAll (token :: tokens) =
        (UseChange.apply s (.read token)).applyAll tokens := rfl
    rw [hcons, ih, stateAfter, stateAfter, lastSetting?_cons, UseChange.contains_apply]
    cases lastSetting? tokens flag <;> rfl

theorem sameAs_iff : s.sameAs t = true ↔ ∀ flag, s.contains flag = t.contains flag := by
  rw [sameAs, Bool.and_eq_true, List.all_eq_true, List.all_eq_true]
  constructor
  · rintro ⟨hst, hts⟩ flag
    rw [Bool.eq_iff_iff]
    exact ⟨fun h => hst flag (List.contains_iff_mem.1 h),
      fun h => hts flag (List.contains_iff_mem.1 h)⟩
  · intro h
    refine ⟨fun flag hflag => ?_, fun flag hflag => ?_⟩
    · rw [← h]
      exact List.contains_iff_mem.2 hflag
    · rw [h]
      exact List.contains_iff_mem.2 hflag

theorem isUnchangedBy_iff :
    s.isUnchangedBy tokens = true ↔
      ∀ flag, ∀ on ∈ lastSetting? tokens flag, s.contains flag = on := by
  rw [isUnchangedBy, sameAs_iff]
  refine forall_congr' fun flag => ?_
  rw [contains_applyAll, stateAfter]
  cases h : lastSetting? tokens flag with
  | none => simp
  | some on => simp [eq_comm]

theorem mem_idleTokens_iff :
    token ∈ s.idleTokens tokens ↔ ∃ before after, tokens = before ++ token :: after ∧
      UseChange.isIdle (s.applyAll before) (.read token) = true := by
  induction tokens generalizing s with
  | nil => simp [idleTokens]
  | cons first tokens ih =>
    have hfirst : token ∈ s.idleTokens (first :: tokens) ↔
        token = first ∧ UseChange.isIdle s (.read first) = true ∨
          token ∈ (UseChange.apply s (.read first)).idleTokens tokens := by
      rw [idleTokens]
      split
      · next hidle => simp [hidle]
      · next hidle => simp [hidle]
    rw [hfirst, ih]
    constructor
    · rintro (⟨rfl, hidle⟩ | ⟨before, after, rfl, hidle⟩)
      · exact ⟨[], tokens, rfl, hidle⟩
      · exact ⟨first :: before, after, rfl, hidle⟩
    · rintro ⟨before, after, htokens, hidle⟩
      cases before with
      | nil =>
        obtain ⟨rfl, rfl⟩ := List.cons.inj htokens
        exact .inl ⟨rfl, hidle⟩
      | cons _ before =>
        obtain ⟨rfl, rfl⟩ := List.cons.inj htokens
        exact .inr ⟨before, after, rfl, hidle⟩

theorem isIdle_applyAll_iff (s : FlagSet) (tokens : List Text) (c : UseChange) :
    UseChange.isIdle (s.applyAll tokens) c = true ↔
      ∃ flag, c = .enable flag ∧ s.stateAfter tokens flag = true ∨
        c = .disable flag ∧ s.stateAfter tokens flag = false := by
  cases c <;> simp [UseChange.isIdle, contains_applyAll]

theorem stateAfter_congr (h : s.sameAs t = true) (tokens : List Text) (flag : Text) :
    s.stateAfter tokens flag = t.stateAfter tokens flag := by
  rw [stateAfter, stateAfter, sameAs_iff.1 h]

theorem isUnchangedBy_congr (h : s.sameAs t = true) :
    s.isUnchangedBy tokens = true ↔ t.isUnchangedBy tokens = true := by
  simp only [isUnchangedBy_iff, sameAs_iff.1 h]

theorem mem_idleTokens_congr (h : s.sameAs t = true) :
    token ∈ s.idleTokens tokens ↔ token ∈ t.idleTokens tokens := by
  simp only [mem_idleTokens_iff, isIdle_applyAll_iff, stateAfter_congr h]

/-- The last token about each flag decides: whether a list of tokens leaves a set as it is, and
which single tokens are idle when their turn comes. So a list changes nothing the second time. -/
theorem unchanged_iff_lastSetting (s : FlagSet) (tokens : List Text) :
    (s.isUnchangedBy tokens = true ↔
      ∀ flag, ∀ on ∈ lastSetting? tokens flag, s.contains flag = on) ∧
    (∀ token, token ∈ s.idleTokens tokens ↔
      ∃ before after, tokens = before ++ token :: after ∧
        ∃ flag, UseChange.read token = .enable flag ∧ s.stateAfter before flag = true ∨
          UseChange.read token = .disable flag ∧ s.stateAfter before flag = false) ∧
    (s.applyAll tokens).isUnchangedBy tokens = true := by
  refine ⟨isUnchangedBy_iff, fun token => ?_, ?_⟩
  · rw [mem_idleTokens_iff]
    simp only [isIdle_applyAll_iff]
  · rw [isUnchangedBy_iff]
    intro flag on hon
    rw [contains_applyAll, stateAfter, Option.mem_def.1 hon]
    rfl

example :
    let s : FlagSet := ⟨["g_a".toList, "b".toList]⟩
    let tokens := ["-g_*", "g_a", "+g_a", "-b", "b"].map String.toList
    s.isUnchangedBy tokens = true ∧ s.idleTokens tokens = ["+g_a".toList] := by decide

def Ignores (s : FlagSet) (token : Text) : Prop :=
  (UseChange.apply s (.read token)).sameAs s = true

theorem ignores_of_isIdle (h : UseChange.isIdle s (.read token) = true) : s.Ignores token := by
  rw [Ignores, sameAs_iff]
  intro flag
  rw [UseChange.contains_apply]
  cases hc : UseChange.read token with
  | clearAll | clearGroup => simp [hc, UseChange.isIdle] at h
  | enable f | disable f =>
    rw [hc, UseChange.isIdle] at h
    by_cases hf : f = flag
    · subst hf
      simp_all [UseChange.sets?]
    · simp [UseChange.sets?, hf]

/-- What is left of tokens when some are left out that change nothing when their turn comes. -/
inductive LeavesOut : FlagSet → List Text → List Text → Prop
  | nil {s : FlagSet} : LeavesOut s [] []
  | keep {s : FlagSet} {token : Text} {tokens kept : List Text} :
    LeavesOut (UseChange.apply s (.read token)) tokens kept →
      LeavesOut s (token :: tokens) (token :: kept)
  | pass {s : FlagSet} {token : Text} {tokens kept : List Text} :
    s.Ignores token → LeavesOut (UseChange.apply s (.read token)) tokens kept →
      LeavesOut s (token :: tokens) kept

theorem LeavesOut.contains_applyAll (h : LeavesOut s tokens kept) (flag : Text) :
    (s.applyAll kept).contains flag = (s.applyAll tokens).contains flag := by
  induction h with
  | nil => rfl
  | keep _ ih => exact ih
  | @pass s token tokens kept hignores _ ih =>
    calc
      _ = s.stateAfter kept flag := FlagSet.contains_applyAll ..
      _ = (UseChange.apply s (.read token)).stateAfter kept flag :=
        (stateAfter_congr hignores kept flag).symm
      _ = ((UseChange.apply s (.read token)).applyAll kept).contains flag :=
        (FlagSet.contains_applyAll ..).symm
      _ = _ := ih

theorem LeavesOut.sameAs_applyAll (h : LeavesOut s tokens kept) :
    (s.applyAll kept).sameAs (s.applyAll tokens) = true :=
  sameAs_iff.2 h.contains_applyAll

/-- Whether a token changes nothing wherever it stands in a list. -/
def IgnoresThroughout (s : FlagSet) (tokens : List Text) (token : Text) : Prop :=
  ∀ before after, tokens = before ++ token :: after → (s.applyAll before).Ignores token

theorem leavesOut_filter {keeps : Text → Bool}
    (h : ∀ token, keeps token = false → s.IgnoresThroughout tokens token) :
    LeavesOut s tokens (tokens.filter keeps) := by
  induction tokens generalizing s with
  | nil => exact .nil
  | cons first tokens ih =>
    have hlater := ih (s := UseChange.apply s (.read first)) fun token hout before after hsplit =>
      h token hout (first :: before) after (by rw [hsplit, List.cons_append])
    cases hfirst : keeps first with
    | true =>
      rw [List.filter_cons_of_pos hfirst]
      exact .keep hlater
    | false =>
      rw [List.filter_cons_of_neg (by simp [hfirst])]
      exact .pass (h first hfirst [] tokens rfl) hlater

theorem ignoresThroughout_of_count_eq_one (hcount : tokens.count token = 1)
    (htoken : token ∈ s.idleTokens tokens) : s.IgnoresThroughout tokens token := by
  obtain ⟨before, after, rfl, hidle⟩ := mem_idleTokens_iff.1 htoken
  intro before' after' hsplit
  have hcounts : before.count token = 0 ∧ after.count token = 0 := by
    rw [List.count_append, List.count_cons_self] at hcount
    omega
  obtain ⟨rfl, -⟩ := (List.append_cons_inj_of_notMem (List.count_eq_zero.1 hcounts.1)
    (List.count_eq_zero.1 hcounts.2)).1 hsplit
  exact ignores_of_isIdle hidle

end FlagSet
end OverrideAudit
