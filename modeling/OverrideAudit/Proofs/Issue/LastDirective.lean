import Mathlib.Data.List.Induction
import OverrideAudit.Issue.Code

/-! Which issues are enabled after directives, each of which may fail: the last directive decides
that succeeds and has a pattern for the issue, and one that fails changes nothing. -/
namespace OverrideAudit

variable {reader : PatternReader} {i : IssueCode} {e : EnabledIssues} {d : Directive}

theorem codesMatching_cons {t : Text} {holds : IssueCode → Bool} (ts : List Text)
    (h : reader t = .ok holds) :
    (codesMatching reader (t :: ts)).value =
      (codesMatching reader ts).value.map (IssueCode.all.filter holds ++ ·) := by
  simp only [codesMatching, h]
  split <;> rfl

theorem codesMatching_eq_error_iff {ts : List Text} :
    (∃ fault, (codesMatching reader ts).value = .error fault) ↔
      ∃ t ∈ ts, ∃ fault, reader t = .error fault := by
  induction ts with
  | nil => simp [codesMatching]
  | cons t ts ih =>
    cases ht : reader t with
    | error fault => simp [codesMatching, ht]
    | ok holds =>
      have htail : (∃ fault, (codesMatching reader (t :: ts)).value = .error fault) ↔
          ∃ fault, (codesMatching reader ts).value = .error fault := by
        rw [codesMatching_cons ts ht]
        cases (codesMatching reader ts).value <;> simp [Except.map]
      simp [htail, ih, ht]

theorem mem_codesMatching_iff {ts : List Text} {codes : List IssueCode}
    (h : (codesMatching reader ts).value = .ok codes) :
    i ∈ codes ↔ i ∈ IssueCode.all ∧ ∃ t ∈ ts, ∃ holds, reader t = .ok holds ∧ holds i = true := by
  induction ts generalizing codes with
  | nil =>
    obtain rfl : [] = codes := Except.ok.inj h
    simp
  | cons t ts ih =>
    cases ht : reader t with
    | error fault => simp [codesMatching, ht] at h
    | ok holds =>
      rw [codesMatching_cons ts ht] at h
      cases hts : (codesMatching reader ts).value with
      | error fault =>
        rw [hts] at h
        contradiction
      | ok later =>
        rw [hts] at h
        obtain rfl : IssueCode.all.filter holds ++ later = codes := Except.ok.inj h
        simp [ih hts, ht, and_or_left]

namespace Directive

def succeeds (reader : PatternReader) (d : Directive) : Bool :=
  (patternTexts d.patterns).all fun t => (reader t).toBool

def concerns (reader : PatternReader) (d : Directive) (i : IssueCode) : Bool :=
  (patternTexts d.patterns).any fun t => (reader t).toOption.any (· i)

def decides (reader : PatternReader) (d : Directive) (i : IssueCode) : Bool :=
  d.succeeds reader && d.concerns reader i

theorem concerns_iff :
    d.concerns reader i = true ↔
      ∃ t ∈ patternTexts d.patterns, ∃ holds, reader t = .ok holds ∧ holds i = true := by
  rw [concerns, List.any_eq_true]
  refine exists_congr fun t => and_congr_right fun _ => ?_
  cases reader t <;> simp [Except.toOption]

theorem succeeds_eq_false_iff :
    d.succeeds reader = false ↔
      ∃ t ∈ patternTexts d.patterns, ∃ fault, reader t = .error fault := by
  rw [succeeds, List.all_eq_false]
  refine exists_congr fun t => and_congr_right fun _ => ?_
  cases reader t <;> simp [Except.toBool]

end Directive

namespace EnabledIssues

theorem obey_of_error {fault : IssueFault}
    (h : (codesMatching reader (patternTexts d.patterns)).value = .error fault) :
    (e.obey reader d).value = (.error fault, e) := by
  simp [obey, h]

theorem obey_of_ok {codes : List IssueCode}
    (h : (codesMatching reader (patternTexts d.patterns)).value = .ok codes) :
    (e.obey reader d).value = (.ok (), e.change codes d) := by
  simp [obey, h]

theorem obey_eq_error_iff :
    (∃ fault, (e.obey reader d).value.1 = .error fault) ↔
      ∃ t ∈ patternTexts d.patterns, ∃ fault, reader t = .error fault := by
  rw [← codesMatching_eq_error_iff]
  cases h : (codesMatching reader (patternTexts d.patterns)).value with
  | error fault => simp [obey_of_error h]
  | ok codes => simp [obey_of_ok h]

theorem obey_unchanged {fault : IssueFault} (h : (e.obey reader d).value.1 = .error fault) :
    (e.obey reader d).value.2 = e := by
  cases hcodes : (codesMatching reader (patternTexts d.patterns)).value with
  | error fault => rw [obey_of_error hcodes]
  | ok codes =>
    rw [obey_of_ok hcodes] at h
    contradiction

theorem has_change (codes : List IssueCode) :
    (e.change codes d).has i = if i ∈ codes then d.isEnable else e.has i := by
  cases d <;> by_cases h : i ∈ codes <;> simp [change, has, Directive.isEnable, h]

theorem has_obey (hi : i ∈ IssueCode.all) :
    (e.obey reader d).value.2.has i =
      if d.decides reader i then d.isEnable else e.has i := by
  cases h : (codesMatching reader (patternTexts d.patterns)).value with
  | error fault =>
    have hfails : d.succeeds reader = false :=
      Directive.succeeds_eq_false_iff.2 (codesMatching_eq_error_iff.1 ⟨fault, h⟩)
    simp [obey_of_error h, Directive.decides, hfails]
  | ok codes =>
    have hsucceeds : d.succeeds reader = true := by
      rw [← Bool.not_eq_false, Directive.succeeds_eq_false_iff, ← codesMatching_eq_error_iff, h]
      simp
    have hmem : i ∈ codes ↔ d.concerns reader i = true := by
      rw [mem_codesMatching_iff h, Directive.concerns_iff]
      exact and_iff_right hi
    simp only [obey_of_ok h, has_change, hmem, Directive.decides, hsucceeds, Bool.true_and]

theorem has_obey_of_not_mem (hi : i ∉ IssueCode.all) :
    (e.obey reader d).value.2.has i = e.has i := by
  cases h : (codesMatching reader (patternTexts d.patterns)).value with
  | error fault => rw [obey_of_error h]
  | ok codes =>
    have hcodes : i ∉ codes := fun hm => hi ((mem_codesMatching_iff h).1 hm).1
    rw [obey_of_ok h, has_change, if_neg hcodes]

/-- The set after directives, whether they succeed or fail. -/
def after (reader : PatternReader) (e : EnabledIssues) (ds : List Directive) : EnabledIssues :=
  ds.foldl (fun e d => (e.obey reader d).value.2) e

theorem after_concat (ds : List Directive) :
    e.after reader (ds ++ [d]) = ((e.after reader ds).obey reader d).value.2 := by
  simp [after]

theorem has_after (hi : i ∈ IssueCode.all) (ds : List Directive) :
    (e.after reader ds).has i =
      ((ds.filter (·.decides reader i)).getLast?).elim (e.has i) Directive.isEnable := by
  induction ds using List.reverseRecOn with
  | nil => rfl
  | append_singleton ds d ih =>
    rw [after_concat, has_obey hi, ih, List.filter_append]
    cases hd : d.decides reader i <;> simp [hd]

theorem has_after_of_not_mem (hi : i ∉ IssueCode.all) (ds : List Directive) :
    (e.after reader ds).has i = e.has i := by
  induction ds using List.reverseRecOn with
  | nil => rfl
  | append_singleton ds d ih => rw [after_concat, has_obey_of_not_mem hi, ih]

/-- A directive fails exactly if one of its texts is no pattern, and then the set is as before. An
issue is enabled exactly if the last directive that succeeds and has a pattern for it enables, or
there is none. -/
theorem has_after_iff_lastDirective (reader : PatternReader) :
    (∀ (e : EnabledIssues) (d : Directive),
      ((∃ fault, (e.obey reader d).value.1 = .error fault) ↔
        ∃ t ∈ patternTexts d.patterns, ∃ fault, reader t = .error fault) ∧
      ∀ fault, (e.obey reader d).value.1 = .error fault → (e.obey reader d).value.2 = e) ∧
    ∀ (ds : List Directive) (i : IssueCode),
      (all.after reader ds).has i = true ↔ i ∈ IssueCode.all ∧
        ((ds.filter (·.decides reader i)).getLast?).all Directive.isEnable = true := by
  refine ⟨fun e d => ⟨obey_eq_error_iff, fun fault => obey_unchanged⟩, fun ds i => ?_⟩
  by_cases hi : i ∈ IssueCode.all
  · have hall : all.has i = true := by simpa [has, all] using hi
    rw [has_after hi, and_iff_right hi, hall]
    cases (ds.filter (·.decides reader i)).getLast? <;> simp
  · have hall : all.has i = false := by simpa [has, all] using hi
    simp [has_after_of_not_mem hi, hall, hi]

example :
    let ds : List Directive := [.disable " *.iuse ,,mask.exists".toList, .enable "*.iuse,[".toList]
    let e := all.after Pattern.reader ds
    IssueCode.all.filter (fun i => !e.has i) = [⟨.mask, .absent⟩, ⟨.use, .iuse⟩] := by
  decide +kernel

end EnabledIssues
end OverrideAudit
