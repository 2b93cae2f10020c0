import Mathlib.Data.List.SplitBy
import OverrideAudit.Report

/-! What a report depends on: the enabled findings in their order, however they are handed over. It
has a group of lines for each run of them that are of one file. -/
namespace OverrideAudit

def Finding.sameFile (f g : Finding) : Bool := Path.sameAs f.source g.source

namespace Report
variable {r : Report} {f : Finding} {fs : List Finding}

theorem write_of_enabled (h : r.enabled.has f.issue = true) :
    r.write f = (true, { r with
      currentFile := some f.source
      written := r.linesOf f ++ r.written
      count := r.count + 1 }) := by
  simp [write, h]

@[simp] theorem enabled_add (r : Report) (f : Finding) : (r.add f).enabled = r.enabled := by
  rw [add, write]
  split <;> rfl

@[simp] theorem colors_add (r : Report) (f : Finding) : (r.add f).colors = r.colors := by
  rw [add, write]
  split <;> rfl

theorem count_add (r : Report) (f : Finding) :
    (r.add f).count = r.count + (r.write f).1.toNat := by
  rw [add, write]
  split <;> rfl

@[simp] theorem addAll_nil (r : Report) : r.addAll [] = r := rfl

@[simp] theorem addAll_cons (r : Report) (f : Finding) (fs : List Finding) :
    r.addAll (f :: fs) = (r.add f).addAll fs := rfl

theorem addAll_append (r : Report) (fs gs : List Finding) :
    r.addAll (fs ++ gs) = (r.addAll fs).addAll gs := by
  induction fs generalizing r with
  | nil => rfl
  | cons f fs ih => simp [ih]

@[simp] theorem enabled_addAll (r : Report) (fs : List Finding) :
    (r.addAll fs).enabled = r.enabled := by
  induction fs generalizing r with
  | nil => rfl
  | cons f fs ih => simp [ih]

@[simp] theorem colors_addAll (r : Report) (fs : List Finding) :
    (r.addAll fs).colors = r.colors := by
  induction fs generalizing r with
  | nil => rfl
  | cons f fs ih => simp [ih]

def shown (r : Report) (fs : List Finding) : List Finding := fs.filter (r.enabled.has ·.issue)

theorem fst_writeAll (r : Report) (fs : List Finding) :
    (r.writeAll fs).1 = (r.shown fs).length := by
  induction fs generalizing r with
  | nil => rfl
  | cons f fs ih =>
    have hcons : (r.writeAll (f :: fs)).1 = (r.write f).1.toNat + ((r.add f).writeAll fs).1 := rfl
    rw [hcons, ih]
    cases h : r.enabled.has f.issue <;> simp [shown, write, h, Nat.add_comm]

theorem count_addAll (r : Report) (fs : List Finding) :
    (r.addAll fs).count = r.count + (r.shown fs).length := by
  induction fs generalizing r with
  | nil => rfl
  | cons f fs ih =>
    rw [addAll_cons, ih, count_add]
    cases h : r.enabled.has f.issue <;> simp [shown, write, h]
    omega

theorem addAll_shown (r : Report) (fs : List Finding) : r.addAll (r.shown fs) = r.addAll fs := by
  induction fs generalizing r with
  | nil => rfl
  | cons f fs ih =>
    have hshown : (r.add f).shown fs = r.shown fs := by simp [shown]
    rw [addAll_cons, ← ih (r.add f), hshown]
    cases h : r.enabled.has f.issue with
    | true => simp [shown, h]
    | false => simp [shown, h, add, write]

theorem addAll_enabled {e : EnabledIssues} (h : ∀ f ∈ fs, r.enabled.has f.issue = true)
    (he : ∀ f ∈ fs, e.has f.issue = true) :
    { r with enabled := e }.addAll fs = { r.addAll fs with enabled := e } := by
  induction fs generalizing r with
  | nil => rfl
  | cons f fs ih =>
    obtain ⟨hf, hfs⟩ := List.forall_mem_cons.1 h
    obtain ⟨hef, hefs⟩ := List.forall_mem_cons.1 he
    have hadd : { r with enabled := e }.add f = { r.add f with enabled := e } := by
      rw [add, add, write_of_enabled hf, write_of_enabled (r := { r with enabled := e }) hef]
      rfl
    rw [addAll_cons, addAll_cons, hadd, ih (by simpa using hfs) hefs]

def groupText (colors : Bool) : List Finding → Text
  | [] => []
  | f :: fs => fileLine colors f.source ++ (f :: fs).flatMap (findingLine colors)

theorem currentFile_addAll (h : ∀ f ∈ fs, r.enabled.has f.issue = true) (hne : fs ≠ []) :
    (r.addAll fs).currentFile = some (fs.getLast hne).source := by
  induction fs generalizing r with
  | nil => contradiction
  | cons f fs ih =>
    obtain ⟨hf, hfs⟩ := List.forall_mem_cons.1 h
    cases fs with
    | nil => simp [add, write, hf]
    | cons g gs => rw [addAll_cons, ih (by simpa using hfs) (by simp), List.getLast_cons_cons]

theorem output_addAll_current {prev : Finding} (hprev : r.currentFile = some prev.source)
    (hrun : (prev :: fs).IsChain fun f g => f.sameFile g = true)
    (h : ∀ f ∈ fs, r.enabled.has f.issue = true) :
    (r.addAll fs).output = r.output ++ fs.flatMap (findingLine r.colors) := by
  induction fs generalizing r prev with
  | nil => simp
  | cons f fs ih =>
    obtain ⟨hf, hfs⟩ := List.forall_mem_cons.1 h
    obtain ⟨hsame, hrun⟩ := List.isChain_cons_cons.1 hrun
    have hcurrent : r.isCurrent f.source = true := by
      rw [isCurrent, hprev, Option.any_some]
      exact hsame
    have hadd : (r.add f).currentFile = some f.source := by simp [add, write, hf]
    rw [addAll_cons, ih hadd hrun (by simpa using hfs), output_add r f hf, linesOf, hcurrent]
    simp

theorem output_addAll_group (hfirst : r.isCurrent f.source = false)
    (hrun : (f :: fs).IsChain fun f g => f.sameFile g = true)
    (h : ∀ g ∈ f :: fs, r.enabled.has g.issue = true) :
    (r.addAll (f :: fs)).output = r.output ++ groupText r.colors (f :: fs) := by
  obtain ⟨hf, hfs⟩ := List.forall_mem_cons.1 h
  have hadd : (r.add f).currentFile = some f.source := by simp [add, write, hf]
  rw [addAll_cons, output_addAll_current hadd hrun (by simpa using hfs), output_add r f hf,
    linesOf, hfirst]
  simp [groupText]

theorem output_addAll_groups {groups : List (List Finding)} (hne : [] ∉ groups)
    (hfirst : ∀ group ∈ groups.head?, ∀ f ∈ group.head?, r.isCurrent f.source = false)
    (hrun : ∀ group ∈ groups, group.IsChain fun f g => f.sameFile g = true)
    (hends : groups.IsChain fun a b => ∃ ha hb, (a.getLast ha).sameFile (b.head hb) = false)
    (h : ∀ f ∈ groups.flatten, r.enabled.has f.issue = true) :
    (r.addAll groups.flatten).output = r.output ++ groups.flatMap (groupText r.colors) := by
  induction groups generalizing r with
  | nil => simp
  | cons group groups ih =>
    have hneLater : [] ∉ groups := fun hm => hne (List.mem_cons_of_mem _ hm)
    obtain ⟨hrunGroup, hrunLater⟩ := List.forall_mem_cons.1 hrun
    rw [List.flatten_cons, List.forall_mem_append] at h
    cases group with
    | nil => exact absurd List.mem_cons_self hne
    | cons f fs =>
      have hnext : ∀ next ∈ groups.head?, ∀ g ∈ next.head?,
          (r.addAll (f :: fs)).isCurrent g.source = false := by
        intro next hnext g hg
        obtain ⟨_, hb, hends⟩ := (List.isChain_cons.1 hends).1 next hnext
        rw [List.head?_eq_some_head hb, Option.mem_some_iff] at hg
        rw [isCurrent, currentFile_addAll h.1 (by simp), Option.any_some, ← hg]
        exact hends
      have hlater := ih hneLater hnext hrunLater (List.isChain_cons.1 hends).2 (by simpa using h.2)
      rw [List.flatten_cons, addAll_append, hlater,
        output_addAll_group (hfirst _ rfl f rfl) hrunGroup h.1, colors_addAll, List.flatMap_cons,
        List.append_assoc]

/-- The report of findings: a group of lines for each run of enabled ones that are of one file. -/
def textOf (colors : Bool) (enabled : EnabledIssues) (fs : List Finding) : Text :=
  ((fs.filter fun f => enabled.has f.issue).splitBy Finding.sameFile).flatMap (groupText colors)

theorem output_addAll_start (colors : Bool) (enabled : EnabledIssues) (fs : List Finding) :
    ((start colors enabled).addAll fs).output = textOf colors enabled fs := by
  have henabled : ∀ f ∈ (start colors enabled).shown fs, enabled.has f.issue = true :=
    fun f hf => (List.mem_filter.1 hf).2
  have hgroups := output_addAll_groups (r := start colors enabled)
    (List.nil_notMem_splitBy Finding.sameFile ((start colors enabled).shown fs))
    (by simp [isCurrent, start]) (fun _ => List.isChain_of_mem_splitBy)
    (List.isChain_getLast_head_splitBy _ _) (fun f hf => henabled f (by simpa using hf))
  rw [List.flatten_splitBy, addAll_shown] at hgroups
  exact hgroups

end Report

inductive ReportCall
  | one (f : Finding)
  | many (fs : List Finding)

namespace ReportCall

def findings : ReportCall → List Finding
  | one f => [f]
  | many fs => fs

end ReportCall

namespace Report

def call (r : Report) : ReportCall → Nat × Report
  | .one f => ((r.write f).1.toNat, (r.write f).2)
  | .many fs => r.writeAll fs

def callAll (r : Report) : List ReportCall → List Nat × Report
  | [] => ([], r)
  | c :: cs =>
    let (written, r) := r.call c
    let (later, r) := r.callAll cs
    (written :: later, r)

theorem call_eq (r : Report) (c : ReportCall) : r.call c = r.writeAll c.findings := by
  cases c with
  | one f => rfl
  | many fs => rfl

theorem snd_callAll (r : Report) (cs : List ReportCall) :
    (r.callAll cs).2 = r.addAll (cs.flatMap ReportCall.findings) := by
  induction cs generalizing r with
  | nil => rfl
  | cons c cs ih =>
    have hcons : (r.callAll (c :: cs)).2 = ((r.call c).2.callAll cs).2 := rfl
    rw [hcons, ih, call_eq, List.flatMap_cons, addAll_append]
    rfl

theorem sum_fst_callAll (r : Report) (cs : List ReportCall) :
    (r.callAll cs).1.foldr (· + ·) 0 = (r.shown (cs.flatMap ReportCall.findings)).length := by
  induction cs generalizing r with
  | nil => rfl
  | cons c cs ih =>
    have hcons : (r.callAll (c :: cs)).1 = (r.call c).1 :: ((r.call c).2.callAll cs).1 := rfl
    have henabled : (r.writeAll c.findings).2.enabled = r.enabled := enabled_addAll r c.findings
    rw [hcons, List.foldr_cons, ih, call_eq, fst_writeAll]
    simp [shown, henabled]

/-- However findings are handed over, the report is that of the enabled ones: a group of lines for
each run of them that are of one file. The calls answer the number of enabled findings between them,
and so does the report. -/
theorem output_of_calls (colors : Bool) {enabled : EnabledIssues}
    (h : ∀ i ∈ enabled.codes, i ∈ IssueCode.all) (calls : List ReportCall) :
    let shown := (calls.flatMap ReportCall.findings).filter fun f => enabled.has f.issue
    let run := (start colors enabled).callAll calls
    run.2.output = ((start colors .all).writeAll shown).2.output ∧
      run.2.output = (shown.splitBy Finding.sameFile).flatMap (groupText colors) ∧
      run.1.foldr (· + ·) 0 = run.2.count ∧ run.2.count = shown.length := by
  intro shown run
  have hcalls := snd_callAll (start colors enabled) calls
  have hfindings : (start colors enabled).addAll (calls.flatMap ReportCall.findings) =
      (start colors enabled).addAll shown := (addAll_shown _ _).symm
  have henabled : ∀ f ∈ shown, enabled.has f.issue = true := fun f hf => (List.mem_filter.1 hf).2
  have hall : ∀ f ∈ shown, EnabledIssues.all.has f.issue = true := by
    intro f hf
    have hissue := h f.issue (by simpa [EnabledIssues.has] using henabled f hf)
    simpa [EnabledIssues.has, EnabledIssues.all] using hissue
  have halone : (start colors .all).addAll shown =
      { (start colors enabled).addAll shown with enabled := .all } :=
    addAll_enabled (r := start colors enabled) henabled hall
  have hgroups := output_addAll_groups (r := start colors enabled)
    (List.nil_notMem_splitBy Finding.sameFile shown) (by simp [isCurrent, start])
    (fun _ => List.isChain_of_mem_splitBy) (List.isChain_getLast_head_splitBy _ _)
    (fun f hf => henabled f (by simpa using hf))
  have hcount : ((start colors enabled).addAll shown).count = shown.length := by
    rw [← hfindings, count_addAll]
    exact Nat.zero_add _
  have hrun : run.2 = (start colors enabled).addAll shown := hcalls.trans hfindings
  refine ⟨?_, ?_, ?_, ?_⟩
  · rw [hrun]
    exact (congrArg output halone).symm
  · rw [hrun]
    simpa [output, start] using hgroups
  · rw [sum_fst_callAll, hrun, hcount]
    rfl
  · rw [hrun, hcount]

theorem output_of_calls_twoSpellings :
    let enabled : EnabledIssues := ⟨[⟨.use, .redundant⟩, ⟨.mask, .absent⟩]⟩
    let finding (issue : IssueCode) (source : String) (line : Nat) : Finding :=
      ⟨issue, source.toList, line, "a/b".toList, "no effect".toList⟩
    let calls : List ReportCall := [.one (finding ⟨.use, .redundant⟩ "p/use" 1),
      .many [finding ⟨.keywords, .redundant⟩ "p/keywords" 2, finding ⟨.mask, .absent⟩ "p//use" 3],
      .many [finding ⟨.use, .redundant⟩ "q" 4]]
    let run := (start false enabled).callAll calls
    (∀ i ∈ enabled.codes, i ∈ IssueCode.all) ∧
      run.2.output = ("p/use\n  1: a/b no effect [use.redundant]\n" ++
        "  3: a/b no effect [mask.exists]\nq\n  4: a/b no effect [use.redundant]\n").toList ∧
      run.1 = [1, 1, 1] ∧ run.1.foldr (· + ·) 0 = run.2.count := by
  intro enabled finding calls run
  have hcodes : ∀ i ∈ enabled.codes, i ∈ IssueCode.all := by decide
  obtain ⟨-, hgroups, hsum, -⟩ := output_of_calls false hcodes calls
  exact ⟨hcodes, hgroups.trans (by decide +kernel), by decide +kernel, hsum⟩

end Report
end OverrideAudit
