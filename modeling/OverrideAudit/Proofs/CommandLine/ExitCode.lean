import OverrideAudit.CommandLine.Run
import OverrideAudit.Proofs.Audit.CategorySelection
import OverrideAudit.Proofs.Issue.LastDirective
import OverrideAudit.Proofs.Report.Groups

/-! How a run ends. All that can fail comes before the audit, and the audit itself never fails; so a
run either writes its whole report or fails with nothing written. -/
namespace OverrideAudit

variable {o : Options} {e : Environment} {tree : FileTree} {before after : EnabledIssues}
  {d : Directive}

theorem Pattern.reader_eq_error_iff {t : Text} {fault : PatternFault} :
    Pattern.reader t = .error fault ↔ Pattern.read t = .error fault := by
  cases h : Pattern.read t <;> simp [Pattern.reader, h, Except.map]

namespace EnabledIssues

theorem applyAll_cons_of_fails (h : d.succeeds Pattern.reader = false) (before : EnabledIssues)
    (ds : List Directive) :
    ∃ fault, (before.applyAll (d :: ds)).value = .error (d, fault) := by
  obtain ⟨fault, hfault⟩ :=
    obey_eq_error_iff (e := before).2 (Directive.succeeds_eq_false_iff.1 h)
  exact ⟨fault, by simp [applyAll, apply, hfault, Except.map]⟩

theorem applyAll_cons_of_succeeds (h : d.succeeds Pattern.reader = true) (ds : List Directive) :
    (before.applyAll (d :: ds)).value =
      ((before.obey Pattern.reader d).value.2.applyAll ds).value := by
  cases hobey : (before.obey Pattern.reader d).value.1 with
  | ok _ => simp [applyAll, apply, hobey, Except.map]
  | error fault =>
    have hfails : d.succeeds Pattern.reader = false :=
      Directive.succeeds_eq_false_iff.2 (obey_eq_error_iff.1 ⟨fault, hobey⟩)
    rw [h] at hfails
    contradiction

theorem applyAll_eq_ok_iff {ds : List Directive} :
    (before.applyAll ds).value = .ok after ↔
      (∀ d ∈ ds, d.succeeds Pattern.reader = true) ∧ before.after Pattern.reader ds = after := by
  induction ds generalizing before with
  | nil => simp [applyAll, EnabledIssues.after]
  | cons d ds ih =>
    cases hd : d.succeeds Pattern.reader with
    | true =>
      rw [applyAll_cons_of_succeeds hd, ih, List.forall_mem_cons, and_iff_right hd]
      rfl
    | false =>
      obtain ⟨fault, hfault⟩ := applyAll_cons_of_fails hd before ds
      simp [hfault, hd]

end EnabledIssues

namespace Options

def database (o : Options) (e : Environment) (tree : FileTree) : Except LoadFault Database :=
  match o.snapshot with
  | some path => Snapshot.load tree path >>= Snapshot.toDatabase
  | none => (Database.load tree (o.paths e)).value

theorem loadDatabase_eq_ok_iff {db : Database} :
    (o.loadDatabase e tree).value = .ok db ↔ o.database e tree = .ok db := by
  rw [loadDatabase, database]
  cases o.snapshot with
  | none => cases h : (Database.load tree (o.paths e)).value <;> simp [h, Except.mapError]
  | some path =>
    dsimp only [bind, Except.bind]
    cases Snapshot.load tree path with
    | error fault => simp
    | ok s =>
      dsimp only
      cases s.toDatabase <;> simp

def colors (o : Options) (e : Environment) : Bool := e.wantsColors && !o.noColor

def enabled (o : Options) : EnabledIssues := EnabledIssues.all.after Pattern.reader o.directives

def found (o : Options) (e : Environment) (tree : FileTree) (db : Database) : List Finding :=
  Auditor.selectionFindings db .byRecord (tree.categoryRecords (o.paths e).configRoot) o.categories

theorem report_eq_ok_iff {r : Report} :
    (o.report e tree).value = .ok r ↔
      (∀ d ∈ o.directives, d.succeeds Pattern.reader = true) ∧
        ∃ db, o.database e tree = .ok db ∧
          (Report.start (o.colors e) o.enabled).addAll (o.found e tree db) = r := by
  rw [report, Logged.value_bind]
  cases henabled : (EnabledIssues.all.applyAll o.directives).value with
  | error failed =>
    have hfails : ¬∀ d ∈ o.directives, d.succeeds Pattern.reader = true := by
      intro hall
      rw [EnabledIssues.applyAll_eq_ok_iff.2 ⟨hall, rfl⟩] at henabled
      contradiction
    simp [hfails]
  | ok enabled =>
    obtain ⟨hall, rfl⟩ := EnabledIssues.applyAll_eq_ok_iff.1 henabled
    rw [and_iff_right hall]
    dsimp only
    rw [Logged.value_bind, Logged.value_bind]
    cases hdb : (o.loadDatabase e tree).value with
    | error fault =>
      have hfails : ∀ db, o.database e tree ≠ .ok db := by
        intro db h
        rw [loadDatabase_eq_ok_iff.2 h] at hdb
        contradiction
      simp [hfails]
    | ok db =>
      simp [loadDatabase_eq_ok_iff.1 hdb, Auditor.value_auditConfiguration, colors, Options.enabled,
        found]

/-- Whether the options ask for what cannot be had: a directive has a text that is no pattern, or
the database cannot be loaded. -/
def Fails (o : Options) (e : Environment) (tree : FileTree) : Prop :=
  (∃ d ∈ o.directives, ∃ t ∈ patternTexts d.patterns, ∃ fault, Pattern.read t = .error fault) ∨
    ∃ fault, o.database e tree = .error fault

theorem fails_iff :
    o.Fails e tree ↔ (!o.directives.all (·.succeeds Pattern.reader) ||
      !(o.database e tree).toBool) = true := by
  have hdirectives : (∃ d ∈ o.directives, ∃ t ∈ patternTexts d.patterns,
      ∃ fault, Pattern.read t = .error fault) ↔
        (!o.directives.all (·.succeeds Pattern.reader)) = true := by
    simp [Directive.succeeds_eq_false_iff, Pattern.reader_eq_error_iff]
  rw [Fails, hdirectives, Bool.or_eq_true]
  cases o.database e tree <;> simp [Except.toBool]

instance : Decidable (o.Fails e tree) := decidable_of_iff _ fails_iff.symm

theorem report_eq_error_iff :
    (∃ fault, (o.report e tree).value = .error fault) ↔ o.Fails e tree := by
  rw [fails_iff]
  cases hr : (o.report e tree).value with
  | ok r =>
    obtain ⟨hall, db, hdb, -⟩ := report_eq_ok_iff.1 hr
    simpa [hdb, Except.toBool] using hall
  | error fault =>
    refine iff_of_true ⟨fault, rfl⟩ ?_
    cases hdb : o.database e tree with
    | error loadFault => simp [Except.toBool]
    | ok db =>
      have hfails : ¬∀ d ∈ o.directives, d.succeeds Pattern.reader = true := by
        intro hall
        rw [report_eq_ok_iff.2 ⟨hall, db, hdb, rfl⟩] at hr
        contradiction
      simpa [Except.toBool] using hfails

variable {f : LogFilter}

theorem found_byCategory (o : Options) (e : Environment) (tree : FileTree) (db : Database) :
    o.found e tree db = (categoriesToCheck o.categories).flatMap fun c =>
      Auditor.findingsOf c (o.found e tree db) :=
  (Auditor.flatMap_findingsOf_selection db .byRecord _ o.categories).symm

theorem runWith_of_listIssues (h : o.listIssues = true) :
    o.runWith e tree f = ⟨0, issueList (o.colors e), []⟩ := by
  rw [runWith, if_pos h, colors]

theorem runWith_of_fails (h : o.listIssues = false) (hfails : o.Fails e tree) :
    (o.runWith e tree f).exitCode = 1 ∧ (o.runWith e tree f).output = [] := by
  obtain ⟨fault, hfault⟩ := report_eq_error_iff.2 hfails
  simp [runWith, h, hfault]

theorem runWith_of_not_fails (h : o.listIssues = false) (hfails : ¬o.Fails e tree) :
    (o.runWith e tree f).exitCode = 0 ∧ ∃ db, o.database e tree = .ok db ∧
      (o.runWith e tree f).output = Report.textOf (o.colors e) o.enabled (o.found e tree db) := by
  cases hr : (o.report e tree).value with
  | error fault => exact absurd (report_eq_error_iff.1 ⟨fault, hr⟩) hfails
  | ok r =>
    obtain ⟨-, db, hdb, hreport⟩ := report_eq_ok_iff.1 hr
    have houtput : (o.runWith e tree f).output = r.output := by simp [runWith, h, hr]
    refine ⟨by simp [runWith, h, hr], db, hdb, ?_⟩
    rw [houtput, ← hreport, Report.output_addAll_start]

end Options

namespace Environment

/-- The environment has a log filter that would be cut inside a character. -/
def CutsFilter (e : Environment) : Prop :=
  (e.get? "RUST_LOG").map LogFilter.read = some (.error .insideCharacter)

instance : Decidable e.CutsFilter := inferInstanceAs (Decidable (_ = _))

theorem logFilter_eq_error_iff {verbosity : Nat} :
    (∃ fault, e.logFilter verbosity = .error fault) ↔ e.CutsFilter := by
  rw [logFilter, CutsFilter]
  cases (e.get? "RUST_LOG").map LogFilter.read with
  | none => simp
  | some filter =>
    cases filter with
    | ok f => simp
    | error fault => cases fault <;> simp

end Environment

end OverrideAudit
