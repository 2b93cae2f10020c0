import Mathlib.Data.List.Basic
import OverrideAudit.Audit.Auditor
import OverrideAudit.Proofs.Audit.Run

/-! The choice of categories. What is found about the overrides of a category depends on what its
verdicts read of the database and on what the categories before it write there. Only masks write
what a later category reads, so nothing but the choice of masks matters, and it matters to unmasks
alone. -/
namespace OverrideAudit

/-- Whether overrides of the first category may change what is found about the second. -/
def Category.influences (writer reader : Category) : Bool :=
  match writer with
  | .keywords => reader == .keywords
  | .mask | .unmask => reader == .keywords || reader == .mask || reader == .unmask
  | _ => writer == reader

theorem Category.influences_self (c : Category) : c.influences c = true := by
  cases c <;> rfl

namespace Database

/-- What the verdicts of a category read of the database. Those about masks and unmasks look at
masks but at no keywords, and those about flags and settings at neither. -/
def readBy (c : Category) (db : Database) : Database :=
  match c with
  | .keywords => db
  | .mask | .unmask => { db with masking.overrides := [] }
  | .use | .features | .cflags | .cxxflags | .ldflags => { db with masking := .empty }

theorem verdict?_readBy (db : Database) (rule : VisibilityRule) (c : Category) (a : Atom)
    (value : Text) :
    (db.readBy c).verdict? rule c a value = db.verdict? rule c a value := by
  cases c with
  | keywords => rfl
  | mask =>
    have hmasked : (db.readBy .mask).isMaskedVersion = db.isMaskedVersion := by
      funext c
      rw [isMaskedVersion_eq, isMaskedVersion_eq]
      rfl
    simp only [verdict?, judgeMask, hmasked]
    rfl
  | unmask =>
    have hmasked : (db.readBy .unmask).isMaskedVersion = db.isMaskedVersion := by
      funext c
      rw [isMaskedVersion_eq, isMaskedVersion_eq]
      rfl
    simp only [verdict?, judgeUnmask, hmasked]
    rfl
  | use =>
    simp only [verdict?, judgeUse_value]
    rfl
  | _ => rfl

end Database

namespace Auditor
open Database
variable {s t : Auditor} {rule : VisibilityRule} {c writer : Category} {r : Record}

theorem readBy_applyOverride (db : Database) (c writer : Category) (a : Atom) (value : Text) :
    (applyOverride db writer a value).readBy c =
      if writer.influences c then (applyOverride (db.readBy c) writer a value).readBy c
      else db.readBy c := by
  cases writer <;> cases c <;> rfl

theorem presence?_readBy (db : Database) (c : Category) (a : Atom) :
    (db.readBy c).presence? a = db.presence? a := by
  cases c <;> rfl

theorem readBy_step_congr (h : s.db.readBy c = t.db.readBy c) :
    (s.step rule writer r).value.2.db.readBy c = (t.step rule writer r).value.2.db.readBy c := by
  cases ha : Atom.read r.atom with
  | error fault => simpa [step_of_error ha] using h
  | ok a =>
    have hpresence : s.db.presence? a = t.db.presence? a := by
      rw [← presence?_readBy s.db c, h, presence?_readBy]
    rw [step_db_of_read ha, step_db_of_read ha, hpresence]
    split
    · exact h
    · rw [readBy_applyOverride s.db, readBy_applyOverride t.db, h]

theorem readBy_step_of_not_influences (hw : writer.influences c = false) :
    (s.step rule writer r).value.2.db.readBy c = s.db.readBy c := by
  cases ha : Atom.read r.atom with
  | error fault => simp [step_of_error ha]
  | ok a =>
    rw [step_db_of_read ha]
    split
    · rfl
    · simp [readBy_applyOverride, hw]

theorem finding_step_congr (h : s.db.readBy c = t.db.readBy c) :
    (s.step rule c r).value.1 = (t.step rule c r).value.1 :=
  finding_congr fun a => by rw [← verdict?_readBy s.db, h, verdict?_readBy]

def findingsOf (c : Category) (found : List Finding) : List Finding :=
  found.filter (·.issue.category == c)

def audit (s : Auditor) (rule : VisibilityRule) (rs : List (Category × Record)) :
    List Finding × Auditor :=
  ((s.answers rule rs).value.1.filterMap id, (s.answers rule rs).value.2)

theorem audit_append (s : Auditor) (rule : VisibilityRule) (rs ss : List (Category × Record)) :
    s.audit rule (rs ++ ss) =
      ((s.audit rule rs).1 ++ ((s.audit rule rs).2.audit rule ss).1,
        ((s.audit rule rs).2.audit rule ss).2) := by
  simp [audit, answers_append]

theorem audit_cons (s : Auditor) (rule : VisibilityRule) (x : Category × Record)
    (rs : List (Category × Record)) :
    s.audit rule (x :: rs) =
      ((s.step rule x.1 x.2).value.1.toList ++ ((s.step rule x.1 x.2).value.2.audit rule rs).1,
        ((s.step rule x.1 x.2).value.2.audit rule rs).2) := by
  cases h : (s.step rule x.1 x.2).value.1 <;> simp [audit, answers_cons, h]

theorem findingsOf_append (c : Category) (found later : List Finding) :
    findingsOf c (found ++ later) = findingsOf c found ++ findingsOf c later := by
  simp [findingsOf]

theorem findingsOf_step_of_ne (h : writer ≠ c) :
    findingsOf c (s.step rule writer r).value.1.toList = [] := by
  cases hf : (s.step rule writer r).value.1 with
  | none => rfl
  | some f =>
    obtain ⟨a, v, -, -, hissue⟩ := verdict_of_finding hf
    simp [findingsOf, hissue, h]

theorem findingsOf_audit_of_ne (c : Category) {rs : List (Category × Record)}
    (h : ∀ x ∈ rs, x.1 ≠ c) : findingsOf c (s.audit rule rs).1 = [] := by
  induction rs generalizing s with
  | nil => rfl
  | cons x rs ih =>
    obtain ⟨hx, hrs⟩ := List.forall_mem_cons.1 h
    rw [audit_cons, findingsOf_append, findingsOf_step_of_ne hx, ih hrs, List.nil_append]

/-- The findings about a category are those of the records that may influence them: two states that
agree in what the category reads still do after a step of both, and after a step of one by a record
without influence. -/
theorem findingsOf_audit_filter (h : s.db.readBy c = t.db.readBy c) (rule : VisibilityRule)
    (rs : List (Category × Record)) :
    findingsOf c (s.audit rule rs).1 =
      findingsOf c (t.audit rule (rs.filter (·.1.influences c))).1 := by
  induction rs generalizing s t with
  | nil => rfl
  | cons x rs ih =>
    cases hx : x.1.influences c with
    | true =>
      have hstep : findingsOf c (s.step rule x.1 x.2).value.1.toList =
          findingsOf c (t.step rule x.1 x.2).value.1.toList := by
        by_cases hc : x.1 = c
        · subst hc
          rw [finding_step_congr h]
        · rw [findingsOf_step_of_ne hc, findingsOf_step_of_ne hc]
      rw [List.filter_cons, if_pos hx, audit_cons, audit_cons, findingsOf_append,
        findingsOf_append, hstep, ih (readBy_step_congr h)]
    | false =>
      have hc : x.1 ≠ c := by
        intro hc
        rw [hc, Category.influences_self] at hx
        contradiction
      rw [List.filter_cons, if_neg (by simp [hx]), audit_cons, findingsOf_append,
        findingsOf_step_of_ne hc, List.nil_append,
        ih ((readBy_step_of_not_influences hx).trans h)]

def recordsOf (records : Category → List Record) (cs : List Category) : List (Category × Record) :=
  cs.flatMap fun c => (records c).map (c, ·)

theorem recordsOf_append (records : Category → List Record) (cs ds : List Category) :
    recordsOf records (cs ++ ds) = recordsOf records cs ++ recordsOf records ds := by
  simp [recordsOf]

theorem filter_recordsOf (records : Category → List Record) (p : Category → Bool)
    (cs : List Category) :
    (recordsOf records cs).filter (fun x => p x.1) = recordsOf records (cs.filter p) := by
  induction cs with
  | nil => rfl
  | cons c cs ih =>
    have hcons : ∀ ds, recordsOf records (c :: ds) =
        (records c).map (c, ·) ++ recordsOf records ds := fun _ => rfl
    rw [hcons, List.filter_append, ih, List.filter_cons]
    cases hp : p c with
    | true =>
      rw [List.filter_eq_self.2 (by simp [hp])]
      rfl
    | false => simp [hp]

theorem fst_of_mem_recordsOf {records : Category → List Record} {cs : List Category}
    {x : Category × Record} (h : x ∈ recordsOf records cs) : x.1 ∈ cs := by
  obtain ⟨c, hc, hx⟩ := List.mem_flatMap.1 h
  obtain ⟨r, -, rfl⟩ := List.mem_map.1 hx
  exact hc

theorem findingsOf_audit_self (s : Auditor) (rule : VisibilityRule) (c : Category)
    (rs : List Record) :
    findingsOf c (s.audit rule (rs.map (c, ·))).1 = (s.audit rule (rs.map (c, ·))).1 := by
  induction rs generalizing s with
  | nil => rfl
  | cons r rs ih =>
    have hstep : findingsOf c (s.step rule c r).value.1.toList =
        (s.step rule c r).value.1.toList := by
      cases hf : (s.step rule c r).value.1 with
      | none => rfl
      | some f =>
        obtain ⟨a, v, -, -, hissue⟩ := verdict_of_finding hf
        simp [findingsOf, hissue]
    rw [List.map_cons, audit_cons, findingsOf_append, hstep, ih]

theorem flatMap_findingsOf_audit (s : Auditor) (rule : VisibilityRule)
    (records : Category → List Record) {cs : List Category} (h : cs.Nodup) :
    (cs.flatMap fun c => findingsOf c (s.audit rule (recordsOf records cs)).1) =
      (s.audit rule (recordsOf records cs)).1 := by
  induction cs generalizing s with
  | nil => rfl
  | cons c cs ih =>
    obtain ⟨hc, hcs⟩ := List.nodup_cons.1 h
    have hcons : recordsOf records (c :: cs) =
        (records c).map (c, ·) ++ recordsOf records cs := rfl
    let t := (s.audit rule ((records c).map (c, ·))).2
    have hlater : findingsOf c (t.audit rule (recordsOf records cs)).1 = [] :=
      findingsOf_audit_of_ne c fun x hx hxc => hc (hxc ▸ fst_of_mem_recordsOf hx)
    have hfirst : ∀ d ∈ cs, findingsOf d (s.audit rule ((records c).map (c, ·))).1 = [] := by
      intro d hd
      refine findingsOf_audit_of_ne d fun x hx hxd => ?_
      obtain ⟨r, -, rfl⟩ := List.mem_map.1 hx
      obtain rfl : c = d := hxd
      exact hc hd
    have hothers : (cs.flatMap fun d => findingsOf d
        ((s.audit rule ((records c).map (c, ·))).1 ++ (t.audit rule (recordsOf records cs)).1)) =
          (t.audit rule (recordsOf records cs)).1 := by
      refine Eq.trans (List.flatMap_congr fun d hd => ?_) (ih t hcs)
      rw [findingsOf_append, hfirst d hd, List.nil_append]
    rw [hcons, audit_append, List.flatMap_cons, findingsOf_append, findingsOf_audit_self, hlater,
      List.append_nil, hothers]

/-- The findings about the records of the categories that are checked. -/
def selectionFindings (db : Database) (rule : VisibilityRule) (records : Category → List Record)
    (chosen : List Category) : List Finding :=
  ((ofDatabase db).audit rule (recordsOf records (categoriesToCheck chosen))).1

theorem influences_before (c : Category) :
    ∃ before after, Category.all = before ++ c :: after ∧ c ∉ after ∧
      before.filter (·.influences c) = if c = .unmask then [.mask] else [] := by
  refine ⟨Category.all.takeWhile (· != c), (Category.all.dropWhile (· != c)).tail, ?_, ?_, ?_⟩ <;>
    cases c <;> decide

theorem mem_categoriesToCheck {chosen : List Category} {c : Category} :
    c ∈ categoriesToCheck chosen ↔ (chosen.isEmpty || chosen.contains c) = true := by
  have hall : c ∈ Category.all := by cases c <;> decide
  simp [categoriesToCheck, hall]

theorem flatMap_findingsOf_selection (db : Database) (rule : VisibilityRule)
    (records : Category → List Record) (chosen : List Category) :
    ((categoriesToCheck chosen).flatMap fun c =>
        findingsOf c (selectionFindings db rule records chosen)) =
      selectionFindings db rule records chosen := by
  have hall : Category.all.Nodup := by decide
  exact flatMap_findingsOf_audit (ofDatabase db) rule records (hall.filter _)

theorem findingsOf_selection (db : Database) (rule : VisibilityRule)
    (records : Category → List Record) {chosen : List Category} {c : Category}
    (h : c ∈ categoriesToCheck chosen) :
    let masks := if c = .unmask ∧ .mask ∈ categoriesToCheck chosen then [Category.mask] else []
    findingsOf c (selectionFindings db rule records chosen) =
      findingsOf c ((ofDatabase db).audit rule (recordsOf records (masks ++ [c]))).1 := by
  intro masks
  obtain ⟨before, after, hall, hafter, hbefore⟩ := influences_before c
  let selected (c : Category) : Bool := chosen.isEmpty || chosen.contains c
  have hsplit : categoriesToCheck chosen =
      (before.filter selected ++ [c]) ++ after.filter selected := by
    have hc : selected c = true := mem_categoriesToCheck.1 h
    rw [categoriesToCheck, hall, List.filter_append, List.filter_cons, if_pos hc,
      List.append_cons]
  have hlater : ∀ x ∈ recordsOf records (after.filter selected), x.1 ≠ c := by
    intro x hx hxc
    exact hafter (hxc ▸ (List.mem_filter.1 (fst_of_mem_recordsOf hx)).1)
  -- Of what is checked before `c` only masks may matter.
  have hmasks : (before.filter selected ++ [c]).filter (·.influences c) = masks ++ [c] := by
    have hself : [c].filter (·.influences c) = [c] := by simp [Category.influences_self]
    rw [List.filter_append, hself, List.filter_filter]
    simp only [Bool.and_comm]
    rw [← List.filter_filter, hbefore]
    by_cases hc : c = .unmask
    · simp [masks, hc, mem_categoriesToCheck, selected, List.filter_cons]
    · simp [masks, hc]
  rw [selectionFindings, hsplit, recordsOf_append, audit_append, findingsOf_append,
    findingsOf_audit_of_ne c hlater, List.append_nil, findingsOf_audit_filter rfl,
    filter_recordsOf records (·.influences c), hmasks]

end Auditor

def FileTree.categoryRecords (tree : FileTree) (configRoot : Text) (c : Category) : List Record :=
  (tree.overridePaths configRoot c).flatMap fun path => (tree.records Atom.isValid path).value

namespace Auditor
open Database

theorem value_runFiles (s : Auditor) (tree : FileTree) (c : Category) (files : List Text) :
    (s.runFiles tree c files).value =
      s.audit .byRecord
        ((files.flatMap fun file => (tree.recordsOfFile Atom.isValid file).value).map (c, ·)) := by
  induction files generalizing s with
  | nil => rfl
  | cons file files ih =>
    have hrun : ∀ rs, (s.run .byRecord c rs).value = s.audit .byRecord (rs.map (c, ·)) :=
      fun _ => rfl
    simp [runFiles, audit_append, ih, hrun]

theorem value_runPaths (s : Auditor) (tree : FileTree) (c : Category) (paths : List Text) :
    (s.runPaths tree c paths).value =
      s.audit .byRecord
        ((paths.flatMap fun path => (tree.records Atom.isValid path).value).map (c, ·)) := by
  induction paths generalizing s with
  | nil => rfl
  | cons path paths ih => simp [runPaths, FileTree.value_records, value_runFiles, audit_append, ih]

theorem value_runCategories (s : Auditor) (tree : FileTree) (configRoot : Text)
    (cs : List Category) :
    (s.runCategories tree configRoot cs).value =
      s.audit .byRecord (recordsOf (tree.categoryRecords configRoot) cs) := by
  induction cs generalizing s with
  | nil => rfl
  | cons c cs ih =>
    simp [runCategories, value_runPaths, recordsOf, FileTree.categoryRecords, audit_append, ih]

theorem value_auditConfiguration (tree : FileTree) (db : Database) (configRoot : Text)
    (chosen : List Category) :
    (auditConfiguration tree db configRoot chosen).value =
      selectionFindings db .byRecord (tree.categoryRecords configRoot) chosen := by
  simp [auditConfiguration, selectionFindings, value_runCategories]

/-- To check other categories too changes nothing that is found about a category, unless it is
unmasks and masks are checked in one case only. -/
theorem findings_of_selected (db : Database) {c : Category} {chosen chosen' : List Category}
    (h : c ∈ categoriesToCheck chosen) (h' : c ∈ categoriesToCheck chosen')
    (hmasks : c = .unmask →
      (.mask ∈ categoriesToCheck chosen ↔ .mask ∈ categoriesToCheck chosen')) :
    (∀ rule records, findingsOf c (selectionFindings db rule records chosen) =
        findingsOf c (selectionFindings db rule records chosen')) ∧
      ∀ tree configRoot, findingsOf c (auditConfiguration tree db configRoot chosen).value =
        findingsOf c (auditConfiguration tree db configRoot chosen').value := by
  have hrecords : ∀ rule records, findingsOf c (selectionFindings db rule records chosen) =
      findingsOf c (selectionFindings db rule records chosen') := by
    intro rule records
    rw [findingsOf_selection db rule records h, findingsOf_selection db rule records h']
    simp only [and_congr_right hmasks]
  refine ⟨hrecords, fun tree configRoot => ?_⟩
  rw [value_auditConfiguration, value_auditConfiguration]
  exact hrecords .byRecord _

theorem findings_of_selected_unmask :
    let v : Version := ⟨['1'], [], none, [], none⟩
    let db := Database.empty
      |>.insertAvailable (.ofTexts ⟨['a'], ['b'], v⟩ ['0'] "~amd64".toList [] none)
      |>.insertInstalled (.ofTexts ⟨['a'], ['b'], v⟩ ['0'] [] none)
    let record (value : String) : Record := ⟨"a/b".toList, value.toList, [], 1, false⟩
    let records : Category → List Record
      | .keywords => [record "~amd64"]
      | .mask => [record ""]
      | .unmask => [record "", record ""]
      | _ => []
    let found (chosen : List Category) :=
      findingsOf .unmask (selectionFindings db .byRecord records chosen)
    found [] = found [.unmask, .mask] ∧
      (found []).map Finding.issue = [⟨.unmask, .redundant⟩] ∧
      (found [.unmask]).map Finding.issue = [⟨.unmask, .redundant⟩, ⟨.unmask, .redundant⟩] := by
  intro v db record records found
  have hall : Category.unmask ∈ categoriesToCheck [] := by decide
  have hmasks : Category.unmask ∈ categoriesToCheck [.unmask, .mask] := by decide
  have hfound := (findings_of_selected db hall hmasks (by decide)).1 .byRecord records
  exact ⟨hfound, by decide, by decide⟩

end Auditor
end OverrideAudit
