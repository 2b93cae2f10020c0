import OverrideAudit.Audit.Auditor

/-! How an audit goes: what one record does to the state, with its log left aside, and the records
that are left when the advice of the findings is followed. -/
namespace OverrideAudit

namespace Database

theorem contains_reasons (m : Masking) (p : Available) :
    (m.reasons p).contains .packageMask = m.isMasked p := by
  rw [Masking.reasons]
  cases m.isMasked p <;> cases m.keywordReason? p <;> simp

theorem isMaskedVersion_eq (db : Database) (c : Cpv) :
    db.isMaskedVersion c = (db.lookupAvailable? c).any db.masking.isMasked := by
  rw [isMaskedVersion, maskReasons]
  cases db.lookupAvailable? c with
  | none => rfl
  | some p => simpa using contains_reasons db.masking p

theorem warnMissing_value (known? : Cpv → Option FlagSet) (warning : Text → Warning)
    (warned : List Text) (cs : List Cpv) :
    (warnMissing known? warning warned cs).value.2 = cs.any fun c => (known? c).isNone := by
  induction cs generalizing warned with
  | nil => rfl
  | cons c cs ih =>
    cases h : known? c with
    | some flags => simp [warnMissing, h, ih]
    | none => simp [warnMissing, h]

theorem judgeUse_value (db : Database) (a : Atom) (value : Text) (warned : List Text) :
    (db.judgeUse a value warned).value.1 =
      let installed := db.installedMatching a
      let tokens := expandUse value
      if (db.matching a).isEmpty then some .absent
      else if installed.isEmpty then some .notInstalled
      else match sortDistinct compare (db.undeclared installed (namedFlags tokens)) with
        | [] =>
          if (installed.any fun c => (db.declaredFlags? c).isNone) ||
              installed.any fun c => (db.currentFlags? c).isNone then none
          else judgeChanges tokens (db.knownFlags installed)
        | flags => some (.unknownFlags flags) := by
  simp only [judgeUse]
  split
  · rfl
  · split
    · rfl
    · simp only [Logged.value_bind]
      cases sortDistinct compare
          (db.undeclared (db.installedMatching a) (namedFlags (expandUse value))) with
      | nil =>
        simp only [Logged.value_bind, warnMissing_value]
        split <;> rfl
      | cons flag flags => rfl

theorem presence?_eq_none_iff {db : Database} {a : Atom} :
    db.presence? a = none ↔ db.matching a ≠ [] ∧ db.installedMatching a.package ≠ [] := by
  rw [presence?]
  cases db.matching a <;> cases db.installedMatching a.package <;> simp

def verdict? (db : Database) (rule : VisibilityRule) (category : Category) (a : Atom)
    (value : Text) : Option Verdict :=
  match category with
  | .keywords => (db.judgeKeywords rule a value).1
  | .mask => db.judgeMask a
  | .unmask => db.judgeUnmask a
  | .use => (db.judgeUse a value []).value.1
  | .features | .cflags | .cxxflags | .ldflags => db.judgePlain a

end Database

namespace Auditor
variable {s : Auditor} {rule : VisibilityRule} {category : Category} {r : Record}

theorem judge_verdict (s : Auditor) (rule : VisibilityRule) (category : Category) (a : Atom)
    (value : Text) :
    (s.judge rule category a value).value.1 = s.db.verdict? rule category a value := by
  cases category with
  | use =>
    exact (s.db.judgeUse_value a value s.warned).trans (s.db.judgeUse_value a value []).symm
  | _ => rfl

def applied (db : Database) (category : Category) (r : Record) : Database :=
  match Atom.read r.atom with
  | .ok a => applyOverride db category a r.value
  | .error _ => db

theorem applied_of_read {a : Atom} (h : Atom.read r.atom = .ok a) (db : Database) :
    applied db category r = applyOverride db category a r.value := by
  rw [applied, h]

theorem applied_of_error {fault : ReadFault} (h : Atom.read r.atom = .error fault) (db : Database) :
    applied db category r = db := by
  rw [applied, h]

theorem step_of_error {fault : ReadFault} (h : Atom.read r.atom = .error fault) :
    (s.step rule category r).value = (none, s) := by
  simp [step, h]

theorem step_of_skip {a : Atom} (h : Atom.read r.atom = .ok a) (hs : r.skip = true) :
    (s.step rule category r).value =
      (none, { s with db := applyOverride s.db category a r.value }) := by
  simp [step, h, hs]

theorem step_of_judge {a : Atom} (h : Atom.read r.atom = .ok a) (hs : r.skip = false) :
    (s.step rule category r).value =
      ((s.db.verdict? rule category a r.value).bind (·.finding? category r),
        (s.judge rule category a r.value).value.2) := by
  simp [step, h, hs, judge_verdict]

theorem finding_congr {s t : Auditor}
    (h : ∀ a, s.db.verdict? rule category a r.value = t.db.verdict? rule category a r.value) :
    (s.step rule category r).value.1 = (t.step rule category r).value.1 := by
  cases ha : Atom.read r.atom with
  | error fault => simp [step_of_error ha]
  | ok a =>
    cases hs : r.skip with
    | true => simp [step_of_skip ha hs]
    | false => rw [step_of_judge ha hs, step_of_judge ha hs, h]

theorem verdict_of_finding {f : Finding} (h : (s.step rule category r).value.1 = some f) :
    ∃ a v, Atom.read r.atom = .ok a ∧ s.db.verdict? rule category a r.value = some v ∧
      f.issue = ⟨category, v.kind⟩ := by
  cases ha : Atom.read r.atom with
  | error fault => simp [step_of_error ha] at h
  | ok a =>
    cases hs : r.skip with
    | true => simp [step_of_skip ha hs] at h
    | false =>
      rw [step_of_judge ha hs] at h
      obtain ⟨v, hv, hf⟩ := Option.bind_eq_some_iff.1 h
      obtain ⟨issue, hissue, rfl⟩ := Option.map_eq_some_iff.1 hf
      rw [IssueCode.of?] at hissue
      split at hissue
      · exact ⟨a, v, rfl, hv, (Option.some.inj hissue).symm⟩
      · contradiction

/-- What a step does to the database: an override that can be read is applied, unless it is one for
keywords that is judged and finds its package absent or not installed. -/
theorem step_db_of_read {a : Atom} (h : Atom.read r.atom = .ok a) :
    (s.step rule category r).value.2.db =
      if category = .keywords ∧ r.skip = false ∧ (s.db.presence? a).isSome then s.db
      else applyOverride s.db category a r.value := by
  cases hs : r.skip with
  | true => simp [step_of_skip h hs]
  | false =>
    rw [step_of_judge h hs]
    cases category with
    | keywords =>
      have hjudge : (s.judge rule .keywords a r.value).value.2.db =
          (s.db.judgeKeywords rule a r.value).2 := rfl
      rw [hjudge]
      cases hp : s.db.presence? a <;> simp [Database.judgeKeywords, hp, applyOverride]
    | _ => rfl

theorem step_db (h : category ≠ .keywords) :
    (s.step rule category r).value.2.db = applied s.db category r := by
  cases ha : Atom.read r.atom with
  | error fault => simp [step_of_error ha, applied_of_error ha]
  | ok a => rw [applied_of_read ha, step_db_of_read ha, if_neg fun hk => h hk.1]

theorem step_masking (s : Auditor) (rule : VisibilityRule) (category : Category) (r : Record) :
    ∃ m, (s.step rule category r).value.2.db = { s.db with masking := m } := by
  cases ha : Atom.read r.atom with
  | error fault => exact ⟨s.db.masking, by rw [step_of_error ha]⟩
  | ok a =>
    rw [step_db_of_read ha]
    split
    · exact ⟨s.db.masking, rfl⟩
    · cases category with
      | keywords | mask | unmask => exact ⟨_, rfl⟩
      | _ => exact ⟨s.db.masking, rfl⟩

@[simp] theorem answers_nil : (s.answers rule []).value = ([], s) := rfl

theorem answers_cons (x : Category × Record) (rs : List (Category × Record)) :
    (s.answers rule (x :: rs)).value =
      ((s.step rule x.1 x.2).value.1 ::
        ((s.step rule x.1 x.2).value.2.answers rule rs).value.1,
        ((s.step rule x.1 x.2).value.2.answers rule rs).value.2) := rfl

theorem answers_append (rs ss : List (Category × Record)) :
    (s.answers rule (rs ++ ss)).value =
      ((s.answers rule rs).value.1 ++ ((s.answers rule rs).value.2.answers rule ss).value.1,
        ((s.answers rule rs).value.2.answers rule ss).value.2) := by
  induction rs generalizing s with
  | nil => rfl
  | cons x rs ih => simp [answers_cons, ih]

theorem answers_snd (rs : List (Category × Record)) :
    (s.answers rule rs).value.2 = rs.foldl (fun s x => (s.step rule x.1 x.2).value.2) s := by
  induction rs generalizing s with
  | nil => rfl
  | cons x rs ih => simp [answers_cons, ih]

theorem answers_masking (s : Auditor) (rule : VisibilityRule) (rs : List (Category × Record)) :
    ∃ m, (s.answers rule rs).value.2.db = { s.db with masking := m } := by
  induction rs generalizing s with
  | nil => exact ⟨s.db.masking, rfl⟩
  | cons x rs ih =>
    obtain ⟨_, hstep⟩ := step_masking s rule x.1 x.2
    obtain ⟨m, hrest⟩ := ih (s.step rule x.1 x.2).value.2
    exact ⟨m, by rw [answers_cons, hrest, hstep]⟩

theorem length_answers (rs : List (Category × Record)) :
    (s.answers rule rs).value.1.length = rs.length := by
  induction rs generalizing s with
  | nil => rfl
  | cons x rs ih => simp [answers_cons, ih]

def appliedAll (db : Database) (rs : List (Category × Record)) : Database :=
  rs.foldl (fun db x => applied db x.1 x.2) db

end Auditor

def foundAmong (codes : List IssueCode) (f : Option Finding) : Bool :=
  f.any fun f => codes.contains f.issue

def withoutFound (codes : List IssueCode) (found : List (Option Finding))
    (rs : List (Category × Record)) : List (Category × Record) :=
  ((found.zip rs).filter fun x => !foundAmong codes x.1).map Prod.snd

section
variable {codes : List IssueCode}

theorem withoutFound_cons (f : Option Finding) (found : List (Option Finding))
    (x : Category × Record) (rs : List (Category × Record)) :
    withoutFound codes (f :: found) (x :: rs) =
      if foundAmong codes f then withoutFound codes found rs
      else x :: withoutFound codes found rs := by
  cases h : foundAmong codes f <;> simp [withoutFound, h]

theorem withoutFound_append {found found' : List (Option Finding)}
    {rs rs' : List (Category × Record)} (h : found.length = rs.length) :
    withoutFound codes (found ++ found') (rs ++ rs') =
      withoutFound codes found rs ++ withoutFound codes found' rs' := by
  simp [withoutFound, List.zip_append h]

/-- What holds of the state of an audit and of a second state, and still holds when both take a
record and when the second passes over one for its verdict, holds in the end. -/
theorem withoutFound_foldl {β : Type _} {P : Auditor → β → Prop}
    {next : β → Category × Record → β} {rule : VisibilityRule} {category : Category}
    {rs : List Record}
    (hkeep : ∀ s k, ∀ r ∈ rs, P s k → P (s.step rule category r).value.2 (next k (category, r)))
    (hdrop : ∀ s k r a v, Atom.read r.atom = .ok a →
      s.db.verdict? rule category a r.value = some v → ⟨category, v.kind⟩ ∈ codes →
      P s k → P (s.step rule category r).value.2 k)
    {s : Auditor} {k : β} (h : P s k) :
    let audit := (s.answers rule (rs.map (category, ·))).value
    P audit.2 ((withoutFound codes audit.1 (rs.map (category, ·))).foldl next k) := by
  induction rs generalizing s k with
  | nil => exact h
  | cons r rs ih =>
    have hr := fun s k => hkeep s k r List.mem_cons_self
    have hrs := fun s k q hq => hkeep s k q (List.mem_cons_of_mem r hq)
    simp only [List.map_cons, Auditor.answers_cons, withoutFound_cons]
    cases hf : (s.step rule category r).value.1 with
    | none => exact ih hrs (hr s k h)
    | some f =>
      -- The finding names the verdict, and so tells whether the record is dropped.
      obtain ⟨a, v, ha, hv, hissue⟩ := Auditor.verdict_of_finding hf
      have hamong : foundAmong codes (some f) = codes.contains ⟨category, v.kind⟩ := by
        rw [foundAmong, Option.any_some, hissue]
      rw [hamong]
      by_cases hmem : ⟨category, v.kind⟩ ∈ codes
      · rw [if_pos (List.contains_iff_mem.2 hmem)]
        exact ih hrs (hdrop s k r a v ha hv hmem h)
      · rw [if_neg (fun h => hmem (List.contains_iff_mem.1 h))]
        exact ih hrs (hr s k h)

open Auditor in
theorem withoutFound_induction {P : Database → Database → Prop} {rule : VisibilityRule}
    {category : Category} (hc : category ≠ .keywords)
    (hkeep : ∀ db k r, P db k → P (applied db category r) (applied k category r))
    (hdrop : ∀ db k r a v, Atom.read r.atom = .ok a →
      db.verdict? rule category a r.value = some v → ⟨category, v.kind⟩ ∈ codes →
      P db k → P (applied db category r) k)
    (rs : List Record) {s : Auditor} {k : Database} (h : P s.db k) :
    let audit := (s.answers rule (rs.map (category, ·))).value
    P audit.2.db (appliedAll k (withoutFound codes audit.1 (rs.map (category, ·)))) := by
  refine withoutFound_foldl (P := fun s k => P s.db k) ?keep ?drop h
  case keep =>
    intro s k r _ h
    rw [step_db hc]
    exact hkeep s.db k r h
  case drop =>
    intro s k r a v ha hv hmem h
    rw [step_db hc]
    exact hdrop s.db k r a v ha hv hmem h

end

end OverrideAudit
