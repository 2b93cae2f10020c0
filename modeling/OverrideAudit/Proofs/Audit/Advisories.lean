import OverrideAudit.Proofs.Audit.Run
import OverrideAudit.Proofs.Database.History

/-! Warnings about installed versions whose flags cannot be looked up. An audit gives one for each
such version, at the first override that asks for its flags, and remembers it; what it remembers
changes no finding. -/
namespace OverrideAudit

def Warning.version? : Warning → Option Text
  | undeclaredInstalled cpv | unknownInstalledFlags cpv => some cpv
  | _ => none

namespace Logged
variable {α β : Type} {x : Logged α} {f : α → Logged β} {before mid after : List Text}
  {due due' : Text → Prop}

def versionsWarned (x : Logged α) : List Text := x.warnings.filterMap Warning.version?

@[simp] theorem versionsWarned_pure (a : α) : (pure a : Logged α).versionsWarned = [] := rfl

@[simp] theorem versionsWarned_bind (x : Logged α) (f : α → Logged β) :
    (x >>= f).versionsWarned = x.versionsWarned ++ (f x.value).versionsWarned := by
  simp [versionsWarned]

@[simp] theorem versionsWarned_map (g : α → β) (x : Logged α) :
    (g <$> x).versionsWarned = x.versionsWarned := by
  rw [← bind_pure_comp, versionsWarned_bind]
  simp

@[simp] theorem versionsWarned_warn (w : Warning) :
    (warn w).versionsWarned = w.version?.toList := by
  cases h : w.version? <;> simp [versionsWarned, h]

@[simp] theorem versionsWarned_note (n : Notice) : (note n).versionsWarned = [] := rfl

@[simp] theorem versionsWarned_noteEach (ns : List Notice) : (noteEach ns).versionsWarned = [] := by
  simp [versionsWarned]

/-- A computation that warns once about every version that is due, unless it was warned about
before, and remembers it. -/
structure WarnsOnce (before : List Text) (due : Text → Prop) (x : Logged α) (after : List Text) :
    Prop where
  nodup : x.versionsWarned.Nodup
  mem_iff : ∀ t, t ∈ x.versionsWarned ↔ due t ∧ t ∉ before
  mem_after : ∀ t, t ∈ after ↔ t ∈ before ∨ due t

theorem WarnsOnce.silent (h : x.versionsWarned = []) (hdue : ∀ t, ¬due t) :
    WarnsOnce before due x before where
  nodup := by simp [h]
  mem_iff t := by simp [h, hdue t]
  mem_after t := by simp [hdue t]

theorem WarnsOnce.congr (h : WarnsOnce before due x after) (hdue : ∀ t, due t ↔ due' t) :
    WarnsOnce before due' x after where
  nodup := h.nodup
  mem_iff t := by rw [h.mem_iff, hdue]
  mem_after t := by rw [h.mem_after, hdue]

theorem WarnsOnce.bind (hx : WarnsOnce before due x mid)
    (hf : WarnsOnce mid due' (f x.value) after) :
    WarnsOnce before (fun t => due t ∨ due' t) (x >>= f) after where
  nodup := by
    rw [versionsWarned_bind, List.nodup_append]
    refine ⟨hx.nodup, hf.nodup, ?_⟩
    rintro t ht _ hu rfl
    obtain ⟨hdue, -⟩ := (hx.mem_iff t).1 ht
    exact ((hf.mem_iff t).1 hu).2 ((hx.mem_after t).2 (.inr hdue))
  mem_iff t := by
    rw [versionsWarned_bind, List.mem_append, hx.mem_iff, hf.mem_iff, hx.mem_after]
    tauto
  mem_after t := by rw [hf.mem_after, hx.mem_after, or_assoc]

theorem WarnsOnce.bind_silent (hx : WarnsOnce before due x after)
    (hf : (f x.value).versionsWarned = []) : WarnsOnce before due (x >>= f) after where
  nodup := by simpa [hf] using hx.nodup
  mem_iff t := by simpa [hf] using hx.mem_iff t
  mem_after := hx.mem_after

end Logged

open Logged

theorem warnsOnce_warnOnce (warned : List Text) {cpv : Text} {w : Warning}
    (hw : w.version? = some cpv) :
    WarnsOnce warned (· = cpv) (warnOnce warned cpv w) (warnOnce warned cpv w).value := by
  by_cases h : cpv ∈ warned
  · have honce : warnOnce warned cpv w = pure warned := by
      rw [warnOnce, if_pos (List.contains_iff_mem.2 h)]
    rw [honce]
    refine ⟨List.nodup_nil, fun t => ?_, fun t => ?_⟩
    · simp only [versionsWarned_pure, List.not_mem_nil, false_iff]
      rintro ⟨rfl, hnew⟩
      exact hnew h
    · rw [value_pure, or_iff_left_of_imp]
      rintro rfl
      exact h
  · have honce : warnOnce warned cpv w = Logged.warn w >>= fun _ => pure (cpv :: warned) := by
      rw [warnOnce, if_neg fun hm => h (List.contains_iff_mem.1 hm)]
    have hversions : (warnOnce warned cpv w).versionsWarned = [cpv] := by
      rw [honce, versionsWarned_bind, versionsWarned_warn, hw, versionsWarned_pure]
      rfl
    refine ⟨by simp [hversions], fun t => ?_, fun t => ?_⟩
    · rw [hversions, List.mem_singleton]
      refine (and_iff_left_of_imp ?_).symm
      rintro rfl
      exact h
    · rw [honce, value_bind, value_pure, List.mem_cons, or_comm]

namespace Database
variable {db : Database} {a : Atom} {c : Cpv} {cs : List Cpv}

theorem warnsOnce_warnMissing (known? : Cpv → Option FlagSet) (warning : Text → Warning)
    (hwarning : ∀ t, (warning t).version? = some t) (warned : List Text) (cs : List Cpv) :
    WarnsOnce warned (fun t => ∃ c ∈ cs, c.toText = t ∧ known? c = none)
      (warnMissing known? warning warned cs) (warnMissing known? warning warned cs).value.1 := by
  induction cs generalizing warned with
  | nil => exact .silent rfl (by simp)
  | cons c cs ih =>
    cases h : known? c with
    | some flags =>
      simp only [warnMissing, h]
      exact (ih warned).congr fun t => by simp [h]
    | none =>
      have hfirst := warnsOnce_warnOnce warned (hwarning c.toText)
      have hrest := ih (warnOnce warned c.toText (warning c.toText)).value
      simp only [warnMissing, h]
      refine (hfirst.bind (hrest.bind_silent rfl)).congr fun t => ?_
      simp [h, eq_comm]

theorem warnMissing_of_known {known? : Cpv → Option FlagSet}
    (h : ∀ c ∈ cs, (known? c).isSome = true) (warning : Text → Warning) (warned : List Text) :
    warnMissing known? warning warned cs = pure (warned, false) := by
  induction cs with
  | nil => rfl
  | cons c cs ih =>
    obtain ⟨flags, hflags⟩ := Option.isSome_iff_exists.1 (h c (by simp))
    rw [warnMissing, hflags]
    exact ih fun d hd => h d (by simp [hd])

theorem currentFlags?_isSome (h : c ∈ db.installedMatching a) :
    (db.currentFlags? c).isSome = true := by
  obtain ⟨p, hp, rfl⟩ := List.mem_map.1 h
  obtain ⟨hlist, hmeets⟩ := List.mem_filter.1 hp
  rw [currentFlags?, Option.isSome_map, lookupInstalled?, Installed.package_of_meets hmeets,
    List.find?_isSome]
  exact ⟨p, hlist, Cpv.sameAs_self p.cpv⟩

/-- Whether a record looks up the flags of an installed version, by its text, in vain. -/
def AsksInVain (db : Database) (x : Category × Record) (t : Text) : Prop :=
  x.1 = .use ∧ x.2.skip = false ∧ ∃ a, Atom.read x.2.atom = .ok a ∧ db.matching a ≠ [] ∧
    ∃ c ∈ db.installedMatching a,
      c.toText = t ∧ (db.declaredFlags? c = none ∨ db.currentFlags? c = none)

theorem asksInVain_iff {category : Category} {r : Record} {t : Text}
    (ha : Atom.read r.atom = .ok a) (hs : r.skip = false) :
    db.AsksInVain (category, r) t ↔
      category = .use ∧ db.matching a ≠ [] ∧ ∃ c ∈ db.installedMatching a,
        c.toText = t ∧ db.declaredFlags? c = none := by
  have hknown : ∀ c ∈ db.installedMatching a, db.currentFlags? c ≠ none :=
    fun c hc => Option.isSome_iff_ne_none.1 (currentFlags?_isSome hc)
  simp only [AsksInVain, ha, hs, Except.ok.injEq, exists_eq_left', true_and]
  refine and_congr_right fun _ => and_congr_right fun _ => exists_congr fun c => ?_
  refine and_congr_right fun hc => ?_
  rw [or_iff_left (hknown c hc)]

theorem warnsOnce_judgeUse (db : Database) (a : Atom) (value : Text) (warned : List Text) :
    WarnsOnce warned
      (fun t => db.matching a ≠ [] ∧ ∃ c ∈ db.installedMatching a,
        c.toText = t ∧ db.declaredFlags? c = none)
      (db.judgeUse a value warned) (db.judgeUse a value warned).value.2 := by
  rw [judgeUse]
  by_cases hmatching : db.matching a = []
  · rw [if_pos (by simp [hmatching])]
    exact .silent rfl (by simp [hmatching])
  · rw [if_neg (by simp [hmatching])]
    by_cases hinstalled : db.installedMatching a = []
    · rw [if_pos (by simp [hinstalled])]
      exact .silent rfl (by simp [hinstalled])
    · rw [if_neg (by simp [hinstalled])]
      have hlost := warnsOnce_warnMissing db.declaredFlags? .undeclaredInstalled (fun _ => rfl)
        warned (db.installedMatching a)
      have hknown : ∀ later, warnMissing db.currentFlags? .unknownInstalledFlags later
          (db.installedMatching a) = pure (later, false) :=
        warnMissing_of_known (fun c => currentFlags?_isSome) _
      have hite : ∀ (lost : Bool) (v : Option Verdict) (later : List Text),
          (if (lost || false) = true then pure (none, later) else pure (v, later)) =
            (pure (if lost then none else v, later) : Logged (Option Verdict × List Text)) := by
        intro lost v later
        cases lost <;> rfl
      simp only [hknown, pure_bind, hite]
      cases sortDistinct compare
          (db.undeclared (db.installedMatching a) (namedFlags (expandUse value))) with
      | nil => exact (hlost.bind_silent rfl).congr fun t => by simp [hmatching]
      | cons flag flags => exact (hlost.bind_silent rfl).congr fun t => by simp [hmatching]

end Database

namespace Auditor
open Database
variable {s t : Auditor} {rule : VisibilityRule} {category : Category} {r : Record}

theorem asksInVain_step (x : Category × Record) :
    (s.step rule category r).value.2.db.AsksInVain x = s.db.AsksInVain x := by
  obtain ⟨_, hdb⟩ := step_masking s rule category r
  rw [hdb]
  rfl

theorem asksInVain_answers (rs : List (Category × Record)) (x : Category × Record) :
    (s.answers rule rs).value.2.db.AsksInVain x = s.db.AsksInVain x := by
  obtain ⟨_, hdb⟩ := answers_masking s rule rs
  rw [hdb]
  rfl

theorem warnsOnce_judge (s : Auditor) (rule : VisibilityRule) (category : Category) (a : Atom)
    (value : Text) :
    WarnsOnce s.warned
      (fun t => category = .use ∧ s.db.matching a ≠ [] ∧ ∃ c ∈ s.db.installedMatching a,
        c.toText = t ∧ s.db.declaredFlags? c = none)
      (s.judge rule category a value) (s.judge rule category a value).value.2.warned := by
  cases category with
  | use =>
    have huse := s.db.warnsOnce_judgeUse a value s.warned
    exact (huse.bind_silent rfl).congr fun t => by simp
  | keywords => exact .silent (by simp [judge]) (by simp)
  | _ => exact .silent rfl (by simp)

theorem warnsOnce_step (s : Auditor) (rule : VisibilityRule) (x : Category × Record) :
    WarnsOnce s.warned (s.db.AsksInVain x) (s.step rule x.1 x.2)
      (s.step rule x.1 x.2).value.2.warned := by
  obtain ⟨category, r⟩ := x
  cases ha : Atom.read r.atom with
  | error fault =>
    rw [step_of_error ha]
    exact .silent (by simp [step, ha]) (by simp [AsksInVain, ha])
  | ok a =>
    cases hs : r.skip with
    | true =>
      rw [step_of_skip ha hs]
      exact .silent (by simp [step, ha, hs]) (by simp [AsksInVain, hs])
    | false =>
      have hstep : s.step rule category r = s.judge rule category a r.value >>= fun p =>
          pure (p.1.bind (·.finding? category r), p.2) := by
        simp [step, ha, hs]
      have hjudge := s.warnsOnce_judge rule category a r.value
      rw [hstep]
      exact (hjudge.bind_silent rfl).congr fun t => (asksInVain_iff ha hs).symm

theorem warnsOnce_answers (s : Auditor) (rule : VisibilityRule) (rs : List (Category × Record)) :
    WarnsOnce s.warned (fun t => ∃ x ∈ rs, s.db.AsksInVain x t) (s.answers rule rs)
      (s.answers rule rs).value.2.warned := by
  induction rs generalizing s with
  | nil => exact .silent rfl (by simp)
  | cons x rs ih =>
    have hstep := warnsOnce_step s rule x
    have hrest := ih (s.step rule x.1 x.2).value.2
    simp only [asksInVain_step] at hrest
    exact (hstep.bind (hrest.bind_silent rfl)).congr fun t => by simp

theorem step_congr_db (h : s.db = t.db) (rule : VisibilityRule) (x : Category × Record) :
    (s.step rule x.1 x.2).value.1 = (t.step rule x.1 x.2).value.1 ∧
      (s.step rule x.1 x.2).value.2.db = (t.step rule x.1 x.2).value.2.db := by
  refine ⟨finding_congr fun a => by rw [h], ?_⟩
  cases ha : Atom.read x.2.atom with
  | error fault => rw [step_of_error ha, step_of_error ha, h]
  | ok a => rw [step_db_of_read ha, step_db_of_read ha, h]

theorem answers_congr_db (h : s.db = t.db) (rs : List (Category × Record)) :
    (s.answers rule rs).value.1 = (t.answers rule rs).value.1 := by
  induction rs generalizing s t with
  | nil => rfl
  | cons x rs ih =>
    obtain ⟨hfinding, hdb⟩ := step_congr_db h rule x
    rw [answers_cons, answers_cons, hfinding, ih hdb]

/-- Over a whole audit no version is warned about twice: a record brings the warning exactly if it
looks up the flags of the version in vain and none before it does. What was warned about before
changes no finding. -/
theorem warned_once (db : Database) (rule : VisibilityRule) :
    (∀ rs, ((ofDatabase db).answers rule rs).versionsWarned.Nodup) ∧
    (∀ earlier x t,
      let s := ((ofDatabase db).answers rule earlier).value.2
      t ∈ (s.step rule x.1 x.2).versionsWarned ↔
        db.AsksInVain x t ∧ ∀ y ∈ earlier, ¬db.AsksInVain y t) ∧
    ∀ earlier later,
      let s := ((ofDatabase db).answers rule earlier).value.2
      (s.answers rule later).value.1 = ({ s with warned := [] }.answers rule later).value.1 := by
  refine ⟨fun rs => ?_, fun earlier x t => ?_, fun earlier later => ?_⟩
  · exact (warnsOnce_answers (ofDatabase db) rule rs).nodup
  · intro s
    have hearlier := warnsOnce_answers (ofDatabase db) rule earlier
    have hstep := warnsOnce_step s rule x
    rw [hstep.mem_iff, asksInVain_answers, hearlier.mem_after]
    simp [ofDatabase]
  · intro s
    exact answers_congr_db (s := s) (t := { s with warned := [] }) rfl later

example :
    let cpv (n : Char) : Cpv := ⟨['a'], ['b'], ⟨[n], [], none, [], none⟩⟩
    let db := Database.empty
      |>.insertAvailable (.ofTexts (cpv '2') ['0'] [] "ssl".toList none)
      |>.insertInstalled (.ofTexts (cpv '1') ['0'] [] none)
    let record (value : String) : Category × Record :=
      (.use, ⟨"a/b".toList, value.toList, [], 1, false⟩)
    ((ofDatabase db).answers .byRecord [record "ssl", record "-ssl"]).warnings =
      [.undeclaredInstalled "a/b-1".toList] := by
  decide +kernel

end Auditor
end OverrideAudit
