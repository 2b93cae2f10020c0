import OverrideAudit.Proofs.Audit.Run
import OverrideAudit.Proofs.Database.Selection

/-! Skipping is local. A record that is skipped is applied although a judged one may not be, so two
audits that skip different records reach different states. The states agree in their live part, and
no verdict looks at anything else. -/
namespace OverrideAudit

namespace Database

/-- An override for keywords is live if its atom selects an offered version of a package that is
installed. -/
def isLive (db : Database) (o : KeywordOverride) : Bool := (db.presence? o.atom).isNone

def live (db : Database) : Database :=
  { db with masking.overrides := db.masking.overrides.filter db.isLive }

theorem presence?_live (db : Database) (a : Atom) : db.live.presence? a = db.presence? a := rfl

theorem live_live (db : Database) : db.live.live = db.live := by
  have hfilter : (db.masking.overrides.filter db.isLive).filter db.live.isLive =
      db.masking.overrides.filter db.isLive := by
    rw [List.filter_filter]
    exact List.filter_congr fun o _ => Bool.and_self _
  simp only [live] at hfilter ⊢
  rw [hfilter]

theorem live_acceptKeywords (db : Database) (a : Atom) (keywords : List Text) :
    (db.acceptKeywords a keywords).live =
      if (db.presence? a).isNone then db.live.acceptKeywords a keywords else db.live := by
  let o : KeywordOverride := ⟨a, keywords⟩
  have hunfold : (db.acceptKeywords a keywords).live =
      { db with masking.overrides := (db.masking.overrides ++ [o]).filter db.isLive } := rfl
  rw [hunfold, List.filter_append]
  cases h : db.presence? a with
  | none => simp [isLive, o, h, live, acceptKeywords, Masking.addKeywords]
  | some v => simp [isLive, o, h, live]

theorem isLive_of_meets {db : Database} {p : Available} (hp : db.Offers p)
    (hi : db.installedMatching (Atom.ofPackage p.cpv.package) ≠ []) {o : KeywordOverride}
    (hm : p.meets o.atom = true) : db.isLive o = true := by
  have hmatching : (db.matching o.atom).isEmpty = false := by
    simpa using List.ne_nil_of_mem (mem_matching_of_meets hp hm)
  have hinstalled : (db.installedMatching o.atom.package).isEmpty = false := by
    rw [Available.package_of_meets hm] at hi
    simpa [Atom.package] using hi
  simp [isLive, presence?, hmatching, hinstalled]

theorem acceptedFor_live {db : Database} {p : Available} (hp : db.Offers p)
    (hi : db.installedMatching (Atom.ofPackage p.cpv.package) ≠ []) :
    db.live.masking.acceptedFor p = db.masking.acceptedFor p := by
  simp only [Masking.acceptedFor, live, List.foldl_filter]
  refine congrFun (congrFun (congrArg _ ?_) _) _
  funext a o
  -- An override that is left out does not meet `p`, so it does not count in either fold.
  by_cases hm : p.meets o.atom = true
  · simp [isLive_of_meets hp hi hm]
  · simp [hm]

theorem reasons_live {db : Database} {p : Available} (hp : db.Offers p)
    (hi : db.installedMatching (Atom.ofPackage p.cpv.package) ≠ []) :
    db.live.masking.reasons p = db.masking.reasons p := by
  have haccepted := acceptedFor_live hp hi
  simp only [Masking.reasons, Masking.keywordReason?, haccepted]
  rfl

theorem visible_live {db : Database} {a : Atom} (h : db.presence? a = none)
    (rule : VisibilityRule) : db.live.visible rule a = db.visible rule a := by
  have hi : db.installedMatching (Atom.ofPackage a.packageName) ≠ [] :=
    (presence?_eq_none_iff.1 h).2
  cases rule with
  | byRecord =>
    simp only [visible]
    refine congrArg _ (List.filter_congr fun p hp => ?_)
    obtain ⟨hoffer, hm⟩ := mem_selected_iff.1 (show p ∈ db.selected a from hp)
    rw [← Available.package_of_meets hm] at hi
    rw [Masking.isVisible, Masking.isVisible, reasons_live hoffer hi]
  | byVersion =>
    simp only [visible]
    refine List.filter_congr fun c hc => ?_
    have hlookup : db.live.lookupAvailable? c = db.lookupAvailable? c := rfl
    simp only [maskReasons, hlookup]
    cases hp : db.lookupAvailable? c with
    | none => rfl
    | some p =>
      -- The look-up may find another record than `c` is of, but one of the same package.
      obtain ⟨hoffer, hpackage⟩ := offers_of_lookup hp
      obtain ⟨q, hq, rfl⟩ := List.mem_map.1 (show c ∈ db.matching a from hc)
      rw [← Available.package_of_meets (mem_selected_iff.1 hq).2, ← hpackage] at hi
      simp [reasons_live hoffer hi]

theorem isMaskedVersion_live (db : Database) : db.live.isMaskedVersion = db.isMaskedVersion := by
  funext c
  rw [isMaskedVersion_eq, isMaskedVersion_eq]
  rfl

theorem judgeKeywords_live (db : Database) (rule : VisibilityRule) (a : Atom) (value : Text) :
    (db.live.judgeKeywords rule a value).1 = (db.judgeKeywords rule a value).1 := by
  have hpresence := presence?_live db a
  cases h : db.presence? a with
  | some v => simp [judgeKeywords, h, hpresence]
  | none =>
    let after := db.acceptKeywords a (db.keywordsOfValue value)
    have hafter : after.live = db.live.acceptKeywords a (db.live.keywordsOfValue value) := by
      rw [live_acceptKeywords, h]
      rfl
    have hvisible : (db.live.acceptKeywords a (db.live.keywordsOfValue value)).visible rule a =
        after.visible rule a := by
      rw [← hafter]
      exact visible_live (show after.presence? a = none from h) rule
    simp only [judgeKeywords, hpresence, h, hvisible, visible_live h]
    rfl

theorem verdict?_live (db : Database) (rule : VisibilityRule) (category : Category) (a : Atom)
    (value : Text) :
    db.live.verdict? rule category a value = db.verdict? rule category a value := by
  cases category with
  | keywords => exact judgeKeywords_live db rule a value
  | mask => simp only [verdict?, judgeMask, isMaskedVersion_live]; rfl
  | unmask => simp only [verdict?, judgeUnmask, isMaskedVersion_live]; rfl
  | use => simp only [verdict?, judgeUse_value]; rfl
  | _ => rfl

end Database

namespace Auditor
open Database

theorem live_applyOverride (db : Database) (category : Category) (a : Atom) (value : Text) :
    (applyOverride db category a value).live = (applyOverride db.live category a value).live := by
  cases category with
  | keywords =>
    have hkeywords : db.live.keywordsOfValue value = db.keywordsOfValue value := rfl
    simp only [applyOverride, hkeywords, live_acceptKeywords, presence?_live, live_live]
  | mask =>
    have hmask : ∀ e : Database, (e.mask a).live = e.live.mask a := fun _ => rfl
    simp only [applyOverride, hmask, live_live]
  | unmask =>
    have hunmask : ∀ e : Database, (e.unmask a).live = e.live.unmask a := fun _ => rfl
    simp only [applyOverride, hunmask, live_live]
  | _ => exact (live_live db).symm

theorem live_step (s : Auditor) (rule : VisibilityRule) (category : Category) (r : Record) :
    (s.step rule category r).value.2.db.live = (applied s.db.live category r).live := by
  cases h : Atom.read r.atom with
  | error fault => simp [step_of_error h, applied_of_error h, live_live]
  | ok a =>
    rw [applied_of_read h, ← live_applyOverride, step_db_of_read h]
    split
    · next hidle =>
      -- An override for keywords that is not applied would not be live.
      obtain ⟨rfl, -, hpresence⟩ := hidle
      obtain ⟨v, hv⟩ := Option.isSome_iff_exists.1 hpresence
      simp [applyOverride, live_acceptKeywords, hv]
    · rfl

theorem step_congr {s t : Auditor} (hlive : s.db.live = t.db.live) {rule : VisibilityRule}
    {category : Category} {r : Record} :
    (s.step rule category r).value.1 = (t.step rule category r).value.1 :=
  finding_congr fun a => by rw [← verdict?_live s.db, hlive, verdict?_live]

theorem step_eq_none_of_skip {s : Auditor} {rule : VisibilityRule} {category : Category}
    {r : Record} (hs : r.skip = true) : (s.step rule category r).value.1 = none := by
  cases h : Atom.read r.atom with
  | error fault => simp [step_of_error h]
  | ok a => simp [step_of_skip h hs]

def unskipped (x : Category × Record) : Category × Record := (x.1, { x.2 with skip := false })

theorem live_step_congr {s t : Auditor} (hlive : s.db.live = t.db.live) (rule : VisibilityRule)
    {x y : Category × Record} (h : unskipped x = unskipped y) :
    (s.step rule x.1 x.2).value.2.db.live = (t.step rule y.1 y.2).value.2.db.live := by
  have happlied : ∀ db (x : Category × Record),
      applied db (unskipped x).1 (unskipped x).2 = applied db x.1 x.2 := fun _ _ => rfl
  rw [live_step, live_step, hlive, ← happlied, h, happlied]

theorem answer_of_skip {s : Auditor} {rule : VisibilityRule} {rs : List (Category × Record)}
    {i : Nat} {x : Category × Record} (hx : rs[i]? = some x) (hs : x.2.skip = true) :
    (s.answers rule rs).value.1[i]? = some none := by
  induction rs generalizing s i with
  | nil => simp at hx
  | cons z rs ih =>
    rw [answers_cons]
    cases i with
    | zero =>
      obtain rfl : z = x := by simpa using hx
      simp [step_eq_none_of_skip hs]
    | succ i => exact ih (by simpa using hx)

/-- Two audits whose states agree in their live part answer alike wherever both judge. The live
parts agree after every step, whichever of the two skips. -/
theorem answer_congr {s t : Auditor} (hlive : s.db.live = t.db.live) {rule : VisibilityRule}
    {rs ss : List (Category × Record)} (h : rs.map unskipped = ss.map unskipped) {i : Nat}
    {x y : Category × Record} (hx : rs[i]? = some x) (hy : ss[i]? = some y)
    (hxs : x.2.skip = false) (hys : y.2.skip = false) :
    (s.answers rule rs).value.1[i]? = (t.answers rule ss).value.1[i]? := by
  induction rs generalizing ss s t i with
  | nil => simp at hx
  | cons z rs ih =>
    cases ss with
    | nil => simp at hy
    | cons w ss =>
      rw [List.map_cons, List.map_cons, List.cons.injEq] at h
      rw [answers_cons, answers_cons]
      cases i with
      | zero =>
        obtain rfl : z = x := by simpa using hx
        obtain rfl : w = y := by simpa using hy
        have hself : ∀ x : Category × Record, x.2.skip = false → unskipped x = x := by
          intro (category, r) hr
          simp [unskipped, ← hr]
        have hsame : z = w := by rw [← hself z hxs, h.1, hself w hys]
        simp [hsame, step_congr hlive]
      | succ i =>
        exact ih (live_step_congr hlive rule h.1) h.2 (by simpa using hx) (by simpa using hy)

/-- Whether records are skipped changes nothing for the others: two audits of the same records that
may skip different ones find the same about each that both of them judge. -/
theorem answers_skip_local (s : Auditor) (rule : VisibilityRule) {rs ss : List (Category × Record)}
    (h : rs.map unskipped = ss.map unskipped) :
    let found := (s.answers rule rs).value.1
    let found' := (s.answers rule ss).value.1
    found.length = rs.length ∧ found'.length = ss.length ∧
      ∀ (i : Nat) (x y : Category × Record), rs[i]? = some x → ss[i]? = some y →
        (x.2.skip = true → found[i]? = some none) ∧
        (y.2.skip = true → found'[i]? = some none) ∧
        (x.2.skip = false → y.2.skip = false → found[i]? = found'[i]?) := by
  refine ⟨length_answers rs, length_answers ss, ?_⟩
  intro i x y hx hy
  exact ⟨answer_of_skip hx, answer_of_skip hy, answer_congr rfl h hx hy⟩

theorem answers_skip_local_notInstalled :
    let v : Version := ⟨['1'], [], none, [], none⟩
    let db := { Database.empty with masking.accepted := .ofText "amd64".toList }
      |>.insertAvailable (.ofTexts ⟨['a'], ['b'], v⟩ ['0'] "amd64".toList [] none)
      |>.insertAvailable (.ofTexts ⟨['a'], ['c'], v⟩ ['0'] "~amd64".toList [] none)
      |>.insertInstalled (.ofTexts ⟨['a'], ['b'], v⟩ ['0'] [] none)
    let run (skip : Bool) : List (Category × Record) :=
      [(.keywords, ⟨"a/c".toList, "~amd64".toList, "keywords".toList, 1, skip⟩),
        (.keywords, ⟨"a/b".toList, "~amd64".toList, "keywords".toList, 2, false⟩)]
    let audit (skip : Bool) := ((ofDatabase db).answers .byRecord (run skip)).value
    (run true).map unskipped = (run false).map unskipped ∧
      (audit true).2.db.masking.overrides.length = 2 ∧
      (audit false).2.db.masking.overrides.length = 1 ∧
      (audit true).1[0]? = some none ∧
      (audit true).1[1]? = (audit false).1[1]? ∧
      ((audit true).1[1]?.bind id).map Finding.issue = some ⟨.keywords, .redundant⟩ := by
  intro v db run audit
  have hlocal := answers_skip_local (ofDatabase db) .byRecord (show (run true).map unskipped =
    (run false).map unskipped from rfl)
  exact ⟨rfl, by decide, by decide, (hlocal.2.2 0 _ _ rfl rfl).1 rfl,
    (hlocal.2.2 1 _ _ rfl rfl).2.2 rfl rfl, by decide⟩

end Auditor
end OverrideAudit
