import OverrideAudit.Proofs.Audit.Run
import OverrideAudit.Proofs.Sorted
import OverrideAudit.Proofs.Text.Pieces

/-! Flags that no installed version knows. The flag that is looked up for a token is the one that
the token switches, without the signs in front of it; tokens that clear are never looked up. -/
namespace OverrideAudit

namespace UseChange
variable {token flag : Text}

def switched? : UseChange → Option Text
  | enable flag | disable flag => some flag
  | clearAll | clearGroup _ => none

theorem getLast?_flagOfToken_star (lead : Text) :
    (flagOfToken (lead ++ ['*'])).getLast? = some '*' := by
  rw [flagOfToken, List.dropWhile_append]
  split
  · rfl
  · exact List.getLast?_concat

theorem getLast?_flagOfToken (h : (read token).switched? = none) :
    (flagOfToken token).getLast? = some '*' := by
  rw [read.eq_def] at h
  split at h
  · rfl
  · next flag _ =>
    split at h
    · next lead hlead =>
      obtain rfl := List.isSuffixOf?_eq_some_iff_append_eq.1 hlead
      exact getLast?_flagOfToken_star lead
    · contradiction
  · contradiction

theorem flagOfToken_dropWhile_plus (token : Text) :
    flagOfToken (token.dropWhile (· == '+')) = flagOfToken token := by
  induction token with
  | nil => rfl
  | cons c token ih =>
    by_cases hc : c = '+'
    · subst hc
      exact ih
    · rw [List.dropWhile_cons_of_neg (by simpa using hc)]

theorem flagOfToken_of_switched (h : (read token).switched? = some flag) :
    flagOfToken token = flagOfToken flag := by
  rw [read.eq_def] at h
  split at h
  · contradiction
  · next name _ =>
    have hname : flag = name := by
      split at h
      · split at h
        · contradiction
        · exact (Option.some.inj h).symm
      · exact (Option.some.inj h).symm
    subst hname
    rfl
  · obtain rfl := Option.some.inj h
    exact (flagOfToken_dropWhile_plus token).symm

end UseChange

namespace Database
variable {db : Database} {a : Atom} {tokens : List Text} {flag : Text}

/-- A flag that some token switches, apart from the signs in front of it, and that no installed
version declares as far as the repository still has it. -/
structure IsUnknown (db : Database) (a : Atom) (tokens : List Text) (flag : Text) : Prop where
  named : flag ≠ [] ∧ flag ≠ ['*']
  switched : ∃ token ∈ tokens, ∃ f, (UseChange.read token).switched? = some f ∧
    flagOfToken f = flag
  undeclared : ∀ c ∈ db.installedMatching a, ∀ declared ∈ db.declaredFlags? c,
    declared.contains flag = false

theorem mem_namedFlags_iff :
    flag ∈ namedFlags tokens ↔ flag ≠ [] ∧ flag.getLast? ≠ some '*' ∧
      ∃ token ∈ tokens, ∃ f, (UseChange.read token).switched? = some f ∧ flagOfToken f = flag := by
  have hfilter : flag ∈ namedFlags tokens ↔
      (∃ token ∈ tokens, flagOfToken token = flag) ∧ flag ≠ [] ∧ flag.getLast? ≠ some '*' := by
    simp [namedFlags]
  rw [hfilter]
  constructor
  · rintro ⟨⟨token, htoken, rfl⟩, hne, hstar⟩
    refine ⟨hne, hstar, token, htoken, ?_⟩
    cases hswitched : (UseChange.read token).switched? with
    | none => exact absurd (UseChange.getLast?_flagOfToken hswitched) hstar
    | some f => exact ⟨f, rfl, (UseChange.flagOfToken_of_switched hswitched).symm⟩
  · rintro ⟨hne, hstar, token, htoken, f, hswitched, rfl⟩
    exact ⟨⟨token, htoken, UseChange.flagOfToken_of_switched hswitched⟩, hne, hstar⟩

theorem mem_undeclared_iff :
    flag ∈ db.undeclared (db.installedMatching a) (namedFlags tokens) ↔
      db.IsUnknown a tokens flag ∧ flag.getLast? ≠ some '*' := by
  have hdeclared : flag ∈ db.undeclared (db.installedMatching a) (namedFlags tokens) ↔
      flag ∈ namedFlags tokens ∧ ∀ c ∈ db.installedMatching a, ∀ declared ∈ db.declaredFlags? c,
        declared.contains flag = false := by
    simp only [undeclared, List.mem_filter, Bool.not_eq_true', List.any_eq_false,
      Bool.not_eq_true]
    refine and_congr_right fun _ => forall₂_congr fun c _ => ?_
    cases db.declaredFlags? c <;> simp
  rw [hdeclared, mem_namedFlags_iff]
  constructor
  · rintro ⟨⟨hne, hstar, hswitched⟩, hundeclared⟩
    refine ⟨⟨⟨hne, ?_⟩, hswitched, hundeclared⟩, hstar⟩
    rintro rfl
    exact hstar rfl
  · rintro ⟨h, hstar⟩
    exact ⟨⟨h.named.1, hstar, h.switched⟩, h.undeclared⟩

theorem kind_of_judgeChanges {sets : List FlagSet} {v : Verdict}
    (h : judgeChanges tokens sets = some v) : v.kind = .redundant := by
  rw [judgeChanges] at h
  split at h
  · obtain rfl := Option.some.inj h
    rfl
  · split at h
    · contradiction
    · obtain rfl := Option.some.inj h
      rfl

def unknownFlags (db : Database) (a : Atom) (value : Text) : List Text :=
  sortDistinct compare (db.undeclared (db.installedMatching a) (namedFlags (expandUse value)))

theorem mem_unknownFlags_iff {value : Text} :
    flag ∈ db.unknownFlags a value ↔
      db.IsUnknown a (expandUse value) flag ∧ flag.getLast? ≠ some '*' :=
  mem_sortDistinct.trans mem_undeclared_iff

def KnowsFlags (db : Database) (c : Cpv) : Prop :=
  (db.declaredFlags? c).isSome = true ∧ (db.currentFlags? c).isSome = true

instance (db : Database) (c : Cpv) : Decidable (db.KnowsFlags c) :=
  inferInstanceAs (Decidable (_ ∧ _))

theorem exists_not_knowsFlags_iff {cs : List Cpv} :
    ((cs.any fun c => (db.declaredFlags? c).isNone) ||
      cs.any fun c => (db.currentFlags? c).isNone) = true ↔ ∃ c ∈ cs, ¬db.KnowsFlags c := by
  rw [Bool.or_eq_true, List.any_eq_true, List.any_eq_true, ← exists_or]
  refine exists_congr fun c => ?_
  rw [← and_or_left, KnowsFlags, not_and_or, Bool.not_eq_true, Bool.not_eq_true,
    Option.isSome_eq_false_iff, Option.isSome_eq_false_iff]

section
variable {value : Text} (hm : db.matching a ≠ []) (hi : db.installedMatching a ≠ [])
  (warned : List Text)
include hm hi

theorem judgeUse_of_installed :
    (db.judgeUse a value warned).value.1 =
      match db.unknownFlags a value with
      | [] =>
        if ((db.installedMatching a).any fun c => (db.declaredFlags? c).isNone) ||
            (db.installedMatching a).any fun c => (db.currentFlags? c).isNone then none
        else judgeChanges (expandUse value) (db.knownFlags (db.installedMatching a))
      | flags => some (.unknownFlags flags) := by
  rw [judgeUse_value]
  simp only [List.isEmpty_iff, hm, hi, if_false]
  rfl

theorem judgeUse_of_unknown (h : db.unknownFlags a value ≠ []) :
    (db.judgeUse a value warned).value.1 = some (.unknownFlags (db.unknownFlags a value)) := by
  rw [judgeUse_of_installed hm hi]
  split
  · next hnone => exact absurd hnone h
  · rfl

theorem judgeUse_of_lost (h : db.unknownFlags a value = [])
    (hlost : ∃ c ∈ db.installedMatching a, ¬db.KnowsFlags c) :
    (db.judgeUse a value warned).value.1 = none := by
  rw [judgeUse_of_installed hm hi, h]
  exact if_pos (exists_not_knowsFlags_iff.2 hlost)

theorem judgeUse_of_known (h : db.unknownFlags a value = [])
    (hknown : ∀ c ∈ db.installedMatching a, db.KnowsFlags c) :
    (db.judgeUse a value warned).value.1 =
      judgeChanges (expandUse value) (db.knownFlags (db.installedMatching a)) := by
  rw [judgeUse_of_installed hm hi, h]
  refine if_neg fun hlost => ?_
  obtain ⟨c, hc, hnot⟩ := exists_not_knowsFlags_iff.1 hlost
  exact hnot (hknown c hc)

theorem kind_of_judgeUse_iff :
    (∃ v, (db.judgeUse a value warned).value.1 = some v ∧ v.kind = .iuse) ↔
      db.unknownFlags a value ≠ [] := by
  constructor
  · rintro ⟨v, hv, hkind⟩ hnone
    by_cases hknown : ∀ c ∈ db.installedMatching a, db.KnowsFlags c
    · rw [judgeUse_of_known hm hi warned hnone hknown] at hv
      rw [kind_of_judgeChanges hv] at hkind
      contradiction
    · rw [judgeUse_of_lost hm hi warned hnone (by simpa using hknown)] at hv
      contradiction
  · exact fun h => ⟨_, judgeUse_of_unknown hm hi warned h, rfl⟩

end

/-- An override for USE flags is found to name unknown flags exactly when it does, and the message
lists them in order, each without the signs in front of it. Whether a flag that ends with a star is
among them is left open. -/
theorem unknownFlags_of_tokens (db : Database) (a : Atom) (value : Text) (warned : List Text)
    (hm : db.matching a ≠ []) (hi : db.installedMatching a ≠ []) :
    let answer := (db.judgeUse a value warned).value.1
    let tokens := expandUse value
    ∃ flags : List Text, flags.Pairwise (compare · · = .lt) ∧
      (∀ flag ∈ flags, db.IsUnknown a tokens flag) ∧
      (∀ flag, db.IsUnknown a tokens flag → flag.getLast? ≠ some '*' → flag ∈ flags) ∧
      ((∃ v, answer = some v ∧ v.kind = .iuse) ↔ flags ≠ []) ∧
      ∀ v, answer = some v → v.kind = .iuse →
        v.message = "unknown USE flags: ".toList ++ [',', ' '].intercalate flags := by
  intro answer tokens
  have hiuse : (∃ v, answer = some v ∧ v.kind = .iuse) ↔ db.unknownFlags a value ≠ [] :=
    kind_of_judgeUse_iff hm hi warned
  refine ⟨db.unknownFlags a value, sortDistinct_ascends _,
    fun flag hflag => (mem_unknownFlags_iff.1 hflag).1,
    fun flag hunknown hstar => mem_unknownFlags_iff.2 ⟨hunknown, hstar⟩, hiuse, ?_⟩
  intro v hv hkind
  have hfound := judgeUse_of_unknown hm hi warned (hiuse.1 ⟨v, hv, hkind⟩)
  obtain rfl := Option.some.inj (hv.symm.trans hfound)
  rfl

theorem unknownFlags_of_tokens_lost :
    let cpv (n : Char) : Cpv := ⟨['a'], ['b'], ⟨[n], [], none, [], none⟩⟩
    let db := Database.empty
      |>.insertAvailable (.ofTexts (cpv '2') ['0'] [] "+ssl g_x".toList none)
      |>.insertInstalled (.ofTexts (cpv '1') ['0'] "qt".toList none)
      |>.insertInstalled (.ofTexts (cpv '2') ['0'] "ssl".toList none)
    let all := Atom.ofPackage ⟨['a'], ['b']⟩
    let value := "-* --ssl +qt G: -* x -y".toList
    let answer := (db.judgeUse all value []).value.1
    db.matching all ≠ [] ∧ db.installedMatching all ≠ [] ∧
      answer = some (.unknownFlags ["g_y".toList, "qt".toList]) ∧
      ∃ flags, "qt".toList ∈ flags ∧ "ssl".toList ∉ flags ∧
        (∃ v, answer = some v ∧ v.kind = .iuse) ∧
        ∀ v, answer = some v → v.kind = .iuse →
          v.message = "unknown USE flags: ".toList ++ [',', ' '].intercalate flags := by
  intro cpv db all value answer
  have hm : db.matching all ≠ [] := by decide
  have hi : db.installedMatching all ≠ [] := by decide
  obtain ⟨flags, -, hunknown, hall, hfound, hmessage⟩ :=
    unknownFlags_of_tokens db all value [] hm hi
  have hqt : "qt".toList ∈ flags := by
    refine hall _ ⟨by decide, ⟨"+qt".toList, by decide, "qt".toList, by decide, by decide⟩, ?_⟩
      (by decide)
    decide +kernel
  have hssl : "ssl".toList ∉ flags := by
    intro hmem
    have hdeclared := (hunknown _ hmem).undeclared (cpv '2') (by decide +kernel)
      (declaredFlags "+ssl g_x".toList) (by rfl)
    exact absurd hdeclared (by decide)
  exact ⟨hm, hi, by decide +kernel, flags, hqt, hssl, hfound.2 (List.ne_nil_of_mem hqt), hmessage⟩

/-- The token switches a flag that starts with a sign and is declared nowhere, but it is looked up
without its signs. -/
theorem unknownFlag_passed_over :
    let cpv : Cpv := ⟨['a'], ['b'], ⟨['1'], [], none, [], none⟩⟩
    let db := Database.empty
      |>.insertAvailable (.ofTexts cpv ['0'] [] "ssl".toList none)
      |>.insertInstalled (.ofTexts cpv ['0'] [] none)
    let all := Atom.ofPackage ⟨['a'], ['b']⟩
    let value := "--ssl".toList
    db.matching all ≠ [] ∧ db.installedMatching all ≠ [] ∧
      ¬((∃ v, (db.judgeUse all value []).value.1 = some v ∧ v.kind = .iuse) ↔
        ∃ token ∈ expandUse value, ∃ flag, (UseChange.read token).switched? = some flag ∧
          flag ≠ [] ∧ flag ≠ ['*'] ∧ ∀ c ∈ db.installedMatching all,
            ∀ declared ∈ db.declaredFlags? c, declared.contains flag = false) := by
  intro cpv db all value
  have hanswer : (db.judgeUse all value []).value.1 = some .noFlagChange := by decide +kernel
  refine ⟨by decide, by decide, fun hiff => ?_⟩
  obtain ⟨v, hv, hkind⟩ := hiff.2 ⟨value, by decide, "-ssl".toList, by decide, by decide, by decide,
    by decide⟩
  obtain rfl := Option.some.inj (hv.symm.trans hanswer)
  contradiction

end Database
end OverrideAudit
