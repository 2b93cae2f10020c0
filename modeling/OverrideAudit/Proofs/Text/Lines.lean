import Mathlib.Data.List.DropRight
import OverrideAudit.Proofs.Text.Pieces

/-! The lines of a text: a text ends with its last line or starts with a line and a line feed, and
a line put in between two others is one more line. -/
namespace OverrideAudit.Text
variable {t line : Text}

theorem trim_cons_of_isBlank {c : Char} (h : isBlank c = true) (r : Text) :
    trim (c :: r) = trim r := by
  simp [trim, trimFrontWhere, h]

theorem trimBackWhere_isPrefix (p : Char → Bool) (t : Text) : trimBackWhere p t <+: t :=
  List.rdropWhile_prefix p t

theorem trim_isInfix (t : Text) : t.trim <:+: t :=
  (trimBackWhere_isPrefix isBlank _).isInfix.trans (List.dropWhile_suffix isBlank).isInfix

theorem mentions_trim {mark : Text} (h : t.mentions mark = false) :
    t.trim.mentions mark = false := by
  rw [Bool.eq_false_iff, Ne, mentions_iff] at h ⊢
  exact fun htrim => h (htrim.trans (trim_isInfix t))

theorem trimBackWhere_append_of_forall {p : Char → Bool} {back : Text} (t : Text)
    (h : ∀ c ∈ back, p c = true) : trimBackWhere p (t ++ back) = trimBackWhere p t := by
  rw [trimBackWhere, trimBackWhere, List.reverse_append, List.dropWhile_append_of_pos]
  simpa using h

theorem trimBackWhere_append_cons {p : Char → Bool} {c : Char} (front back : Text)
    (h : p c = false) :
    trimBackWhere p (front ++ c :: back) = front ++ c :: trimBackWhere p back := by
  simp only [trimBackWhere, List.reverse_append, List.reverse_cons, List.append_assoc,
    List.singleton_append, List.dropWhile_append, List.dropWhile_cons, h]
  split
  · next hback => simp [List.isEmpty_iff.1 hback]
  · simp

theorem trim_append_of_forall {back : Text} (t : Text) (h : ∀ c ∈ back, isBlank c = true) :
    trim (t ++ back) = trim t := by
  simp only [trim, trimFrontWhere, List.dropWhile_append]
  split
  · next hfront => rw [List.isEmpty_iff.1 hfront, List.dropWhile_eq_nil_iff.2 h]
  · exact trimBackWhere_append_of_forall _ h

theorem append_of_trimBackWhere (p : Char → Bool) (t : Text) :
    ∃ back, t = trimBackWhere p t ++ back ∧ ∀ c ∈ back, p c = true :=
  ⟨t.rtakeWhile p, List.rdropWhile_append_rtakeWhile.symm, fun _ => List.mem_rtakeWhile_imp⟩

theorem trimBackWhere_eq_self_iff {p : Char → Bool} {t : Text} :
    trimBackWhere p t = t ↔ ∀ c ∈ t.getLast?, p c = false := by
  refine List.rdropWhile_eq_self_iff.trans ?_
  obtain rfl | ⟨front, c, rfl⟩ := List.eq_nil_or_concat' t <;> simp

theorem append_of_trim (t : Text) :
    ∃ front back, t = front ++ (t.trim ++ back) ∧ (∀ c ∈ front, isBlank c = true) ∧
      ∀ c ∈ back, isBlank c = true := by
  obtain ⟨back, hback, hblank⟩ := append_of_trimBackWhere isBlank (trimFrontWhere isBlank t)
  refine ⟨t.takeWhile isBlank, back, ?_, List.all_eq_true.1 List.all_takeWhile, hblank⟩
  rw [trim, ← hback, trimFrontWhere, List.takeWhile_append_dropWhile]

theorem trim_append_cons {c : Char} (front back : Text) (h : isBlank c = false) :
    trim (front ++ c :: back) =
      trimFrontWhere isBlank front ++ c :: trimBackWhere isBlank back := by
  have hfront : trimFrontWhere isBlank (front ++ c :: back) =
      trimFrontWhere isBlank front ++ c :: back := by
    rw [trimFrontWhere, List.dropWhile_append, List.dropWhile_cons_of_neg (by simp [h])]
    split
    · next hnil => rw [trimFrontWhere, List.isEmpty_iff.1 hnil, List.nil_append]
    · rfl
  rw [trim, hfront, trimBackWhere_append_cons _ _ h]

theorem trim_trimFrontWhere (t : Text) : trim (trimFrontWhere isBlank t) = trim t := by
  rw [trim, trimFrontWhere, trimFrontWhere, List.dropWhile_idempotent]
  rfl

theorem trim_eq_cons {c : Char} {r : Text} (h : t.trim = c :: r) :
    isBlank c = false ∧ ∃ u, trimFrontWhere isBlank t = c :: u ∧ r = trimBackWhere isBlank u := by
  have hhead := List.head?_dropWhile_not isBlank t
  have hparts : t.trim = trimBackWhere isBlank (trimFrontWhere isBlank t) := rfl
  rw [hparts] at h
  cases hfront : trimFrontWhere isBlank t with
  | nil =>
    rw [hfront] at h
    exact absurd h (by simp [trimBackWhere])
  | cons d u =>
    have hd : isBlank d = false := by
      rw [show t.dropWhile isBlank = d :: u from hfront] at hhead
      simpa using hhead
    have hcons : trimBackWhere isBlank (d :: u) = d :: trimBackWhere isBlank u :=
      trimBackWhere_append_cons [] u hd
    rw [hfront, hcons] at h
    obtain ⟨rfl, rfl⟩ := List.cons.inj h
    exact ⟨hd, u, rfl, rfl⟩

theorem trim_trim (t : Text) : t.trim.trim = t.trim := by
  cases htrim : t.trim with
  | nil => rfl
  | cons c r =>
    obtain ⟨hc, u, -, rfl⟩ := trim_eq_cons htrim
    have hcons := trim_append_cons [] (trimBackWhere isBlank u) hc
    have hback : trimBackWhere isBlank (trimBackWhere isBlank u) = trimBackWhere isBlank u :=
      List.rdropWhile_idempotent isBlank u
    rw [hback] at hcons
    exact hcons

theorem dropReturn_append_of_ne {c : Char} (t : Text) (h : c ≠ '\r') :
    dropReturn (t ++ [c]) = t ++ [c] := by
  have hnone : ['\r'].isSuffixOf? (t ++ [c]) = none :=
    isSuffixOf?_eq_none fun r hr => h (by simpa using congrArg List.getLast? hr)
  rw [dropReturn, hnone, Option.getD_none]

theorem dropReturn_append_return (t : Text) : dropReturn (t ++ ['\r']) = t := by
  rw [dropReturn, List.isSuffixOf?_eq_some_iff_append_eq.2 rfl, Option.getD_some]

theorem dropReturn_cons {c : Char} (h : ¬ (c = '\r' ∧ t = [])) :
    dropReturn (c :: t) = c :: dropReturn t := by
  obtain rfl | ⟨front, d, rfl⟩ := List.eq_nil_or_concat' t
  · exact dropReturn_append_of_ne [] fun hc => h ⟨hc, rfl⟩
  · by_cases hd : d = '\r'
    · rw [hd, dropReturn_append_return, ← List.cons_append, dropReturn_append_return]
    · rw [dropReturn_append_of_ne front hd, ← List.cons_append, dropReturn_append_of_ne _ hd]

theorem dropReturn_isPrefix (t : Text) : dropReturn t <+: t := by
  obtain rfl | ⟨front, d, rfl⟩ := List.eq_nil_or_concat' t
  · exact List.prefix_refl _
  · by_cases hd : d = '\r'
    · rw [hd, dropReturn_append_return]
      exact List.prefix_append front ['\r']
    · simp [dropReturn_append_of_ne front hd]

theorem trim_dropReturn (line : Text) : (dropReturn line).trim = line.trim := by
  rw [dropReturn]
  cases h : ['\r'].isSuffixOf? line with
  | none => rfl
  | some front =>
    obtain rfl := List.isSuffixOf?_eq_some_iff_append_eq.1 h
    have hblank : ∀ c ∈ ['\r'], isBlank c = true := by simp; rfl
    rw [Option.getD_some, trim_append_of_forall front hblank]

theorem linesOfPieces_append (ps : List Text) {qs : List Text} (h : qs ≠ []) :
    linesOfPieces (ps ++ qs) = ps.map dropReturn ++ linesOfPieces qs := by
  induction ps with
  | nil => rfl
  | cons p ps ih =>
    obtain ⟨q, rest, hrest⟩ := List.exists_cons_of_ne_nil (List.append_ne_nil_of_right_ne_nil ps h)
    rw [List.cons_append, hrest, linesOfPieces, ← hrest, ih]
    · rfl
    · simp

@[simp] theorem lines_nil : lines [] = [] := rfl

theorem lines_append_newline (front rest : Text) :
    lines (front ++ '\n' :: rest) = (front.splitOn '\n').map dropReturn ++ lines rest := by
  rw [lines, List.splitOn_append_cons_self,
    linesOfPieces_append _ (List.splitOn_ne_nil '\n' rest), lines]

theorem lines_line (h : '\n' ∉ line) (rest : Text) :
    lines (line ++ '\n' :: rest) = dropReturn line :: lines rest := by
  rw [lines_append_newline, List.splitOn_eq_singleton h]
  rfl

theorem lines_append_of_newline (front rest : Text) :
    lines (front ++ ['\n'] ++ rest) = lines (front ++ ['\n']) ++ lines rest := by
  rw [List.append_assoc, List.singleton_append, lines_append_newline, lines_append_newline,
    lines_nil, List.append_nil]

@[elab_as_elim]
theorem lineInduction {motive : Text → Prop} (last : ∀ t, '\n' ∉ t → motive t)
    (line : ∀ line rest, '\n' ∉ line → motive rest → motive (line ++ '\n' :: rest)) (t : Text) :
    motive t := by
  suffices h : ∀ front, '\n' ∉ front → motive (front ++ t) from h [] (by simp)
  induction t with
  | nil => simpa using last
  | cons c rest ih =>
    intro front hfront
    by_cases hc : c = '\n'
    · subst hc
      exact line front rest hfront (ih [] (by simp))
    · have hlonger : '\n' ∉ front ++ [c] := by simp [hfront, Ne.symm hc]
      simpa using ih (front ++ [c]) hlonger

def insertLine (content line : Text) (k : Nat) : Text :=
  let pieces := content.splitOn '\n'
  ['\n'].intercalate (pieces.take k ++ line :: pieces.drop k)

theorem splitOn_insertLine (content : Text) (h : '\n' ∉ line) (k : Nat) :
    (content.insertLine line k).splitOn '\n' =
      (content.splitOn '\n').take k ++ line :: (content.splitOn '\n').drop k := by
  have hpieces : ∀ q ∈ (content.splitOn '\n').take k ++ line :: (content.splitOn '\n').drop k,
      '\n' ∉ q := by
    intro q hq
    rw [List.mem_append, List.mem_cons] at hq
    have hold : q ∈ content.splitOn '\n' → '\n' ∉ q := fun hmem hfeed =>
      absurd (not_of_mem_splitOnP hmem '\n' hfeed) (by simp)
    obtain hq | rfl | hq := hq
    · exact hold (List.mem_of_mem_take hq)
    · exact h
    · exact hold (List.mem_of_mem_drop hq)
  exact List.splitOn_intercalate '\n' hpieces (by simp)

theorem linesOfPieces_insert {pieces : List Text} {k : Nat} (hpieces : pieces ≠ [])
    (hline : line ≠ []) (hk : k ≤ (linesOfPieces pieces).length) :
    (linesOfPieces (pieces.take k ++ line :: pieces.drop k)).map trim =
      ((linesOfPieces pieces).take k).map trim ++
        line.trim :: ((linesOfPieces pieces).drop k).map trim := by
  induction pieces generalizing k with
  | nil => exact absurd rfl hpieces
  | cons p ps ih =>
    cases k with
    | zero => simp [linesOfPieces, trim_dropReturn]
    | succ k =>
      cases ps with
      | nil =>
        by_cases hp : p.isEmpty = true
        · simp [linesOfPieces, hp] at hk
        · obtain rfl : k = 0 := by simpa [linesOfPieces, hp] using hk
          simp [linesOfPieces, hp, hline, trim_dropReturn]
      | cons q qs =>
        rw [linesOfPieces, List.length_cons] at hk
        · have hrest := ih (by simp) (by omega : k ≤ _)
          have hne := List.append_ne_nil_of_right_ne_nil ((q :: qs).take k)
            (List.cons_ne_nil line ((q :: qs).drop k))
          have hcons := linesOfPieces_append [p] hne
          simp only [List.singleton_append] at hcons
          simp [hcons, hrest, linesOfPieces]
        · simp

/-- A line that is put into a text is one more line of it; the others stay as they are, up to
blanks at their ends. -/
theorem lines_insertLine {content : Text} {k : Nat} (hfeed : '\n' ∉ line) (hline : line ≠ [])
    (hk : k ≤ content.lines.length) :
    (content.insertLine line k).lines.map trim =
      (content.lines.take k).map trim ++ line.trim :: (content.lines.drop k).map trim := by
  rw [lines, splitOn_insertLine content hfeed k]
  exact linesOfPieces_insert (List.splitOn_ne_nil '\n' content) hline hk

example : insertLine "a\nb\n".toList "#".toList 1 = "a\n#\nb\n".toList := by decide

example : insertLine "a\nb".toList "#".toList 2 = "a\nb\n#".toList := by decide

def IsCommentLine (line : Text) : Prop :=
  '\n' ∉ line ∧ line.trim.startsWith ['#'] = true

instance (line : Text) : Decidable line.IsCommentLine :=
  inferInstanceAs (Decidable ('\n' ∉ line ∧ line.trim.startsWith ['#'] = true))

theorem IsCommentLine.ne_nil (h : line.IsCommentLine) : line ≠ [] := by
  intro hnil
  subst hnil
  exact absurd h.2 (by decide)

end OverrideAudit.Text
