import OverrideAudit.Proofs.Text.Lines
import OverrideAudit.Variables

/-! Settings one after another. A text that ends where a line ends, with no quote open, leaves
nothing to the text behind it, so both are read one after the other; and a comment between them is
no statement. Lines are continued before comments are recognised, so a comment that ends with a
backslash takes in the next line. -/
namespace OverrideAudit

theorem joinContinued_cons {c : Char} {r : Text} (h : c = '\\' → r.head? ≠ some '\n') :
    joinContinued (c :: r) = c :: joinContinued r := by
  refine joinContinued.eq_3 c r fun rest hc hr => ?_
  exact h hc (by rw [hr, List.head?_cons])

theorem joinContinued_append {a b : Text} (h : a.getLast? ≠ some '\\' ∨ b.head? ≠ some '\n') :
    joinContinued (a ++ b) = joinContinued a ++ joinContinued b := by
  fun_induction joinContinued a with
  | case1 => rfl
  | case2 r ih =>
    rw [List.cons_append, List.cons_append, joinContinued, ih, List.cons_append]
    refine h.imp_left fun hlast hr => hlast ?_
    rw [List.getLast?_cons, List.getLast?_cons, hr]
    rfl
  | case3 c r hc ih =>
    have hmeet : c = '\\' → (r ++ b).head? ≠ some '\n' := by
      intro hback hfeed
      cases r with
      | nil =>
        obtain hlast | hhead := h
        · exact hlast (by rw [hback, List.getLast?_singleton])
        · exact hhead hfeed
      | cons d r => exact hc r hback (by rw [Option.some.inj hfeed])
    rw [List.cons_append, joinContinued_cons hmeet, ih, List.cons_append]
    refine h.imp_left fun hlast hr => hlast ?_
    rw [List.getLast?_cons, hr]
    rfl

theorem joinContinued_eq_self {t : Text} (h : ¬ ['\\', '\n'] <:+: t) : joinContinued t = t := by
  fun_induction joinContinued t with
  | case1 => rfl
  | case2 r ih => exact absurd (List.prefix_append ['\\', '\n'] r).isInfix h
  | case3 c r hc ih => rw [ih fun hpart => h (List.infix_cons hpart)]

theorem joinContinued_of_not_mem {t : Text} (h : '\n' ∉ t) : joinContinued t = t :=
  joinContinued_eq_self fun hpart => h (hpart.subset (by simp))

/-- The text ends at the start of a line that continues no other, and no quote is open there. -/
def Text.EndsBetweenStatements (a : Text) : Prop :=
  (a = [] ∨ a.getLast? = some '\n' ∧ a.dropLast.getLast? ≠ some '\\') ∧
    unfinishedStatement? a = none

instance (a : Text) : Decidable a.EndsBetweenStatements :=
  inferInstanceAs (Decidable ((a = [] ∨ a.getLast? = some '\n' ∧
    a.dropLast.getLast? ≠ some '\\') ∧ unfinishedStatement? a = none))

def statementsFrom (statement : Text) (lines : List Text) : List Text :=
  if hasOpenQuote statement then statementsOf (some statement) lines
  else statement :: statementsOf none lines

theorem statementsOf_line (line : Text) (lines : List Text) :
    statementsOf none (line :: lines) =
      if line.trim.isEmpty || line.trim.startsWith ['#'] then statementsOf none lines
      else statementsFrom line.trim lines := rfl

theorem statementsOf_pending (front line : Text) (lines : List Text) :
    statementsOf (some front) (line :: lines) = statementsFrom (front ++ '\n' :: line) lines := rfl

theorem statementsFrom_of_open {statement : Text} (h : hasOpenQuote statement = true)
    (lines : List Text) : statementsFrom statement lines = statementsOf (some statement) lines :=
  if_pos h

theorem statementsFrom_of_closed {statement : Text} (h : hasOpenQuote statement = false)
    (lines : List Text) : statementsFrom statement lines = statement :: statementsOf none lines :=
  if_neg (by simp [h])

theorem statementsOf_dropReturn (line : Text) (lines : List Text) :
    statementsOf none (line.dropReturn :: lines) = statementsOf none (line :: lines) := by
  rw [statementsOf_line, statementsOf_line, Text.trim_dropReturn]

theorem statementsOf_append {pending : Option Text} {front : List Text} (back : List Text)
    (hpending : ∀ s ∈ pending, hasOpenQuote s = true)
    (hlast : ∀ s ∈ (statementsOf pending front).getLast?, hasOpenQuote s = false) :
    statementsOf pending (front ++ back) =
      statementsOf pending front ++ statementsOf none back := by
  -- A complete statement in front of others is not the last one, unless there are no others.
  have hlater : ∀ {s : Text} {others : List Text},
      (∀ t ∈ (s :: others).getLast?, hasOpenQuote t = false) →
        ∀ t ∈ others.getLast?, hasOpenQuote t = false := by
    intro s others h t ht
    rw [Option.mem_def] at ht
    exact h t (by rw [List.getLast?_cons, ht]; rfl)
  induction front generalizing pending with
  | nil =>
    cases pending with
    | none => rfl
    | some s => exact absurd (hpending s rfl) (by simp [hlast s rfl])
  | cons line front ih =>
    have hfrom : ∀ s, (∀ t ∈ (statementsFrom s front).getLast?, hasOpenQuote t = false) →
        statementsFrom s (front ++ back) = statementsFrom s front ++ statementsOf none back := by
      intro s hs
      cases hopen : hasOpenQuote s with
      | true =>
        rw [statementsFrom_of_open hopen] at hs
        rw [statementsFrom_of_open hopen, statementsFrom_of_open hopen, ih (by simpa) hs]
      | false =>
        rw [statementsFrom_of_closed hopen] at hs
        rw [statementsFrom_of_closed hopen, statementsFrom_of_closed hopen, List.cons_append,
          ih (by simp) (hlater hs)]
    cases pending with
    | none =>
      rw [statementsOf_line] at hlast
      rw [List.cons_append, statementsOf_line, statementsOf_line]
      split at hlast
      · next hidle =>
        rw [if_pos hidle, if_pos hidle]
        exact ih (by simp) hlast
      · next hidle =>
        rw [if_neg hidle, if_neg hidle]
        exact hfrom line.trim hlast
    | some s => exact hfrom (s ++ '\n' :: line) hlast

theorem statements_append {a : Text} (h : a.EndsBetweenStatements) (b : Text) :
    statements (a ++ b) = statements a ++ statements b := by
  obtain ⟨rfl | ⟨hfeed, hback⟩, hclosed⟩ := h
  · rfl
  · obtain ⟨front, rfl⟩ := List.getLast?_eq_some_iff.1 hfeed
    rw [List.dropLast_concat] at hback
    have hjoined : joinContinued (front ++ ['\n']) = joinContinued front ++ ['\n'] :=
      joinContinued_append (.inl hback)
    have hjoinedAll : joinContinued (front ++ ['\n'] ++ b) =
        joinContinued front ++ ['\n'] ++ joinContinued b := by
      rw [joinContinued_append (.inl (by rw [hfeed]; decide)), hjoined]
    have hlast : ∀ s ∈ (statements (front ++ ['\n'])).getLast?, hasOpenQuote s = false := by
      simpa [unfinishedStatement?, Option.filter_eq_none_iff] using hclosed
    rw [statements, hjoined] at hlast
    rw [statements, statements, statements, hjoinedAll, hjoined, Text.lines_append_of_newline,
      statementsOf_append _ (by simp) hlast]

namespace Variables

theorem readInto_append {a : Text} (h : a.EndsBetweenStatements) (v : Variables) (b : Text) :
    v.readInto (a ++ b) = (v.readInto a).readInto b := by
  rw [readInto, statements_append h, List.foldl_append]
  rfl

end Variables

/-- A comment with the lines that continue it: joined they are one line that starts with a `#`, and
no further line continues it. -/
def Text.IsComment (c : Text) : Prop := (joinContinued c).IsCommentLine ∧ c.getLast? ≠ some '\\'

instance (c : Text) : Decidable c.IsComment :=
  inferInstanceAs (Decidable ((joinContinued c).IsCommentLine ∧ c.getLast? ≠ some '\\'))

theorem Text.IsCommentLine.isComment {c : Text} (h : c.IsCommentLine)
    (hback : c.getLast? ≠ some '\\') : c.IsComment := by
  refine ⟨?_, hback⟩
  rwa [joinContinued_of_not_mem h.1]

theorem statements_comment {c : Text} (h : c.IsComment) (b : Text) :
    statements (c ++ '\n' :: b) = statements b := by
  obtain ⟨⟨hfeed, hhash⟩, hback⟩ := h
  have hjoined : joinContinued (c ++ '\n' :: b) = joinContinued c ++ '\n' :: joinContinued b := by
    rw [joinContinued_append (.inl hback), joinContinued_cons fun h => absurd h (by decide)]
  rw [statements, hjoined, Text.lines_line hfeed, statementsOf_dropReturn, statementsOf_line,
    hhash, Bool.or_true, if_pos rfl]
  rfl

namespace Variables

/-- Comments between statements change no variable: neither a single line that starts with a `#` and
does not end with a backslash, nor one that does together with the lines it takes in. -/
theorem readInto_comment (v : Variables) {a : Text} (b : Text) (ha : a.EndsBetweenStatements) :
    (∀ c : Text, c.IsCommentLine → c.getLast? ≠ some '\\' →
      v.readInto (a ++ (c ++ '\n' :: b)) = v.readInto (a ++ b)) ∧
    ∀ c : Text, c.IsComment → v.readInto (a ++ (c ++ '\n' :: b)) = v.readInto (a ++ b) := by
  have hcomment : ∀ c : Text, c.IsComment →
      v.readInto (a ++ (c ++ '\n' :: b)) = v.readInto (a ++ b) := by
    intro c hc
    rw [readInto_append ha, readInto_append ha, readInto, readInto.eq_1 _ b, statements_comment hc]
  exact ⟨fun c hline hback => hcomment c (hline.isComment hback), hcomment⟩

theorem readInto_comment_quoted :
    let a : Text := "A='x\ny'\n".toList
    let b : Text := "B=$A\n".toList
    a.EndsBetweenStatements ∧
      read (a ++ ("  # it's\r".toList ++ '\n' :: b)) = read (a ++ b) ∧
      read (a ++ ("# C=1 \\\nA=2".toList ++ '\n' :: b)) = read (a ++ b) := by
  intro a b
  have ha : a.EndsBetweenStatements := by decide
  obtain ⟨hline, hjoined⟩ := readInto_comment .empty b ha
  exact ⟨ha, hline _ (by decide) (by decide), hjoined _ (by decide)⟩

/-- A comment that ends with a backslash is not without effect: the assignment on the next line is
lost. -/
theorem readInto_continued_comment :
    ¬ ∀ (v : Variables) (a b c : Text), a.EndsBetweenStatements → c.IsCommentLine →
      v.readInto (a ++ (c ++ '\n' :: b)) = v.readInto (a ++ b) := by
  intro h
  have heq := h .empty [] "B=1\n".toList "# off \\".toList (by decide) (by decide)
  exact absurd heq (by decide)

end Variables
end OverrideAudit
