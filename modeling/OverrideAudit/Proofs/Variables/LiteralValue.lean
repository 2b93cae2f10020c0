import OverrideAudit.Proofs.Variables.Assignment
import OverrideAudit.Proofs.Variables.Statements

/-! Values in single quotes. They are not expanded, but they are read by lines: the first line is
trimmed before anything shows that a quote is open at its end, and a carriage return in front of a
line feed is part of the line feed. All else is kept. -/
namespace OverrideAudit

def unixLines : Text → Text
  | [] => []
  | '\r' :: '\n' :: r => '\n' :: unixLines r
  | c :: r => c :: unixLines r

/-- What is kept of a text in quotes: the first of several lines loses the blanks at its end, the
others lose a carriage return there. -/
def keptInQuotes (v : Text) : Text :=
  match v.cutAt '\n' with
  | none => v
  | some (first, rest) => Text.trimBackWhere isBlank first ++ '\n' :: unixLines rest

/-- No blank stands in front of the first line feed, and no carriage return in front of a later
one. -/
def KeepsLineEnds (v : Text) : Prop :=
  ∀ lines ∈ v.cutAt '\n', (∀ c ∈ lines.1.getLast?, isBlank c = false) ∧ ¬ ['\r', '\n'] <:+: lines.2

theorem unixLines_cons {c : Char} {r : Text} (h : c = '\r' → r.head? ≠ some '\n') :
    unixLines (c :: r) = c :: unixLines r := by
  refine unixLines.eq_3 c r fun rest hc hr => ?_
  exact h hc (by rw [hr, List.head?_cons])

theorem unixLines_of_not_mem {t : Text} (h : '\n' ∉ t) : unixLines t = t := by
  induction t with
  | nil => rfl
  | cons c t ih =>
    have ht : '\n' ∉ t := fun hmem => h (List.mem_cons_of_mem c hmem)
    rw [unixLines_cons fun _ hhead => ht (List.mem_of_mem_head? hhead), ih ht]

theorem unixLines_line {line : Text} (h : '\n' ∉ line) (rest : Text) :
    unixLines (line ++ '\n' :: rest) = Text.dropReturn line ++ '\n' :: unixLines rest := by
  induction line with
  | nil => exact unixLines_cons fun hc => absurd hc (by decide)
  | cons c line ih =>
    have hline : '\n' ∉ line := fun hmem => h (List.mem_cons_of_mem c hmem)
    by_cases hreturn : c = '\r' ∧ line = []
    · obtain ⟨rfl, rfl⟩ := hreturn
      rfl
    · have hkeep : c = '\r' → (line ++ '\n' :: rest).head? ≠ some '\n' := by
        intro hc hhead
        cases line with
        | nil => exact hreturn ⟨hc, rfl⟩
        | cons d line => exact hline (List.mem_of_mem_head? hhead)
      rw [List.cons_append, unixLines_cons hkeep, ih hline, Text.dropReturn_cons hreturn,
        List.cons_append]

theorem mem_of_mem_unixLines {t : Text} {c : Char} (h : c ∈ unixLines t) : c ∈ t := by
  fun_induction unixLines t with
  | case1 => exact h
  | case2 r ih =>
    obtain rfl | hr := List.mem_cons.1 h
    · simp
    · simp [ih hr]
  | case3 d r _ ih =>
    obtain rfl | hr := List.mem_cons.1 h
    · simp
    · simp [ih hr]

theorem unixLines_eq_self_iff {t : Text} : unixLines t = t ↔ ¬ ['\r', '\n'] <:+: t := by
  fun_induction unixLines t with
  | case1 => simp
  | case2 r ih =>
    have hpart : ['\r', '\n'] <:+: '\r' :: '\n' :: r := (List.prefix_append ['\r', '\n'] r).isInfix
    simp [hpart]
  | case3 c r hc ih =>
    have hlead : ¬ ['\r', '\n'] <+: c :: r := by
      intro ⟨rest, hrest⟩
      obtain ⟨rfl, hr⟩ := List.cons.inj hrest
      exact hc rest rfl hr.symm
    rw [List.infix_cons_iff, List.cons.injEq, ih]
    simp [hlead]

theorem keptInQuotes_eq_self_iff {v : Text} : keptInQuotes v = v ↔ KeepsLineEnds v := by
  rw [keptInQuotes, KeepsLineEnds]
  cases hcut : v.cutAt '\n' with
  | none => simp
  | some lines =>
    obtain ⟨first, rest⟩ := lines
    obtain ⟨hfeed, rfl⟩ := Text.cutAt_eq_some_iff.1 hcut
    have hkept : '\n' ∉ Text.trimBackWhere isBlank first := fun hmem =>
      hfeed ((Text.trimBackWhere_isPrefix isBlank first).subset hmem)
    have hparts : Text.trimBackWhere isBlank first ++ '\n' :: unixLines rest =
        first ++ '\n' :: rest ↔
        Text.trimBackWhere isBlank first = first ∧ unixLines rest = rest := by
      constructor
      · intro heq
        have hother := Text.cutAt_eq_some_iff.2 ⟨hkept, heq.symm⟩
        exact (Prod.mk.inj (Option.some.inj (hcut.symm.trans hother))).imp Eq.symm Eq.symm
      · intro ⟨hfirst, hrest⟩
        rw [hfirst, hrest]
    rw [hparts, Text.trimBackWhere_eq_self_iff, unixLines_eq_self_iff]
    simp only [Option.mem_def, Option.some.injEq, forall_eq']

instance (v : Text) : Decidable (KeepsLineEnds v) := decidable_of_iff _ keptInQuotes_eq_self_iff

theorem not_mem_keptInQuotes {v : Text} {c : Char} (h : c ∉ v) : c ∉ keptInQuotes v := by
  rw [keptInQuotes]
  cases hcut : v.cutAt '\n' with
  | none => exact h
  | some lines =>
    obtain ⟨first, rest⟩ := lines
    obtain ⟨-, rfl⟩ := Text.cutAt_eq_some_iff.1 hcut
    intro hmem
    rw [List.mem_append, List.mem_cons] at h hmem
    obtain hc | hc | hc := hmem
    · exact h (.inl ((Text.trimBackWhere_isPrefix isBlank first).subset hc))
    · exact h (.inr (.inl hc))
    · exact h (.inr (.inr (mem_of_mem_unixLines hc)))

def InLiteral (front : Text) : Prop := QuoteState.behind front = .single

section
variable {front t : Text}

theorem InLiteral.append (h : InLiteral front) (ht : singleQuote ∉ t) : InLiteral (front ++ t) := by
  rw [InLiteral, QuoteState.behind_append, h, QuoteState.foldl_single ht]

theorem InLiteral.isOpen (h : InLiteral front) : hasOpenQuote front = true := by
  rw [hasOpenQuote, ← QuoteState.behind, h]
  rfl

theorem InLiteral.closed (h : InLiteral front) : hasOpenQuote (front ++ [singleQuote]) = false := by
  rw [hasOpenQuote, ← QuoteState.behind, QuoteState.behind_append, h]
  rfl

end

theorem statementsOf_literal {front v : Text} (hfront : InLiteral front)
    (hquote : singleQuote ∉ v) :
    statementsOf (some front) (Text.lines (v ++ [singleQuote, '\n'])) =
      [front ++ '\n' :: (unixLines v ++ [singleQuote])] := by
  have hfeedQuote : singleQuote ≠ '\n' := by decide
  induction v using Text.lineInduction generalizing front with
  | last t hfeed =>
    have hlines : Text.lines (t ++ [singleQuote, '\n']) = [t ++ [singleQuote]] := by
      have hline : '\n' ∉ t ++ [singleQuote] := by simp [hfeed, hfeedQuote.symm]
      have hend := Text.lines_line hline []
      rwa [Text.dropReturn_append_of_ne t (by decide), List.append_assoc] at hend
    have hclosed := (hfront.append (t := '\n' :: t) (by simp [hquote, hfeedQuote])).closed
    rw [List.append_assoc, List.cons_append] at hclosed
    rw [hlines, statementsOf_pending, statementsFrom_of_closed hclosed,
      unixLines_of_not_mem hfeed]
    rfl
  | line line rest hfeed ih =>
    have hrest : singleQuote ∉ rest := fun hmem => hquote (by simp [hmem])
    have hline : singleQuote ∉ Text.dropReturn line := fun hmem =>
      hquote (List.mem_append_left _ ((Text.dropReturn_isPrefix line).subset hmem))
    have hnext := hfront.append (t := '\n' :: line.dropReturn) (by simp [hline, hfeedQuote])
    rw [List.append_assoc, List.cons_append, Text.lines_line hfeed, statementsOf_pending,
      statementsFrom_of_open hnext.isOpen, ih hnext hrest, unixLines_line hfeed]
    simp

/-- What stands in front of a quoted value: the start of a line whose quote opens the value. -/
structure OpensLiteral (front : Text) : Prop where
  head : ∃ c r, front = c :: r ∧ isBlank c = false ∧ c ≠ '#'
  scan : InLiteral (front ++ [singleQuote])
  line : '\n' ∉ front

section
variable {front v : Text}

theorem OpensLiteral.trim (h : OpensLiteral front) (t : Text) :
    Text.trim (front ++ singleQuote :: t) =
      front ++ singleQuote :: Text.trimBackWhere isBlank t := by
  obtain ⟨c, r, rfl, hc, -⟩ := h.head
  rw [Text.trim_append_cons _ _ (by decide), Text.trimFrontWhere,
    List.dropWhile_cons_of_neg (by simp [hc])]

theorem OpensLiteral.statementsOf_cons (h : OpensLiteral front) (t : Text) (lines : List Text) :
    statementsOf none ((front ++ singleQuote :: t) :: lines) =
      statementsFrom (front ++ singleQuote :: Text.trimBackWhere isBlank t) lines := by
  have hstatement : ∀ t : Text, ((front ++ singleQuote :: t).isEmpty ||
      (front ++ singleQuote :: t).startsWith ['#']) = false := by
    obtain ⟨c, r, rfl, -, hhash⟩ := h.head
    intro t
    simp [Text.startsWith, List.isPrefixOf, Ne.symm hhash]
  rw [statementsOf_line, h.trim, hstatement, if_neg (by simp)]

theorem OpensLiteral.inLiteral (h : OpensLiteral front) (hv : singleQuote ∉ v) :
    InLiteral (front ++ singleQuote :: v) := by
  simpa using h.scan.append hv

theorem OpensLiteral.statements (h : OpensLiteral front) (hquote : singleQuote ∉ v)
    (hjoined : ¬ ['\\', '\n'] <:+: v) :
    statements (front ++ singleQuote :: (v ++ [singleQuote, '\n'])) =
      [front ++ singleQuote :: (keptInQuotes v ++ [singleQuote])] := by
  have hjoin : joinContinued (front ++ singleQuote :: (v ++ [singleQuote, '\n'])) =
      front ++ singleQuote :: (v ++ [singleQuote, '\n']) := by
    rw [joinContinued_append (.inr (by simp [singleQuote])), joinContinued_of_not_mem h.line,
      joinContinued_cons fun hback => absurd hback (by decide),
      joinContinued_append (.inr (by simp [singleQuote])), joinContinued_eq_self hjoined]
    rfl
  rw [OverrideAudit.statements, hjoin, keptInQuotes]
  cases hcut : v.cutAt '\n' with
  | none =>
    have hfeed : '\n' ∉ front ++ singleQuote :: (v ++ [singleQuote]) := by
      have hv := Text.cutAt_eq_none_iff.1 hcut
      simp [h.line, hv, (by decide : '\n' ≠ singleQuote)]
    have hlines : Text.lines (front ++ singleQuote :: (v ++ [singleQuote, '\n'])) =
        [Text.dropReturn (front ++ singleQuote :: (v ++ [singleQuote]))] := by
      simpa using Text.lines_line hfeed []
    have hclosed := (h.inLiteral hquote).closed
    rw [List.append_assoc, List.cons_append] at hclosed
    have htrim : Text.trimBackWhere isBlank (v ++ [singleQuote]) = v ++ [singleQuote] :=
      Text.trimBackWhere_append_cons v [] (by decide)
    rw [hlines, statementsOf_dropReturn, h.statementsOf_cons, htrim,
      statementsFrom_of_closed hclosed]
    rfl
  | some lines =>
    obtain ⟨first, rest⟩ := lines
    obtain ⟨hfeed, rfl⟩ := Text.cutAt_eq_some_iff.1 hcut
    have hrest : singleQuote ∉ rest := fun hmem => hquote (by simp [hmem])
    have hfirst : singleQuote ∉ Text.trimBackWhere isBlank first := fun hmem =>
      hquote (List.mem_append_left _ ((Text.trimBackWhere_isPrefix isBlank first).subset hmem))
    have hopen := h.inLiteral hfirst
    have hline : '\n' ∉ front ++ singleQuote :: first := by
      simp [h.line, hfeed, (by decide : '\n' ≠ singleQuote)]
    have hlines : Text.lines (front ++ singleQuote ::
        (first ++ '\n' :: rest ++ [singleQuote, '\n'])) =
        (front ++ singleQuote :: first).dropReturn ::
          Text.lines (rest ++ [singleQuote, '\n']) := by
      simpa using Text.lines_line hline (rest ++ [singleQuote, '\n'])
    rw [hlines, statementsOf_dropReturn, h.statementsOf_cons, statementsFrom_of_open hopen.isOpen,
      statementsOf_literal hopen hrest]
    simp

end

theorem opensLiteral_of_name {name : Text} (hne : name ≠ [])
    (hname : ∀ c ∈ name, Variables.isNameChar c = true) : OpensLiteral (name ++ ['=']) := by
  constructor
  · obtain ⟨c, r, rfl⟩ := List.exists_cons_of_ne_nil hne
    have hc := hname c List.mem_cons_self
    exact ⟨c, r ++ ['='], rfl, not_isBlank_of_isNameChar hc, (isPlain_of_isNameChar hc).1⟩
  · rw [InLiteral, QuoteState.behind_append,
      QuoteState.behind_assignment fun c hc => isPlain_of_isNameChar (hname c hc)]
    rfl
  · intro hmem
    obtain hmem | hmem := List.mem_append.1 hmem
    · exact absurd (hname _ hmem) (by decide)
    · exact absurd hmem (by decide)

theorem read_literal {t : Text} (h : singleQuote ∉ t) :
    Value.read (singleQuote :: (t ++ [singleQuote])) = .literal t := by
  have htrim : Text.trim (singleQuote :: (t ++ [singleQuote])) =
      singleQuote :: (t ++ [singleQuote]) := by
    refine Text.trim_eq_self (fun c hc => ?_) fun c hc => ?_
    · obtain rfl : singleQuote = c := by simpa using hc
      rfl
    · rw [← List.cons_append, List.getLast?_concat] at hc
      obtain rfl : singleQuote = c := by simpa using hc
      rfl
  have hbefore : beforeQuote singleQuote (t ++ [singleQuote]) = t := by
    rw [beforeQuote_append, beforeQuote_eq_self_iff.2 h]
  have hdouble : singleQuote ≠ doubleQuote := by decide
  rw [Value.read, htrim]
  simp only [hdouble, if_false, if_true, hbefore]

namespace Variables

/-- A value in single quotes is neither expanded nor cut at a `#`, and sets its variable only. It is
kept as it is exactly when no blank stands in front of its first line feed and no carriage return in
front of a later one. -/
theorem readInto_singleQuoted (vars : Variables) {name v : Text} (hne : name ≠ [])
    (hname : ∀ c ∈ name, isNameChar c = true) (hquote : singleQuote ∉ v)
    (hjoined : ¬ ['\\', '\n'] <:+: v) :
    let after := vars.readInto (name ++ '=' :: singleQuote :: (v ++ [singleQuote, '\n']))
    after.get? name = some (keptInQuotes v) ∧
      (∀ other, other ≠ name → after.get? other = vars.get? other) ∧
      (after.get? name = some v ↔ KeepsLineEnds v) := by
  intro after
  have hstatements : statements (name ++ '=' :: singleQuote :: (v ++ [singleQuote, '\n'])) =
      [name ++ '=' :: singleQuote :: (keptInQuotes v ++ [singleQuote])] := by
    simpa using (opensLiteral_of_name hne hname).statements hquote hjoined
  have hafter : after = vars.set name (keptInQuotes v) := by
    simp only [after, readInto, hstatements, List.foldl_cons, List.foldl_nil, assign_eq,
      assignment?_of_name hne hname, read_literal (not_mem_keptInQuotes hquote), valueText]
  rw [hafter, get?_set_self]
  refine ⟨rfl, fun other hother => get?_set_of_ne vars hother _, ?_⟩
  rw [Option.some.injEq, keptInQuotes_eq_self_iff]

theorem readInto_singleQuoted_references :
    let v : Text := "$A # \"x\"\n  ${A}  \n".toList
    let after := (read "A=1\nB=2\n".toList).readInto ("B='".toList ++ (v ++ "'\n".toList))
    after.get? "B".toList = some v ∧ after.get? "A".toList = some "1".toList := by
  intro v after
  have hjoined : ¬ ['\\', '\n'] <:+: v := fun h =>
    absurd (h.subset List.mem_cons_self) (by decide : '\\' ∉ v)
  obtain ⟨-, hothers, hkept⟩ := readInto_singleQuoted (read "A=1\nB=2\n".toList)
    (by decide : "B".toList ≠ []) (List.all_eq_true.1 (by decide))
    (by decide : singleQuote ∉ v) hjoined
  exact ⟨hkept.2 (by decide), (hothers "A".toList (by decide)).trans (by decide)⟩

/-- Not all values in single quotes are kept: a blank at the end of the first line is lost. -/
theorem readInto_not_literal :
    ¬ ∀ (vars : Variables) (name v : Text), name ≠ [] → (∀ c ∈ name, isNameChar c = true) →
      singleQuote ∉ v → ¬ ['\\', '\n'] <:+: v →
      (vars.readInto (name ++ '=' :: singleQuote :: (v ++ [singleQuote, '\n']))).get? name =
        some v := by
  intro h
  have hjoined : ¬ ['\\', '\n'] <:+: "x \ny".toList := fun h =>
    absurd (h.subset List.mem_cons_self) (by decide : '\\' ∉ "x \ny".toList)
  have hkept := h .empty "A".toList "x \ny".toList (by decide) (List.all_eq_true.1 (by decide))
    (by decide) hjoined
  exact absurd hkept (by decide)

end Variables
end OverrideAudit
