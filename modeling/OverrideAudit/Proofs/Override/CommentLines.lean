import Mathlib.Data.List.Forall2
import Mathlib.Data.List.TakeWhile
import OverrideAudit.Proofs.Text.Lines
import OverrideAudit.Proofs.Override.SkipDirectives

/-! What directives leave alone. Which entries a file has is read off line by line, whatever its
comments ask for: the marks of the reader decide about skipping only. One more comment line can only
set marks, so it moves the records behind it and can only have more of them skipped. -/
namespace OverrideAudit

/-- The atom and the value of a line, read for itself: the first word, if it is accepted, and the
rest. A blank line and one that starts with a `#` have none. -/
def Text.entry? (accepts : Text → Bool) (line : Text) : Option (Text × Text) :=
  let content := line.trim
  let atom : Text := content.takeWhile (!isBlank ·)
  let value : Text := Text.trim (content.dropWhile (!isBlank ·))
  if content.isEmpty || content.startsWith ['#'] || !accepts atom then none else some (atom, value)

namespace SkipMarks
variable {accepts : Text → Bool} {s t : SkipMarks} {line text : Text}

theorem read_of_ne {c : Char} {r : Text} (htrim : line.trim = c :: r) (hc : c ≠ '#') :
    Line.read line = .entry (line.trim.takeWhile (!isBlank ·))
      (Text.trim (line.trim.dropWhile (!isBlank ·))) := by
  rw [Line.read, htrim]
  split
  · next heq => cases heq
  · next heq => exact absurd (List.cons.inj heq).1 hc
  · cases hcut : Text.cutWhere isBlank (c :: r) with
    | none =>
      have hunbroken := Text.cutWhere_eq_none_iff.1 hcut
      have hall : ∀ d ∈ c :: r, (!isBlank d) = true := fun d hd => by simp [hunbroken d hd]
      rw [List.takeWhile_eq_self_iff.2 hall, List.dropWhile_eq_nil_iff.2 hall]
      rfl
    | some parts =>
      obtain ⟨hunbroken, d, hd, hparts⟩ := Text.cutWhere_eq_some_iff.1 hcut
      have hall : ∀ e ∈ parts.1, (!isBlank e) = true := fun e he => by simp [hunbroken e he]
      rw [hparts, List.takeWhile_append_of_pos hall, List.dropWhile_append_of_pos hall]
      simp [hd, Text.trim_cons_of_isBlank]

theorem feed_snd (accepts : Text → Bool) (s : SkipMarks) (line : Text) :
    (s.feed accepts line).2 = (line.entry? accepts).map fun (atom, value) =>
      ⟨atom, value, s.block || s.single⟩ := by
  rw [Text.entry?]
  cases htrim : line.trim with
  | nil => simp [feed, Line.read, htrim]
  | cons c r =>
    by_cases hc : c = '#'
    · subst hc
      simp [feed, Line.read, htrim, Text.startsWith]
    · have hread := read_of_ne htrim hc
      have hhash : Text.startsWith (c :: r) ['#'] = false := by
        simp [Text.startsWith, List.isPrefixOf, Ne.symm hc]
      rw [feed, hread, htrim, hhash]
      cases hacc : accepts ((c :: r).takeWhile (!isBlank ·)) <;> simp [hacc]

theorem read_comment (h : line.IsCommentLine) : Line.read line = .comment line.trim := by
  obtain ⟨-, hhash⟩ := h
  rw [Line.read]
  cases htrim : line.trim with
  | nil => simp [htrim, Text.startsWith] at hhash
  | cons c r =>
    obtain rfl : '#' = c := by simpa [htrim, Text.startsWith, List.isPrefixOf] using hhash
    rfl

theorem entry?_comment (accepts : Text → Bool) (h : line.IsCommentLine) :
    line.entry? accepts = none := by
  simp [Text.entry?, h.2]

theorem feed_congr (accepts : Text → Bool) (s : SkipMarks) {other : Text}
    (h : line.trim = other.trim) : s.feed accepts line = s.feed accepts other := by
  rw [feed, feed, Line.read, Line.read, h]

/-- Every mark of the one is a mark of the other. -/
structure Within (s t : SkipMarks) : Prop where
  block : s.block = true → t.block = true
  single : s.single = true → t.single = true
  waiting : s.waiting = true → t.waiting = true

theorem Within.feed (h : s.Within t) (accepts : Text → Bool) (line : Text) :
    (s.feed accepts line).1.Within (t.feed accepts line).1 := by
  rw [feed_fst, feed_fst]
  constructor
  · simp only [Bool.or_eq_true, Bool.and_eq_true]
    exact Or.imp_right (And.imp (Or.imp_right h.waiting) h.block)
  · simp only [Bool.or_eq_true, Bool.and_eq_true]
    exact Or.imp_right (And.imp_right h.single)
  · simp only [Bool.or_eq_true, Bool.and_eq_true]
    exact Or.imp_right (And.imp_right h.waiting)

theorem within_feed_comment (accepts : Text → Bool) (s : SkipMarks) (h : line.IsCommentLine) :
    s.Within (s.feed accepts line).1 := by
  rw [SkipMarks.feed, read_comment h]
  constructor
  · intro hblock
    simp [afterComment, hblock]
  · intro hsingle
    simp [afterComment, hsingle]
  · intro hwaiting
    simp [afterComment, hwaiting]

theorem feed_comment_idle (accepts : Text → Bool) (s : SkipMarks) (h : line.IsCommentLine)
    (hentry : line.mentions skipEntryWord = false) (hblock : line.mentions skipBlockWord = false) :
    (s.feed accepts line).1 = s := by
  rw [SkipMarks.feed, read_comment h]
  simp [afterComment, Text.mentions_trim hentry, Text.mentions_trim hblock]

end SkipMarks

namespace Record
open SkipMarks
variable {accepts : Text → Bool} {source content : Text} {number k : Nat} {s t : SkipMarks}
  {lines : List Text}

def unmarked (r : Record) : Record := { r with skip := false }

/-- The record when there is one more line behind the first `k` ones. -/
def movedBehind (k : Nat) (r : Record) : Record :=
  { r with line := if r.line ≤ k then r.line else r.line + 1 }

def entriesByLine (accepts : Text → Bool) (source content : Text) : List Record :=
  (content.lines.zipIdx 1).filterMap fun (line, number) =>
    (line.entry? accepts).map fun (atom, value) => ⟨atom, value, source, number, false⟩

/-- The same entry on the same line, skipped if the other one is. -/
structure Raised (r later : Record) : Prop where
  same : later.unmarked = r.unmarked
  skip : r.skip = true → later.skip = true

theorem Raised.refl (r : Record) : Raised r r := ⟨rfl, id⟩

theorem ofLines_cons (accepts : Text → Bool) (source : Text) (number : Nat) (s : SkipMarks)
    (line : Text) (lines : List Text) :
    ofLines accepts source number s (line :: lines) =
      ((line.entry? accepts).map fun (atom, value) =>
        (⟨atom, value, source, number, s.block || s.single⟩ : Record)).toList ++
      ofLines accepts source (number + 1) (s.feed accepts line).1 lines := by
  have hsnd := feed_snd accepts s line
  rw [ofLines]
  cases hentry : line.entry? accepts with
  | none => simp [hsnd, hentry]
  | some parts => simp [hsnd, hentry]

theorem ofLines_append (accepts : Text → Bool) (source : Text) (number : Nat) (s : SkipMarks)
    (front back : List Text) :
    ofLines accepts source number s (front ++ back) =
      ofLines accepts source number s front ++
        ofLines accepts source (number + front.length) (s.afterLines accepts front) back := by
  induction front generalizing number s with
  | nil => rfl
  | cons line front ih =>
    rw [List.cons_append, ofLines_cons, ofLines_cons, ih, List.append_assoc, List.length_cons,
      Nat.add_assoc, Nat.add_comm 1]
    rfl

theorem ofLines_congr (accepts : Text → Bool) (source : Text) (number : Nat) (s : SkipMarks)
    {others : List Text} (h : lines.map Text.trim = others.map Text.trim) :
    ofLines accepts source number s lines = ofLines accepts source number s others := by
  induction lines generalizing number s others with
  | nil =>
    obtain rfl : others = [] := by simpa using h.symm
    rfl
  | cons line lines ih =>
    cases others with
    | nil => simp at h
    | cons other others =>
      obtain ⟨hline, hlines⟩ := List.cons.inj h
      have hlater := ih (number + 1) (s.feed accepts other).1 hlines
      have hentry : line.entry? accepts = other.entry? accepts := by
        simp only [Text.entry?, hline]
      rw [ofLines_cons, ofLines_cons, hentry, feed_congr accepts s hline, hlater]

theorem line_of_mem_ofLines {r : Record} (h : r ∈ ofLines accepts source number s lines) :
    number ≤ r.line ∧ r.line < number + lines.length := by
  obtain ⟨j, line, e, hline, -, rfl⟩ := mem_ofLines_iff.1 h
  have hj := (List.getElem?_eq_some_iff.1 hline).1
  constructor
  · exact Nat.le_add_right number j
  · exact Nat.add_lt_add_left hj number

theorem ofLines_succ (accepts : Text → Bool) (source : Text) (number : Nat) (s : SkipMarks)
    (lines : List Text) :
    ofLines accepts source (number + 1) s lines =
      (ofLines accepts source number s lines).map fun r => { r with line := r.line + 1 } := by
  induction lines generalizing number s with
  | nil => rfl
  | cons line lines ih =>
    rw [ofLines_cons, ofLines_cons, List.map_append, ih]
    cases line.entry? accepts <;> rfl

theorem map_unmarked_ofLines (accepts : Text → Bool) (source : Text) (number : Nat) (s : SkipMarks)
    (lines : List Text) :
    (ofLines accepts source number s lines).map unmarked =
      (lines.zipIdx number).filterMap fun (line, number) =>
        (line.entry? accepts).map fun (atom, value) => ⟨atom, value, source, number, false⟩ := by
  induction lines generalizing number s with
  | nil => rfl
  | cons line lines ih =>
    rw [ofLines_cons, List.map_append, ih, List.zipIdx_cons]
    cases hentry : line.entry? accepts <;> simp [hentry, unmarked]

theorem pairwise_ofLines (accepts : Text → Bool) (source : Text) (number : Nat) (s : SkipMarks)
    (lines : List Text) :
    (ofLines accepts source number s lines).Pairwise fun r later => r.line < later.line := by
  induction lines generalizing number s with
  | nil => exact List.Pairwise.nil
  | cons line lines ih =>
    rw [ofLines_cons]
    cases line.entry? accepts with
    | none => exact ih (number + 1) _
    | some parts =>
      exact List.pairwise_cons.2 ⟨fun r hr => (line_of_mem_ofLines hr).1, ih (number + 1) _⟩

theorem raised_ofLines (accepts : Text → Bool) (source : Text) (number : Nat) (lines : List Text)
    (h : s.Within t) :
    List.Forall₂ Raised (ofLines accepts source number s lines)
      (ofLines accepts source number t lines) := by
  induction lines generalizing number s t with
  | nil => exact List.Forall₂.nil
  | cons line lines ih =>
    have hlater := ih (number + 1) (h.feed accepts line)
    rw [ofLines_cons, ofLines_cons]
    cases line.entry? accepts with
    | none => exact hlater
    | some parts =>
      refine List.Forall₂.cons ⟨rfl, fun hskip => ?_⟩ hlater
      rw [Bool.or_eq_true] at hskip ⊢
      exact Or.imp h.block h.single hskip

theorem map_movedBehind (accepts : Text → Bool) (source : Text) (front back : List Text) :
    (ofLines accepts source 1 .start (front ++ back)).map (movedBehind front.length) =
      ofLines accepts source 1 .start front ++
        ofLines accepts source (1 + front.length + 1) (start.afterLines accepts front) back := by
  rw [ofLines_append, List.map_append, ofLines_succ accepts source (1 + front.length)]
  congr 1
  · refine (List.map_congr_left fun r hr => ?_).trans (List.map_id _)
    have hline := (line_of_mem_ofLines hr).2
    rw [movedBehind, if_pos (by omega), id]
  · refine List.map_congr_left fun r hr => ?_
    have hline := (line_of_mem_ofLines hr).1
    rw [movedBehind, if_neg (by omega)]

theorem ofText_insertLine (accepts : Text → Bool) (source : Text) {comment : Text}
    (hk : k ≤ content.lines.length) (h : comment.IsCommentLine) :
    ofText accepts source (content.insertLine comment k) =
      ofLines accepts source 1 .start (content.lines.take k) ++
        ofLines accepts source (1 + k + 1)
          ((start.afterLines accepts (content.lines.take k)).feed accepts comment).1
          (content.lines.drop k) := by
  have hlines : (content.insertLine comment k).lines.map Text.trim =
      (content.lines.take k ++ comment :: content.lines.drop k).map Text.trim := by
    rw [Text.lines_insertLine h.1 h.ne_nil hk, List.map_append, List.map_cons]
  rw [ofText, ofLines_congr accepts source 1 .start hlines, ofLines_append, ofLines_cons,
    entry?_comment accepts h, List.length_take_of_le hk]
  rfl

/-- Directives touch skip flags only, and only upwards. Without their skip flags the records of a
file are its entries line by line; one more comment line moves the records behind it by one and can
only have more of them skipped. -/
theorem ofText_keepsEntries (accepts : Text → Bool) (source content : Text) :
    (ofText accepts source content).map unmarked = entriesByLine accepts source content ∧
      ((ofText accepts source content).Pairwise fun r later => r.line < later.line) ∧
      ∀ (k : Nat) (comment : Text), k ≤ content.lines.length → comment.IsCommentLine →
        List.Forall₂ Raised ((ofText accepts source content).map (movedBehind k))
            (ofText accepts source (content.insertLine comment k)) ∧
          (comment.mentions skipEntryWord = false → comment.mentions skipBlockWord = false →
            ofText accepts source (content.insertLine comment k) =
              (ofText accepts source content).map (movedBehind k)) := by
  refine ⟨map_unmarked_ofLines accepts source 1 .start content.lines,
    pairwise_ofLines accepts source 1 .start content.lines, fun k comment hk hcomment => ?_⟩
  have hmoved : (ofText accepts source content).map (movedBehind k) =
      ofLines accepts source 1 .start (content.lines.take k) ++
        ofLines accepts source (1 + k + 1) (start.afterLines accepts (content.lines.take k))
          (content.lines.drop k) := by
    have hmap := map_movedBehind accepts source (content.lines.take k) (content.lines.drop k)
    rwa [List.take_append_drop, List.length_take_of_le hk] at hmap
  have hinserted := ofText_insertLine accepts source hk hcomment
  rw [hmoved, hinserted]
  constructor
  · exact List.rel_append (List.forall₂_same.2 fun r _ => Raised.refl r)
      (raised_ofLines accepts source _ _ (within_feed_comment accepts _ hcomment))
  · intro hentry hblock
    rw [feed_comment_idle accepts _ hcomment hentry hblock]

theorem ofText_keepsEntries_twoComments :
    let content : Text := "a/b x\r\nc/d\ne/f".toList
    let records := ofText (·.contains '/') "use".toList content
    records.map (fun r => (r.line, r.skip)) = [(1, false), (2, false), (3, false)] ∧
      List.Forall₂ Raised (records.map (movedBehind 1))
        (ofText (·.contains '/') "use".toList (content.insertLine "# SKIP_ENTRY".toList 1)) ∧
      (ofText (·.contains '/') "use".toList (content.insertLine "# SKIP_ENTRY".toList 1)).map
        (fun r => (r.line, r.skip)) = [(1, false), (3, true), (4, false)] ∧
      ofText (·.contains '/') "use".toList (content.insertLine " # skip".toList 3) =
        records.map (movedBehind 3) := by
  intro content records
  obtain ⟨-, -, hinsert⟩ := ofText_keepsEntries (·.contains '/') "use".toList content
  have hskip := hinsert 1 "# SKIP_ENTRY".toList (by decide) (by decide)
  have hidle := hinsert 3 " # skip".toList (by decide) (by decide)
  exact ⟨by decide, hskip.1, by decide, hidle.2 (by decide) (by decide)⟩

end Record
end OverrideAudit
