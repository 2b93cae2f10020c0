import OverrideAudit.Override

/-! What the skip directives of a file reach. Each mark of the reader holds since some comment set
it, as long as no line took it away, so the record of a line is skipped for a comment further up.
A block ends at a blank line behind an entry, but a comment that asks to skip one entry also keeps
an open block open over the next blank line. -/
namespace OverrideAudit

/-- At some position below `n` there was a `Q`, and at every later one below `n` a `P`. -/
def Since (P Q : Nat → Prop) (n : Nat) : Prop := ∃ j < n, Q j ∧ ∀ i < n, j < i → P i

section
variable {P Q : Nat → Prop} {n : Nat}

theorem not_since_zero : ¬ Since P Q 0 := by
  intro ⟨j, hj, _⟩
  omega

theorem since_succ : Since P Q (n + 1) ↔ Q n ∨ P n ∧ Since P Q n := by
  constructor
  · intro ⟨j, hj, hq, hp⟩
    by_cases hjn : j = n
    · exact .inl (hjn ▸ hq)
    · exact .inr ⟨hp n (by omega) (by omega), j, by omega, hq, fun i hi => hp i (by omega)⟩
  · intro h
    obtain hq | ⟨hn, j, hj, hq, hp⟩ := h
    · exact ⟨n, by omega, hq, fun i hi hni => by omega⟩
    · refine ⟨j, by omega, hq, fun i hi hji => ?_⟩
      by_cases hin : i = n
      · exact hin ▸ hn
      · exact hp i (by omega) hji

theorem iff_since {f p q : Nat → Bool} (hzero : f 0 = false)
    (hsucc : ∀ n, f (n + 1) = (q n || p n && f n)) (n : Nat) :
    f n = true ↔ Since (p · = true) (q · = true) n := by
  induction n with
  | zero => simp [hzero, not_since_zero]
  | succ n ih => rw [hsucc, since_succ, Bool.or_eq_true, Bool.and_eq_true, ih]

theorem exists_last (h : ∃ j < n, Q j) : Since (¬ Q ·) Q n := by
  induction n with
  | zero =>
    obtain ⟨j, hj, -⟩ := h
    omega
  | succ n ih =>
    rw [since_succ]
    by_cases hn : Q n
    · exact .inl hn
    · obtain ⟨j, hj, hq⟩ := h
      have hjn : j ≠ n := fun hjn => hn (hjn ▸ hq)
      exact .inr ⟨hn, ih ⟨j, by omega, hq⟩⟩

end

namespace Line

def isBlank : Line → Bool
  | blank => true
  | _ => false

def asksFor (word : Text) : Line → Bool
  | comment text => text.mentions word
  | _ => false

def isDirective (line : Line) : Bool := line.asksFor skipEntryWord || line.asksFor skipBlockWord

def isEntry : Line → Bool
  | entry _ _ => true
  | _ => false

def isRecord (accepts : Text → Bool) : Line → Bool
  | entry atom _ => accepts atom
  | _ => false

end Line

namespace Text

def lineAt? (content : Text) : Nat → Option Line
  | 0 => none
  | k + 1 => content.lines[k]?.map Line.read

def hasLine (content : Text) (p : Line → Bool) (n : Nat) : Bool := (content.lineAt? n).any p

end Text

namespace SkipMarks

def afterLines (accepts : Text → Bool) (s : SkipMarks) (lines : List Text) : SkipMarks :=
  lines.foldl (fun s line => (s.feed accepts line).1) s

def atLine (accepts : Text → Bool) (content : Text) (n : Nat) : SkipMarks :=
  start.afterLines accepts (content.lines.take (n - 1))

/-- What one line does to the marks: a comment sets what it asks for, an entry ends the waiting, one
with a record uses up the single mark, and a blank line ends a block unless it is waiting. -/
theorem feed_fst (accepts : Text → Bool) (s : SkipMarks) (line : Text) :
    (s.feed accepts line).1 =
      let l := Line.read line
      ⟨l.asksFor skipBlockWord || (!l.isBlank || s.waiting) && s.block,
        l.asksFor skipEntryWord || !l.isRecord accepts && s.single,
        l.isDirective || !l.isEntry && s.waiting⟩ := by
  rw [feed]
  cases Line.read line with
  | blank =>
    simp [Line.asksFor, Line.isBlank, Line.isRecord, Line.isDirective, Line.isEntry, Bool.and_comm]
  | comment text =>
    simp [afterComment, Line.asksFor, Line.isBlank, Line.isRecord, Line.isDirective, Line.isEntry,
      Bool.or_comm, Bool.or_left_comm]
  | entry atom value =>
    dsimp only
    cases h : accepts atom <;>
      simp [h, Line.asksFor, Line.isBlank, Line.isRecord, Line.isDirective, Line.isEntry]

theorem feed_snd_eq_some_iff {accepts : Text → Bool} {s : SkipMarks} {line : Text} {e : Entry} :
    (s.feed accepts line).2 = some e ↔
      Line.read line = .entry e.atom e.value ∧ accepts e.atom = true ∧
        e.skip = (s.block || s.single) := by
  rw [feed]
  cases Line.read line with
  | blank => simp
  | comment text => simp
  | entry atom value =>
    dsimp only
    cases h : accepts atom with
    | true =>
      obtain ⟨atom', value', skip⟩ := e
      simp only [if_true, Option.some.injEq, Entry.mk.injEq, Line.entry.injEq]
      constructor
      · rintro ⟨rfl, rfl, rfl⟩
        exact ⟨⟨rfl, rfl⟩, h, rfl⟩
      · rintro ⟨⟨rfl, rfl⟩, -, rfl⟩
        exact ⟨rfl, rfl, rfl⟩
    | false =>
      simp only [Bool.false_eq_true, if_false, reduceCtorEq, Line.entry.injEq, false_iff]
      rintro ⟨⟨rfl, -⟩, hacc, -⟩
      exact Bool.false_ne_true (h.symm.trans hacc)

theorem atLine_succ (accepts : Text → Bool) (content : Text) (n : Nat) :
    atLine accepts content (n + 1) =
      let s := atLine accepts content n
      ⟨content.hasLine (·.asksFor skipBlockWord) n ||
          (!content.hasLine Line.isBlank n || s.waiting) && s.block,
        content.hasLine (·.asksFor skipEntryWord) n ||
          !content.hasLine (·.isRecord accepts) n && s.single,
        content.hasLine Line.isDirective n || !content.hasLine Line.isEntry n && s.waiting⟩ := by
  cases n with
  | zero => rfl
  | succ k =>
    simp only [atLine, Nat.add_sub_cancel, List.take_add_one]
    cases h : content.lines[k]? with
    | none => simp [afterLines, Text.hasLine, Text.lineAt?, h]
    | some line => simp [afterLines, Text.hasLine, Text.lineAt?, h, feed_fst]

variable {accepts : Text → Bool} {content : Text} {n : Nat}

theorem waiting_atLine :
    (atLine accepts content n).waiting = true ↔
      Since (fun i => (!content.hasLine Line.isEntry i) = true)
        (content.hasLine Line.isDirective · = true) n :=
  iff_since (f := fun n => (atLine accepts content n).waiting) rfl
    (fun n => by rw [atLine_succ]) n

theorem single_atLine :
    (atLine accepts content n).single = true ↔
      Since (fun i => (!content.hasLine (·.isRecord accepts) i) = true)
        (content.hasLine (·.asksFor skipEntryWord) · = true) n :=
  iff_since (f := fun n => (atLine accepts content n).single) rfl
    (fun n => by rw [atLine_succ]) n

theorem block_atLine :
    (atLine accepts content n).block = true ↔
      Since (fun b => (!content.hasLine Line.isBlank b ||
          (atLine accepts content b).waiting) = true)
        (content.hasLine (·.asksFor skipBlockWord) · = true) n :=
  iff_since (f := fun n => (atLine accepts content n).block) rfl
    (fun n => by rw [atLine_succ]) n

end SkipMarks

namespace Record
open SkipMarks

theorem mem_ofLines_iff {accepts : Text → Bool} {source : Text} {number : Nat} {s : SkipMarks}
    {lines : List Text} {r : Record} :
    r ∈ ofLines accepts source number s lines ↔
      ∃ k line e, lines[k]? = some line ∧
        ((s.afterLines accepts (lines.take k)).feed accepts line).2 = some e ∧
        r = ⟨e.atom, e.value, source, number + k, e.skip⟩ := by
  induction lines generalizing number s with
  | nil => simp [ofLines]
  | cons first lines ih =>
    have hcons : r ∈ ofLines accepts source number s (first :: lines) ↔
        (∃ e, (s.feed accepts first).2 = some e ∧
          r = ⟨e.atom, e.value, source, number, e.skip⟩) ∨
        r ∈ ofLines accepts source (number + 1) (s.feed accepts first).1 lines := by
      rw [ofLines]
      cases h : (s.feed accepts first).2 <;> simp [h]
    rw [hcons, ih]
    constructor
    · intro h
      obtain ⟨e, he, hr⟩ | ⟨k, line, e, hline, he, hr⟩ := h
      · exact ⟨0, first, e, rfl, he, hr⟩
      · exact ⟨k + 1, line, e, hline, he, by rw [hr, Nat.add_right_comm, Nat.add_assoc]⟩
    · intro ⟨k, line, e, hline, he, hr⟩
      cases k with
      | zero =>
        obtain rfl : first = line := by simpa using hline
        exact .inl ⟨e, he, hr⟩
      | succ k => exact .inr ⟨k, line, e, hline, he, by rw [hr, Nat.add_right_comm, Nat.add_assoc]⟩

theorem mem_ofText_iff {accepts : Text → Bool} {source content : Text} {r : Record} :
    r ∈ ofText accepts source content ↔
      content.lineAt? r.line = some (.entry r.atom r.value) ∧ accepts r.atom = true ∧
        r.source = source ∧
        r.skip = ((atLine accepts content r.line).block ||
          (atLine accepts content r.line).single) := by
  rw [ofText, mem_ofLines_iff]
  simp only [feed_snd_eq_some_iff]
  constructor
  · rintro ⟨k, line, e, hline, ⟨hread, hacc, hskip⟩, rfl⟩
    refine ⟨?_, hacc, rfl, ?_⟩
    · simp [Nat.add_comm 1 k, Text.lineAt?, hline, hread]
    · simpa [atLine] using hskip
  · intro ⟨hentry, hacc, hsource, hskip⟩
    obtain ⟨atom, value, source', number, skip⟩ := r
    cases number with
    | zero => simp [Text.lineAt?] at hentry
    | succ k =>
      obtain ⟨line, hline, hread⟩ := Option.map_eq_some_iff.1 hentry
      refine ⟨k, line, ⟨atom, value, skip⟩, hline, ⟨hread, hacc, hskip⟩, ?_⟩
      simp_all [Nat.add_comm]

theorem exists_line_eq_iff {accepts : Text → Bool} (source : Text) {content : Text} {n : Nat} :
    (∃ r ∈ ofText accepts source content, r.line = n) ↔
      content.hasLine (·.isRecord accepts) n = true := by
  simp only [mem_ofText_iff, Text.hasLine]
  constructor
  · rintro ⟨r, ⟨hentry, hacc, -⟩, rfl⟩
    simpa [hentry, Line.isRecord] using hacc
  · intro h
    match hline : content.lineAt? n, h with
    | some (.entry atom value), hacc =>
      let s := atLine accepts content n
      exact ⟨⟨atom, value, source, n, s.block || s.single⟩, ⟨hline, hacc, rfl, rfl⟩, rfl⟩

end Record

def EntryBetween (content : Text) (i j : Nat) : Prop :=
  ∃ c < j, i < c ∧ content.hasLine Line.isEntry c = true

/-- A comment above the line asks to skip an entry, and no record stands between them. -/
def MarkedAlone (accepts : Text → Bool) (source content : Text) (n : Nat) : Prop :=
  ∃ j < n, content.hasLine (·.asksFor skipEntryWord) j = true ∧
    ∀ r ∈ Record.ofText accepts source content, ¬ (j < r.line ∧ r.line < n)

/-- A comment above the line asks to skip a block, and no blank line behind an entry stands between
them. -/
def InParagraph (content : Text) (n : Nat) : Prop :=
  ∃ j < n, content.hasLine (·.asksFor skipBlockWord) j = true ∧
    ∀ b < n, j < b → content.hasLine Line.isBlank b = true → ¬ EntryBetween content j b

/-- A comment above the line asks to skip a block, and every blank line between them has a directive
above it without an entry in between. -/
def InBlock (content : Text) (n : Nat) : Prop :=
  ∃ j < n, content.hasLine (·.asksFor skipBlockWord) j = true ∧
    ∀ b < n, j < b → content.hasLine Line.isBlank b = true →
      ∃ d < b, content.hasLine Line.isDirective d = true ∧ ¬ EntryBetween content d b

/-- An entry stands between every blank line above the line and every comment above that blank line
that asks to skip an entry. -/
def MarksMeetEntries (content : Text) (n : Nat) : Prop :=
  ∀ b < n, content.hasLine Line.isBlank b = true →
    ∀ e < b, content.hasLine (·.asksFor skipEntryWord) e = true → EntryBetween content e b

instance (content : Text) (i j : Nat) : Decidable (EntryBetween content i j) :=
  inferInstanceAs (Decidable (∃ c < j, i < c ∧ content.hasLine Line.isEntry c = true))

instance (accepts : Text → Bool) (source content : Text) (n : Nat) :
    Decidable (MarkedAlone accepts source content n) :=
  inferInstanceAs (Decidable (∃ j < n, content.hasLine (·.asksFor skipEntryWord) j = true ∧
    ∀ r ∈ Record.ofText accepts source content, ¬ (j < r.line ∧ r.line < n)))

instance (content : Text) (n : Nat) : Decidable (InParagraph content n) :=
  inferInstanceAs (Decidable (∃ j < n, content.hasLine (·.asksFor skipBlockWord) j = true ∧
    ∀ b < n, j < b → content.hasLine Line.isBlank b = true → ¬ EntryBetween content j b))

instance (content : Text) (n : Nat) : Decidable (MarksMeetEntries content n) :=
  inferInstanceAs (Decidable (∀ b < n, content.hasLine Line.isBlank b = true →
    ∀ e < b, content.hasLine (·.asksFor skipEntryWord) e = true → EntryBetween content e b))

section
variable {accepts : Text → Bool} {source content : Text} {n : Nat}

theorem single_iff_markedAlone (source : Text) :
    (SkipMarks.atLine accepts content n).single = true ↔ MarkedAlone accepts source content n := by
  have hrecord : ∀ i, content.hasLine (·.isRecord accepts) i = false ↔
      ∀ r ∈ Record.ofText accepts source content, r.line ≠ i := by
    intro i
    rw [← Bool.not_eq_true, ← Record.exists_line_eq_iff source]
    simp
  rw [SkipMarks.single_atLine]
  simp only [Since, Bool.not_eq_true', hrecord]
  constructor
  · intro ⟨j, hj, hmark, hnone⟩
    exact ⟨j, hj, hmark, fun r hr ⟨hjr, hrn⟩ => hnone r.line hrn hjr r hr rfl⟩
  · intro ⟨j, hj, hmark, hnone⟩
    exact ⟨j, hj, hmark, fun i hi hji r hr hri => hnone r hr (hri ▸ ⟨hji, hi⟩)⟩

theorem block_iff_inBlock :
    (SkipMarks.atLine accepts content n).block = true ↔ InBlock content n := by
  have hwaiting : ∀ b, (SkipMarks.atLine accepts content b).waiting = true ↔
      ∃ d < b, content.hasLine Line.isDirective d = true ∧ ¬ EntryBetween content d b := by
    intro b
    rw [SkipMarks.waiting_atLine]
    simp [Since, EntryBetween]
  have himp : ∀ (blank : Bool) (kept : Prop), blank = false ∨ kept ↔ (blank = true → kept) := by
    intro blank kept
    cases blank <;> simp
  rw [SkipMarks.block_atLine]
  simp only [Since, InBlock, Bool.or_eq_true, Bool.not_eq_true', hwaiting, himp]

theorem InParagraph.inBlock (h : InParagraph content n) : InBlock content n := by
  obtain ⟨j, hj, hblock, hnone⟩ := h
  have hdirective : content.hasLine Line.isDirective j = true := by
    simp only [Text.hasLine, Option.any_eq_true] at hblock ⊢
    obtain ⟨line, hline, hasks⟩ := hblock
    exact ⟨line, hline, by simp [Line.isDirective, hasks]⟩
  exact ⟨j, hj, hblock, fun b hb hjb hblank => ⟨j, hjb, hdirective, hnone b hb hjb hblank⟩⟩

theorem asksFor_of_isDirective (h : content.hasLine Line.isDirective n = true) :
    content.hasLine Line.isEntry n = false ∧
      (content.hasLine (·.asksFor skipEntryWord) n = true ∨
        content.hasLine (·.asksFor skipBlockWord) n = true) := by
  simp only [Text.hasLine] at h ⊢
  match content.lineAt? n, h with
  | some (.comment text), h => exact ⟨rfl, by simpa [Line.isDirective] using h⟩

theorem InBlock.inParagraph (h : InBlock content n) (hmarks : MarksMeetEntries content n) :
    InParagraph content n := by
  obtain ⟨j, hj, hblock, hkept⟩ := h
  obtain ⟨k, hk, hlast, hnone⟩ := exists_last
    (Q := fun j => content.hasLine (·.asksFor skipBlockWord) j = true) ⟨j, hj, hblock⟩
  have hjk : j ≤ k := Nat.le_of_not_lt fun hkj => hnone j hj hkj hblock
  refine ⟨k, hk, hlast, fun b hb hkb hblank ⟨c, hcb, hkc, hentry⟩ => ?_⟩
  obtain ⟨d, hdb, hdirective, hfree⟩ := hkept b hb (by omega) hblank
  obtain ⟨hdentry, hasks⟩ := asksFor_of_isDirective hdirective
  -- The directive that keeps the block open stands behind the entry, so behind the last comment
  -- that asks for a block.
  have hcd : c < d := by
    refine Nat.lt_of_not_le fun hdc => ?_
    obtain hdc | rfl := Nat.lt_or_eq_of_le hdc
    · exact hfree ⟨c, hcb, hdc, hentry⟩
    · exact Bool.false_ne_true (hdentry.symm.trans hentry)
  obtain hentryMark | hblockMark := hasks
  · exact hfree (hmarks b hb hblank d hdb hentryMark)
  · exact hnone d (by omega) (by omega) hblockMark

/-- A record is skipped for a comment above it that asks to skip an entry, with no record in
between, or for one that asks to skip a block, while every blank line in between has a directive
above it without an entry in between. -/
theorem skip_iff_directive {r : Record} (h : r ∈ Record.ofText accepts source content) :
    (r.skip = true ↔ MarkedAlone accepts source content r.line ∨ InBlock content r.line) ∧
      (InParagraph content r.line → r.skip = true) ∧
      (MarksMeetEntries content r.line →
        (r.skip = true ↔ MarkedAlone accepts source content r.line ∨
          InParagraph content r.line)) := by
  have hskip : r.skip = true ↔ MarkedAlone accepts source content r.line ∨
      InBlock content r.line := by
    rw [(Record.mem_ofText_iff.1 h).2.2.2, Bool.or_eq_true, block_iff_inBlock,
      single_iff_markedAlone source, or_comm]
  refine ⟨hskip, fun hparagraph => hskip.2 (.inr hparagraph.inBlock), fun hmarks => ?_⟩
  rw [hskip]
  exact or_congr_right ⟨fun hblock => hblock.inParagraph hmarks, InParagraph.inBlock⟩

end

theorem skip_iff_directive_bothMarks :
    let content := "# SKIP_ENTRY\n# SKIP_BLOCK\na/b\n\nc/d\n".toList
    let r : Record := ⟨"c/d".toList, [], "use".toList, 5, false⟩
    r ∈ Record.ofText (·.contains '/') "use".toList content ∧ MarksMeetEntries content 5 ∧
      r.skip = false ∧ ¬ InBlock content 5 ∧
      ¬ MarkedAlone (·.contains '/') "use".toList content 5 ∧ ¬ InParagraph content 5 := by
  intro content r
  have hr : r ∈ Record.ofText (·.contains '/') "use".toList content := by decide
  have hmarks : MarksMeetEntries content 5 := by decide
  obtain ⟨hblock, -, hparagraph⟩ := skip_iff_directive hr
  have hnotBlock := (not_congr hblock).1 Bool.false_ne_true
  have hnot := (not_congr (hparagraph hmarks)).1 Bool.false_ne_true
  exact ⟨hr, hmarks, rfl, fun h => hnotBlock (.inr h), fun h => hnot (.inl h),
    fun h => hnot (.inr h)⟩

/-- Not every skipped record stands in the paragraph of a mark: the comment behind `a/b` asks to
skip one entry, and `e/f` is skipped too. -/
theorem not_skip_iff_inParagraph :
    ¬ ∀ (accepts : Text → Bool) (source content : Text),
      ∀ r ∈ Record.ofText accepts source content,
        (r.skip = true ↔ MarkedAlone accepts source content r.line ∨
          InParagraph content r.line) := by
  intro h
  let content := "# SKIP_BLOCK\na/b\n# SKIP_ENTRY\n\nc/d\ne/f\n".toList
  let r : Record := ⟨"e/f".toList, [], "use".toList, 6, true⟩
  have hr : r ∈ Record.ofText (·.contains '/') "use".toList content := by decide
  have hnot : ¬ (MarkedAlone (·.contains '/') "use".toList content 6 ∨ InParagraph content 6) := by
    decide
  exact hnot ((h _ _ content r hr).1 rfl)

end OverrideAudit
