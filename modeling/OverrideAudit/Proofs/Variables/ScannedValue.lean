import OverrideAudit.Proofs.Variables.Assignment

/-! A value is read by other rules than the scan that ends its statement. The scan knows escaped
quotes and takes a `#` behind any blank for a comment. The value ends at its first quote, escaped or
not, and its comment is looked for behind a space when the blanks in front of the value are gone. -/
namespace OverrideAudit

/-- The part of a text in front of its first `#` behind a marked character. -/
def Text.beforeHash (mark : Char → Bool) (marked : Bool) : Text → Text
  | [] => []
  | c :: r => if c = '#' ∧ marked = true then [] else c :: beforeHash mark (mark c) r

namespace QuoteState

def beforeComment (s : QuoteState) : Text → Text
  | [] => []
  | c :: r => if s.step c = comment then [] else c :: (s.step c).beforeComment r

end QuoteState

/-- The scan of a statement takes the quote in front of `inner` for an opening one, and the quote
behind it for the one that closes it. -/
structure ScansQuoted (statement before inner rest : Text) : Prop where
  text : statement = before ++ doubleQuote :: (inner ++ doubleQuote :: rest)
  outside : ∃ afterBlank, QuoteState.behind before = .outside afterBlank
  inside : ∀ t, t <+: inner → ∃ escaped, QuoteState.behind (before ++ doubleQuote :: t) =
    .double escaped
  closed : QuoteState.behind (before ++ doubleQuote :: (inner ++ [doubleQuote])) = .outside false

namespace Text
variable {mark : Char → Bool} {marked : Bool} {t : Text}

theorem beforeHash_append (h : beforeHash mark marked t = t) (u : Text) :
    beforeHash mark marked (t ++ u) = t ++ beforeHash mark (t.foldl (fun _ => mark) marked) u := by
  induction t generalizing marked with
  | nil => rfl
  | cons c t ih =>
    rw [beforeHash] at h
    split at h
    · exact absurd h (by simp)
    · next hc =>
      rw [List.cons_append, beforeHash, if_neg hc, ih (List.cons.inj h).2]
      rfl

theorem beforeHash_eq_self_iff : beforeHash mark marked t = t ↔
    (marked = true → t.head? ≠ some '#') ∧ ∀ c, mark c = true → ¬ [c, '#'] <:+: t := by
  induction t generalizing marked with
  | nil => simp [beforeHash]
  | cons c t ih =>
    have hlead : ∀ d, [d, '#'] <+: c :: t ↔ d = c ∧ t.head? = some '#' := by
      intro d
      cases t <;> simp [eq_comm]
    have hpart : (∀ d, mark d = true → ¬ [d, '#'] <:+: c :: t) ↔
        (mark c = true → t.head? ≠ some '#') ∧ ∀ d, mark d = true → ¬ [d, '#'] <:+: t := by
      simp only [List.infix_cons_iff, hlead]
      grind
    have hcons : beforeHash mark marked (c :: t) = c :: t ↔
        ¬ (c = '#' ∧ marked = true) ∧ beforeHash mark (mark c) t = t := by
      rw [beforeHash]
      split <;> simp [*]
    simp only [hpart, hcons, ih, List.head?_cons, ne_eq, Option.some.injEq]
    tauto

theorem beforeHash_spec (mark : Char → Bool) (marked : Bool) (t : Text) :
    beforeHash mark marked (beforeHash mark marked t) = beforeHash mark marked t ∧
      (beforeHash mark marked t = t ∨ ∃ rest, t = beforeHash mark marked t ++ '#' :: rest) := by
  induction t generalizing marked with
  | nil => exact ⟨rfl, .inl rfl⟩
  | cons c t ih =>
    rw [beforeHash]
    split
    · next hc => exact ⟨rfl, .inr ⟨t, by rw [hc.1, List.nil_append]⟩⟩
    · next hc =>
      obtain ⟨hself, hcut⟩ := ih (mark c)
      rw [beforeHash, if_neg hc, hself]
      refine ⟨rfl, hcut.imp (congrArg _) fun ⟨rest, hrest⟩ => ⟨rest, ?_⟩⟩
      rw [List.cons_append, ← hrest]

theorem foldl_mark (mark : Char → Bool) (t : Text) :
    t.foldl (fun _ => mark) false = t.getLast?.any mark := by
  obtain rfl | ⟨front, c, rfl⟩ := List.eq_nil_or_concat' t <;> simp

theorem trim_cutAtText (t : Text) :
    (((cutAtText [' ', '#'] t).map Prod.fst).getD t).trim =
      (beforeHash (· == ' ') false t).trim := by
  cases hcut : cutAtText [' ', '#'] t with
  | none =>
    have hspace : ¬ [' ', '#'] <:+: t := by
      rw [← mentions_iff, mentions, hcut]
      simp
    have hself : beforeHash (· == ' ') false t = t :=
      beforeHash_eq_self_iff.2 ⟨by simp, by simpa using hspace⟩
    rw [hself]
    rfl
  | some parts =>
    obtain ⟨front, back⟩ := parts
    have hfirst : ¬ [' ', '#'] <:+: front ++ [' '] := not_infix_of_cutAtText (by simp) hcut
    have hself : beforeHash (· == ' ') false (front ++ [' ']) = front ++ [' '] :=
      beforeHash_eq_self_iff.2 ⟨by simp, by simpa using hfirst⟩
    have htext : t = front ++ [' '] ++ '#' :: back := by simpa using append_of_cutAtText hcut
    have hcutOff : beforeHash (· == ' ') false t = front ++ [' '] := by
      rw [htext, beforeHash_append hself, foldl_mark]
      simp [beforeHash]
    rw [hcutOff]
    exact (trim_append_of_forall front (by simp; rfl)).symm

theorem trim_beforeHash_iff (t : Text) :
    (beforeHash (· == ' ') false t.trim).trim = (beforeHash isBlank false t).trim ↔
      beforeHash isBlank false t = t ∨
        (trimFrontWhere isBlank (beforeHash isBlank false t)).getLast? = some ' ' := by
  have hblank : ∀ part, part <:+: beforeHash isBlank false t →
      beforeHash (· == ' ') false part = part := by
    intro part hpart
    have hnone := (beforeHash_eq_self_iff.1 (beforeHash_spec isBlank false t).1).2
    refine beforeHash_eq_self_iff.2 ⟨by simp, fun c hc hhash => ?_⟩
    obtain rfl : c = ' ' := by simpa using hc
    exact hnone ' ' rfl (hhash.trans hpart)
  obtain htext | ⟨rest, htext⟩ := (beforeHash_spec isBlank false t).2
  · rw [htext] at hblank ⊢
    rw [hblank t.trim (trim_isInfix t), trim_trim]
    simp
  · generalize beforeHash isBlank false t = before at hblank htext ⊢
    generalize hkept : trimFrontWhere isBlank before = kept
    have hself : beforeHash (· == ' ') false kept = kept := by
      refine hblank kept ?_
      rw [← hkept]
      exact (List.dropWhile_suffix isBlank).isInfix
    have htrim : t.trim = kept ++ '#' :: trimBackWhere isBlank rest := by
      rw [htext, trim_append_cons before rest (by decide), hkept]
    have hbefore : before.trim = kept.trim := by rw [← hkept, trim_trimFrontWhere]
    have hcut : before ≠ t := by simp [htext]
    rw [htrim, beforeHash_append hself, foldl_mark, hbefore]
    by_cases hspace : kept.getLast? = some ' '
    · simp [hspace, beforeHash]
    · have hmark : kept.getLast?.any (· == ' ') = false := by
        rw [Option.any_eq_false]
        intro c hc
        simpa using fun h : c = ' ' => hspace (h ▸ hc)
      have hfront : trimFrontWhere isBlank kept = kept := by
        rw [← hkept]
        exact List.dropWhile_idempotent isBlank before
      have hlonger : ∀ back, (kept ++ '#' :: back).trim ≠ kept.trim := by
        intro back heq
        have hlength := congrArg List.length heq
        rw [trim_append_cons kept back (by decide), hfront, List.length_append,
          List.length_cons] at hlength
        have hle := (trim_isInfix kept).length_le
        omega
      simp [hmark, beforeHash, hlonger, hcut, hspace]

end Text

namespace QuoteState
variable {s : QuoteState} {t : Text}

theorem foldl_comment (t : Text) : t.foldl step comment = comment := by
  induction t with
  | nil => rfl
  | cons c t ih => exact ih

theorem beforeComment_append (h : t.foldl step s ≠ comment) (u : Text) :
    s.beforeComment (t ++ u) = t ++ (t.foldl step s).beforeComment u := by
  induction t generalizing s with
  | nil => rfl
  | cons c t ih =>
    have hc : s.step c ≠ comment := by
      intro hc
      rw [List.foldl_cons, hc, foldl_comment] at h
      exact h rfl
    rw [List.cons_append, beforeComment, if_neg hc, ih h]
    rfl

theorem beforeComment_outside {marked : Bool}
    (hdouble : doubleQuote ∉ (outside marked).beforeComment t)
    (hsingle : singleQuote ∉ (outside marked).beforeComment t) :
    (outside marked).beforeComment t = t.beforeHash isBlank marked := by
  induction t generalizing marked with
  | nil => rfl
  | cons c t ih =>
    rw [beforeComment] at hdouble hsingle ⊢
    rw [Text.beforeHash]
    by_cases hhash : c = '#' ∧ marked = true
    · simp [step, hhash]
    · have hc : (outside marked).step c ≠ comment := by
        rw [step, if_neg hhash]
        split_ifs <;> simp
      rw [if_neg hc, List.mem_cons, not_or] at hdouble hsingle
      have hstep : (outside marked).step c = outside (isBlank c) := by
        rw [step, if_neg hhash, if_neg (Ne.symm hdouble.1), if_neg (Ne.symm hsingle.1)]
      rw [hstep] at hdouble hsingle
      rw [if_neg hc, if_neg hhash, hstep, ih hdouble.2 hsingle.2]

/-- A quote that is not open at the end is closed by one that is not escaped. -/
theorem exists_closing {escaped : Bool} (h : (t.foldl step (double escaped)).isOpen = false) :
    ∃ inner rest, t = inner ++ doubleQuote :: rest ∧
      (∀ u, u <+: inner → ∃ e, u.foldl step (double escaped) = double e) ∧
      inner.foldl step (double escaped) = double false := by
  induction t generalizing escaped with
  | nil => exact absurd h (by simp [isOpen])
  | cons c t ih =>
    by_cases hclose : escaped = false ∧ c = doubleQuote
    · obtain ⟨rfl, rfl⟩ := hclose
      refine ⟨[], t, rfl, fun u hu => ?_, rfl⟩
      rw [List.prefix_nil.1 hu]
      exact ⟨false, rfl⟩
    -- Any other character leaves the scan within the quotes, so the rest of the text closes them.
    · obtain ⟨e, he⟩ : ∃ e, (double escaped).step c = double e := by
        cases escaped with
        | true => exact ⟨false, rfl⟩
        | false =>
          have hc : c ≠ doubleQuote := fun hc => hclose ⟨rfl, hc⟩
          rw [step, if_neg hc]
          split_ifs <;> exact ⟨_, rfl⟩
      rw [List.foldl_cons, he] at h
      obtain ⟨inner, rest, rfl, hinside, hlast⟩ := ih h
      refine ⟨c :: inner, rest, rfl, fun u hu => ?_, by rw [List.foldl_cons, he, hlast]⟩
      cases u with
      | nil => exact ⟨escaped, rfl⟩
      | cons d u =>
        obtain ⟨rfl, htail⟩ := List.cons_prefix_cons.1 hu
        rw [List.foldl_cons, he]
        exact hinside u htail

theorem step_outside_doubleQuote (afterBlank : Bool) :
    (outside afterBlank).step doubleQuote = double false := by
  simp [step, (by decide : doubleQuote ≠ '#')]

theorem step_double_doubleQuote : (double false).step doubleQuote = outside false := by decide

theorem eq_backslash_of_step {c : Char} {escaped : Bool}
    (h : (double escaped).step c = double true) : c = '\\' := by
  cases escaped with
  | true => exact absurd h (by simp [step])
  | false =>
    by_contra hc
    rw [step, if_neg hc] at h
    split_ifs at h
    exact absurd h (by simp)

end QuoteState

theorem ScansQuoted.mem_iff {statement before inner rest : Text}
    (h : ScansQuoted statement before inner rest) :
    doubleQuote ∈ inner ↔ ['\\', doubleQuote] <:+: inner := by
  refine ⟨fun hmem => ?_, fun hpart => hpart.subset (by simp)⟩
  have hstep : ∀ {t : Text} {c : Char}, t ++ [c] <+: inner → ∃ e,
      QuoteState.behind (before ++ doubleQuote :: t) = .double e ∧
      (QuoteState.double e).step c = QuoteState.behind (before ++ doubleQuote :: (t ++ [c])) := by
    intro t c ht
    obtain ⟨e, he⟩ := h.inside t ((List.prefix_append t [c]).trans ht)
    refine ⟨e, he, ?_⟩
    rw [← List.cons_append, ← List.append_assoc, QuoteState.behind_append _ [c], he]
    rfl
  obtain ⟨front, back, rfl⟩ := List.append_of_mem hmem
  have hquote : front ++ [doubleQuote] <+: front ++ doubleQuote :: back := ⟨back, by simp⟩
  obtain ⟨escaped, hescaped, hnext⟩ := hstep hquote
  obtain ⟨_, hstays⟩ := h.inside _ hquote
  -- The scan is still within the quotes behind this one, so it is escaped in front of it.
  cases escaped with
  | false =>
    rw [hstays, QuoteState.step_double_doubleQuote] at hnext
    exact absurd hnext (by simp)
  | true =>
    obtain rfl | ⟨first, c, rfl⟩ := List.eq_nil_or_concat' front
    · obtain ⟨afterBlank, hbefore⟩ := h.outside
      rw [QuoteState.behind_append, hbefore, List.foldl_cons,
        QuoteState.step_outside_doubleQuote] at hescaped
      exact absurd hescaped (by simp)
    · obtain ⟨_, -, hlast⟩ := hstep (List.prefix_append (first ++ [c]) (doubleQuote :: back))
      obtain rfl := QuoteState.eq_backslash_of_step (hlast.trans hescaped)
      exact ⟨first, back, by simp⟩

theorem takeWhile_append_trimFrontWhere (t : Text) :
    t = t.takeWhile isBlank ++ Text.trimFrontWhere isBlank t :=
  List.takeWhile_append_dropWhile.symm

theorem isPlain_of_mem_takeWhile {t : Text} {c : Char} (h : c ∈ t.takeWhile isBlank) :
    IsPlain c := isPlain_of_isBlank (List.mem_takeWhile_imp h)

theorem exists_scansQuoted {front value u : Text} (hfront : ∀ c ∈ front, IsPlain c)
    (hvalue : Text.trimFrontWhere isBlank value = doubleQuote :: u)
    (hclosed : hasOpenQuote (front ++ '=' :: value) = false) :
    ∃ before inner rest, ScansQuoted (front ++ '=' :: value) before inner rest ∧
      u = inner ++ doubleQuote :: rest := by
  generalize hbefore : front ++ '=' :: value.takeWhile isBlank = before
  have htext : front ++ '=' :: value = before ++ doubleQuote :: u := by
    conv_lhs => rw [takeWhile_append_trimFrontWhere value, hvalue]
    simp [← hbefore]
  have hplain : ∀ c ∈ before, IsPlain c := by
    rw [← hbefore]
    exact List.forall_mem_append.2 ⟨hfront,
      List.forall_mem_cons.2 ⟨isPlain_equals, fun _ => isPlain_of_mem_takeWhile⟩⟩
  obtain ⟨afterBlank, houtside⟩ := QuoteState.foldl_plain true hplain
  have hopened : ∀ t, QuoteState.behind (before ++ doubleQuote :: t) =
      t.foldl QuoteState.step (.double false) := by
    intro t
    rw [QuoteState.behind_append, QuoteState.behind, houtside, List.foldl_cons,
      QuoteState.step_outside_doubleQuote]
  obtain ⟨inner, rest, rfl, hinside, hlast⟩ := QuoteState.exists_closing (by
    rwa [hasOpenQuote, htext, ← QuoteState.behind, hopened] at hclosed)
  refine ⟨before, inner, rest, ⟨htext, ⟨afterBlank, houtside⟩, fun t ht => ?_, ?_⟩, rfl⟩
  · rw [hopened]
    exact hinside t ht
  · rw [hopened, List.foldl_append, hlast]
    rfl

namespace Value
variable {statement name value : Text}

theorem read_doubleQuoted {t : Text} (h : value.trim = doubleQuote :: t) :
    read value = .expandable (beforeQuote doubleQuote t) := by
  rw [read, h]
  simp

theorem read_bare (hdouble : doubleQuote ∉ Text.beforeHash isBlank false value)
    (hsingle : singleQuote ∉ Text.beforeHash isBlank false value) :
    read value = .expandable (Text.beforeHash (· == ' ') false value.trim).trim := by
  rw [← Text.trim_cutAtText, read]
  cases htrim : value.trim with
  | nil => rfl
  | cons c r =>
    have hc : c ≠ doubleQuote ∧ c ≠ singleQuote := by
      by_cases hhash : c = '#'
      · rw [hhash]
        decide
      · obtain ⟨-, u, hvalue, -⟩ := Text.trim_eq_cons htrim
        have hself : Text.beforeHash isBlank false (value.takeWhile isBlank) =
            value.takeWhile isBlank :=
          Text.beforeHash_eq_self_iff.2 ⟨by simp, fun d _ hpart =>
            (isPlain_of_mem_takeWhile (hpart.subset (by simp : '#' ∈ [d, '#']))).1 rfl⟩
        rw [takeWhile_append_trimFrontWhere value, hvalue, Text.beforeHash_append hself,
          Text.beforeHash, if_neg fun hmark => hhash hmark.1] at hdouble hsingle
        exact ⟨fun hc => hdouble (by simp [hc]), fun hc => hsingle (by simp [hc])⟩
    simp only [hc.1, hc.2, if_false]

/-- A value that starts with a double quote ends at the quote that the scan takes for its end, if no
escaped quote stands in front of it. A value without quotes ends where the scan starts the comment
exactly when there is none, or when its `#` is behind a space and not only behind blanks. -/
theorem read_scanned (hassign : assignment? statement = some (name, value))
    (hclosed : hasOpenQuote statement = false) :
    (∀ t, value.trim = doubleQuote :: t → ∃ before inner rest,
      ScansQuoted statement before inner rest ∧
        Text.trimFrontWhere isBlank value = doubleQuote :: (inner ++ doubleQuote :: rest) ∧
        read value = .expandable (beforeQuote doubleQuote inner) ∧
        (read value = .expandable inner ↔ ¬ ['\\', doubleQuote] <:+: inner)) ∧
    (doubleQuote ∉ (QuoteState.outside true).beforeComment statement →
      singleQuote ∉ (QuoteState.outside true).beforeComment statement →
      read value = .expandable (Text.beforeHash (· == ' ') false value.trim).trim ∧
        (read value = .expandable (Text.beforeHash isBlank false value).trim ↔
          Text.beforeHash isBlank false value = value ∨
            (Text.trimFrontWhere isBlank (Text.beforeHash isBlank false value)).getLast? =
              some ' ')) := by
  obtain ⟨front, rfl, hfront⟩ := append_of_assignment? hassign
  constructor
  · intro t htrim
    obtain ⟨-, u, hvalue, rfl⟩ := Text.trim_eq_cons htrim
    obtain ⟨before, inner, rest, hscan, rfl⟩ := exists_scansQuoted hfront hvalue hclosed
    have hread : read value = .expandable (beforeQuote doubleQuote inner) := by
      rw [read_doubleQuoted htrim, Text.trimBackWhere_append_cons _ _ (by decide),
        beforeQuote_append]
    refine ⟨before, inner, rest, hscan, hvalue, hread, ?_⟩
    rw [hread, expandable.injEq, beforeQuote_eq_self_iff, hscan.mem_iff]
  · intro hdouble hsingle
    have hequals : QuoteState.behind (front ++ ['=']) = .outside false :=
      QuoteState.behind_assignment hfront
    rw [QuoteState.behind] at hequals
    have hscanned : (QuoteState.outside true).beforeComment (front ++ '=' :: value) =
        front ++ ['='] ++ (QuoteState.outside false).beforeComment value := by
      have happend := QuoteState.beforeComment_append (s := .outside true)
        (t := front ++ ['=']) (by rw [hequals]; simp) value
      rwa [hequals, List.append_assoc, List.singleton_append] at happend
    rw [hscanned, List.mem_append, not_or] at hdouble hsingle
    have hvalue := QuoteState.beforeComment_outside hdouble.2 hsingle.2
    rw [hvalue] at hdouble hsingle
    have hbare := read_bare hdouble.2 hsingle.2
    refine ⟨hbare, ?_⟩
    rw [hbare, expandable.injEq, Text.trim_beforeHash_iff]

theorem read_scanned_comments :
    (∃ before inner rest, ScansQuoted "A=\"x # y\" # \"z".toList before inner rest ∧
      read "\"x # y\" # \"z".toList = .expandable inner) ∧
    read " x#y z # 'w".toList = .expandable "x#y z".toList := by
  constructor
  · have hassign : assignment? "A=\"x # y\" # \"z".toList =
        some ("A".toList, "\"x # y\" # \"z".toList) := by decide
    obtain ⟨hquoted, -⟩ := read_scanned hassign (by decide)
    obtain ⟨before, inner, rest, hscan, htext, -, hiff⟩ :=
      hquoted "x # y\" # \"z".toList (by decide)
    refine ⟨before, inner, rest, hscan, hiff.2 fun hpart => ?_⟩
    have hbackslash : '\\' ∈ doubleQuote :: (inner ++ doubleQuote :: rest) := by
      simp [hpart.subset List.mem_cons_self]
    rw [← htext] at hbackslash
    exact absurd hbackslash (by decide)
  · have hassign : assignment? "B= x#y z # 'w".toList =
        some ("B".toList, " x#y z # 'w".toList) := by decide
    obtain ⟨-, hbare⟩ := read_scanned hassign (by decide)
    exact (hbare (by decide) (by decide)).2.2 (by decide)

/-- Neither an escaped quote nor a comment behind a tab is read as the scan takes it. -/
theorem read_not_scanned :
    (¬ ∀ content statement name value, statement ∈ statements content →
      assignment? statement = some (name, value) → hasOpenQuote statement = false →
      ∀ t, value.trim = doubleQuote :: t → ∃ before inner rest,
        ScansQuoted statement before inner rest ∧
          Text.trimFrontWhere isBlank value = doubleQuote :: (inner ++ doubleQuote :: rest) ∧
          read value = .expandable inner) ∧
    ¬ ∀ content statement name value, statement ∈ statements content →
      assignment? statement = some (name, value) → hasOpenQuote statement = false →
      doubleQuote ∉ (QuoteState.outside true).beforeComment statement →
      singleQuote ∉ (QuoteState.outside true).beforeComment statement →
      read value = .expandable (Text.beforeHash isBlank false value).trim := by
  constructor
  · intro h
    obtain ⟨before, inner, rest, hscan, htext, hread⟩ := h "A=\"x\\\"y\"".toList
      "A=\"x\\\"y\"".toList "A".toList "\"x\\\"y\"".toList (by decide) (by decide) (by decide)
      "x\\\"y\"".toList (by decide)
    have hinner : read "\"x\\\"y\"".toList = .expandable "x\\".toList := by decide
    obtain rfl := expandable.inj (hinner.symm.trans hread)
    have hbefore : "A=".toList = before := by
      have happend := hscan.text
      rw [← htext] at happend
      exact List.append_cancel_right happend
    have hclosed := hscan.closed
    rw [← hbefore] at hclosed
    exact absurd hclosed (by decide)
  · intro h
    have hread := h "A=x\t# y".toList "A=x\t# y".toList "A".toList "x\t# y".toList
      (by decide) (by decide) (by decide) (by decide) (by decide)
    exact absurd hread (by decide)

end Value

end OverrideAudit
