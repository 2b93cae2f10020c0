import OverrideAudit.Proofs.Text.Lines
import OverrideAudit.Variables

/-! What one statement sets, and how far the scan for quotes has come when its value starts. There
is neither a quote nor a comment in front of the equals sign. -/
namespace OverrideAudit

namespace Variables
variable {v : Variables} {name other : Text}

theorem lookup_setIn_self (name value : Text) (bindings : List (Text × Text)) :
    (setIn name value bindings).lookup name = some value := by
  induction bindings with
  | nil => simp [setIn]
  | cons binding rest ih =>
    obtain ⟨key, old⟩ := binding
    by_cases hkey : key = name
    · simp [setIn, hkey]
    · have hother : (name == key) = false := by simpa using Ne.symm hkey
      simp [setIn, hkey, List.lookup_cons, hother, ih]

theorem lookup_setIn_of_ne (h : other ≠ name) (value : Text) (bindings : List (Text × Text)) :
    (setIn name value bindings).lookup other = bindings.lookup other := by
  have hother : (other == name) = false := by simpa using h
  induction bindings with
  | nil => simp [setIn, List.lookup_cons, hother]
  | cons binding rest ih =>
    obtain ⟨key, old⟩ := binding
    by_cases hkey : key = name
    · simp [setIn, hkey, List.lookup_cons, hother]
    · simp [setIn, hkey, List.lookup_cons, ih]

@[simp] theorem get?_set_self (v : Variables) (name value : Text) :
    (v.set name value).get? name = some value := lookup_setIn_self name value v.bindings

theorem get?_set_of_ne (v : Variables) (h : other ≠ name) (value : Text) :
    (v.set name value).get? other = v.get? other := lookup_setIn_of_ne h value v.bindings

end Variables

/-- The name and the text behind the equals sign, if the statement sets a variable. -/
def assignment? (statement : Text) : Option (Text × Text) :=
  match Text.cutAt '=' (("export ".toList.isPrefixOf? statement).getD statement) with
  | none => none
  | some (key, value) =>
    if !key.trim.isEmpty && key.trim.all Variables.isNameChar then some (key.trim, value) else none

def IsPlain (c : Char) : Prop := c ≠ '#' ∧ c ≠ doubleQuote ∧ c ≠ singleQuote

theorem isPlain_of_isBlank {c : Char} (h : isBlank c = true) : IsPlain c := by
  refine ⟨fun hc => ?_, fun hc => ?_, fun hc => ?_⟩ <;> subst hc <;> exact absurd h (by decide)

theorem isPlain_of_isNameChar {c : Char} (h : Variables.isNameChar c = true) : IsPlain c := by
  refine ⟨fun hc => ?_, fun hc => ?_, fun hc => ?_⟩ <;> subst hc <;> exact absurd h (by decide)

theorem isPlain_equals : IsPlain '=' := by
  unfold IsPlain
  decide

theorem not_isBlank_of_isNameChar {c : Char} (h : Variables.isNameChar c = true) :
    isBlank c = false := by
  have table : ∀ n ∈ Text.blankCodes, Variables.isNameChar (Char.ofNat n) = false := by decide
  rw [Bool.eq_false_iff]
  intro hblank
  have hname := table c.toNat (Text.mem_blankCodes hblank)
  rw [Char.ofNat_toNat, h] at hname
  exact absurd hname (by simp)

theorem assign_eq (v : Variables) (statement : Text) :
    v.assign statement = match assignment? statement with
      | none => v
      | some (name, value) => v.set name (v.valueText (Value.read value)) := by
  rw [Variables.assign, assignment?]
  cases Text.cutAt '=' (("export ".toList.isPrefixOf? statement).getD statement) with
  | none => rfl
  | some parts =>
    dsimp only
    split <;> rfl

theorem append_of_assignment? {statement name value : Text}
    (h : assignment? statement = some (name, value)) :
    ∃ front, statement = front ++ '=' :: value ∧ ∀ c ∈ front, IsPlain c := by
  rw [assignment?] at h
  split at h
  · exact absurd h (by simp)
  · next key behind hcut =>
    obtain ⟨-, hstatement⟩ := Text.cutAt_eq_some_iff.1 hcut
    split at h
    · next hname =>
      obtain ⟨rfl, rfl⟩ := Prod.mk.inj (Option.some.inj h)
      obtain ⟨before, after, hkey, hbefore, hafter⟩ := Text.append_of_trim key
      have hplain : ∀ c ∈ key, IsPlain c := by
        intro c hc
        rw [Bool.and_eq_true, List.all_eq_true] at hname
        rw [hkey, List.mem_append, List.mem_append] at hc
        obtain hc | hc | hc := hc
        · exact isPlain_of_isBlank (hbefore c hc)
        · exact isPlain_of_isNameChar (hname.2 c hc)
        · exact isPlain_of_isBlank (hafter c hc)
      cases hexport : "export ".toList.isPrefixOf? statement with
      | none =>
        rw [hexport, Option.getD_none] at hstatement
        exact ⟨key, hstatement, hplain⟩
      | some rest =>
        rw [hexport, Option.getD_some] at hstatement
        have hexportPlain : ∀ c ∈ "export ".toList, IsPlain c := by
          simp [IsPlain, doubleQuote, singleQuote]
        refine ⟨"export ".toList ++ key, ?_, List.forall_mem_append.2 ⟨hexportPlain, hplain⟩⟩
        rw [← List.isPrefixOf?_eq_some_iff_append_eq.1 hexport, hstatement, List.append_assoc]
    · exact absurd h (by simp)

theorem assignment?_of_name {name : Text} (hne : name ≠ [])
    (hname : ∀ c ∈ name, Variables.isNameChar c = true) (value : Text) :
    assignment? (name ++ '=' :: value) = some (name, value) := by
  have hblank : ∀ c ∈ name, isBlank c = false := fun c hc => not_isBlank_of_isNameChar (hname c hc)
  have hequals : '=' ∉ name := fun hc => absurd (hname '=' hc) (by decide)
  have hexport : "export ".toList.isPrefixOf? (name ++ '=' :: value) = none := by
    refine Option.eq_none_iff_forall_ne_some.2 fun rest hrest => ?_
    have heq := (List.isPrefixOf?_eq_some_iff_append_eq.1 hrest).symm
    -- The first character that is no part of a name is the equals sign, but the blank in `export `.
    have hname : Text.cutWhere (!Variables.isNameChar ·) (name ++ '=' :: value) =
        some (name, value) :=
      Text.cutWhere_eq_some_iff.2 ⟨fun c hc => by simp [hname c hc], '=', rfl, rfl⟩
    have hlead : Text.cutWhere (!Variables.isNameChar ·) (name ++ '=' :: value) =
        some ("export".toList, rest) :=
      Text.cutWhere_eq_some_iff.2 ⟨by simp [Variables.isNameChar], ' ', rfl, heq⟩
    obtain ⟨hnameExport, -⟩ := Prod.mk.inj (Option.some.inj (hname.symm.trans hlead))
    rw [hnameExport] at heq
    simp at heq
  have htrim : name.trim = name := Text.trim_eq_self
    (fun c hc => hblank c (List.mem_of_mem_head? hc))
    (fun c hc => hblank c (List.mem_of_getLast? hc))
  have hcut : Text.cutAt '=' (name ++ '=' :: value) = some (name, value) :=
    Text.cutAt_eq_some_iff.2 ⟨hequals, rfl⟩
  rw [assignment?, hexport, Option.getD_none, hcut]
  have hall : name.all Variables.isNameChar = true := List.all_eq_true.2 hname
  simp [htrim, hne, hall]

theorem beforeQuote_append {quote : Char} (t rest : Text) :
    beforeQuote quote (t ++ quote :: rest) = beforeQuote quote t := by
  rw [beforeQuote, beforeQuote, List.takeWhile_append]
  split
  · next hlength =>
    rw [(List.takeWhile_prefix _).eq_of_length hlength]
    simp
  · rfl

theorem beforeQuote_eq_self_iff {quote : Char} {t : Text} :
    beforeQuote quote t = t ↔ quote ∉ t := by
  rw [beforeQuote, List.takeWhile_eq_self_iff]
  simp only [bne_iff_ne, ne_eq]
  exact ⟨fun h hmem => h quote hmem rfl, fun h c hc hquote => h (hquote ▸ hc)⟩

namespace QuoteState

def behind (t : Text) : QuoteState := t.foldl step (outside true)

theorem behind_append (s t : Text) : behind (s ++ t) = t.foldl step (behind s) :=
  List.foldl_append

theorem step_plain {c : Char} (afterBlank : Bool) (h : IsPlain c) :
    (outside afterBlank).step c = outside (isBlank c) := by
  simp [step, h.1, h.2.1, h.2.2]

theorem foldl_plain {t : Text} (afterBlank : Bool) (h : ∀ c ∈ t, IsPlain c) :
    ∃ behindBlank, t.foldl step (outside afterBlank) = outside behindBlank := by
  induction t generalizing afterBlank with
  | nil => exact ⟨afterBlank, rfl⟩
  | cons c t ih =>
    obtain ⟨hc, ht⟩ := List.forall_mem_cons.1 h
    rw [List.foldl_cons, step_plain afterBlank hc]
    exact ih (isBlank c) ht

theorem behind_assignment {front : Text} (h : ∀ c ∈ front, IsPlain c) :
    behind (front ++ ['=']) = outside false := by
  obtain ⟨behindBlank, hfront⟩ := foldl_plain true h
  rw [behind_append, behind, hfront]
  exact step_plain behindBlank isPlain_equals

theorem foldl_single {t : Text} (h : singleQuote ∉ t) : t.foldl step single = single := by
  induction t with
  | nil => rfl
  | cons c t ih =>
    have hc : c ≠ singleQuote := fun hc => h (by simp [hc])
    rw [List.foldl_cons, step, if_neg hc]
    exact ih fun hmem => h (List.mem_cons_of_mem c hmem)

end QuoteState
end OverrideAudit
