import OverrideAudit.Proofs.Variables.Assignment

/-! References to variables in a text. What is put in their place is given by four laws, and by them
alone: text without a dollar sign stays, a dollar sign starts anew, a reference is replaced by its
value, and a dollar sign without a reference stays. So values are not looked at again, and no name
is taken for a longer one. -/
namespace OverrideAudit.Variables
variable {v : Variables} {t r name lead rest : Text}

/-- How a reference to a variable is written behind the dollar sign, and what may stand behind it:
a name in braces, or a bare name up to its end. -/
inductive IsReference (name : Text) : Text → Text → Prop
  | braced (rest : Text) (h : isIdentifier name = true) :
    IsReference name ('{' :: (name ++ ['}'])) rest
  | bare (rest : Text) (h : isIdentifier name = true)
    (hrest : ∀ c ∈ rest.head?, isNameChar c = false) : IsReference name name rest

def StartsReference (r : Text) : Prop :=
  ∃ name lead rest, IsReference name lead rest ∧ r = lead ++ rest

def RefersTo (t name : Text) : Prop :=
  ∃ front lead rest, IsReference name lead rest ∧ t = front ++ '$' :: (lead ++ rest)

/-- The laws of replacing references by the values of variables; one that is not set is empty. -/
structure ReplacesReferences (v : Variables) (f : Text → Text) : Prop where
  plain : ∀ {t}, '$' ∉ t → f t = t
  append : ∀ a r, f (a ++ '$' :: r) = f a ++ f ('$' :: r)
  reference : ∀ {name lead rest}, IsReference name lead rest →
    f ('$' :: (lead ++ rest)) = (v.get? name).getD [] ++ f rest
  lone : ∀ {r}, ¬ StartsReference r → f ('$' :: r) = '$' :: f r

theorem isNameChar_of_isIdentifier (h : isIdentifier name = true) :
    ∀ c ∈ name, isNameChar c = true := by
  cases name with
  | nil => simp
  | cons c r =>
    rw [isIdentifier, Bool.and_eq_true, List.all_eq_true] at h
    refine List.forall_mem_cons.2 ⟨?_, h.2⟩
    have hfirst := h.1
    simp only [isNameChar, Char.isAlphanum, Bool.or_eq_true] at hfirst ⊢
    exact hfirst.imp_left .inl

theorem IsReference.dollar_not_mem (h : IsReference name lead rest) : '$' ∉ lead := by
  have hname : isIdentifier name = true → '$' ∉ name := fun hname hmem =>
    absurd (isNameChar_of_isIdentifier hname '$' hmem) (by decide)
  cases h with
  | braced _ h => simpa using hname h
  | bare _ h _ => exact hname h

theorem IsReference.of_isPrefix {less : Text} (h : IsReference name lead rest)
    (hless : less <+: rest) : IsReference name lead less := by
  cases h with
  | braced _ h => exact .braced less h
  | bare _ h hrest =>
    refine .bare less h fun c hc => hrest c ?_
    obtain ⟨more, rfl⟩ := hless
    cases less with
    | nil => contradiction
    | cons d less => exact hc

theorem startsReference_of_name (h : isIdentifier name = true) (more : Text) :
    StartsReference (name ++ more) := by
  refine ⟨(name ++ more).takeWhile isNameChar, _, (name ++ more).dropWhile isNameChar,
    .bare _ ?_ fun c hc => ?_, List.takeWhile_append_dropWhile.symm⟩
  · cases name with
    | nil => contradiction
    | cons c r =>
      have hc := isNameChar_of_isIdentifier h c List.mem_cons_self
      rw [isIdentifier, Bool.and_eq_true] at h
      rw [List.cons_append, List.takeWhile_cons_of_pos hc, isIdentifier, h.1, Bool.true_and]
      exact List.all_takeWhile
  · have hend := List.head?_dropWhile_not isNameChar (name ++ more)
    rw [Option.mem_def] at hc
    simpa [hc] using hend

theorem StartsReference.of_isPrefix {less : Text} (h : StartsReference less) (hless : less <+: r) :
    StartsReference r := by
  obtain ⟨more, rfl⟩ := hless
  obtain ⟨name, lead, rest, href, rfl⟩ := h
  rw [List.append_assoc]
  cases href with
  | braced _ h => exact ⟨name, _, _, .braced (rest ++ more) h, rfl⟩
  | bare _ h _ => exact startsReference_of_name h (rest ++ more)

theorem expandPiece_reference (h : IsReference name lead rest) :
    v.expandPiece (lead ++ rest) = (v.get? name).getD [] ++ rest := by
  cases h with
  | braced _ h =>
    obtain ⟨hname, hbehind⟩ := Text.span_append (isNameChar_of_isIdentifier h) (t := '}' :: rest)
      (by simp; decide)
    have htext : '{' :: (name ++ ['}']) ++ rest = '{' :: (name ++ '}' :: rest) := by simp
    rw [htext, expandPiece]
    simp [hname, hbehind, h]
  | bare _ h hrest =>
    obtain ⟨hname, hbehind⟩ := Text.span_append (isNameChar_of_isIdentifier h) hrest
    rw [expandPiece]
    · simp [hname, hbehind, h]
    · intro r hbrace
      cases name with
      | nil => contradiction
      | cons c name =>
        obtain ⟨rfl, -⟩ := List.cons.inj hbrace
        exact absurd (isNameChar_of_isIdentifier h '{' List.mem_cons_self) (by decide)

theorem expandPiece_of_not_startsReference (h : ¬ StartsReference r) :
    v.expandPiece r = '$' :: r := by
  rw [expandPiece.eq_def]
  split
  · next r =>
    split
    · next rest hrest =>
      refine if_neg fun hname => h ⟨_, _, rest, .braced rest hname, ?_⟩
      rw [List.cons_append, List.append_assoc, List.singleton_append, ← hrest,
        List.takeWhile_append_dropWhile]
    · rfl
  · refine if_neg fun hname => h ?_
    have hstart := startsReference_of_name hname (r.dropWhile isNameChar)
    rwa [List.takeWhile_append_dropWhile] at hstart

theorem expand_of_splitOn {front : Text} {pieces : List Text}
    (h : t.splitOn '$' = front :: pieces) :
    v.expand t = front ++ pieces.flatMap v.expandPiece := by
  rw [expand, h]

theorem expand_of_not_mem (h : '$' ∉ t) : v.expand t = t := by
  rw [expand_of_splitOn (List.splitOn_eq_singleton h), List.flatMap_nil, List.append_nil]

theorem expand_dollar (v : Variables) (r : Text) :
    v.expand ('$' :: r) = (r.splitOn '$').flatMap v.expandPiece := by
  have hsplit : List.splitOn '$' ('$' :: r) = [] :: r.splitOn '$' :=
    List.splitOn_append_cons_self_of_not_mem List.not_mem_nil r
  rw [expand_of_splitOn hsplit, List.nil_append]

theorem expand_append (v : Variables) (a r : Text) :
    v.expand (a ++ '$' :: r) = v.expand a ++ v.expand ('$' :: r) := by
  obtain ⟨front, pieces, hpieces⟩ := List.exists_cons_of_ne_nil (List.splitOn_ne_nil '$' a)
  have hsplit : List.splitOn '$' (a ++ '$' :: r) = front :: (pieces ++ r.splitOn '$') := by
    rw [List.splitOn_append_cons_self, hpieces, List.cons_append]
  rw [expand_of_splitOn hsplit, expand_of_splitOn hpieces, expand_dollar, List.flatMap_append,
    List.append_assoc]

/-- What a dollar sign and some text behind it are replaced by shows on any text that follows. -/
theorem expand_dollar_append (lead value : Text) (hlead : '$' ∉ lead)
    (hpiece : ∀ less, less <+: r → v.expandPiece (lead ++ less) = value ++ less) :
    v.expand ('$' :: (lead ++ r)) = value ++ v.expand r := by
  have hlast : ∀ piece, '$' ∉ piece → v.expand ('$' :: piece) = v.expandPiece piece := by
    intro piece hdollar
    rw [expand_dollar, List.splitOn_eq_singleton hdollar, List.flatMap_singleton]
  cases hcut : r.cutAt '$' with
  | none =>
    have hr := Text.cutAt_eq_none_iff.1 hcut
    rw [hlast _ (by simp [hlead, hr]), hpiece r (List.prefix_refl r), expand_of_not_mem hr]
  | some parts =>
    obtain ⟨less, behind⟩ := parts
    obtain ⟨hless, rfl⟩ := Text.cutAt_eq_some_iff.1 hcut
    have htext : '$' :: (lead ++ (less ++ '$' :: behind)) =
        ('$' :: (lead ++ less)) ++ '$' :: behind := by simp
    rw [htext, expand_append, hlast _ (by simp [hlead, hless]),
      hpiece less (List.prefix_append less _), expand_append, expand_of_not_mem hless,
      List.append_assoc]

theorem replacesReferences_expand (v : Variables) : v.ReplacesReferences v.expand where
  plain := expand_of_not_mem
  append := v.expand_append
  reference h := expand_dollar_append _ _ h.dollar_not_mem fun _ hless =>
    expandPiece_reference (h.of_isPrefix hless)
  lone h := expand_dollar_append [] ['$'] List.not_mem_nil fun _ hless =>
    expandPiece_of_not_startsReference fun hstart => h (hstart.of_isPrefix hless)

@[elab_as_elim]
theorem referenceInduction {motive : Text → Prop} (plain : ∀ t, '$' ∉ t → motive t)
    (append : ∀ a r, '$' ∉ a → motive ('$' :: r) → motive (a ++ '$' :: r))
    (reference : ∀ name lead rest, IsReference name lead rest → motive rest →
      motive ('$' :: (lead ++ rest)))
    (lone : ∀ r, ¬ StartsReference r → motive r → motive ('$' :: r)) (t : Text) : motive t := by
  induction hlength : t.length using Nat.strong_induction_on generalizing t with
  | h n ih =>
    subst hlength
    cases hcut : t.cutAt '$' with
    | none => exact plain t (Text.cutAt_eq_none_iff.1 hcut)
    | some parts =>
      obtain ⟨a, r⟩ := parts
      obtain ⟨ha, rfl⟩ := Text.cutAt_eq_some_iff.1 hcut
      refine append a r ha ?_
      by_cases hstart : StartsReference r
      · obtain ⟨name, lead, rest, href, rfl⟩ := hstart
        refine reference name lead rest href (ih rest.length ?_ rest rfl)
        simp only [List.length_append, List.length_cons]
        omega
      · refine lone r hstart (ih r.length ?_ r rfl)
        simp only [List.length_append, List.length_cons]
        omega

theorem ReplacesReferences.unique {f g : Text → Text} (hf : v.ReplacesReferences f)
    (hg : v.ReplacesReferences g) : f = g := by
  funext t
  induction t using referenceInduction with
  | plain t h => rw [hf.plain h, hg.plain h]
  | append a r ha ih => rw [hf.append, hg.append, hf.plain ha, hg.plain ha, ih]
  | reference name lead rest h ih => rw [hf.reference h, hg.reference h, ih]
  | lone r h ih => rw [hf.lone h, hg.lone h, ih]

theorem expand_set_of_not_refersTo (value : Text) (h : ¬ RefersTo t name) :
    (v.set name value).expand t = v.expand t := by
  have hset := replacesReferences_expand (v.set name value)
  have hunset := replacesReferences_expand v
  -- What a part of the text refers to, the text refers to.
  have hpart : ∀ {s : Text} (front : Text), ¬ RefersTo (front ++ s) name → ¬ RefersTo s name := by
    rintro s front hnot ⟨before, lead, rest, href, rfl⟩
    exact hnot ⟨front ++ before, lead, rest, href, by simp⟩
  induction t using referenceInduction with
  | plain t hplain => rw [hset.plain hplain, hunset.plain hplain]
  | append a r ha ih =>
    rw [hset.append, hunset.append, hset.plain ha, hunset.plain ha, ih (hpart a h)]
  | reference other lead rest href ih =>
    have hother : other ≠ name := by
      rintro rfl
      exact h ⟨[], lead, rest, href, rfl⟩
    have hrest : ¬ RefersTo rest name := hpart ('$' :: lead) h
    rw [hset.reference href, hunset.reference href, get?_set_of_ne v hother, ih hrest]
  | lone r hstart ih => rw [hset.lone hstart, hunset.lone hstart, ih (hpart ['$'] h)]

/-- The laws of replacing references describe one function, which is the expansion of texts: a
reference is replaced by the value of the variable with its whole name, and the value is not looked
at again. -/
theorem expand_onePass (v : Variables) :
    (∀ f, v.ReplacesReferences f ↔ f = v.expand) ∧
    (∀ name lead rest, IsReference name lead rest → ∀ other value,
      (v.set other value).expand ('$' :: (lead ++ rest)) =
        (if other = name then value else (v.get? name).getD []) ++
          (v.set other value).expand rest) ∧
    ∀ name value t, ¬ RefersTo t name → (v.set name value).expand t = v.expand t := by
  refine ⟨fun f => ⟨fun hf => hf.unique (replacesReferences_expand v), ?_⟩, ?_,
    fun _ value _ => expand_set_of_not_refersTo value⟩
  · rintro rfl
    exact replacesReferences_expand v
  · intro name lead rest href other value
    rw [(replacesReferences_expand (v.set other value)).reference href]
    split
    · next hname => rw [hname, get?_set_self, Option.getD_some]
    · next hname => rw [get?_set_of_ne v (Ne.symm hname)]

theorem expand_onePass_longerName :
    let use : Text := "USE".toList
    let longer : Text := "USE_EXPAND".toList
    let v := (empty.set longer "x".toList).set use "ssl $USE".toList
    let t : Text := "$USE_EXPAND ${USE}y $$\x7bUSE $1 $".toList
    v.expand t = "x ssl $USEy $$\x7bUSE $1 $".toList ∧ v.ReplacesReferences v.expand ∧
      IsReference longer longer " ${USE}".toList ∧
      v.expand "$USE_EXPAND ${USE}".toList = "x".toList ++ v.expand " ${USE}".toList ∧
      ¬ RefersTo ('$' :: longer) use ∧
      v.expand ('$' :: longer) = (empty.set longer "x".toList).expand ('$' :: longer) := by
  intro use longer v t
  obtain ⟨-, hvalue, hother⟩ := expand_onePass (empty.set longer "x".toList)
  have hblank : ∀ c ∈ " ${USE}".toList.head?, isNameChar c = false := by
    intro c hc
    obtain rfl := Option.some.inj hc
    decide
  have href : IsReference longer longer " ${USE}".toList := .bare _ (by decide) hblank
  have hnot : ¬ RefersTo ('$' :: longer) use := by
    rintro ⟨front, lead, rest, href, heq⟩
    have hfront : front = [] := by
      cases front with
      | nil => rfl
      | cons c front =>
        have hmem : '$' ∈ longer := by
          rw [(List.cons.inj heq).2]
          simp
        exact absurd hmem (by decide)
    subst hfront
    have hparts := (List.cons.inj heq).2
    cases href with
    | braced => exact absurd (List.cons.inj hparts).1 (by decide)
    | bare _ _ hrest =>
      have hbehind : use ++ "_EXPAND".toList = use ++ rest := hparts
      obtain rfl := List.append_cancel_left hbehind
      exact absurd (hrest '_' rfl) (by decide)
  exact ⟨by decide, (expand_onePass v).1 v.expand |>.2 rfl, href, hvalue _ _ _ href use _, hnot,
    hother _ _ _ hnot⟩

end OverrideAudit.Variables
