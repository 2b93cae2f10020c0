import Mathlib.Data.List.Basic
import Mathlib.Data.List.Induction
import OverrideAudit.Keyword
import OverrideAudit.Proofs.Text.Pieces

/-! The list of accepted keywords after any tokens. It never holds a keyword twice; of the tokens
that are about a keyword the last one decides; and keywords stand in the order in which they came to
stay. -/
namespace OverrideAudit.AcceptedKeywords
variable {a : AcceptedKeywords} {k t : Text} {ts : List Text} {i j : Nat}

/-- What can be accepted: a word without the sign that takes away. -/
structure IsKeyword (k : Text) : Prop where
  ne_nil : k ≠ []
  head : k.head? ≠ some '-'
  isUnbroken : k.IsUnbroken

instance (k : Text) : Decidable (IsKeyword k) :=
  decidable_of_iff (k ≠ [] ∧ k.head? ≠ some '-' ∧ k.IsUnbroken)
    ⟨fun h => ⟨h.1, h.2.1, h.2.2⟩, fun h => ⟨h.ne_nil, h.head, h.isUnbroken⟩⟩

def removes (k t : Text) : Bool := t == '-' :: k || t == ['-', '*']

theorem IsKeyword.removes_eq_false (h : IsKeyword t) (k : Text) : removes k t = false := by
  have hhead := h.head
  rw [removes, Bool.or_eq_false_iff, beq_eq_false_iff_ne, beq_eq_false_iff_ne]
  exact ⟨by rintro rfl; simp at hhead, by rintro rfl; simp at hhead⟩

def addedBy (a : AcceptedKeywords) (t : Text) : List Text :=
  if IsKeyword t ∧ t ∉ a.values then [t] else []

theorem mem_addedBy : k ∈ a.addedBy t ↔ k = t ∧ IsKeyword t ∧ t ∉ a.values := by
  rw [addedBy]
  split
  · next h => simp [h]
  · next h => simp [h]

theorem pairwise_addedBy (R : Text → Text → Prop) (a : AcceptedKeywords) (t : Text) :
    (a.addedBy t).Pairwise R := by
  rw [addedBy]
  split <;> simp

theorem values_apply (ht : t.IsUnbroken) (a : AcceptedKeywords) :
    (a.apply t).values = a.values.filter (fun k => !removes k t) ++ a.addedBy t := by
  rw [apply, Text.trim_of_isUnbroken ht, applyTrimmed.eq_def, addedBy]
  split
  · have hnot : ¬IsKeyword [] := fun h => h.ne_nil rfl
    simp [removes, hnot]
  · have hnot : ¬IsKeyword ['-', '*'] := fun h => h.head rfl
    simp [removes, empty, hnot]
  · next removed hall =>
    have hnot : ¬IsKeyword ('-' :: removed) := fun h => h.head rfl
    have hremoves : ∀ k, removes k ('-' :: removed) = (k == removed) := by
      intro k
      have hstar : removed ≠ ['*'] := fun h => hall (by rw [h])
      rw [removes, Bool.eq_iff_iff]
      simp [hstar, eq_comm (a := k)]
    simp only [hremoves, hnot, false_and, if_false, List.append_nil]
    rfl
  · next hnil hstar hminus =>
    have hkeyword : IsKeyword t := by
      refine ⟨hnil, fun hhead => ?_, ht⟩
      obtain ⟨r, rfl⟩ := List.head?_eq_some_iff.1 hhead
      exact hminus r rfl
    by_cases hmem : t ∈ a.values <;> simp [hkeyword, hkeyword.removes_eq_false, hmem]

theorem mem_apply (ht : t.IsUnbroken) :
    k ∈ (a.apply t).values ↔ k = t ∧ IsKeyword t ∨ k ∈ a.values ∧ removes k t = false := by
  rw [values_apply ht, List.mem_append, List.mem_filter, mem_addedBy, Bool.not_eq_true']
  constructor
  · rintro (hkept | ⟨rfl, hkeyword, -⟩)
    · exact .inr hkept
    · exact .inl ⟨rfl, hkeyword⟩
  · rintro (⟨rfl, hkeyword⟩ | hkept)
    · by_cases hmem : k ∈ a.values
      · exact .inl ⟨hmem, hkeyword.removes_eq_false k⟩
      · exact .inr ⟨rfl, hkeyword, hmem⟩
    · exact .inl hkept

theorem applyAll_concat (a : AcceptedKeywords) (ts : List Text) (t : Text) :
    a.applyAll (ts ++ [t]) = (a.applyAll ts).apply t := by
  simp [applyAll]

/-- The lists that tokens without blanks build from nothing, one by one or many at once. -/
inductive Built : AcceptedKeywords → Prop
  | empty : Built empty
  | apply {a : AcceptedKeywords} {t : Text} : Built a → t.IsUnbroken → Built (a.apply t)
  | applyAll {a : AcceptedKeywords} {ts : List Text} :
    Built a → (∀ t ∈ ts, t.IsUnbroken) → Built (a.applyAll ts)

structure Canonical (a : AcceptedKeywords) : Prop where
  nodup : a.values.Nodup
  isKeyword : ∀ k ∈ a.values, IsKeyword k

theorem Canonical.apply (h : a.Canonical) (ht : t.IsUnbroken) : (a.apply t).Canonical := by
  constructor
  · rw [values_apply ht]
    refine List.nodup_append.2 ⟨h.nodup.filter _, pairwise_addedBy _ a t, ?_⟩
    rintro k hk l hl rfl
    obtain ⟨rfl, -, hnew⟩ := mem_addedBy.1 hl
    exact hnew (List.mem_filter.1 hk).1
  · intro k hk
    obtain ⟨rfl, hkeyword⟩ | ⟨hk, -⟩ := (mem_apply ht).1 hk
    · exact hkeyword
    · exact h.isKeyword k hk

theorem Canonical.applyAll (h : a.Canonical) (hts : ∀ t ∈ ts, t.IsUnbroken) :
    (a.applyAll ts).Canonical := by
  induction ts generalizing a with
  | nil => exact h
  | cons t ts ih =>
    obtain ⟨ht, hts⟩ := List.forall_mem_cons.1 hts
    exact ih (h.apply ht) hts

theorem canonical_empty : empty.Canonical := ⟨.nil, by simp [empty]⟩

theorem Built.canonical (h : Built a) : a.Canonical := by
  induction h with
  | empty => exact canonical_empty
  | apply _ ht ih => exact ih.apply ht
  | applyAll _ hts ih => exact ih.applyAll hts

theorem Canonical.keywords_eq (h : a.Canonical) : a.keywords = a.values.map Keyword.read := by
  refine List.map_congr_left fun k hk => ?_
  rw [Keyword.read, Text.trim_of_isUnbroken (h.isKeyword k hk).isUnbroken]

def isAbout (k t : Text) : Bool := t == k || removes k t

def lastAbout? (k : Text) (ts : List Text) : Option Text := (ts.filter (isAbout k)).getLast?

theorem lastAbout?_concat (k : Text) (ts : List Text) (t : Text) :
    lastAbout? k (ts ++ [t]) = if isAbout k t then some t else lastAbout? k ts := by
  rw [lastAbout?, List.filter_append]
  split
  · next h => simp [h]
  · next h => simp [h, lastAbout?]

theorem mem_applyAll (hts : ∀ t ∈ ts, t.IsUnbroken) (hk : IsKeyword k) :
    k ∈ (a.applyAll ts).values ↔
      lastAbout? k ts = some k ∨ lastAbout? k ts = none ∧ k ∈ a.values := by
  induction ts using List.reverseRecOn with
  | nil => simp [lastAbout?, applyAll]
  | append_singleton ts t ih =>
    obtain ⟨hts, ht⟩ := List.forall_mem_append.1 hts
    rw [applyAll_concat, mem_apply (ht t (by simp)), ih hts, lastAbout?_concat, isAbout]
    by_cases htk : t = k
    · subst htk
      simp [hk]
    · cases removes k t <;> simp [htk, Ne.symm htk]

/-- The place among the tokens where a keyword is accepted to stay: no later token takes it away,
and one takes it away behind every earlier place where it is accepted. -/
structure StaysFrom (ts : List Text) (k : Text) (i : Nat) : Prop where
  token : ts[i]? = some k
  kept : ∀ j > i, ∀ t ∈ ts[j]?, removes k t = false
  first : ∀ j < i, ts[j]? = some k → ∃ l, j < l ∧ l < i ∧ ∃ t ∈ ts[l]?, removes k t = true

theorem StaysFrom.le (h : StaysFrom ts k i) (h' : StaysFrom ts k j) : j ≤ i := by
  refine Nat.le_of_not_lt fun hlt => ?_
  obtain ⟨l, hl, -, t, ht, hremoves⟩ := h'.first i hlt h.token
  exact absurd hremoves (by simp [h.kept l hl t ht])

theorem StaysFrom.unique (h : StaysFrom ts k i) (h' : StaysFrom ts k j) : i = j :=
  Nat.le_antisymm (h'.le h) (h.le h')

theorem StaysFrom.lt_length (h : StaysFrom ts k i) : i < ts.length :=
  (List.getElem?_eq_some_iff.1 h.token).1

theorem StaysFrom.concat (h : StaysFrom ts k i) (ht : removes k t = false) :
    StaysFrom (ts ++ [t]) k i := by
  have hi := h.lt_length
  refine ⟨by rw [List.getElem?_append_left hi, h.token], fun j hj u hu => ?_, fun j hj hjk => ?_⟩
  · obtain hlt | hge := Nat.lt_or_ge j ts.length
    · rw [List.getElem?_append_left hlt] at hu
      exact h.kept j hj u hu
    · rw [List.getElem?_append_right hge] at hu
      rwa [List.mem_singleton.1 (List.mem_of_getElem? hu)]
  · rw [List.getElem?_append_left (by omega)] at hjk
    obtain ⟨l, hjl, hli, u, hu, hremoves⟩ := h.first j hj hjk
    exact ⟨l, hjl, hli, u, by rwa [List.getElem?_append_left (by omega)], hremoves⟩

theorem exists_removes_of_not_mem (hts : ∀ t ∈ ts, t.IsUnbroken) (hk : IsKeyword k)
    (hi : ts[i]? = some k) (hnot : k ∉ (a.applyAll ts).values) :
    ∃ l, i < l ∧ l < ts.length ∧ ∃ t ∈ ts[l]?, removes k t = true := by
  induction ts using List.reverseRecOn with
  | nil => simp at hi
  | append_singleton ts t ih =>
    obtain ⟨hts, ht⟩ := List.forall_mem_append.1 hts
    rw [applyAll_concat, mem_apply (ht t (by simp)), not_or] at hnot
    obtain ⟨hself, hbefore⟩ := hnot
    have hlen : (ts ++ [t]).length = ts.length + 1 := by simp
    have hle : i < (ts ++ [t]).length := (List.getElem?_eq_some_iff.1 hi).1
    -- Accepted by the last token itself, the keyword would be there.
    have hne : i ≠ ts.length := by
      rintro rfl
      obtain rfl : t = k := by simpa using hi
      exact hself ⟨rfl, hk⟩
    have hlt : i < ts.length := by omega
    rw [List.getElem?_append_left hlt] at hi
    cases hremoves : removes k t with
    | true => exact ⟨ts.length, hlt, by omega, t, by simp, hremoves⟩
    | false =>
      obtain ⟨l, hil, hl, u, hu, h⟩ := ih hts hi fun hmem => hbefore ⟨hmem, hremoves⟩
      exact ⟨l, hil, by omega, u, by rwa [List.getElem?_append_left hl], h⟩

theorem staysFrom_concat (hts : ∀ t ∈ ts, t.IsUnbroken) (ht : IsKeyword t)
    (hnew : t ∉ (a.applyAll ts).values) : StaysFrom (ts ++ [t]) t ts.length := by
  refine ⟨by simp, fun j hj u hu => ?_, fun j hj hjt => ?_⟩
  · rw [List.getElem?_eq_none (by simpa using Nat.succ_le_of_lt hj)] at hu
    contradiction
  · rw [List.getElem?_append_left hj] at hjt
    obtain ⟨l, hjl, hl, u, hu, hremoves⟩ := exists_removes_of_not_mem hts ht hjt hnew
    exact ⟨l, hjl, hl, u, by rwa [List.getElem?_append_left hl], hremoves⟩

def StaysBefore (ts : List Text) (k l : Text) : Prop :=
  ∃ i j, i < j ∧ StaysFrom ts k i ∧ StaysFrom ts l j

theorem StaysBefore.lt {l : Text} (h : StaysBefore ts k l) (hi : StaysFrom ts k i)
    (hj : StaysFrom ts l j) : i < j := by
  obtain ⟨m, n, hmn, hm, hn⟩ := h
  rwa [hi.unique hm, hj.unique hn]

theorem values_applyAll (a : AcceptedKeywords) (hts : ∀ t ∈ ts, t.IsUnbroken) :
    ∃ added, (a.applyAll ts).values = a.values.filter (fun k => !ts.any (removes k)) ++ added ∧
      (∀ k ∈ added, ∃ i, StaysFrom ts k i) ∧ added.Pairwise (StaysBefore ts) := by
  induction ts using List.reverseRecOn with
  | nil => exact ⟨[], by simp [applyAll]⟩
  | append_singleton ts t ih =>
    obtain ⟨hbefore, ht⟩ := List.forall_mem_append.1 hts
    obtain ⟨added, hvalues, hstays, horder⟩ := ih hbefore
    -- Of those that came to stay before, the last token may take some away.
    have hkept : ∀ k ∈ added.filter (fun k => !removes k t), k ∈ added ∧ removes k t = false := by
      intro k hk
      simpa using List.mem_filter.1 hk
    refine ⟨added.filter (fun k => !removes k t) ++ (a.applyAll ts).addedBy t, ?_, ?_, ?_⟩
    · rw [applyAll_concat, values_apply (ht t (by simp)), ← List.append_assoc]
      congr 1
      rw [hvalues, List.filter_append, List.filter_filter]
      simp [Bool.and_comm]
    · intro k hk
      obtain hk | hk := List.mem_append.1 hk
      · obtain ⟨hadded, hremoves⟩ := hkept k hk
        exact (hstays k hadded).imp fun i h => h.concat hremoves
      · obtain ⟨rfl, hkeyword, hnew⟩ := mem_addedBy.1 hk
        exact ⟨_, staysFrom_concat hbefore hkeyword hnew⟩
    · refine List.pairwise_append.2 ⟨?_, pairwise_addedBy _ _ t, ?_⟩
      · refine (horder.filter _).imp_of_mem fun {k l} hk hl h => ?_
        obtain ⟨i, j, hij, hi, hj⟩ := h
        exact ⟨i, j, hij, hi.concat (hkept k hk).2, hj.concat (hkept l hl).2⟩
      · intro k hk l hl
        obtain ⟨rfl, hkeyword, hnew⟩ := mem_addedBy.1 hl
        obtain ⟨hadded, hremoves⟩ := hkept k hk
        obtain ⟨i, hi⟩ := hstays k hadded
        exact ⟨i, _, hi.lt_length, hi.concat hremoves, staysFrom_concat hbefore hkeyword hnew⟩

theorem values_applyAll_empty (hnodup : ts.Nodup) (hts : ∀ t ∈ ts, IsKeyword t) :
    (empty.applyAll ts).values = ts := by
  induction ts using List.reverseRecOn with
  | nil => rfl
  | append_singleton ts t ih =>
    obtain ⟨hts, ht⟩ := List.forall_mem_append.1 hts
    have hkeyword := ht t (by simp)
    obtain ⟨hbefore, -, hne⟩ := List.nodup_append.1 hnodup
    have hnew : t ∉ ts := fun hmem => hne t hmem t (by simp) rfl
    rw [applyAll_concat, values_apply hkeyword.isUnbroken, addedBy, ih hbefore hts]
    simp [hkeyword.removes_eq_false, hkeyword, hnew]

theorem Canonical.ofText_intercalate (h : a.Canonical) :
    ofText ([' '].intercalate a.values) = a := by
  have hwords : Text.words ([' '].intercalate a.values) = a.values :=
    Text.words_intercalate fun k hk => ⟨(h.isKeyword k hk).ne_nil, (h.isKeyword k hk).isUnbroken⟩
  rw [ofText, hwords]
  exact congrArg AcceptedKeywords.mk (values_applyAll_empty h.nodup h.isKeyword)

/-- What tokens make of a list of accepted keywords. It holds no keyword twice; of the tokens about
a keyword the last one decides; and those that were not taken away keep their order, in front of the
others in the order of the places from which they stay. -/
theorem accepted_of_tokens (ha : Built a) (hts : ∀ t ∈ ts, t.IsUnbroken) :
    (a.values.Nodup ∧ (∀ k ∈ a.values, k ≠ [] ∧ k.head? ≠ some '-') ∧
      a.keywords = a.values.map Keyword.read) ∧
    (∀ k, k ∈ (a.applyAll ts).values ↔
      IsKeyword k ∧ (lastAbout? k ts = some k ∨ lastAbout? k ts = none ∧ k ∈ a.values)) ∧
    ∃ added, (a.applyAll ts).values = a.values.filter (fun k => !ts.any (removes k)) ++ added ∧
      (∀ k ∈ added, ∃ i, StaysFrom ts k i) ∧
      added.Pairwise fun k l => ∀ i j, StaysFrom ts k i → StaysFrom ts l j → i < j := by
  have hcanonical := ha.canonical
  refine ⟨⟨hcanonical.nodup, fun k hk => ?_, hcanonical.keywords_eq⟩, fun k => ?_, ?_⟩
  · have hkeyword := hcanonical.isKeyword k hk
    exact ⟨hkeyword.ne_nil, hkeyword.head⟩
  · constructor
    · intro hmem
      have hkeyword := (hcanonical.applyAll hts).isKeyword k hmem
      exact ⟨hkeyword, (mem_applyAll hts hkeyword).1 hmem⟩
    · rintro ⟨hkeyword, hlast⟩
      exact (mem_applyAll hts hkeyword).2 hlast
  · obtain ⟨added, hvalues, hstays, horder⟩ := values_applyAll a hts
    refine ⟨added, hvalues, hstays, horder.imp ?_⟩
    intro k l hbefore i j hi hj
    exact hbefore.lt hi hj

theorem accepted_of_tokens_readded :
    let built := (empty.applyAll ["sparc".toList, "-*".toList, "amd64".toList, "x86".toList]).apply
      "**".toList
    let a := built.apply "*".toList
    let ts : List Text := ["arm64".toList, "-x86".toList, "amd64".toList, "x86".toList,
      "-**".toList, "-".toList, "arm64".toList]
    (Built a ∧ ∀ t ∈ ts, t.IsUnbroken) ∧
      a.keywords = ["amd64".toList, "x86".toList, "**".toList, "*".toList].map Keyword.read ∧
      (a.applyAll ts).values = ["amd64".toList, "*".toList, "arm64".toList, "x86".toList] ∧
      "**".toList ∉ (a.applyAll ts).values ∧
      ∀ i j, StaysFrom ts "arm64".toList i → StaysFrom ts "x86".toList j → i < j := by
  intro built a ts
  have ha : Built a := ((Built.empty.applyAll (by decide)).apply (by decide)).apply (by decide)
  have hts : ∀ t ∈ ts, t.IsUnbroken := by decide
  obtain ⟨⟨_, _, hkeywords⟩, hmem, added, hvalues, _, horder⟩ := accepted_of_tokens ha hts
  have hadded : added = ["arm64".toList, "x86".toList] :=
    List.append_cancel_left (hvalues.symm.trans (by decide))
  rw [hadded, List.pairwise_pair] at horder
  refine ⟨⟨ha, hts⟩, hkeywords, by decide, ?_, horder⟩
  rw [hmem]
  decide

end OverrideAudit.AcceptedKeywords
