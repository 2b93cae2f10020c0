import OverrideAudit.Proofs.Text.LowerCase
import OverrideAudit.Proofs.Text.Pieces
import OverrideAudit.Proofs.UseFlag.LastChange
import OverrideAudit.UseFlag

/-! Groups of USE flags keep to themselves. What stands behind the name of a group is about flags of
that group alone, so that other flags are decided in front of the first name. -/
namespace OverrideAudit
variable {value word token flag group name : Text} {words tokens : List Text}

/-- The name in a word that opens a group: what stands before the colon at its end, if that is
anything. -/
def groupName? (word : Text) : Option Text :=
  ([':'].isSuffixOf? word).filter fun name => !name.isEmpty

def groupNames (value : Text) : List Text := value.words.filterMap groupName?

def wordsBeforeGroups (value : Text) : List Text :=
  value.words.takeWhile fun word => (groupName? word).isNone

/-- What the flags of a group start with. -/
def groupLead (name : Text) : Text := name.lower ++ ['_']

theorem groupName?_eq_some_iff :
    groupName? word = some name ↔ name ≠ [] ∧ word = name ++ [':'] := by
  rw [groupName?, Option.filter_eq_some_iff, List.isSuffixOf?_eq_some_iff_append_eq, and_comm,
    eq_comm (a := word)]
  simp

theorem mem_groupNames : name ∈ groupNames value ↔ name ≠ [] ∧ name ++ [':'] ∈ value.words := by
  simp only [groupNames, List.mem_filterMap, groupName?_eq_some_iff]
  constructor
  · rintro ⟨_, hword, hne, rfl⟩
    exact ⟨hne, hword⟩
  · rintro ⟨hne, hword⟩
    exact ⟨_, hword, hne, rfl⟩

theorem groupOpened?_eq (word : Text) : groupOpened? word = (groupName? word).map Text.lower := by
  rw [groupOpened?, groupName?]
  cases hname : [':'].isSuffixOf? word with
  | none => rfl
  | some name => cases name <;> rfl

theorem expandWords_cons_of_none (h : groupName? word = none) (group : Option Text)
    (words : List Text) :
    expandWords group (word :: words) =
      group.elim word (qualify · word) :: expandWords group words := by
  rw [expandWords, groupOpened?_eq, h]
  rfl

theorem expandWords_cons_of_some (h : groupName? word = some name) (group : Option Text)
    (words : List Text) :
    expandWords group (word :: words) = expandWords (some name.lower) words := by
  rw [expandWords, groupOpened?_eq, h]
  rfl

def lastGroup? (words : List Text) : Option Text := (words.filterMap groupName?).getLast?

theorem expandWords_append (group : Option Text) (before after : List Text) :
    expandWords group (before ++ after) = expandWords group before ++
      expandWords (((lastGroup? before).map Text.lower).or group) after := by
  induction before generalizing group with
  | nil => simp [lastGroup?, expandWords]
  | cons word before ih =>
    cases hname : groupName? word with
    | none =>
      rw [List.cons_append, expandWords_cons_of_none hname, expandWords_cons_of_none hname, ih,
        List.cons_append]
      simp [lastGroup?, hname]
    | some name =>
      rw [List.cons_append, expandWords_cons_of_some hname, expandWords_cons_of_some hname, ih]
      simp only [lastGroup?, List.filterMap_cons, hname, List.getLast?_cons]
      cases (List.filterMap groupName? before).getLast? <;> rfl

/-- In a group, every token is a word with the name of this group or of a later one. -/
theorem mem_expandWords (h : token ∈ expandWords (some group) words) :
    ∃ word ∈ words, ∃ g, (g = group ∨ ∃ name ∈ words.filterMap groupName?, g = name.lower) ∧
      token = qualify g word := by
  induction words generalizing group with
  | nil => simp [expandWords] at h
  | cons word words ih =>
    cases hname : groupName? word with
    | none =>
      rw [expandWords_cons_of_none hname, List.mem_cons] at h
      obtain rfl | h := h
      · exact ⟨word, List.mem_cons_self, group, .inl rfl, rfl⟩
      · obtain ⟨w, hw, g, hg, rfl⟩ := ih h
        exact ⟨w, List.mem_cons_of_mem word hw, g, by simpa [hname] using hg, rfl⟩
    | some name =>
      rw [expandWords_cons_of_some hname] at h
      obtain ⟨w, hw, g, hg, rfl⟩ := ih h
      refine ⟨w, List.mem_cons_of_mem word hw, g, .inr ?_, rfl⟩
      simpa [hname] using hg

theorem expandWords_of_forall_none (h : ∀ word ∈ words, groupName? word = none) :
    expandWords none words = words := by
  induction words with
  | nil => rfl
  | cons word words ih =>
    obtain ⟨hword, hwords⟩ := List.forall_mem_cons.1 h
    rw [expandWords_cons_of_none hword, ih hwords]
    rfl

def groupedTokens (value : Text) : List Text :=
  expandWords none (value.words.dropWhile fun word => (groupName? word).isNone)

theorem expandUse_eq (value : Text) :
    expandUse value = wordsBeforeGroups value ++ groupedTokens value := by
  have hbefore : ∀ word ∈ wordsBeforeGroups value, groupName? word = none := by
    intro word hword
    simpa using List.all_eq_true.1 (List.all_takeWhile ..) word hword
  have hlast : lastGroup? (wordsBeforeGroups value) = none := by
    rw [lastGroup?, List.filterMap_eq_nil_iff.2 hbefore]
    rfl
  have hwords : value.words = wordsBeforeGroups value ++
      value.words.dropWhile fun word => (groupName? word).isNone :=
    List.takeWhile_append_dropWhile.symm
  rw [expandUse, hwords, expandWords_append, expandWords_of_forall_none hbefore, hlast]
  rfl

theorem mem_groupedTokens (h : token ∈ groupedTokens value) :
    ∃ word ∈ value.words, ∃ name ∈ groupNames value, token = qualify name.lower word := by
  rw [groupedTokens] at h
  cases hrest : value.words.dropWhile fun word => (groupName? word).isNone with
  | nil => simp [hrest, expandWords] at h
  | cons opener words =>
    have hsub : (opener :: words).Sublist value.words := hrest ▸ List.dropWhile_sublist _
    have hopens : (groupName? opener).isNone = false := by
      have hhead := List.head?_dropWhile_not (fun word => (groupName? word).isNone) value.words
      simpa [hrest] using hhead
    obtain ⟨name, hname⟩ := Option.isSome_iff_exists.1 (by simpa using hopens)
    rw [hrest, expandWords_cons_of_some hname] at h
    obtain ⟨word, hword, g, hg, rfl⟩ := mem_expandWords h
    refine ⟨word, hsub.subset (List.mem_cons_of_mem opener hword), ?_⟩
    obtain rfl | ⟨later, hlater, rfl⟩ := hg
    · exact ⟨name, List.mem_filterMap.2 ⟨opener, hsub.subset List.mem_cons_self, hname⟩, rfl⟩
    · obtain ⟨w, hw, hlater⟩ := List.mem_filterMap.1 hlater
      exact ⟨later, List.mem_filterMap.2 ⟨w, hsub.subset (List.mem_cons_of_mem opener hw), hlater⟩,
        rfl⟩

theorem mem_qualify_underscore (group word : Text) : '_' ∈ qualify group word := by
  rw [qualify.eq_def]
  split <;> simp

theorem read_eq_clearAll_iff : UseChange.read token = .clearAll ↔ token = ['-', '*'] := by
  constructor
  · intro h
    rw [UseChange.read.eq_def] at h
    split at h
    · rfl
    · split at h
      · split at h <;> contradiction
      · contradiction
    · contradiction
  · rintro rfl
    rfl

theorem read_qualify_ne_clearAll (group word : Text) :
    UseChange.read (qualify group word) ≠ .clearAll := by
  rw [Ne, read_eq_clearAll_iff]
  intro heq
  exact absurd (heq ▸ mem_qualify_underscore group word) (by decide)

theorem read_minus {rest : Text} (h : rest ≠ ['*']) :
    UseChange.read ('-' :: rest) = match ['*'].isSuffixOf? rest with
      | some lead =>
        if ['_'].isSuffixOf lead then .clearGroup lead else .disable rest
      | none => .disable rest := by
  rw [UseChange.read.eq_def]
  split
  · next heq => exact absurd (List.cons.inj heq).2 h
  · next heq =>
    obtain ⟨-, rfl⟩ := List.cons.inj heq
    rfl
  · next hminus => exact absurd rfl (hminus rest)

theorem read_of_unsigned (h : ∀ c ∈ token.head?, c ≠ '+' ∧ c ≠ '-') :
    UseChange.read token = .enable token ∧ UseChange.read ('+' :: token) = .enable token := by
  have hdrop : token.dropWhile (· == '+') = token := by
    cases token with
    | nil => rfl
    | cons c r => simp [(h c rfl).1]
  have hplus : ('+' :: token).dropWhile (· == '+') = token := by simpa using hdrop
  constructor
  · rw [UseChange.read.eq_def]
    split
    · exact absurd rfl (h '-' rfl).2
    · exact absurd rfl (h '-' rfl).2
    · rw [hdrop]
  · rw [UseChange.read.eq_def]
    split
    · next heq => exact absurd (List.cons.inj heq).1 (by decide)
    · next heq => exact absurd (List.cons.inj heq).1 (by decide)
    · rw [hplus]

theorem underscore_not_star (group rest : Text) : group ++ '_' :: rest ≠ ['*'] := by
  intro heq
  have hmem : '_' ∈ group ++ '_' :: rest := by simp
  exact absurd (heq ▸ hmem) (by decide)

theorem read_qualify_star (group : Text) :
    UseChange.read (qualify group ['-', '*']) = .clearGroup (group ++ ['_']) := by
  have hstar : ['*'].isSuffixOf? (group ++ ['_', '*']) = some (group ++ ['_']) :=
    List.isSuffixOf?_eq_some_iff_append_eq.2 (by simp)
  have hlead : ['_'].isSuffixOf (group ++ ['_']) = true :=
    List.isSuffixOf_iff_suffix.2 (List.suffix_append _ _)
  have hqualify : qualify group ['-', '*'] = '-' :: (group ++ ['_', '*']) := rfl
  rw [hqualify, read_minus (underscore_not_star group ['*']), hstar]
  simp [hlead]

theorem prefix_of_group (group rest : Text) : group ++ ['_'] <+: group ++ '_' :: rest :=
  ⟨rest, by simp⟩

theorem startsWith_eq_false_of_longer {lead : Text} (hflag : flag.startsWith lead = false)
    (h : lead <+: token) : flag.startsWith token = false := by
  rw [Bool.eq_false_iff] at hflag ⊢
  intro hstarts
  exact hflag (List.isPrefixOf_iff_prefix.2 (h.trans (List.isPrefixOf_iff_prefix.1 hstarts)))

theorem ne_of_startsWith_lead (hflag : flag.startsWith (group ++ ['_']) = false) (rest : Text) :
    group ++ '_' :: rest ≠ flag := by
  rintro rfl
  have hself := startsWith_eq_false_of_longer hflag (prefix_of_group group rest)
  rw [Text.startsWith, List.isPrefixOf_iff_prefix.2 (List.prefix_refl _)] at hself
  contradiction

theorem sets?_read_minus (hflag : flag.startsWith (group ++ ['_']) = false) (rest : Text) :
    (UseChange.read ('-' :: (group ++ '_' :: rest))).sets? flag = none := by
  have hother := ne_of_startsWith_lead hflag rest
  rw [read_minus (underscore_not_star group rest)]
  split
  · next cleared hcleared =>
    split
    · -- The star stands behind the underscore: all flags that it clears start with the lead.
      have hlead := prefix_of_group group rest
      rw [← List.isSuffixOf?_eq_some_iff_append_eq.1 hcleared, List.prefix_concat_iff] at hlead
      have hshort : group ++ ['_'] <+: cleared := by
        refine hlead.resolve_left fun heq => ?_
        exact absurd (List.append_inj' heq rfl).2 (by decide)
      simp [UseChange.sets?, startsWith_eq_false_of_longer hflag hshort]
    · simp [UseChange.sets?, hother]
  · simp [UseChange.sets?, hother]

/-- A token of a group is about flags of the group alone, if the name of the group has no sign in
front that would be taken for the token's own. -/
theorem sets?_read_qualify (hname : ∀ c ∈ group.head?, c ≠ '+' ∧ c ≠ '-')
    (hflag : flag.startsWith (group ++ ['_']) = false) (word : Text) :
    (UseChange.read (qualify group word)).sets? flag = none := by
  -- The sign of a word goes in front of the group, so that what follows it has none of its own.
  have hunsigned : ∀ rest, ∀ c ∈ (group ++ '_' :: rest).head?, c ≠ '+' ∧ c ≠ '-' := by
    intro rest c hc
    cases group with
    | nil =>
      obtain rfl : '_' = c := by simpa using hc
      decide
    | cons d r => exact hname c (by simpa using hc)
  have henable : ∀ rest, (UseChange.enable (group ++ '_' :: rest)).sets? flag = none := by
    intro rest
    simp [UseChange.sets?, ne_of_startsWith_lead hflag rest]
  rw [qualify.eq_def]
  split
  · next rest => exact sets?_read_minus hflag rest
  · next rest =>
    have hread := (read_of_unsigned (hunsigned rest)).2
    rw [List.cons_append, hread]
    exact henable rest
  · rw [(read_of_unsigned (hunsigned word)).1]
    exact henable word

theorem FlagSet.applyAll_append (s : FlagSet) (before after : List Text) :
    s.applyAll (before ++ after) = (s.applyAll before).applyAll after := List.foldl_append

theorem FlagSet.contains_applyAll_of_forall_none
    (h : ∀ token ∈ tokens, (UseChange.read token).sets? flag = none) (s : FlagSet) :
    (s.applyAll tokens).contains flag = s.contains flag := by
  have hnone : lastSetting? tokens flag = none := by
    rw [lastSetting?, List.filterMap_eq_nil_iff.2 h]
    rfl
  rw [contains_applyAll, stateAfter, hnone]
  rfl

theorem isUnbroken_qualify (hgroup : group.IsUnbroken) (hword : word.IsUnbroken) :
    (qualify group word).IsUnbroken := by
  have hin : ∀ rest : Text, rest.IsUnbroken → (group ++ '_' :: rest).IsUnbroken := fun rest hrest =>
    List.forall_mem_append.2 ⟨hgroup, List.forall_mem_cons.2 ⟨by decide, hrest⟩⟩
  rw [qualify.eq_def]
  split
  · next rest =>
    obtain ⟨hsign, hrest⟩ := List.forall_mem_cons.1 hword
    exact List.forall_mem_cons.2 ⟨hsign, hin rest hrest⟩
  · next rest =>
    obtain ⟨hsign, hrest⟩ := List.forall_mem_cons.1 hword
    exact List.forall_mem_cons.2 ⟨hsign, hin rest hrest⟩
  · exact hin word hword

theorem isUnbroken_lower (h : name.IsUnbroken) : name.lower.IsUnbroken := by
  intro c hc
  rw [Bool.eq_false_iff]
  intro hblank
  have hmem := Text.mem_of_mem_lower hc (by simp [isMark, hblank])
  simp [h c hmem] at hblank

theorem isUnbroken_of_mem_expandUse (h : token ∈ expandUse value) : token.IsUnbroken := by
  have hwords : ∀ word ∈ value.words, word.IsUnbroken :=
    fun word hword => (Text.not_blank_of_mem_words hword).2
  rw [expandUse_eq, List.mem_append] at h
  obtain h | h := h
  · exact hwords token ((List.takeWhile_sublist _).subset h)
  · obtain ⟨word, hword, name, hname, rfl⟩ := mem_groupedTokens h
    have hopener := hwords _ (mem_groupNames.1 hname).2
    refine isUnbroken_qualify (isUnbroken_lower fun c hc => ?_) (hwords word hword)
    exact hopener c (List.mem_append_left _ hc)

theorem head?_lower_unsigned (h : name.head? ≠ some '+' ∧ name.head? ≠ some '-') :
    ∀ c ∈ name.lower.head?, c ≠ '+' ∧ c ≠ '-' := by
  intro c hc
  constructor
  · rintro rfl
    exact h.1 (Text.head?_of_head?_lower hc (by decide))
  · rintro rfl
    exact h.2 (Text.head?_of_head?_lower hc (by decide))

/-- Groups keep to themselves: no token behind the first name clears all flags, and to clear all
flags behind a name is to take away exactly those of its group. If no name has a sign in front,
flags of none of the groups are what the words in front of the first name make of them. -/
theorem expandUse_keepsToGroups (value : Text) :
    (groupNames value = [] → expandUse value = value.words) ∧
    (∀ token ∈ expandUse value, token.IsUnbroken) ∧
    (∃ grouped, expandUse value = wordsBeforeGroups value ++ grouped ∧
      ∀ token ∈ grouped, UseChange.read token ≠ .clearAll) ∧
    (∀ before after name, value.words = before ++ ['-', '*'] :: after →
      lastGroup? before = some name →
      let token := '-' :: (groupLead name ++ ['*'])
      expandUse value =
        expandWords none before ++ token :: expandWords (some name.lower) after ∧
      ∀ (s : FlagSet) (flag : Text), (UseChange.apply s (.read token)).contains flag =
        (s.contains flag && !flag.startsWith (groupLead name))) ∧
    ((∀ name ∈ groupNames value, name.head? ≠ some '+' ∧ name.head? ≠ some '-') →
      ∀ (s : FlagSet) (flag : Text),
        (∀ name ∈ groupNames value, flag.startsWith (groupLead name) = false) →
        (s.applyAll (expandUse value)).contains flag =
          (s.applyAll (wordsBeforeGroups value)).contains flag) := by
  refine ⟨fun hnames => ?_, fun token => isUnbroken_of_mem_expandUse,
    ⟨groupedTokens value, expandUse_eq value, fun token htoken => ?_⟩, ?_, ?_⟩
  · exact expandWords_of_forall_none (List.filterMap_eq_nil_iff.1 hnames)
  · obtain ⟨word, -, name, -, rfl⟩ := mem_groupedTokens htoken
    exact read_qualify_ne_clearAll name.lower word
  · intro before after name hwords hname token
    have htoken : token = qualify name.lower ['-', '*'] := by simp [token, qualify, groupLead]
    have hplain : groupName? ['-', '*'] = none := by decide
    constructor
    · rw [expandUse, hwords, expandWords_append, hname, expandWords_cons_of_none hplain, htoken]
      rfl
    · intro s flag
      rw [htoken, read_qualify_star, UseChange.contains_apply, UseChange.sets?, ← groupLead]
      cases flag.startsWith (groupLead name) <;> simp
  · intro hunsigned s flag hflag
    rw [expandUse_eq, FlagSet.applyAll_append]
    refine FlagSet.contains_applyAll_of_forall_none (fun token htoken => ?_) _
    obtain ⟨word, -, name, hname, rfl⟩ := mem_groupedTokens htoken
    exact sets?_read_qualify (head?_lower_unsigned (hunsigned name hname)) (hflag name hname) word

theorem expandUse_keepsToGroups_sigmas :
    let value := "-b ssl VIDEO_CARDS: intel -* --x ΣΟΣ: -a_* +* : -".toList
    let s : FlagSet := ⟨["b", "c", "video_cards_old", "σος_a_x"].map String.toList⟩
    let kept : List Text := ["b".toList, "c".toList, "ssl".toList]
    (groupNames value = ["VIDEO_CARDS".toList, "ΣΟΣ".toList] ∧
      (∀ name ∈ groupNames value, name.head? ≠ some '+' ∧ name.head? ≠ some '-') ∧
      ∀ flag ∈ kept, ∀ name ∈ groupNames value, flag.startsWith (groupLead name) = false) ∧
    expandUse value = ["-b", "ssl", "video_cards_intel", "-video_cards_*", "-video_cards_-x",
      "-σος_a_*", "+σος_*", "σος_:", "-σος_"].map String.toList ∧
    (∀ flag ∈ kept, (s.applyAll (expandUse value)).contains flag =
      (s.applyAll ["-b".toList, "ssl".toList]).contains flag) ∧
    ∀ flag : Text, (UseChange.apply s (.read "-video_cards_*".toList)).contains flag =
      (s.contains flag && !flag.startsWith "video_cards_".toList) := by
  intro value s kept
  obtain ⟨-, -, -, hclear, hkeeps⟩ := expandUse_keepsToGroups value
  have hunsigned : ∀ name ∈ groupNames value, name.head? ≠ some '+' ∧ name.head? ≠ some '-' := by
    decide
  have hother : ∀ flag ∈ kept, ∀ name ∈ groupNames value,
      flag.startsWith (groupLead name) = false := by decide
  refine ⟨⟨by decide, hunsigned, hother⟩, by decide +kernel, fun flag hflag => ?_, ?_⟩
  · exact hkeeps hunsigned s flag (hother flag hflag)
  · exact (hclear ["-b".toList, "ssl".toList, "VIDEO_CARDS:".toList, "intel".toList] _
      "VIDEO_CARDS".toList rfl (by decide)).2 s

end OverrideAudit
