import OverrideAudit.Database.Folders
import OverrideAudit.Proofs.Atom.RoundTrip

/-! Files of masks on top of one another, those of the repository first and those of a profile
behind those of its parents. They act like one list of lines, in which a mask stands unless a later
line removes it. -/
namespace OverrideAudit

theorem Atom.read_comment (rest : Text) (a : Atom) : Atom.read ('#' :: rest) ≠ .ok a := by
  intro hread
  obtain ⟨ha, htext⟩ := Atom.read_eq_ok_iff.1 hread
  have hlead := Text.startsWith_trim (c := '#') (by decide) '#' rest
  rw [htext] at hlead
  obtain ⟨tail, htail⟩ := List.isPrefixOf_iff_prefix.1 hlead
  have hcategory := ha.category
  cases hc : a.category with
  | nil =>
    rw [hc] at hcategory
    contradiction
  | cons c label =>
    rw [hc] at hcategory
    rw [toText, PackageName.toText, packageName, hc] at htail
    cases hop : a.operator with
    | any =>
      obtain rfl : '#' = c := by simpa [hop, Operator.sign] using congrArg List.head? htail
      simp [isLabel, isWordStart] at hcategory
    | _ => simp [hop, Operator.sign] at htail

namespace MaskLine
variable {a b : Atom} {line : Text} {lines before after : List MaskLine}

/-- What a line says: the atom to mask, or behind a hyphen the atom whose masks go. -/
def said? (line : Text) : Option MaskLine :=
  match line.trim with
  | '-' :: rest => (Atom.read rest).toOption.map remove
  | whole => (Atom.read whole).toOption.map add

def saidBy (content : Text) : List MaskLine := content.lines.filterMap said?

theorem said?_eq (line : Text) : said? line = (ofTrimmed line.trim).toOption := by
  have hmap : ∀ (x : Except ReadFault Atom) (f : Atom → MaskLine),
      (x.map f).toOption = x.toOption.map f := by
    intro x f
    cases x <;> rfl
  rw [said?]
  cases htrim : line.trim with
  | nil => exact (hmap _ _).symm
  | cons c r =>
    by_cases hsign : c = '-'
    · subst hsign
      exact (hmap _ _).symm
    · simp [ofTrimmed, hsign, hmap]

theorem said?_of_silent (h : line.trim = [] ∨ line.trim.startsWith ['#'] = true) :
    said? line = none := by
  obtain h | h := h
  · rw [said?, h]
    rfl
  · obtain ⟨rest, hrest⟩ := List.isPrefixOf_iff_prefix.1 h
    rw [said?, ← hrest]
    cases hread : Atom.read ('#' :: rest) with
    | error fault => simp [hread, Except.toOption]
    | ok a => exact absurd hread (Atom.read_comment rest a)

theorem value_readLine (source line : Text) :
    (readLine source line).value = (said? line).toList := by
  cases hsilent : line.trim.isEmpty || line.trim.startsWith ['#'] with
  | true =>
    rw [said?_of_silent (by simpa using hsilent)]
    simp [readLine, hsilent]
  | false =>
    rw [said?_eq]
    simp only [readLine, hsilent, Bool.false_eq_true, if_false]
    cases ofTrimmed line.trim <;> rfl

theorem value_readLines (source : Text) (lines : List Text) :
    (readLines source lines).value = lines.filterMap said? := by
  induction lines with
  | nil => rfl
  | cons line lines ih =>
    rw [readLines, List.filterMap_cons]
    simp only [Logged.value_bind, Logged.value_pure, value_readLine, ih]
    cases said? line <;> rfl

theorem value_ofText (source content : Text) : (ofText source content).value = saidBy content :=
  value_readLines source content.lines

def removes (a : Atom) : MaskLine → Bool
  | add _ => false
  | remove b => a.sameAs b

/-- The masks that stand after some lines: those that are added and that no later line removes. -/
def standing : List MaskLine → List Atom
  | [] => []
  | add a :: later => if later.any (removes a) then standing later else a :: standing later
  | remove _ :: later => standing later

theorem standing_append (earlier later : List MaskLine) :
    standing (earlier ++ later) =
      (standing earlier).filter (fun a => !later.any (removes a)) ++ standing later := by
  induction earlier with
  | nil => rfl
  | cons line earlier ih =>
    cases line with
    | remove b => exact ih
    | add a =>
      rw [List.cons_append, standing, standing, ih, List.any_append]
      cases hearlier : earlier.any (removes a) with
      | true => rfl
      | false => cases hlater : later.any (removes a) <;> simp [hlater]

theorem standing_map_add (masks : List Atom) : standing (masks.map add) = masks := by
  induction masks with
  | nil => rfl
  | cons a masks ih =>
    have hadds : (masks.map add).any (removes a) = false := by simp [removes]
    rw [List.map_cons, standing, hadds, ih]
    rfl

theorem foldl_applyTo (masks : List Atom) (lines : List MaskLine) :
    lines.foldl applyTo masks = standing (masks.map add ++ lines) := by
  induction lines generalizing masks with
  | nil => rw [List.append_nil, standing_map_add, List.foldl_nil]
  | cons line lines ih =>
    rw [List.foldl_cons, ih, standing_append, standing_append, standing_map_add, standing_map_add]
    cases line with
    | add a =>
      have hadd : standing (add a :: lines) =
          [a].filter (fun a => !lines.any (removes a)) ++ standing lines :=
        standing_append [add a] lines
      rw [hadd, applyTo, List.filter_append, List.append_assoc]
      rfl
    | remove b => simp [applyTo, removes, standing, List.filter_filter, Bool.and_comm]

theorem any_removes_eq_false_iff :
    lines.any (removes a) = false ↔ ∀ b, remove b ∈ lines → a.sameAs b = false := by
  rw [List.any_eq_false]
  constructor
  · intro h b hb
    simpa [removes] using h (remove b) hb
  · intro h line hline
    cases line with
    | add c => simp [removes]
    | remove b => simp [removes, h b hline]

theorem mem_standing_iff :
    a ∈ standing lines ↔ ∃ before after, lines = before ++ add a :: after ∧
      ∀ b, remove b ∈ after → a.sameAs b = false := by
  simp only [← any_removes_eq_false_iff]
  induction lines with
  | nil => simp [standing]
  | cons line lines ih =>
    have hfirst : a ∈ standing (line :: lines) ↔
        line = add a ∧ lines.any (removes a) = false ∨ a ∈ standing lines := by
      cases line with
      | remove b => simp [standing]
      | add c =>
        by_cases hc : c = a
        · subst hc
          cases hkept : lines.any (removes c) <;> simp [standing, hkept]
        · rw [standing]
          split <;> simp [hc, Ne.symm hc]
    rw [hfirst, ih]
    constructor
    · rintro (⟨rfl, hkept⟩ | ⟨before, after, rfl, hkept⟩)
      · exact ⟨[], lines, rfl, hkept⟩
      · exact ⟨line :: before, after, rfl, hkept⟩
    · rintro ⟨before, after, hlines, hkept⟩
      cases before with
      | nil =>
        obtain ⟨rfl, rfl⟩ := List.cons.inj hlines
        exact .inl ⟨rfl, hkept⟩
      | cons _ before =>
        obtain ⟨rfl, rfl⟩ := List.cons.inj hlines
        exact .inr ⟨before, after, rfl, hkept⟩

theorem standing_idle (h : ∀ a ∈ standing before, a.sameAs b = false) (after : List MaskLine) :
    standing (before ++ remove b :: after) = standing (before ++ after) := by
  rw [standing_append, standing_append, standing]
  congr 1
  refine List.filter_congr fun a ha => ?_
  simp [removes, h a ha]

end MaskLine

def Masking.applyTexts (m : Masking) (texts : List (Text × Text)) : Masking :=
  texts.foldl (fun m (source, content) => m.applyLines (MaskLine.ofText source content).value) m

theorem Masking.applyTexts_eq (m : Masking) (texts : List (Text × Text)) :
    m.applyTexts texts = m.applyLines (texts.flatMap fun text => MaskLine.saidBy text.2) := by
  induction texts generalizing m with
  | nil => rfl
  | cons text texts ih =>
    have hcons : m.applyTexts (text :: texts) =
        (m.applyLines (MaskLine.saidBy text.2)).applyTexts texts := by
      rw [← MaskLine.value_ofText text.1]
      rfl
    rw [hcons, ih, List.flatMap_cons]
    simp only [applyLines, List.foldl_append]

def FileTree.maskLines (tree : FileTree) (path : Text) : List MaskLine :=
  if tree.isFile path then MaskLine.saidBy ((tree.readText path).toOption.getD []) else []

namespace Masking
variable {m n k : Masking} {lines later : List MaskLine} {tree : FileTree}

/-- The masking differs from another by some lines of masks in what it inherits, and not at all in
what overrides brought. -/
structure StacksOn (n m : Masking) (lines : List MaskLine) : Prop where
  inherited : n.inherited = MaskLine.standing (m.inherited.map .add ++ lines)
  masks : n.masks = m.masks
  unmasks : n.unmasks = m.unmasks
  overrides : n.overrides = m.overrides

theorem StacksOn.of_inherited (hinherited : n.inherited = m.inherited) (hmasks : n.masks = m.masks)
    (hunmasks : n.unmasks = m.unmasks) (hoverrides : n.overrides = m.overrides) :
    n.StacksOn m [] :=
  ⟨by rw [List.append_nil, MaskLine.standing_map_add, hinherited], hmasks, hunmasks, hoverrides⟩

theorem StacksOn.trans (hk : k.StacksOn n later) (hn : n.StacksOn m lines) :
    k.StacksOn m (lines ++ later) where
  inherited := by
    rw [hk.inherited, MaskLine.standing_append, MaskLine.standing_map_add, hn.inherited,
      ← List.append_assoc, MaskLine.standing_append _ later]
  masks := hk.masks.trans hn.masks
  unmasks := hk.unmasks.trans hn.unmasks
  overrides := hk.overrides.trans hn.overrides

theorem stacksOn_applyLines (m : Masking) (lines : List MaskLine) :
    (m.applyLines lines).StacksOn m lines :=
  ⟨MaskLine.foldl_applyTo m.inherited lines, rfl, rfl, rfl⟩

theorem stacksOn_applySettings (m : Masking) (v : Variables) :
    (m.applySettings v).StacksOn m [] := by
  rw [applySettings]
  cases v.get? "ARCH".toList <;> cases v.get? "ACCEPT_KEYWORDS".toList <;>
    exact .of_inherited rfl rfl rfl rfl

theorem stacksOn_withMaskFile {path : Text} (h : (m.withMaskFile tree path).value = (n, none)) :
    n.StacksOn m (tree.maskLines path) := by
  rw [withMaskFile] at h
  rw [FileTree.maskLines]
  split at h
  · next hfile =>
    rw [if_pos hfile]
    cases hread : tree.readText path with
    | error fault => simp [hread] at h
    | ok content =>
      simp only [hread, Logged.value_bind, Logged.value_pure, MaskLine.value_ofText,
        Prod.mk.injEq, and_true] at h
      subst h
      exact stacksOn_applyLines m _
  · next hfile =>
    rw [if_neg hfile]
    obtain rfl : m = n := congrArg Prod.fst h
    exact .of_inherited rfl rfl rfl rfl

theorem stacksOn_withSettings {path : Text} (h : (m.withSettings tree path).value = (n, none)) :
    n.StacksOn m [] := by
  rw [withSettings] at h
  split at h
  · simp only [Logged.value_bind] at h
    split at h
    · simp at h
    · simp only [Logged.value_pure, Prod.mk.injEq, and_true] at h
      subst h
      exact stacksOn_applySettings m _
  · obtain rfl : m = n := congrArg Prod.fst h
    exact .of_inherited rfl rfl rfl rfl

def profileMasks (folder : Text) : Text := Path.join folder "package.mask".toList

theorem stacksOn_withProfileFolder {folder : Text}
    (h : (m.withProfileFolder tree folder).value = (n, none)) :
    n.StacksOn m (tree.maskLines (profileMasks folder)) := by
  rw [withProfileFolder] at h
  simp only [Logged.value_bind] at h
  split at h
  · next k hk =>
    have hboth := (stacksOn_withSettings h).trans (stacksOn_withMaskFile hk)
    rwa [List.append_nil] at hboth
  · next hfailed => exact absurd h (hfailed n)

theorem stacksOn_withProfileFolders {folders : List Text}
    (h : (m.withProfileFolders tree folders).value = (n, none)) :
    n.StacksOn m (folders.flatMap fun folder => tree.maskLines (profileMasks folder)) := by
  induction folders generalizing m with
  | nil =>
    obtain rfl : m = n := congrArg Prod.fst h
    exact .of_inherited rfl rfl rfl rfl
  | cons folder folders ih =>
    rw [withProfileFolders] at h
    simp only [Logged.value_bind] at h
    split at h
    · next k hk => exact (ih h).trans (stacksOn_withProfileFolder hk)
    · next hfailed => exact absurd h (hfailed n)

/-- The profile folders of a system, parents first; none if it points at no profile. -/
def IsProfileChain (tree : FileTree) (configRoot : Text) (folders : List Text) : Prop :=
  match tree.profileFolder? configRoot with
  | none => folders = []
  | some folder => (tree.profileOrder folder).value = .ok folders

def systemMasks (paths : SystemPaths) (folders : List Text) : List Text :=
  Path.join paths.repository "profiles/package.mask".toList :: folders.map profileMasks

theorem stacksOn_withSystemProfile {configRoot : Text}
    (h : (m.withSystemProfile tree configRoot).value = (n, none)) :
    ∃ folders, IsProfileChain tree configRoot folders ∧
      n.StacksOn m (folders.flatMap fun folder => tree.maskLines (profileMasks folder)) := by
  rw [withSystemProfile] at h
  simp only [IsProfileChain]
  cases hfolder : tree.profileFolder? configRoot with
  | none =>
    rw [hfolder] at h
    obtain rfl : m = n := congrArg Prod.fst h
    exact ⟨[], rfl, .of_inherited rfl rfl rfl rfl⟩
  | some folder =>
    simp only [hfolder, withProfile, Logged.value_bind] at h
    split at h
    · simp at h
    · next folders hfolders => exact ⟨folders, hfolders, stacksOn_withProfileFolders h⟩

theorem stacksOn_loadSystem {paths : SystemPaths} (h : (loadSystem tree paths).value = .ok n) :
    ∃ folders, IsProfileChain tree paths.configRoot folders ∧
      n.StacksOn empty ((systemMasks paths folders).flatMap tree.maskLines) := by
  rw [loadSystem] at h
  simp only [Logged.value_bind] at h
  split at h
  · simp at h
  · next m hm =>
    simp only [Logged.value_bind] at h
    split at h
    · simp at h
    · next k hk =>
      simp only [Logged.value_bind] at h
      split at h
      · simp at h
      · next v _ =>
        obtain rfl : k.applySettings v = n := Except.ok.inj h
        obtain ⟨folders, hchain, hstacks⟩ := stacksOn_withSystemProfile hk
        have hall := (stacksOn_applySettings k v).trans
          (hstacks.trans (stacksOn_withMaskFile hm))
        refine ⟨folders, hchain, ?_⟩
        rw [List.append_nil] at hall
        simpa only [systemMasks, List.flatMap_cons, List.flatMap_map] using hall

end Masking

namespace Database
variable {db : Database} {tree : FileTree} {paths : SystemPaths}

theorem masking_addAll (db : Database) (available : List Available) (installed : List Installed) :
    (db.addAll available installed).masking = db.masking := by
  have hinstalled : ∀ db : Database, (installed.foldl insertInstalled db).masking = db.masking := by
    induction installed with
    | nil => exact fun _ => rfl
    | cons p installed ih => exact fun db => ih (db.insertInstalled p)
  have havailable : ∀ db : Database, (available.foldl insertAvailable db).masking = db.masking := by
    induction available with
    | nil => exact fun _ => rfl
    | cons p available ih => exact fun db => ih (db.insertAvailable p)
  rw [addAll, hinstalled, havailable]

theorem stacksOn_load (h : (load tree paths).value = .ok db) :
    ∃ folders, Masking.IsProfileChain tree paths.configRoot folders ∧
      db.masking.StacksOn .empty ((Masking.systemMasks paths folders).flatMap tree.maskLines) := by
  rw [load] at h
  simp only [Logged.value_bind] at h
  split at h
  · simp at h
  · simp only [Logged.value_bind] at h
    split at h
    · simp at h
    · next m hm =>
      obtain ⟨folders, hchain, hstacks⟩ := Masking.stacksOn_loadSystem hm
      refine ⟨folders, hchain, ?_⟩
      simp only [Logged.value_bind] at h
      split at h
      · simp at h
      · next available _ =>
        simp only [Logged.value_bind] at h
        split at h
        · simp at h
        · next installed _ =>
          simp only [Logged.value_bind, Logged.value_pure, Except.ok.injEq] at h
          subst h
          have hmasking := masking_addAll { empty with masking := m } available installed
          have hdefault : ((({ empty with masking := m } : Database).addAll available
              installed).withDefaultArch).masking.StacksOn m [] := by
            refine .of_inherited ?_ ?_ ?_ ?_ <;> simp [withDefaultArch, hmasking]
          simpa using hdefault.trans hstacks

end Database

/-- Texts of masks stack like one list of lines, behind the masks that are there already. A mask
stands exactly if it was added and no later line removes an equal one. A database is loaded with the
masks of its repository, then those of its profile folders, parents first. -/
theorem Masking.inherited_of_maskFiles :
    (∀ (m : Masking) (texts : List (Text × Text)), m.applyTexts texts = { m with
      inherited := MaskLine.standing (m.inherited.map .add ++
        texts.flatMap fun text => text.2.lines.filterMap MaskLine.said?) }) ∧
    (∀ line : Text, line.trim = [] ∨ line.trim.startsWith ['#'] = true →
      MaskLine.said? line = none) ∧
    (∀ (lines : List MaskLine) (a : Atom), a ∈ MaskLine.standing lines ↔
      ∃ before after, lines = before ++ .add a :: after ∧
        ∀ b, .remove b ∈ after → a.sameAs b = false) ∧
    (∀ (before after : List MaskLine) (b : Atom), (∀ a, .add a ∈ before → a.sameAs b = false) →
      MaskLine.standing (before ++ .remove b :: after) = MaskLine.standing (before ++ after)) ∧
    ∀ (tree : FileTree) (paths : SystemPaths) (db : Database),
      (Database.load tree paths).value = .ok db →
      ∃ folders, IsProfileChain tree paths.configRoot folders ∧
        db.masking.StacksOn .empty ((systemMasks paths folders).flatMap tree.maskLines) := by
  refine ⟨fun m texts => ?_, fun line => MaskLine.said?_of_silent,
    fun lines a => MaskLine.mem_standing_iff, fun before after b h => ?_,
    fun tree paths db => Database.stacksOn_load⟩
  · rw [applyTexts_eq, applyLines, MaskLine.foldl_applyTo]
    rfl
  · refine MaskLine.standing_idle (fun a ha => ?_) after
    obtain ⟨front, rest, rfl, -⟩ := MaskLine.mem_standing_iff.1 ha
    exact h a (by simp)

theorem Masking.inherited_of_maskFiles_lifted :
    let file (tree : FileTree) (path content : String) : FileTree :=
      tree.add path.toList (.file (some content.toList))
    let repository := file (.ofWorkingFolder []) "/repo/profiles/package.mask"
      "a/b\n>=a/e-1.0\n-a/f\n"
    let parent := file (file repository "/p/parent" "../base\n") "/base/package.mask"
      "# base\n->=a/e-1.00-r0\na/d\nbroken\n"
    let tree := (file parent "/p/package.mask" "\n-a/d\na/f\na/b\n").add
      "/etc/make.profile".toList (.link "/p".toList)
    let paths : SystemPaths := ⟨"/".toList, "/repo".toList, "/etc".toList⟩
    let f : Atom := ⟨.any, ['a'], ['f'], none, none, none, none⟩
    (∃ db, (Database.load tree paths).value = .ok db ∧
      db.masking.inherited.map Atom.toText = ["a/b".toList, "a/f".toList, "a/b".toList] ∧
      ∃ folders, IsProfileChain tree paths.configRoot folders ∧
        db.masking.StacksOn .empty ((systemMasks paths folders).flatMap tree.maskLines)) ∧
    MaskLine.said? "# base".toList = none ∧
    MaskLine.standing [.remove f, .add f] = MaskLine.standing [.add f] := by
  intro file repository parent tree paths f
  obtain ⟨-, hsilent, -, hidle, hload⟩ := inherited_of_maskFiles
  have hmasks : (Database.load tree paths).value.toOption.map
      (fun db => db.masking.inherited.map Atom.toText) =
        some ["a/b".toList, "a/f".toList, "a/b".toList] := by decide +kernel
  refine ⟨?_, hsilent _ (.inr (by decide)), hidle [] [.add f] f (by simp)⟩
  cases hdb : (Database.load tree paths).value with
  | error fault =>
    rw [hdb] at hmasks
    contradiction
  | ok db =>
    rw [hdb] at hmasks
    exact ⟨db, rfl, Option.some.inj hmasks, hload tree paths db hdb⟩

end OverrideAudit
