import OverrideAudit.Proofs.FileTree.Listing
import OverrideAudit.Proofs.Sorted
import OverrideAudit.Proofs.Variables.Statements
import OverrideAudit.Variables

/-! Settings in several files. They are read one after another in the order of their names, which is
the same as reading one file with all of their text, as long as no file but the last leaves
something unfinished. -/
namespace OverrideAudit

theorem unfinishedStatement?_append {a : Text} (h : a.EndsBetweenStatements) (b : Text) :
    unfinishedStatement? (a ++ b) = unfinishedStatement? b := by
  have hnone := h.2
  rw [unfinishedStatement?] at hnone
  rw [unfinishedStatement?, unfinishedStatement?, statements_append h]
  obtain hb | ⟨front, last, hb⟩ := List.eq_nil_or_concat' (statements b)
  · rw [hb, List.append_nil, hnone, List.getLast?_nil, Option.filter_none]
  · rw [hb, ← List.append_assoc, List.getLast?_concat, List.getLast?_concat]

def Variables.readNoting (v : Variables) (content : Text) : Logged Variables := do
  Logged.noteEach ((unfinishedStatement? content).map .unfinishedStatement).toList
  return v.readInto content

theorem Variables.readNoting_append (v : Variables) {a : Text} (h : a.EndsBetweenStatements)
    (b : Text) : v.readNoting (a ++ b) = (v.readInto a).readNoting b := by
  rw [readNoting, unfinishedStatement?_append h, readInto_append h]
  rfl

namespace FileTree
variable {tree : FileTree} {file path : Text} {content : Text}

theorem isFolder_of_readText (h : tree.readText path = .ok content) :
    tree.isFolder path = false := by
  rw [readText] at h
  rw [isFolder]
  cases hfind : tree.find path with
  | error fault => rfl
  | ok node =>
    rw [hfind] at h
    cases node with
    | folder => contradiction
    | _ => rfl

theorem readSettingFiles_cons (h : tree.readText file = .ok content) (v : Variables)
    (files : List Text) :
    tree.readSettingFiles v (file :: files) =
      v.readNoting content >>= fun v => tree.readSettingFiles v files := by
  simp only [readSettingFiles, h, Variables.readNoting, bind_assoc, pure_bind]

theorem readSettingFiles_of_texts (v : Variables) (files : List (Text × Text))
    (htexts : ∀ file ∈ files, tree.readText file.1 = .ok file.2)
    (hends : ∀ file ∈ files.dropLast, file.2.EndsBetweenStatements) :
    tree.readSettingFiles v (files.map Prod.fst) =
      .ok <$> v.readNoting (files.flatMap Prod.snd) := by
  induction files generalizing v with
  | nil => rfl
  | cons file files ih =>
    obtain ⟨hfile, hfiles⟩ := List.forall_mem_cons.1 htexts
    rw [List.map_cons, readSettingFiles_cons hfile, List.flatMap_cons]
    cases files with
    | nil =>
      rw [List.flatMap_nil, List.append_nil, ← bind_pure_comp]
      rfl
    | cons next files =>
      rw [List.dropLast_cons_cons] at hends
      obtain ⟨hend, hends⟩ := List.forall_mem_cons.1 hends
      have hsilent : v.readNoting file.2 = pure (v.readInto file.2) := by
        rw [Variables.readNoting.eq_def, hend.2]
        rfl
      rw [v.readNoting_append hend, ← ih _ hfiles hends, hsilent, pure_bind]

/-- That a folder holds the settings in `files`, given by name and text: its visible files in the
order of their names. -/
structure HoldsSettings (tree : FileTree) (path : Text) (files : List (Text × Text)) : Prop where
  folder : tree.isFolder path = true
  ascending : files.Pairwise fun f g => compare f.1 g.1 = .lt
  listed : ∀ name, name ∈ files.map Prod.fst ↔ isHiddenName name = false ∧
    (∃ place, tree.resolve path = .ok place ∧ (tree.node? (place ++ [name])).isSome = true) ∧
    tree.isFile (Path.join path name) = true
  texts : ∀ file ∈ files, tree.readText (Path.join path file.1) = .ok file.2

theorem resolve_of_isFolder (h : tree.isFolder path = true) :
    ∃ place, tree.resolve path = .ok place := by
  rw [isFolder, find] at h
  cases hresolve : tree.resolve path with
  | error fault => simp [hresolve, bind, Except.bind] at h
  | ok place => exact ⟨place, rfl⟩

def settingNames (tree : FileTree) (place : Location) (path : Text) : List Text :=
  ((tree.children place).map Prod.fst).filter fun name =>
    !isHiddenName name && tree.isFile (Path.join path name)

section
variable {place : Location} {files : List (Text × Text)} (hplace : tree.resolve path = .ok place)
include hplace

theorem settingFiles_of_resolve :
    tree.settingFiles path = (tree.settingNames place path).map (Path.join path) := by
  rw [settingFiles, hplace, ← List.filterMap_eq_map (f := Path.join path), settingNames,
    List.filterMap_filter]
  rfl

theorem mem_settingNames {name : Text} :
    name ∈ tree.settingNames place path ↔ isHiddenName name = false ∧
      (∃ place, tree.resolve path = .ok place ∧ (tree.node? (place ++ [name])).isSome = true) ∧
      tree.isFile (Path.join path name) = true := by
  have hentry : name ∈ (tree.children place).map Prod.fst ↔
      (tree.node? (place ++ [name])).isSome = true := by
    simp [mem_children, Option.isSome_iff_exists]
  rw [settingNames, List.mem_filter, hentry]
  simp [hplace, and_left_comm]

theorem holdsSettings_iff : tree.HoldsSettings path files ↔ tree.isFolder path = true ∧
    tree.settingNames place path = files.map Prod.fst ∧
    ∀ file ∈ files, tree.readText (Path.join path file.1) = .ok file.2 := by
  have hascend : (tree.settingNames place path).Pairwise (compare · · = .lt) :=
    (List.pairwise_map.2 (tree.children_ascend place)).filter _
  constructor
  · intro h
    refine ⟨h.folder, ?_, h.texts⟩
    exact eq_of_ascending hascend (List.pairwise_map.2 h.ascending) fun name =>
      (mem_settingNames hplace).trans (h.listed name).symm
  · rintro ⟨hfolder, hnames, htexts⟩
    rw [hnames] at hascend
    refine ⟨hfolder, List.pairwise_map.1 hascend, fun name => ?_, htexts⟩
    rw [← hnames]
    exact mem_settingNames hplace

end

theorem HoldsSettings.readSettings_eq {files : List (Text × Text)}
    (h : tree.HoldsSettings path files)
    (hends : ∀ file ∈ files.dropLast, file.2.EndsBetweenStatements) :
    tree.readSettings path = .ok <$> Variables.empty.readNoting (files.flatMap Prod.snd) := by
  let located := files.map fun file => (Path.join path file.1, file.2)
  have htexts : ∀ file ∈ located, tree.readText file.1 = .ok file.2 :=
    List.forall_mem_map.2 h.texts
  have hlocated : ∀ file ∈ located.dropLast, file.2.EndsBetweenStatements := by
    rw [← List.map_dropLast]
    exact List.forall_mem_map.2 hends
  obtain ⟨place, hplace⟩ := resolve_of_isFolder h.folder
  have hnames := ((holdsSettings_iff hplace).1 h).2.1
  have hread := readSettingFiles_of_texts .empty located htexts hlocated
  rw [List.map_map, List.flatMap_map] at hread
  rw [readSettings, if_pos h.folder, settingFiles_of_resolve hplace, hnames, List.map_map]
  exact hread

theorem readSettings_of_readText (h : tree.readText path = .ok content) :
    tree.readSettings path = .ok <$> Variables.empty.readNoting content := by
  have hread := readSettingFiles_of_texts .empty [(path, content)]
    (by simpa using h) (by simp)
  rw [List.flatMap_singleton] at hread
  rw [readSettings, isFolder_of_readText h]
  exact hread

/-- A text that ends between statements can be read before another or joined with it. So a folder of
settings of which all files but the last end that way is read as one file with their texts, joined
in the order of their names. -/
theorem readSettings_joined :
    (∀ (v : Variables) (a b : Text), a.EndsBetweenStatements →
      v.readInto (a ++ b) = (v.readInto a).readInto b) ∧
    ∀ (tree : FileTree) (path : Text) (files : List (Text × Text)),
      tree.HoldsSettings path files →
      (∀ file ∈ files.dropLast, file.2.EndsBetweenStatements) →
      let joined := files.flatMap Prod.snd
      (tree.readSettings path).value = .ok (Variables.read joined) ∧
      ∀ (other : FileTree) (single : Text), other.readText single = .ok joined →
        tree.readSettings path = other.readSettings single := by
  refine ⟨fun v _ b h => v.readInto_append h b, fun tree path files h hends => ?_⟩
  intro joined
  have hread := h.readSettings_eq hends
  refine ⟨?_, fun other single hsingle => ?_⟩
  · rw [hread, Logged.value_map]
    rfl
  · rw [hread, readSettings_of_readText hsingle]

theorem readSettings_joined_references :
    let text (content : String) : Node := .file (some content.toList)
    let tree : FileTree := (((((ofWorkingFolder []).add "/etc/make.conf/10-testing".toList
      (text "K=\"${K} ~x\"\n")).add "/etc/make.conf/00-base".toList (text "K='x' # it's\n\n")).add
      "/etc/make.conf/.old".toList (text "K=y\n")).add "/etc/make.conf/05/x".toList
      (text "K=z\n")).add "/etc/make.conf/20".toList (.link "/more".toList)
    let tree := (tree.add "/more".toList (text "L=\"$K")).add "/all".toList
      (text "K='x' # it's\n\nK=\"${K} ~x\"\nL=\"$K")
    let path : Text := "/etc/make.conf".toList
    let files : List (Text × Text) := [("00-base".toList, "K='x' # it's\n\n".toList),
      ("10-testing".toList, "K=\"${K} ~x\"\n".toList), ("20".toList, "L=\"$K".toList)]
    tree.HoldsSettings path files ∧
      (∀ file ∈ files.dropLast, file.2.EndsBetweenStatements) ∧
      Variables.read (files.flatMap Prod.snd) = ⟨[("K".toList, "x ~x".toList),
        ("L".toList, "x ~x".toList)]⟩ ∧
      (tree.readSettings path).value = .ok (Variables.read (files.flatMap Prod.snd)) ∧
      tree.readSettings path = tree.readSettings "/all".toList ∧
      Variables.read ("K='x' # it's\n\n".toList ++ "K=\"${K} ~x\"\n".toList) =
        (Variables.read "K='x' # it's\n\n".toList).readInto "K=\"${K} ~x\"\n".toList := by
  intro text tree₀ tree path files
  have hplace : tree.resolve path = .ok ["etc".toList, "make.conf".toList] := by decide +kernel
  have hends : ∀ file ∈ files.dropLast, file.2.EndsBetweenStatements := by decide
  have hholds : tree.HoldsSettings path files :=
    (holdsSettings_iff hplace).2 (by decide +kernel)
  obtain ⟨happend, hfolder⟩ := readSettings_joined
  obtain ⟨hvalue, hsingle⟩ := hfolder tree path files hholds hends
  exact ⟨hholds, hends, by decide, hvalue, hsingle tree _ (by decide +kernel),
    happend .empty _ _ (hends ("00-base".toList, "K='x' # it's\n\n".toList) (by decide))⟩

end FileTree
end OverrideAudit
