import OverrideAudit.Proofs.FileTree.Listing
import OverrideAudit.Proofs.Sorted

/-! The records of the files below a folder: those of one file after the other, each read on its
own, in the order of the names that lead to them. A file that is no text could as well be absent. -/
namespace OverrideAudit.FileTree

def text? (tree : FileTree) (place : Location) : Option Text :=
  match tree.node? place with
  | some (.file text) => text
  | _ => none

/-- The records of the file that names lead to, from a folder and a path of it. A file has some if
it is a text and the operating system takes its path. -/
def recordsBelow (tree : FileTree) (accepts : Text → Bool) (place : Location) (path : Text)
    (names : Location) : List Record :=
  let file := Path.below path names
  match tree.text? (place ++ names) with
  | some content => if Path.fits file then Record.ofText accepts file content else []
  | none => []

variable {tree : FileTree} {place file : Location} {path : Text} {names : Location}
  {accepts : Text → Bool}

theorem Plain.value_recordsOfFile (h : tree.Plain) (hpath : tree.resolve path = .ok place)
    (hlisted : tree.IsListed place path names) :
    (tree.recordsOfFile accepts (Path.below path names)).value =
      tree.recordsBelow accepts place path names := by
  obtain ⟨text, hfile⟩ := hlisted.file
  rw [recordsOfFile, recordsBelow, text?, hfile]
  by_cases hfits : Path.fits (Path.below path names) = true
  · rw [h.readText_below hpath hfile hfits]
    cases text with
    | none => rfl
    | some content => simp [nodeText, hfits]
  · cases hread : tree.readText (Path.below path names) with
    | ok content => exact absurd (fits_of_readText hread) hfits
    | error fault => cases text <;> simp [hfits]

theorem Plain.value_records (h : tree.Plain) (hpath : tree.resolve path = .ok place)
    (hfolder : tree.isFolderAt place = true) (accepts : Text → Bool) :
    (tree.records accepts path).value =
      (tree.listing tree.walkDepth place path).flatMap (tree.recordsBelow accepts place path) := by
  rw [FileTree.value_records, h.value_overrideFiles hpath hfolder, List.flatMap_map]
  refine List.flatMap_congr fun names hnames => ?_
  exact h.value_recordsOfFile hpath (h.mem_listing_walkDepth.1 hnames)

def remove (tree : FileTree) (place : Location) : FileTree :=
  match place.getLast? with
  | none => tree
  | some name =>
    let above := place.dropLast
    { tree with folders := tree.folders.insert above ((tree.entries above).erase name) }

theorem node?_remove (tree : FileTree) (hfile : file ≠ []) (place : Location) :
    (tree.remove file).node? place = if place = file then none else tree.node? place := by
  obtain ⟨above, name, rfl⟩ := (List.eq_nil_or_concat' file).resolve_left hfile
  obtain rfl | ⟨folder, entry, rfl⟩ := List.eq_nil_or_concat' place
  · simp [node?]
  · have hentries : (tree.remove (above ++ [name])).entries folder =
        if above = folder then (tree.entries above).erase name else tree.entries folder := by
      simp [remove, entries, Std.TreeMap.getD_insert]
    rw [node?_concat, node?_concat, hentries]
    by_cases hfolder : above = folder
    · subst hfolder
      simp [Std.TreeMap.getElem?_erase, eq_comm (a := entry)]
    · have hother : folder ≠ above := fun heq => hfolder heq.symm
      simp [hfolder, hother]

@[simp] theorem workingFolder_remove (tree : FileTree) (file : Location) :
    (tree.remove file).workingFolder = tree.workingFolder := by
  rw [remove]
  split <;> rfl

variable {text : Option Text}

theorem ne_nil_of_file (hfile : tree.node? file = some (.file text)) : file ≠ [] := by
  rintro rfl
  simp [node?] at hfile

theorem foldersIn_remove (hfile : tree.node? file = some (.file text)) :
    tree.FoldersIn (tree.remove file) := by
  intro place hplace
  rw [isFolderAt_iff] at hplace ⊢
  have hne : place ≠ file := by
    rintro rfl
    simp [hfile] at hplace
  rw [node?_remove tree (ne_nil_of_file hfile), if_neg hne, hplace]

theorem Plain.remove (h : tree.Plain) (hfile : tree.node? file = some (.file text)) :
    (tree.remove file).Plain := by
  have hkept : ∀ {place node}, (tree.remove file).node? place = some node →
      tree.node? place = some node := by
    intro place node hnode
    rw [node?_remove tree (ne_nil_of_file hfile)] at hnode
    split at hnode
    · contradiction
    · exact hnode
  refine ⟨fun hnode => h.named (hkept hnode), fun hnode => ?_, fun hlink => ?_⟩
  · exact foldersIn_remove hfile _ (h.inFolder (hkept hnode))
  · exact h.unlinked (hkept hlink)

theorem isListed_remove (hfile : tree.node? file = some (.file text)) :
    (tree.remove file).IsListed place path names ↔
      tree.IsListed place path names ∧ place ++ names ≠ file := by
  have hnode := node?_remove tree (ne_nil_of_file hfile) (place ++ names)
  constructor
  · rintro ⟨hbelow, ⟨text, hlisted⟩, hvisible, hopened⟩
    rw [hnode] at hlisted
    split at hlisted
    · contradiction
    · next hne => exact ⟨⟨hbelow, ⟨text, hlisted⟩, hvisible, hopened⟩, hne⟩
  · rintro ⟨⟨hbelow, hlisted, hvisible, hopened⟩, hne⟩
    rw [if_neg hne] at hnode
    exact ⟨hbelow, hnode ▸ hlisted, hvisible, hopened⟩

theorem Plain.listing_remove (h : tree.Plain) (hfile : tree.node? file = some (.file text)) :
    (tree.remove file).listing (tree.remove file).walkDepth place path =
      (tree.listing tree.walkDepth place path).filter (place ++ · ≠ file) := by
  refine eq_of_ascending (listing_ascends ..) ((listing_ascends ..).filter _) fun names => ?_
  rw [List.mem_filter, h.mem_listing_walkDepth, (h.remove hfile).mem_listing_walkDepth,
    isListed_remove hfile, decide_eq_true_iff]

theorem flatMap_filter {α β : Type} {p : α → Bool} {f : α → List β} {xs : List α}
    (h : ∀ x, p x = false → f x = []) : (xs.filter p).flatMap f = xs.flatMap f := by
  induction xs with
  | nil => rfl
  | cons x xs ih =>
    rw [List.filter_cons, List.flatMap_cons, ← ih]
    cases hx : p x with
    | true => rfl
    | false => rw [h x hx]; rfl

theorem text?_remove (hfile : tree.node? file = some (.file none)) (place : Location) :
    (tree.remove file).text? place = tree.text? place := by
  rw [text?, text?, node?_remove tree (ne_nil_of_file hfile)]
  by_cases hsame : place = file
  · rw [if_pos hsame, hsame, hfile]
  · rw [if_neg hsame]

theorem Plain.value_records_remove (h : tree.Plain) (hpath : tree.resolve path = .ok place)
    (hfolder : tree.isFolderAt place = true) (hfile : tree.node? file = some (.file none))
    (accepts : Text → Bool) :
    ((tree.remove file).records accepts path).value = (tree.records accepts path).value := by
  have hin := foldersIn_remove hfile
  have hpath' := h.resolve_of_foldersIn hin (workingFolder_remove tree file) hpath hfolder
  have hrecords : (tree.remove file).recordsBelow accepts place path =
      tree.recordsBelow accepts place path := by
    funext names
    rw [recordsBelow, recordsBelow, text?_remove hfile]
  rw [h.value_records hpath hfolder, (h.remove hfile).value_records hpath' (hin _ hfolder),
    h.listing_remove hfile, hrecords]
  refine flatMap_filter fun names hnames => ?_
  have heq : place ++ names = file := by simpa using hnames
  rw [recordsBelow, text?, heq, hfile]

/-- What is read below a folder, if `files` are the names that lead to the files there. -/
structure ReadsFiles (tree : FileTree) (place : Location) (path : Text) (files : List Location) :
    Prop where
  listed : ∀ names, names ∈ files ↔ tree.IsListed place path names
  ascending : files.Pairwise (compare · · = .lt)
  paths : (tree.overrideFiles path).value = files.map (Path.below path)
  lead : ∀ names ∈ files, Path.fits (Path.below path names) = true →
    tree.resolve (Path.below path names) = .ok (place ++ names)
  records : ∀ accepts, (tree.records accepts path).value =
    files.flatMap (tree.recordsBelow accepts place path)
  without : ∀ file, tree.node? file = some (.file none) → ∀ accepts,
    ((tree.remove file).records accepts path).value = (tree.records accepts path).value

/-- Below a folder of a tree without links, the files are listed in the order of their names and
read one after the other. -/
theorem exists_readsFiles (tree : FileTree) (path : Text) (place : Location) (h : tree.Plain)
    (hpath : tree.resolve path = .ok place) (hfolder : tree.isFolderAt place = true) :
    ∃ files, tree.ReadsFiles place path files := by
  have hlead : ∀ names ∈ tree.listing tree.walkDepth place path,
      Path.fits (Path.below path names) = true →
        tree.resolve (Path.below path names) = .ok (place ++ names) := by
    intro names hnames hfits
    obtain ⟨text, hfile⟩ := (h.mem_listing_walkDepth.1 hnames).file
    exact h.resolve_below hpath hfile hfits
  exact ⟨tree.listing tree.walkDepth place path, {
    listed := fun _ => h.mem_listing_walkDepth
    ascending := listing_ascends ..
    paths := h.value_overrideFiles hpath hfolder
    lead := hlead
    records := h.value_records hpath hfolder
    without := fun _ hfile => h.value_records_remove hpath hfolder hfile }⟩

theorem exists_readsFiles_nested :
    let file (content : String) : Node := .file (some content.toList)
    let tree : FileTree := (((((ofWorkingFolder []).add "/etc/use/a/late".toList
      (file "a/b\n\n# SKIP_BLOCK\n")).add "/etc/use/a.conf".toList (file "c/d\n")).add
      "/etc/use/a/.old/x".toList (file "e/f\n")).add "/etc/use/.b".toList (file "g/h\n")).add
      "/etc/use/B".toList (.file none)
    let path : Text := "/etc/./use/".toList
    let place : Location := ["etc".toList, "use".toList]
    tree.Plain ∧ tree.resolve path = .ok place ∧ tree.isFolderAt place = true ∧
      ∃ files, tree.ReadsFiles place path files ∧
        files.map (Path.below path) = ["/etc/./use/B".toList, "/etc/./use/a/late".toList,
          "/etc/./use/a.conf".toList] ∧
        files.flatMap (tree.recordsBelow Atom.isValid place path) =
          [⟨"a/b".toList, [], "/etc/./use/a/late".toList, 1, false⟩,
            ⟨"c/d".toList, [], "/etc/./use/a.conf".toList, 1, false⟩] := by
  intro file tree path place
  have hplain : tree.Plain := by decide +kernel
  have hpath : tree.resolve path = .ok place := by decide +kernel
  have hfolder : tree.isFolderAt place = true := by decide +kernel
  obtain ⟨files, hreads⟩ := exists_readsFiles tree path place hplain hpath hfolder
  refine ⟨hplain, hpath, hfolder, files, hreads, ?_, ?_⟩
  · rw [← hreads.paths]
    decide +kernel
  · rw [← hreads.records]
    decide +kernel

/-- Three files with a record each below a path that is long in itself: the last is not listed,
since the path of its folder is too long, and the second cannot be read. -/
theorem records_of_long_paths :
    let file (content : String) : Node := .file (some content.toList)
    let up : Text := List.replicate 62 '𝐧'
    let tree : FileTree := ((((ofWorkingFolder []).add up .folder).add "pu/a".toList
      (file "a/b 1\n")).add "pu/abcdef/gh".toList (file "a/c 2\n")).add "pu/abcdefg/i".toList
      (file "a/d 3\n")
    let path : Text := (List.replicate 16 (up ++ "/../".toList)).flatten ++
      (List.replicate 27 "./".toList).flatten ++ "pu".toList
    let place : Location := ["pu".toList]
    let files : List Location := [["a".toList], ["abcdef".toList, "gh".toList],
      ["abcdefg".toList, "i".toList]]
    tree.Plain ∧ tree.resolve path = .ok place ∧ tree.isFolderAt place = true ∧
      (∀ names ∈ files, (∀ name ∈ names, isHiddenName name = false) ∧
        (tree.text? (place ++ names)).map (fun content =>
          (Record.ofText Atom.isValid (Path.below path names) content).length) = some 1) ∧
      (tree.overrideFiles path).value.length = 2 ∧
      (tree.records Atom.isValid path).value.length = 1 := by
  decide +kernel

end OverrideAudit.FileTree
