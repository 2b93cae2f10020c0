import Mathlib.Data.List.Nodup
import Mathlib.Data.List.Perm.Subperm
import OverrideAudit.Override
import OverrideAudit.Proofs.FileTree.Plain

/-! What a walk lists in a tree without symbolic links: the files whose names and the names of whose
folders are not hidden, as far as the paths of the folders can be opened, in the order of their
names. -/
namespace OverrideAudit.FileTree

def listingOf (deeper : Location → Text → List Location) (place : Location) (path : Text) :
    Text × Node → List Location
  | (name, node) =>
    if isHiddenName name then []
    else if node = .folder then
      (deeper (place ++ [name]) (Path.join path name)).map (name :: ·)
    else [[name]]

/-- The names that lead down from a folder to the files that a walk lists there. -/
def listing (tree : FileTree) : Nat → Location → Text → List Location
  | 0, _, _ => []
  | depth + 1, place, path =>
    if Path.fits path then
      (tree.children place).flatMap (listingOf (tree.listing depth) place path)
    else []

/-- That a file stands below a place, without hidden names on the way, in a folder whose path can be
opened. -/
structure IsListed (tree : FileTree) (place : Location) (path : Text) (names : Location) :
    Prop where
  below : names ≠ []
  file : ∃ text, tree.node? (place ++ names) = some (.file text)
  visible : ∀ name ∈ names, isHiddenName name = false
  opened : Path.fits (Path.below path names.dropLast) = true

variable {tree : FileTree} {place : Location} {path name : Text} {names : Location} {node : Node}
  {depth : Nat}

theorem mem_children : (name, node) ∈ tree.children place ↔
    tree.node? (place ++ [name]) = some node := by
  rw [children, Std.TreeMap.mem_toList_iff_getElem?_eq_some, node?_concat]

theorem children_ascend (tree : FileTree) (place : Location) :
    (tree.children place).Pairwise fun a b => compare a.1 b.1 = .lt :=
  Std.TreeMap.ordered_keys_toList

theorem Plain.isListed_cons (h : tree.Plain) :
    tree.IsListed place path (name :: names) ↔
      Path.fits path = true ∧ isHiddenName name = false ∧
        ((names = [] ∧ ∃ text, tree.node? (place ++ [name]) = some (.file text)) ∨
          tree.node? (place ++ [name]) = some .folder ∧
            tree.IsListed (place ++ [name]) (Path.join path name) names) := by
  constructor
  · intro hlisted
    obtain ⟨text, hfile⟩ := hlisted.file
    obtain ⟨hname, hnames⟩ := List.forall_mem_cons.1 hlisted.visible
    have hproper := h.isFileName_of_below hfile
    have hopened := hlisted.opened
    have hfits : Path.fits path = true := by
      refine Path.fits_of_below (fun other hother => ?_) hopened
      exact (hproper other (List.dropLast_subset _ hother)).no_slash
    refine ⟨hfits, hname, ?_⟩
    by_cases hlast : names = []
    · subst hlast
      exact .inl ⟨rfl, text, hfile⟩
    · rw [List.append_cons] at hfile
      have hfolder := h.isFolderAt_of_below hfile hlast
      rw [List.dropLast_cons_of_ne_nil hlast] at hopened
      exact .inr ⟨isFolderAt_iff.1 hfolder, hlast, ⟨text, hfile⟩, hnames, hopened⟩
  · rintro ⟨hfits, hname, ⟨rfl, hfile⟩ | ⟨_, hlisted⟩⟩
    · exact ⟨by simp, hfile, by simpa using hname, hfits⟩
    · refine ⟨by simp, ?_, List.forall_mem_cons.2 ⟨hname, hlisted.visible⟩, ?_⟩
      · rw [List.append_cons]
        exact hlisted.file
      · rw [List.dropLast_cons_of_ne_nil hlisted.below]
        exact hlisted.opened

theorem mem_listingOf {deeper : Location → Text → List Location} :
    names ∈ listingOf deeper place path (name, node) ↔
      isHiddenName name = false ∧ ∃ rest, names = name :: rest ∧
        if node = .folder then rest ∈ deeper (place ++ [name]) (Path.join path name)
        else rest = [] := by
  rw [listingOf]
  by_cases hname : isHiddenName name = true
  · simp [hname]
  · by_cases hfolder : node = .folder
    · simp [hname, hfolder, eq_comm, and_comm]
    · simp [hname, hfolder]

theorem Plain.mem_listing (h : tree.Plain) :
    names ∈ tree.listing depth place path ↔
      tree.IsListed place path names ∧ names.length ≤ depth := by
  induction depth generalizing place path names with
  | zero =>
    have hnone : ¬(tree.IsListed place path names ∧ names.length ≤ 0) := by
      rintro ⟨hlisted, hlength⟩
      exact hlisted.below (List.eq_nil_of_length_eq_zero (Nat.le_zero.1 hlength))
    simpa [listing] using hnone
  | succ depth ih =>
    cases names with
    | nil =>
      have hnot : [] ∉ tree.listing (depth + 1) place path := by
        rw [listing]
        split
        · intro hmem
          obtain ⟨⟨name, node⟩, _, hmem⟩ := List.mem_flatMap.1 hmem
          obtain ⟨_, rest, hrest, _⟩ := mem_listingOf.1 hmem
          contradiction
        · exact List.not_mem_nil
      exact iff_of_false hnot fun hlisted => hlisted.1.below rfl
    | cons name names =>
      rw [h.isListed_cons, listing, List.length_cons, Nat.add_le_add_iff_right]
      by_cases hfits : Path.fits path = true
      · rw [if_pos hfits, List.mem_flatMap]
        constructor
        · rintro ⟨⟨child, node⟩, hchild, hmem⟩
          obtain ⟨hvisible, rest, heq, hrest⟩ := mem_listingOf.1 hmem
          obtain ⟨rfl, rfl⟩ := List.cons.inj heq
          have hnode := mem_children.1 hchild
          cases node with
          | folder =>
            obtain ⟨hlisted, hlength⟩ := ih.1 hrest
            exact ⟨⟨hfits, hvisible, .inr ⟨hnode, hlisted⟩⟩, hlength⟩
          | file text =>
            obtain rfl : names = [] := hrest
            exact ⟨⟨hfits, hvisible, .inl ⟨rfl, text, hnode⟩⟩, Nat.zero_le _⟩
          | link target => exact absurd hnode h.unlinked
        · rintro ⟨⟨_, hvisible, ⟨rfl, text, hfile⟩ | ⟨hfolder, hlisted⟩⟩, hlength⟩
          · exact ⟨_, mem_children.2 hfile, mem_listingOf.2 ⟨hvisible, [], rfl, rfl⟩⟩
          · have hrest := ih.2 ⟨hlisted, hlength⟩
            exact ⟨_, mem_children.2 hfolder, mem_listingOf.2 ⟨hvisible, names, rfl, hrest⟩⟩
      · simp [hfits]

theorem listing_ascends (tree : FileTree) (depth : Nat) (place : Location) (path : Text) :
    (tree.listing depth place path).Pairwise (compare · · = .lt) := by
  induction depth generalizing place path with
  | zero => exact .nil
  | succ depth ih =>
    rw [listing]
    split
    · -- What is listed of one entry has its name in front, so the names behind it decide; what is
      -- listed of two entries stands as their names do.
      rw [List.pairwise_flatMap]
      refine ⟨fun (name, node) _ => ?_, (tree.children_ascend place).imp ?_⟩
      · rw [listingOf]
        split
        · exact .nil
        · split
          · rw [List.pairwise_map]
            refine (ih _ _).imp fun {names others} hlt => ?_
            have hself : compare name name = .eq := Std.ReflCmp.compare_self
            rw [List.compare_cons_cons, hself]
            exact hlt
          · exact List.pairwise_singleton _ _
      · rintro ⟨name, node⟩ ⟨other, node'⟩ hlt names hnames others hothers
        obtain ⟨_, rest, rfl, _⟩ := mem_listingOf.1 hnames
        obtain ⟨_, rest', rfl, _⟩ := mem_listingOf.1 hothers
        rw [List.compare_cons_cons, hlt]
        rfl
    · exact .nil

theorem Plain.files_walkFrom (h : tree.Plain) (v : Visited) (above : List Visited) :
    (tree.walkFrom depth (v :: above)).filterMap WalkEvent.file? =
      (tree.listing depth v.place v.path).map (Path.below v.path) := by
  induction depth generalizing v above with
  | zero => rfl
  | succ depth ih =>
    rw [walkFrom, listing]
    by_cases hfits : Path.fits v.path = true
    · simp only [hfits, Bool.not_true, Bool.false_eq_true, if_false, if_true,
        List.filterMap_flatMap, List.map_flatMap]
      refine List.flatMap_congr fun (name, node) hchild => ?_
      have hnode := mem_children.1 hchild
      rw [listingOf]
      cases node with
      | folder =>
        have hdeeper := ih ⟨⟨v.place ++ [name], v.links⟩, Path.join v.path name⟩ (v :: above)
        by_cases hname : isHiddenName name = true
        · simp [hname]
        · simpa [hname, isFolderAt, hnode, Function.comp_def] using hdeeper
      | file text =>
        by_cases hname : isHiddenName name = true
        · simp [hname]
        · simp [hname, isFolderAt, hnode, WalkEvent.file?, Path.below]
      | link target => exact absurd hnode h.unlinked
    · simp [hfits, WalkEvent.file?]

theorem map_snd_toList {α β : Type} {cmp : α → α → Ordering} (t : Std.TreeMap α β cmp) :
    t.toList.map Prod.snd = t.values := by
  have hvalues : t.values = t.foldr (fun _ value values => value :: values) [] := rfl
  rw [hvalues, Std.TreeMap.foldr_eq_foldr_toList]
  induction t.toList with
  | nil => rfl
  | cons entry entries ih => rw [List.map_cons, ih, List.foldr_cons]

def folderPlaces (tree : FileTree) : List Location :=
  tree.folders.toList.flatMap fun (above, entries) =>
    (entries.toList.filter (·.2 == .folder)).map fun (name, _) => above ++ [name]

theorem mem_folderPlaces (hplace : place ≠ []) (hfolder : tree.isFolderAt place = true) :
    place ∈ tree.folderPlaces := by
  obtain ⟨above, name, rfl⟩ := (List.eq_nil_or_concat' place).resolve_left hplace
  obtain ⟨entries, hentries, hentry⟩ := node?_concat_eq_some_iff.1 (isFolderAt_iff.1 hfolder)
  have hfolder : (name, Node.folder) ∈ entries.toList.filter (·.2 == .folder) :=
    List.mem_filter.2 ⟨hentry, rfl⟩
  exact List.mem_flatMap.2 ⟨(above, entries), hentries, List.mem_map.2 ⟨_, hfolder, rfl⟩⟩

theorem length_folderPlaces (tree : FileTree) :
    tree.folderPlaces.length + 1 = tree.folderCount := by
  rw [folderCount, ← map_snd_toList, folderPlaces, List.flatMap_map, List.filter_flatMap,
    List.length_flatMap, List.length_flatMap]
  simp only [List.length_map, ← map_snd_toList, List.filter_map, Function.comp_def]

/-- No file stands deeper than there are folders, since each on the way is another one. -/
theorem Plain.length_le_folderCount (h : tree.Plain)
    (hnode : tree.node? (place ++ names) = some node) : names.length ≤ tree.folderCount := by
  -- The folders on the way down stand at different places, as those are of different lengths.
  let above := (List.range (names.length - 1)).map fun i => place ++ names.take (i + 1)
  have hnodup : above.Nodup := by
    refine List.Nodup.map_on (fun i hi j hj hij => ?_) List.nodup_range
    have hlength := congrArg List.length hij
    simp only [List.mem_range, List.length_append, List.length_take] at hi hj hlength
    omega
  have hplaces : above ⊆ tree.folderPlaces := by
    intro folder hfolder
    obtain ⟨i, hi, rfl⟩ := List.mem_map.1 hfolder
    have hi := List.mem_range.1 hi
    have hnames : names = names.take (i + 1) ++ names.drop (i + 1) := by simp
    rw [hnames, ← List.append_assoc] at hnode
    refine mem_folderPlaces ?_ (h.isFolderAt_of_below hnode ?_)
    · intro hnil
      have hlength := congrArg List.length hnil
      simp only [List.length_append, List.length_take, List.length_nil] at hlength
      omega
    · rw [Ne, List.drop_eq_nil_iff]
      omega
  have hle := (List.subperm_of_subset hnodup hplaces).length_le
  have habove : above.length = names.length - 1 := by simp [above]
  have hcount := tree.length_folderPlaces
  omega

def walkDepth (tree : FileTree) : Nat := (tree.folderCount + 1) * (tree.folderCount + 1)

theorem Plain.value_overrideFiles (h : tree.Plain) (hpath : tree.resolve path = .ok place)
    (hfolder : tree.isFolderAt place = true) :
    (tree.overrideFiles path).value =
      (tree.listing tree.walkDepth place path).map (Path.below path) := by
  obtain ⟨links, harrive⟩ := resolve_eq_ok_iff.1 hpath
  have hexists : tree.pathExists path = true := by
    rw [pathExists, find_of_resolve hpath (isFolderAt_iff.1 hfolder)]
    rfl
  have hwalk : tree.walk path = tree.walkFrom tree.walkDepth [⟨⟨place, links⟩, path⟩] := by
    rw [walk, harrive]
    exact if_pos hfolder
  rw [overrideFiles, if_pos hexists, hwalk]
  exact h.files_walkFrom _ []

theorem Plain.mem_listing_walkDepth (h : tree.Plain) :
    names ∈ tree.listing tree.walkDepth place path ↔ tree.IsListed place path names := by
  rw [h.mem_listing, and_iff_left_iff_imp]
  intro hlisted
  obtain ⟨text, hfile⟩ := hlisted.file
  have hlength := h.length_le_folderCount hfile
  have hdepth : tree.folderCount ≤ tree.walkDepth := by
    rw [walkDepth]
    exact Nat.le_trans (Nat.le_succ _) (Nat.le_mul_of_pos_left _ (Nat.succ_pos _))
  exact Nat.le_trans hlength hdepth

end OverrideAudit.FileTree
