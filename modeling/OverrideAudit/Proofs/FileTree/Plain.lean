import Mathlib.Data.List.Basic
import Mathlib.Data.List.Induction
import OverrideAudit.Proofs.FileTree.Canonical

/-! Trees without symbolic links, and where the paths below a folder of such a tree lead: a path
that is put together from names leads down by them, as long as the operating system takes it. -/
namespace OverrideAudit

structure IsFileName (name : Text) : Prop extends IsEntryName name where
  not_dots : name ≠ ['.', '.']
  no_nul : '\x00' ∉ name
  short : name.utf8Length ≤ Path.nameLimit

instance (name : Text) : Decidable (IsFileName name) :=
  decidable_of_iff (name ≠ [] ∧ name ≠ ['.'] ∧ Path.slash ∉ name ∧ name ≠ ['.', '.'] ∧
      '\x00' ∉ name ∧ name.utf8Length ≤ Path.nameLimit)
    ⟨fun ⟨hne, hdot, hslash, hdots, hnul, hshort⟩ => ⟨⟨hne, hdot, hslash⟩, hdots, hnul, hshort⟩,
      fun h => ⟨h.nonempty, h.not_dot, h.no_slash, h.not_dots, h.no_nul, h.short⟩⟩

namespace Path

def below (path : Text) (names : List Text) : Text := names.foldl join path

@[simp] theorem below_cons (path name : Text) (names : List Text) :
    below path (name :: names) = below (join path name) names := rfl

theorem below_concat (path : Text) (names : List Text) (name : Text) :
    below path (names ++ [name]) = join (below path names) name := by
  simp [below]

theorem isAbsolute_of_no_slash {name : Text} (h : slash ∉ name) : isAbsolute name = false := by
  cases name with
  | nil => rfl
  | cons c r =>
    have hc : slash ≠ c := fun he => h (by simp [he])
    simp [isAbsolute, Text.startsWith, List.isPrefixOf, hc]

variable {path name : Text} {names : List Text}

theorem isAbsolute_append (hpath : path ≠ []) (rest : Text) :
    isAbsolute (path ++ rest) = isAbsolute path := by
  cases path with
  | nil => contradiction
  | cons c r => simp [isAbsolute, Text.startsWith, List.isPrefixOf]

theorem join_cases (hpath : path ≠ []) (hname : slash ∉ name) :
    join path name = path ++ slash :: name ∨
      ∃ front, path = front ++ [slash] ∧ join path name = front ++ slash :: name := by
  rw [join, isAbsolute_of_no_slash hname]
  by_cases hslash : path.getLast? = some slash
  · obtain ⟨front, rfl⟩ := List.getLast?_eq_some_iff.1 hslash
    exact .inr ⟨front, rfl, by simp⟩
  · exact .inl (by simp [hpath, hslash])

theorem utf8Length_le_join (path : Text) (hname : slash ∉ name) :
    path.utf8Length ≤ (join path name).utf8Length := by
  rw [join, isAbsolute_of_no_slash hname]
  simp only [Bool.false_eq_true, if_false]
  split <;> rw [Text.utf8Length_append] <;> exact Nat.le_add_right ..

theorem fits_of_join (hname : slash ∉ name) (h : fits (join path name) = true) :
    fits path = true := by
  have hle := utf8Length_le_join path hname
  have hfits := of_decide_eq_true h
  exact decide_eq_true (Nat.le_trans hle hfits)

theorem fits_of_below (hnames : ∀ name ∈ names, slash ∉ name) (h : fits (below path names) = true) :
    fits path = true := by
  induction names generalizing path with
  | nil => exact h
  | cons name names ih =>
    obtain ⟨hname, hnames⟩ := List.forall_mem_cons.1 hnames
    exact fits_of_join hname (ih hnames h)

end Path

def Node.isLink : Node → Bool
  | link _ => true
  | _ => false

namespace FileTree

/-- A tree as it stands on a disk, without symbolic links: what it holds has a proper name and is in
a folder. -/
structure Plain (tree : FileTree) : Prop where
  named : ∀ {place name node}, tree.node? (place ++ [name]) = some node → IsFileName name
  inFolder : ∀ {place name node}, tree.node? (place ++ [name]) = some node →
    tree.isFolderAt place = true
  unlinked : ∀ {place target}, tree.node? place ≠ some (.link target)

theorem node?_concat (tree : FileTree) (place : Location) (name : Text) :
    tree.node? (place ++ [name]) = (tree.entries place)[name]? := by
  simp [node?]

theorem isFolderAt_iff {tree : FileTree} {place : Location} :
    tree.isFolderAt place = true ↔ tree.node? place = some .folder := by
  simp [isFolderAt]

variable {tree : FileTree} {place : Location} {path name : Text} {names : List Text} {node : Node}

theorem node?_concat_eq_some_iff : tree.node? (place ++ [name]) = some node ↔
    ∃ entries, (place, entries) ∈ tree.folders.toList ∧ (name, node) ∈ entries.toList := by
  simp only [Std.TreeMap.mem_toList_iff_getElem?_eq_some]
  rw [node?_concat, entries, Std.TreeMap.getD_eq_getD_getElem?]
  cases tree.folders[place]? <;> simp

theorem plain_iff : tree.Plain ↔ ∀ folder ∈ tree.folders.toList, ∀ entry ∈ folder.2.toList,
    IsFileName entry.1 ∧ tree.isFolderAt folder.1 = true ∧ entry.2.isLink = false := by
  constructor
  · rintro h ⟨place, entries⟩ hentries ⟨name, node⟩ hentry
    have hnode := node?_concat_eq_some_iff.2 ⟨entries, hentries, hentry⟩
    refine ⟨h.named hnode, h.inFolder hnode, ?_⟩
    cases node with
    | link target => exact absurd hnode h.unlinked
    | _ => rfl
  · intro h
    have hentry : ∀ {place name node}, tree.node? (place ++ [name]) = some node →
        IsFileName name ∧ tree.isFolderAt place = true ∧ node.isLink = false := by
      intro place name node hnode
      obtain ⟨entries, hentries, hentry⟩ := node?_concat_eq_some_iff.1 hnode
      exact h (place, entries) hentries (name, node) hentry
    refine ⟨fun hnode => (hentry hnode).1, fun hnode => (hentry hnode).2.1, ?_⟩
    intro place target hlink
    obtain rfl | ⟨above, name, rfl⟩ := List.eq_nil_or_concat' place
    · simp [node?] at hlink
    · exact absurd (hentry hlink).2.2 (by simp [Node.isLink])

instance (tree : FileTree) : Decidable tree.Plain := decidable_of_iff _ plain_iff.symm

namespace Plain

theorem isFolderAt_of_below (h : tree.Plain) (hnode : tree.node? (place ++ names) = some node)
    (hnames : names ≠ []) : tree.isFolderAt place = true := by
  induction names using List.reverseRecOn generalizing node with
  | nil => contradiction
  | append_singleton names name ih =>
    rw [← List.append_assoc] at hnode
    have hfolder := h.inFolder hnode
    cases names with
    | nil => simpa using hfolder
    | cons first names => exact ih (isFolderAt_iff.1 hfolder) (by simp)

theorem isFileName_of_below (h : tree.Plain) (hnode : tree.node? (place ++ names) = some node) :
    ∀ name ∈ names, IsFileName name := by
  induction names using List.reverseRecOn generalizing node with
  | nil => simp
  | append_singleton names name ih =>
    rw [← List.append_assoc] at hnode
    intro other hother
    obtain hother | hother := List.mem_append.1 hother
    · exact ih (isFolderAt_iff.1 (h.inFolder hnode)) other hother
    · rw [List.mem_singleton.1 hother]
      exact h.named hnode

end Plain

def FoldersIn (tree other : FileTree) : Prop :=
  ∀ place, tree.isFolderAt place = true → other.isFolderAt place = true

variable {reachable : Location → Bool} {links : Nat}
  {jump : Location → List Text → Except FileFault Arrival} {piece : Text} {pieces : List Text}
  {a : Arrival}

/-- A piece that can be followed leads to a folder, also in other trees with the folders of this
one, or it is the last and leads to a file. -/
theorem Plain.follow_cons (h : tree.Plain)
    (hfollow : tree.follow reachable links jump place (piece :: pieces) = .ok a) :
    (∃ next, tree.follow reachable links jump next pieces = .ok a ∧
      ∀ {other : FileTree}, tree.FoldersIn other → ∀ jump more,
        other.follow reachable links jump place (piece :: more) =
          other.follow reachable links jump next more) ∨
    pieces = [] ∧ tree.isFolderAt a.place = false := by
  rw [follow] at hfollow
  split at hfollow
  · next hskip => exact .inl ⟨place, hfollow, fun _ _ _ => by rw [follow, if_pos hskip]⟩
  · next hskip =>
    split at hfollow
    · next hup =>
      refine .inl ⟨place.dropLast, hfollow, fun _ _ _ => ?_⟩
      rw [follow, if_neg hskip, if_pos hup]
    · next hup =>
      dsimp only at hfollow
      split at hfollow
      · contradiction
      · next hopen =>
        split at hfollow
        · contradiction
        · next hfolder =>
          refine .inl ⟨place ++ [piece], hfollow, fun hin _ _ => ?_⟩
          have hother := isFolderAt_iff.1 (hin _ (isFolderAt_iff.2 hfolder))
          simp only [follow, if_neg hskip, if_neg hup, if_neg hopen, hother]
        · next text hfile =>
          -- Behind a file no piece may follow.
          split at hfollow
          · next hlast =>
            obtain rfl := Except.ok.inj hfollow
            exact .inr ⟨List.isEmpty_iff.1 hlast, by simp [isFolderAt, hfile]⟩
          · contradiction
        · next target hlink => exact absurd hlink h.unlinked

theorem Plain.arriveFrom_cons (h : tree.Plain)
    (harrive : tree.arriveFrom reachable links place (piece :: pieces) = .ok a) :
    (∃ next, tree.arriveFrom reachable links next pieces = .ok a ∧
      ∀ {other : FileTree}, tree.FoldersIn other → ∀ more,
        other.arriveFrom reachable links place (piece :: more) =
          other.arriveFrom reachable links next more) ∨
    pieces = [] ∧ tree.isFolderAt a.place = false := by
  -- With and without links left, the pieces are followed; only a link would make a difference.
  cases links <;>
    exact (h.follow_cons harrive).imp_left fun ⟨next, hnext, hpiece⟩ =>
      ⟨next, hnext, fun hin more => hpiece hin _ more⟩

theorem arriveFrom_nil (tree : FileTree) (reachable : Location → Bool) (links : Nat)
    (place : Location) : tree.arriveFrom reachable links place [] = .ok ⟨place, links⟩ := by
  cases links <;> rfl

theorem Plain.arriveFrom_append (h : tree.Plain) {other : FileTree} (hin : tree.FoldersIn other)
    (harrive : tree.arriveFrom reachable links place pieces = .ok a)
    (hfolder : tree.isFolderAt a.place = true) (more : List Text) :
    other.arriveFrom reachable links place (pieces ++ more) =
      other.arriveFrom reachable links a.place more := by
  induction pieces generalizing place with
  | nil =>
    rw [arriveFrom_nil] at harrive
    obtain rfl := Except.ok.inj harrive
    rfl
  | cons piece pieces ih =>
    obtain ⟨next, harrive, hpiece⟩ | ⟨_, hfile⟩ := h.arriveFrom_cons harrive
    · rw [List.cons_append, hpiece hin, ih harrive]
    · exact absurd hfolder (by simp [hfile])

theorem Plain.arriveFrom_of_concat_nil (h : tree.Plain)
    (harrive : tree.arriveFrom reachable links place (pieces ++ [[]]) = .ok a) :
    tree.arriveFrom reachable links place pieces = .ok a := by
  induction pieces generalizing place with
  | nil => cases links <;> simpa [arriveFrom, follow] using harrive
  | cons piece pieces ih =>
    rw [List.cons_append] at harrive
    obtain ⟨next, harrive, hpiece⟩ | ⟨hlast, _⟩ := h.arriveFrom_cons harrive
    · rw [hpiece fun _ hfolder => hfolder]
      exact ih harrive
    · exact absurd hlast (by simp)

theorem Plain.arriveFrom_name (h : tree.Plain) (hnode : tree.node? (place ++ [name]) = some node) :
    tree.arriveFrom (fun _ => true) links place [name] = .ok ⟨place ++ [name], links⟩ := by
  have hname := h.named hnode
  have hskip : ¬(name.isEmpty || name == ['.']) = true := by
    simp [hname.nonempty, hname.not_dot]
  have hup : ¬(name == ['.', '.']) = true := by simp [hname.not_dots]
  have hopen : ¬(decide (Path.nameLimit < name.utf8Length) || !true) = true := by
    simpa using hname.short
  have hfollow : ∀ jump, tree.follow (fun _ => true) links jump place [name] =
      .ok ⟨place ++ [name], links⟩ := by
    intro jump
    rw [follow, if_neg hskip, if_neg hup]
    dsimp only
    rw [if_neg hopen]
    cases node with
    | folder => simp [hnode, follow]
    | file text => simp [hnode]
    | link target => exact absurd hnode h.unlinked
  cases links <;> exact hfollow _

theorem arrive_eq_ok_iff : tree.arrive path = .ok a ↔
    path ≠ [] ∧ '\x00' ∉ path ∧ Path.fits path = true ∧
      tree.arriveFrom (fun _ => true) linkLimit
        (if Path.isAbsolute path then [] else tree.workingFolder) (path.splitOn Path.slash) =
          .ok a := by
  simp only [arrive, locate, List.contains_iff_mem, Bool.not_eq_true', List.isEmpty_iff]
  by_cases hnul : '\x00' ∈ path
  · simp [hnul]
  by_cases hfits : Path.fits path = true
  · by_cases hempty : path = []
    · simp [hempty, Path.fits, Text.utf8Length]
    · simp [hnul, hfits, hempty]
  · simp [hnul, hfits]

theorem resolve_eq_ok_iff : tree.resolve path = .ok place ↔
    ∃ links, tree.arrive path = .ok ⟨place, links⟩ := by
  rw [resolve]
  cases tree.arrive path with
  | error fault => simp [Except.map]
  | ok a =>
    obtain ⟨there, links⟩ := a
    simp [Except.map]

theorem find_of_resolve (hpath : tree.resolve path = .ok place)
    (hnode : tree.node? place = some node) : tree.find path = .ok node := by
  rw [find, hpath]
  simp only [bind, Except.bind, hnode]

theorem Plain.resolve_of_foldersIn (h : tree.Plain) {other : FileTree} (hin : tree.FoldersIn other)
    (hworking : other.workingFolder = tree.workingFolder) (hpath : tree.resolve path = .ok place)
    (hfolder : tree.isFolderAt place = true) : other.resolve path = .ok place := by
  obtain ⟨links, harrive⟩ := resolve_eq_ok_iff.1 hpath
  obtain ⟨hne, hnul, hfits, harrive⟩ := arrive_eq_ok_iff.1 harrive
  refine resolve_eq_ok_iff.2 ⟨linkLimit, arrive_eq_ok_iff.2 ⟨hne, hnul, hfits, ?_⟩⟩
  have hsame := h.arriveFrom_append hin harrive hfolder []
  rw [List.append_nil, arriveFrom_nil] at hsame
  rw [hworking, hsame]

theorem Plain.resolve_join (h : tree.Plain) (hpath : tree.resolve path = .ok place)
    (hnode : tree.node? (place ++ [name]) = some node)
    (hfits : Path.fits (Path.join path name) = true) :
    tree.resolve (Path.join path name) = .ok (place ++ [name]) := by
  have hname := h.named hnode
  obtain ⟨links, harrive⟩ := resolve_eq_ok_iff.1 hpath
  obtain ⟨hne, hnul, _, harrive⟩ := arrive_eq_ok_iff.1 harrive
  -- A slash at the end of the path leaves an empty piece behind it, and the name takes its place.
  have hsplit : ∃ rest, Path.join path name = path ++ rest ∧ '\x00' ∉ rest ∧
      ∃ pieces, (Path.join path name).splitOn Path.slash = pieces ++ [name] ∧
        ∃ links, tree.arriveFrom (fun _ => true) linkLimit
          (if Path.isAbsolute path then [] else tree.workingFolder) pieces =
            .ok ⟨place, links⟩ := by
    have hpiece : name.splitOn Path.slash = [name] := List.splitOn_eq_singleton hname.no_slash
    obtain hjoin | ⟨front, rfl, hjoin⟩ := Path.join_cases hne hname.no_slash
    · refine ⟨Path.slash :: name, hjoin, ?_, path.splitOn Path.slash, ?_, links, harrive⟩
      · simp [Path.slash, hname.no_nul]
      · rw [hjoin, List.splitOn_append_cons_self, hpiece]
    · refine ⟨name, by simp [hjoin], hname.no_nul, front.splitOn Path.slash, ?_, links, ?_⟩
      · rw [hjoin, List.splitOn_append_cons_self, hpiece]
      · rw [List.splitOn_append_cons_self] at harrive
        exact h.arriveFrom_of_concat_nil harrive
  obtain ⟨rest, hjoin, hrest, pieces, hpieces, links, harrive⟩ := hsplit
  refine resolve_eq_ok_iff.2 ⟨linkLimit, arrive_eq_ok_iff.2 ⟨?_, ?_, hfits, ?_⟩⟩
  · simp [hjoin, hne]
  · simp [hjoin, hnul, hrest]
  · rw [hpieces, hjoin, Path.isAbsolute_append hne,
      h.arriveFrom_append (fun _ hfolder => hfolder) harrive (h.inFolder hnode),
      h.arriveFrom_name hnode]

theorem Plain.resolve_below (h : tree.Plain) (hpath : tree.resolve path = .ok place)
    (hnode : tree.node? (place ++ names) = some node)
    (hfits : Path.fits (Path.below path names) = true) :
    tree.resolve (Path.below path names) = .ok (place ++ names) := by
  induction names using List.reverseRecOn generalizing node with
  | nil => simpa [Path.below] using hpath
  | append_singleton names name ih =>
    rw [Path.below_concat] at hfits ⊢
    rw [← List.append_assoc] at hnode ⊢
    have habove := ih (isFolderAt_iff.1 (h.inFolder hnode))
      (Path.fits_of_join (h.named hnode).no_slash hfits)
    exact h.resolve_join habove hnode hfits

theorem Plain.readText_below (h : tree.Plain) (hpath : tree.resolve path = .ok place)
    (hnode : tree.node? (place ++ names) = some node)
    (hfits : Path.fits (Path.below path names) = true) :
    tree.readText (Path.below path names) = nodeText node := by
  rw [readText, find_of_resolve (h.resolve_below hpath hnode hfits) hnode]
  rfl

theorem fits_of_readText {content : Text} (h : tree.readText path = .ok content) :
    Path.fits path = true := by
  cases harrive : tree.arrive path with
  | error fault =>
    rw [readText, find, resolve, harrive] at h
    contradiction
  | ok a => exact (arrive_eq_ok_iff.1 harrive).2.2.1

end FileTree
end OverrideAudit
