import OverrideAudit.FileTree
import OverrideAudit.Proofs.Text.Pieces

/-! Canonical paths: how long they can be, and that they are written in one way. Both are kept by
every step on the way to a place. -/
namespace OverrideAudit

structure IsEntryName (name : Text) : Prop where
  nonempty : name ≠ []
  not_dot : name ≠ ['.']
  no_slash : Path.slash ∉ name

namespace FileTree
variable {tree : FileTree} {path : Text}

/-- A property of places that steps keep: to the folder above, and down to what is reachable. -/
structure KeptBySteps (reachable : Location → Bool) (P : Location → Prop) : Prop where
  top : P []
  up : ∀ {place}, P place → P place.dropLast
  down : ∀ {place name}, P place → IsEntryName name → reachable (place ++ [name]) = true →
    P (place ++ [name])

theorem slash_not_mem_piece {pieces : List Text} (h : pieces = path.splitOn Path.slash) :
    ∀ piece ∈ pieces, Path.slash ∉ piece := by
  rintro piece hpiece hslash
  subst h
  simpa using Text.not_of_mem_splitOnP hpiece Path.slash hslash

variable {reachable : Location → Bool} {P : Location → Prop} {place : Location}
  {pieces : List Text} {a : Arrival}

theorem KeptBySteps.follow (hP : KeptBySteps reachable P) {links : Nat}
    {jump : Location → List Text → Except FileFault Arrival}
    (hjump : ∀ {place pieces a}, P place → (∀ piece ∈ pieces, Path.slash ∉ piece) →
      jump place pieces = .ok a → P a.place)
    (hplace : P place) (hpieces : ∀ piece ∈ pieces, Path.slash ∉ piece)
    (h : tree.follow reachable links jump place pieces = .ok a) : P a.place := by
  induction pieces generalizing place with
  | nil =>
    obtain rfl := Except.ok.inj h
    exact hplace
  | cons piece pieces ih =>
    obtain ⟨hslash, hpieces⟩ := List.forall_mem_cons.1 hpieces
    rw [FileTree.follow] at h
    split at h
    · exact ih hplace hpieces h
    · next hskip =>
      split at h
      · exact ih (hP.up hplace) hpieces h
      · dsimp only at h
        split at h
        · contradiction
        · next hopen =>
          simp only [Bool.or_eq_true, not_or, List.isEmpty_iff, beq_iff_eq] at hskip
          simp only [Bool.or_eq_true, not_or, Bool.not_eq_true, Bool.not_eq_false'] at hopen
          have hbelow : P (place ++ [piece]) :=
            hP.down hplace ⟨hskip.1, hskip.2, hslash⟩ hopen.2
          split at h
          · contradiction
          · exact ih hbelow hpieces h
          · split at h
            · obtain rfl := Except.ok.inj h
              exact hbelow
            · contradiction
          · next target _ =>
            split at h
            · contradiction
            · refine hjump ?_ ?_ h
              · split
                · exact hP.top
                · exact hplace
              · intro part hpart
                obtain hpart | hpart := List.mem_append.1 hpart
                · exact slash_not_mem_piece rfl part hpart
                · exact hpieces part hpart

theorem KeptBySteps.arriveFrom (hP : KeptBySteps reachable P) {links : Nat} (hplace : P place)
    (hpieces : ∀ piece ∈ pieces, Path.slash ∉ piece)
    (h : tree.arriveFrom reachable links place pieces = .ok a) : P a.place := by
  induction links generalizing place pieces a with
  | zero => exact hP.follow (fun _ _ hloop => by contradiction) hplace hpieces h
  | succ links ih => exact hP.follow ih hplace hpieces h

theorem KeptBySteps.locate (hP : KeptBySteps reachable P) (hworking : P tree.workingFolder)
    (h : tree.locate reachable path = .ok a) : P a.place := by
  rw [FileTree.locate] at h
  split at h
  · contradiction
  · refine hP.arriveFrom ?_ (slash_not_mem_piece rfl) h
    split
    · exact hP.top
    · exact hworking

theorem KeptBySteps.canonicalPath {P : Location → Prop}
    (hP : KeptBySteps (fun place => Path.fits (absolutePath place)) P)
    (hworking : P tree.workingFolder) {canonical : Text}
    (h : tree.canonicalPath path = .ok canonical) :
    ∃ place, P place ∧ canonical = absolutePath place := by
  rw [FileTree.canonicalPath] at h
  split at h
  · contradiction
  · cases hlocate : tree.locate (fun place => Path.fits (absolutePath place)) path with
    | error fault =>
      rw [hlocate] at h
      contradiction
    | ok a =>
      rw [hlocate] at h
      exact ⟨a.place, hP.locate hworking hlocate, (Except.ok.inj h).symm⟩

theorem utf8Length_absolutePath_dropLast (place : Location) :
    (absolutePath place.dropLast).utf8Length ≤ (absolutePath place).utf8Length := by
  cases hlast : place.getLast? with
  | none =>
    obtain rfl := List.getLast?_eq_none_iff.1 hlast
    exact Nat.le_refl _
  | some name =>
    obtain ⟨above, rfl⟩ := List.getLast?_eq_some_iff.1 hlast
    have hpath : absolutePath (above ++ [name]) =
        above.flatMap (Path.slash :: ·) ++ Path.slash :: name := by
      simp [absolutePath]
    rw [List.dropLast_concat, hpath, Text.utf8Length_append, Text.utf8Length]
    have hslash : Path.slash.utf8Size = 1 := rfl
    cases above with
    | nil => simp [absolutePath, Text.utf8Length, hslash]
    | cons first rest =>
      simp only [absolutePath, List.isEmpty_cons, Bool.false_eq_true, if_false]
      omega

/-- A canonical path is within the limit, unless it does not lead below the working folder and that
lies too deep. -/
theorem utf8Length_canonicalPath {canonical : Text} (h : tree.canonicalPath path = .ok canonical) :
    canonical.utf8Length ≤ max Path.pathLimit (absolutePath tree.workingFolder).utf8Length := by
  have hsteps : KeptBySteps (fun place => Path.fits (absolutePath place)) fun place =>
      (absolutePath place).utf8Length ≤
        max Path.pathLimit (absolutePath tree.workingFolder).utf8Length := by
    refine ⟨?_, ?_, ?_⟩
    · exact Nat.le_trans (by decide) (Nat.le_max_left ..)
    · exact fun hplace => Nat.le_trans (utf8Length_absolutePath_dropLast _) hplace
    · exact fun _ _ hfits => Nat.le_trans (of_decide_eq_true hfits) (Nat.le_max_left ..)
  obtain ⟨place, hplace, rfl⟩ := hsteps.canonicalPath (Nat.le_max_right ..) h
  exact hplace

theorem splitOn_names {names : Location} (h : ∀ name ∈ names, IsEntryName name) {first : Text}
    (hfirst : Path.slash ∉ first) :
    (first ++ names.flatMap (Path.slash :: ·)).splitOn Path.slash = first :: names := by
  induction names generalizing first with
  | nil => simpa using List.splitOn_eq_singleton hfirst
  | cons name names ih =>
    obtain ⟨hname, hnames⟩ := List.forall_mem_cons.1 h
    rw [List.flatMap_cons, List.cons_append, List.splitOn_append_cons_self_of_not_mem hfirst,
      ih hnames hname.no_slash]

theorem steps_absolutePath {place : Location} (h : ∀ name ∈ place, IsEntryName name) :
    Path.steps (absolutePath place) = place := by
  have hsplit : ∃ front, (∀ piece ∈ front, piece = []) ∧
      (absolutePath place).splitOn Path.slash = front ++ place := by
    cases place with
    | nil => exact ⟨[[], []], by simp, rfl⟩
    | cons name names =>
      refine ⟨[[]], by simp, ?_⟩
      exact splitOn_names h List.not_mem_nil
  obtain ⟨front, hfront, hsplit⟩ := hsplit
  rw [Path.steps, hsplit, List.filter_append]
  have hskipped : front.filter (fun piece => !piece.isEmpty && piece != ['.']) = [] := by
    rw [List.filter_eq_nil_iff]
    intro piece hpiece
    simp [hfront piece hpiece]
  have hkept : place.filter (fun piece => !piece.isEmpty && piece != ['.']) = place := by
    rw [List.filter_eq_self]
    intro name hname
    simp [(h name hname).nonempty, (h name hname).not_dot]
  rw [hskipped, hkept, List.nil_append]

theorem eq_of_sameAs_canonical (hworking : ∀ name ∈ tree.workingFolder, IsEntryName name)
    {p q c d : Text} (hc : tree.canonicalPath p = .ok c) (hd : tree.canonicalPath q = .ok d)
    (h : Path.sameAs c d = true) : c = d := by
  have hsteps : KeptBySteps (fun place => Path.fits (absolutePath place)) fun place =>
      ∀ name ∈ place, IsEntryName name := by
    refine ⟨by simp, ?_, ?_⟩
    · exact fun {place} hplace name hname => hplace name (List.dropLast_subset place hname)
    · intro place name hplace hname _ other hother
      obtain hother | hother := List.mem_append.1 hother
      · exact hplace other hother
      · rwa [List.mem_singleton.1 hother]
  obtain ⟨here, hhere, rfl⟩ := hsteps.canonicalPath hworking hc
  obtain ⟨there, hthere, rfl⟩ := hsteps.canonicalPath hworking hd
  have hform : ∀ place : Location, (∀ name ∈ place, IsEntryName name) →
      Path.normalForm (absolutePath place) = [Path.slash] :: place := by
    intro place hplace
    have habsolute : Path.isAbsolute (absolutePath place) = true := by
      cases place <;> rfl
    rw [Path.normalForm, if_pos habsolute, steps_absolutePath hplace]
  rw [Path.sameAs, beq_iff_eq, hform here hhere, hform there hthere] at h
  rw [(List.cons.inj h).2]

end FileTree
end OverrideAudit
