import Disassembler.FileTree

/-!
Spellings of a path. Paths with `.`, `..` and doubled slashes may lead to the same place, where no
place is both a file and a directory. What a file names relative to itself does not depend on how
the file was spelled.
-/

namespace Disassembler

namespace Place

variable {p q r : Place}

theorem holds_iff : p.holds q = true ↔ p.anchor = q.anchor ∧ p.parts <+: q.parts := by
  simp [holds]

theorem holds_trans (hpq : p.holds q = true) (hqr : q.holds r = true) : p.holds r = true := by
  obtain ⟨hanchor, hparts⟩ := holds_iff.mp hpq
  obtain ⟨hanchor', hparts'⟩ := holds_iff.mp hqr
  exact holds_iff.mpr ⟨hanchor.trans hanchor', hparts.trans hparts'⟩

theorem holds_antisymm (hpq : p.holds q = true) (hqp : q.holds p = true) : p = q := by
  obtain ⟨hanchor, hparts⟩ := holds_iff.mp hpq
  obtain ⟨-, hparts'⟩ := holds_iff.mp hqp
  obtain ⟨anchor, parts⟩ := p
  obtain ⟨anchor', parts'⟩ := q
  cases hanchor
  cases hparts.eq_of_length_le hparts'.length_le
  rfl

theorem parent_child (p : Place) (name : String) : (p.child name).parent = p := by
  obtain ⟨anchor, parts⟩ := p
  cases anchor <;> simp [parent, child]

/-- The parent of a place is around it, or has no parts. -/
theorem parent_holds_or (p : Place) : p.parent.holds p = true ∨ p.parent.parts = [] := by
  obtain ⟨anchor, parts⟩ := p
  cases anchor with
  | root => exact .inl (holds_iff.mpr ⟨rfl, List.dropLast_prefix parts⟩)
  | above levels =>
    cases parts with
    | nil => exact .inr rfl
    | cons part parts => exact .inl (holds_iff.mpr ⟨rfl, List.dropLast_prefix _⟩)

/-- What is around a child is around its parent, the child apart. -/
theorem holds_child_iff {name : String} : q.holds (p.child name) = true ↔ q.holds p = true ∨
    q = p.child name := by
  obtain ⟨anchor, parts⟩ := p
  obtain ⟨anchor', parts'⟩ := q
  simp [holds_iff, child, List.prefix_concat_iff, and_or_left, or_comm]

end Place

namespace FileTree

variable {tree : FileTree} {place : Place}

/-- No file stands where there is a directory. -/
def Sound (tree : FileTree) : Prop := ∀ entry ∈ tree.files, tree.isDirectory entry.1 = false

instance (tree : FileTree) : Decidable tree.Sound :=
  inferInstanceAs (Decidable (∀ entry ∈ tree.files, tree.isDirectory entry.1 = false))

theorem mem_of_file? {bytes : List UInt8} (h : tree.file? place = some bytes) :
    (place, bytes) ∈ tree.files := by
  obtain ⟨before, after, hfiles, -⟩ := List.lookup_eq_some_iff.mp h
  rw [hfiles]
  exact List.mem_append_right _ List.mem_cons_self

theorem Sound.isDirectory_eq_false {bytes : List UInt8} (htree : tree.Sound)
    (h : tree.file? place = some bytes) :
    tree.isDirectory place = false := htree _ (mem_of_file? h)

theorem isDirectory_iff : tree.isDirectory place = true ↔
    place.parts = [] ∨ (∃ directory ∈ tree.directories, place.holds directory = true) ∨
      ∃ entry ∈ tree.files, place.holds entry.1 = true ∧ place ≠ entry.1 := by
  simp [isDirectory, or_assoc]

/-- What is around a directory is a directory. -/
theorem isDirectory_of_holds {outer : Place} (houter : outer.holds place = true)
    (h : tree.isDirectory place = true) : tree.isDirectory outer = true := by
  rw [isDirectory_iff] at h ⊢
  rcases h with hempty | ⟨directory, hmem, hin⟩ | ⟨entry, hmem, hin, hne⟩
  · obtain ⟨-, hparts⟩ := Place.holds_iff.mp houter
    rw [hempty, List.prefix_nil] at hparts
    exact .inl hparts
  · exact .inr (.inl ⟨directory, hmem, Place.holds_trans houter hin⟩)
  · refine .inr (.inr ⟨entry, hmem, Place.holds_trans houter hin, ?_⟩)
    rintro rfl
    exact hne (Place.holds_antisymm hin houter)

theorem isDirectory_parent (h : tree.isDirectory place = true) :
    tree.isDirectory place.parent = true := by
  rcases place.parent_holds_or with hin | hempty
  · exact isDirectory_of_holds hin h
  · exact isDirectory_iff.mpr (.inl hempty)

theorem bind_eq_ok {α β : Type} {x : Except OpenError α} {f : α → Except OpenError β} {b : β}
    (h : x >>= f = .ok b) : ∃ a, x = .ok a ∧ f a = .ok b := by
  cases x with
  | error reason => cases h
  | ok a => exact ⟨a, rfl, h⟩

/-- A step ends at the parent of the directory or at one of its children. -/
theorem enter_eq_ok {part : String} {next : Place} (h : tree.enter place part = .ok next) :
    tree.isDirectory place = true ∧ (next = place.parent ∨ next = place.child part) := by
  unfold enter at h
  split at h
  · cases h
  · next hdirectory =>
    refine ⟨by simpa using hdirectory, ?_⟩
    split at h
    · cases h
      exact .inl rfl
    · split at h
      · cases h
      · split at h
        · cases h
          exact .inr rfl
        · cases h

theorem enter_eq_missing {part : String} (h : tree.enter place part = .error .missing) :
    tree.isDirectory place = true ∧ tree.file? (place.child part) = none := by
  unfold enter at h
  split at h
  · cases h
  · next hdirectory =>
    refine ⟨by simpa using hdirectory, ?_⟩
    split at h
    · cases h
    · split at h
      · cases h
      · split at h
        · cases h
        · next hnone => simp_all

/-! ## Trees that are made -/

/-- In a sound tree no file is around the child of a directory, the child apart. -/
theorem Sound.eq_child {entry : Place × List UInt8} {name : String} (htree : tree.Sound)
    (hmem : entry ∈ tree.files) (hdirectory : tree.isDirectory place = true)
    (h : entry.1.holds (place.child name) = true) : entry.1 = place.child name := by
  rcases Place.holds_child_iff.mp h with hin | heq
  · have hnot := htree entry hmem
    rw [isDirectory_of_holds hin hdirectory] at hnot
    cases hnot
  · exact heq

/-- A file may be added in a directory, where there is none of that name. -/
theorem Sound.insert {name : String} (htree : tree.Sound)
    (hdirectory : tree.isDirectory place = true)
    (hfree : tree.isDirectory (place.child name) = false) (bytes : List UInt8) :
    (tree.insert (place.child name) bytes).Sound := by
  have hbefore : ∀ other, (tree.insert (place.child name) bytes).isDirectory other = true →
      tree.isDirectory other = true ∨ other.holds (place.child name) = true ∧
      other ≠ place.child name := by
    intro other h
    rcases isDirectory_iff.mp h with hempty | hmade | ⟨entry, hmem, hin, hne⟩
    · exact .inl (isDirectory_iff.mpr (.inl hempty))
    · exact .inl (isDirectory_iff.mpr (.inr (.inl hmade)))
    · rcases List.mem_cons.mp hmem with rfl | hold
      · exact .inr ⟨hin, hne⟩
      · exact .inl
          (isDirectory_iff.mpr (.inr (.inr ⟨entry, (List.mem_filter.mp hold).1, hin, hne⟩)))
  intro entry hmem
  refine Bool.eq_false_iff.mpr fun h => ?_
  rcases List.mem_cons.mp hmem with rfl | hold
  · rcases hbefore _ h with h | ⟨-, hne⟩
    · rw [hfree] at h
      cases h
    · exact hne rfl
  · obtain ⟨hold, -⟩ := List.mem_filter.mp hold
    rcases hbefore _ h with h | ⟨hin, hne⟩
    · rw [htree entry hold] at h
      cases h
    · exact hne (htree.eq_child hold hdirectory hin)

theorem Sound.write {path : Path} {bytes : List UInt8} {next : FileTree} (htree : tree.Sound)
    (h : tree.write path bytes = .ok next) : next.Sound := by
  unfold FileTree.write at h
  obtain ⟨-, -, h⟩ := bind_eq_ok h
  split at h
  · cases h
  · obtain ⟨place, -, h⟩ := bind_eq_ok h
    split at h
    · cases h
    · next hdirectory =>
      split at h
      · cases h
      · split at h
        · cases h
        · next hfree =>
          cases h
          simp only [Bool.or_eq_true, not_or, Bool.not_eq_true] at hfree
          exact htree.insert (by simpa using hdirectory) hfree.2 bytes

/-- A directory may be made in a directory, where there is no file of that name. -/
theorem Sound.makeChild {name : String} (htree : tree.Sound)
    (hdirectory : tree.isDirectory place = true) (hfree : tree.file? (place.child name) = none) :
    { tree with directories := place.child name :: tree.directories }.Sound := by
  intro entry hmem
  refine Bool.eq_false_iff.mpr fun h => ?_
  have hbefore : tree.isDirectory entry.1 = true ∨ entry.1.holds (place.child name) = true := by
    rcases isDirectory_iff.mp h with hempty | ⟨directory, hmade, hin⟩ | hfile
    · exact .inl (isDirectory_iff.mpr (.inl hempty))
    · rcases List.mem_cons.mp hmade with rfl | hold
      · exact .inr hin
      · exact .inl (isDirectory_iff.mpr (.inr (.inl ⟨directory, hold, hin⟩)))
    · exact .inl (isDirectory_iff.mpr (.inr (.inr hfile)))
  rcases hbefore with h | hin
  · rw [htree entry hmem] at h
    cases h
  · have hne := List.lookup_eq_none_iff.mp hfree entry hmem
    rw [htree.eq_child hmem hdirectory hin] at hne
    simp at hne

theorem Sound.enterMaking {part : String} {last : Bool} {next : FileTree × Place}
    (htree : tree.Sound) (h : enterMaking (tree, place) part last = .ok next) : next.1.Sound := by
  unfold FileTree.enterMaking at h
  cases henter : tree.enter place part with
  | ok inner =>
    simp only [henter] at h
    split at h
    · cases h
    · cases h
      exact htree
  | error reason =>
    simp only [henter] at h
    cases reason with
    | missing =>
      cases h
      obtain ⟨hdirectory, hfree⟩ := enter_eq_missing henter
      exact htree.makeChild hdirectory hfree
    | _ => cases h

theorem Sound.makeAlong {parts : List String} {state next : FileTree × Place}
    (htree : state.1.Sound) (h : makeAlong state parts = .ok next) : next.1.Sound := by
  induction parts generalizing state with
  | nil =>
    cases h
    exact htree
  | cons part parts ih =>
    obtain ⟨inner, hinner, hrest⟩ := bind_eq_ok h
    exact ih (htree.enterMaking hinner) hrest

/-- Files put into a sound tree leave it sound. -/
theorem Sound.put {path : Path} {bytes : List UInt8} {next : FileTree} (htree : tree.Sound)
    (h : tree.put path bytes = .ok next) : next.Sound := by
  obtain ⟨around, haround, hwrite⟩ := bind_eq_ok h
  obtain ⟨-, -, hmake⟩ := bind_eq_ok haround
  obtain ⟨state, hstate, hend⟩ := bind_eq_ok hmake
  cases hend
  exact (htree.makeAlong hstate).write hwrite

/-! ## Following paths -/

variable {path file other : Path}

/-- A longer path is followed from where the shorter one leads. -/
theorem resolve_append (tree : FileTree) (root : Nat) (parts more : List String) :
    tree.resolve ⟨root, parts ++ more⟩ = tree.resolve ⟨root, parts⟩ >>= fun place =>
      more.foldlM tree.enter place :=
  List.foldlM_append

/-- The directory of a file is reached through the path around it. -/
theorem resolve_parent {bytes : List UInt8} (htree : tree.Sound) (h : tree.resolve path = .ok place)
    (hfile : tree.file? place = some bytes) : tree.resolve path.parent = .ok place.parent := by
  have hnot := htree.isDirectory_eq_false hfile
  obtain ⟨root, parts⟩ := path
  rcases List.eq_nil_or_concat parts with rfl | ⟨around, last, hparts⟩
  · cases h
    rw [isDirectory_iff.mpr (.inl rfl)] at hnot
    cases hnot
  · rw [List.concat_eq_append] at hparts
    subst hparts
    have hparent : Path.parent ⟨root, around ++ [last]⟩ = ⟨root, around⟩ := by simp [Path.parent]
    rw [hparent]
    rw [resolve_append] at h
    cases haround : tree.resolve ⟨root, around⟩ with
    | error reason =>
      rw [haround] at h
      cases h
    | ok directory =>
      have hlast : tree.enter directory last = .ok place := by
        rw [haround] at h
        change tree.enter directory last >>= pure = _ at h
        rwa [bind_pure] at h
      obtain ⟨hdirectory, rfl | rfl⟩ := enter_eq_ok hlast
      · rw [isDirectory_parent hdirectory] at hnot
        cases hnot
      · rw [Place.parent_child]

/-- A name leads to the same place from every spelling of the file that gives it. -/
theorem resolve_relativeTo {bytes : List UInt8} (htree : tree.Sound)
    (hplace : tree.file? place = some bytes) (hfile : tree.resolve file = .ok place)
    (hother : tree.resolve other = .ok place) (name : String) :
    tree.resolve (file.relativeTo name) = tree.resolve (other.relativeTo name) := by
  unfold Path.relativeTo Path.join
  split
  · rfl
  · have haround := resolve_parent htree hfile hplace
    rw [← resolve_parent htree hother hplace] at haround
    rw [resolve_append, resolve_append]
    exact congrArg (· >>= _) haround

theorem read_eq_ok {bytes : List UInt8} (h : tree.read path = .ok bytes) :
    ∃ place, tree.resolve path = .ok place ∧ tree.file? place = some bytes := by
  unfold read at h
  obtain ⟨-, -, h⟩ := bind_eq_ok h
  obtain ⟨place, hplace, h⟩ := bind_eq_ok h
  split at h
  · next content hcontent =>
    cases h
    exact ⟨place, hplace, hcontent⟩
  · cases h

end FileTree

end Disassembler
