import Disassembler.Proofs.Plan.Inlining
import Disassembler.Proofs.Plan.Places
import Disassembler.Proofs.Symbol.Labels

/-!
Nested includes. A load reads a bounded number of files. It goes through every include line it
meets, so where it succeeds no chain of nested includes is longer than the bound on the nesting; a
file that includes itself, under whatever spelling and through whatever other files, has chains of
any length. A load that stops for the nesting has met a chain beyond the bound.
-/

namespace Disassembler

/-- A file includes another one: a line outside notes names it. -/
def Files.Embeds (files : Files) (file other : Path) : Prop :=
  ∃ lines, files.lines? file = some lines ∧ ∃ name ∈ embeddedNames false lines,
    other = file.relativeTo name

/-- A chain of `n` nested includes leads from one file to another. -/
inductive Nested (files : Files) : Nat → Path → Path → Prop where
  | refl {file : Path} : Nested files 0 file file
  | head {n : Nat} {file inner last : Path} (hembeds : files.Embeds file inner)
      (hrest : Nested files n inner last) :
      Nested files (n + 1) file last

theorem Nested.trans {files : Files} {m n : Nat} {file middle last : Path}
    (hfirst : Nested files m file middle) (hsecond : Nested files n middle last) :
    Nested files (m + n) file last := by
  induction hfirst with
  | refl => rwa [Nat.zero_add]
  | head hembeds _ ih =>
    rw [Nat.add_right_comm]
    exact .head hembeds (ih hsecond)

namespace Loader

/-! ## Actions within one file -/

/-- The action reads no file and does not fail for the nesting. -/
def Inside {α : Type} (m : Loader α) : Prop :=
  ∀ s, (Action.outcome (m s)).2.plan.sources = s.plan.sources ∧
    ∀ file, (Action.outcome (m s)).1 ≠ .error (.includesTooDeep file)

section

variable {α β : Type}

theorem inside_pure (a : α) : Inside (pure a) := fun _ => ⟨rfl, fun _ h => by cases h⟩

theorem inside_throw {fault : Fault} (h : ∀ file, fault ≠ .includesTooDeep file) :
    Inside (throw fault : Loader α) :=
  fun _ => ⟨rfl, fun file heq => h file (Except.error.inj heq)⟩

theorem inside_modify {f : Loading → Loading} (h : ∀ s, (f s).plan.sources = s.plan.sources) :
    Inside (modify f : Loader Unit) :=
  fun s => ⟨h s, fun _ h => by cases h⟩

theorem Inside.bind {m : Loader α} {f : α → Loader β} (hm : Inside m) (hf : ∀ a, Inside (f a)) :
    Inside (m >>= f) := by
  intro s
  obtain ⟨hsources, hfault⟩ := hm s
  cases h : m s with
  | error fault t =>
    rw [Action.bind_of_error _ h]
    rw [h] at hsources hfault
    exact ⟨hsources, fun file heq => hfault file (congrArg Except.error (Except.error.inj heq))⟩
  | ok a t =>
    rw [Action.bind_of_ok _ h]
    rw [h] at hsources
    obtain ⟨hrest, hfaults⟩ := hf a t
    exact ⟨hrest.trans hsources, hfaults⟩

theorem inside_get : Inside (get : Loader Loading) := fun _ => ⟨rfl, fun _ h => by cases h⟩

theorem inside_say (events : List Event) : Inside (say events) := inside_modify fun _ => rfl

theorem inside_onPlan {f : Plan → Plan} (h : ∀ plan, (f plan).sources = plan.sources) :
    Inside (onPlan f) :=
  inside_modify fun s => h s.plan

theorem inside_autoLabel (address : Int) : Inside (autoLabel address) :=
  inside_get.bind fun _ => (inside_say _).bind fun _ => inside_modify fun _ => rfl

end

section

variable (file : Path) (n : Nat)

theorem inside_bindLabel (address : Int) (name : String) :
    Inside (bindLabel file n address name) := by
  refine inside_get.bind fun s => ?_
  cases hbind : s.symbols.bind address name with
  | ok symbols => exact (inside_say _).bind fun _ => inside_modify fun _ => rfl
  | error fault =>
    obtain ⟨existing, -, -, rfl⟩ := SymbolTable.bind_eq_error_iff.mp hbind
    exact inside_throw fun _ h => by cases h

theorem inside_addComment {get : Plan → Comments} {put : Comments → Plan → Plan}
    (hput : ∀ comments plan, (put comments plan).sources = plan.sources) (address : Int)
    (text : String) : Inside (addComment get put file n address text) := by
  intro s
  unfold addComment
  split
  · split
    · exact ⟨rfl, fun _ h => by cases h⟩
    · exact ⟨hput _ _, fun _ h => by cases h⟩
  · exact ⟨rfl, fun _ h => by cases h⟩

theorem Composed.inside {α : Type} {m : Path → Nat → Loader α} (h : Composed m) :
    Inside (m file n) := by
  induction h with
  | pure a => exact inside_pure a
  | throw hfault => exact inside_throw (hfault file n)
  | bind _ _ hm hf => exact hm.bind hf
  | say events => exact inside_say _
  | autoLabel address => exact inside_autoLabel address
  | bindLabel address name => exact inside_bindLabel file n address name
  | lineComment address text => exact inside_addComment file n (by intro _ _; rfl) address text
  | blockComment address text => exact inside_addComment file n (by intro _ _; rfl) address text
  | setRange low high => exact inside_modify fun _ => rfl
  | segment segment => exact inside_onPlan fun _ => rfl
  | terminator value => exact inside_onPlan fun _ => rfl
  | inputFile name => exact inside_onPlan fun _ => rfl

end

section

variable {embed : Path → Loader Unit} {files : Files} {file deep : Path} {n levels width : Nat}
    {raw : List Char}
  {lines rest : List (List Char)} {note : Option OpenNote} {s t : Loading}

theorem inside_readText (files : Files) (file : Path) : Inside (readText files file) := by
  unfold readText
  refine Inside.bind ?_ fun bytes => ?_
  · cases files file with
    | ok bytes => exact inside_pure bytes
    | error reason => exact inside_throw fun _ h => by cases h
  · cases String.fromUTF8? ⟨bytes.toArray⟩ with
    | some text => exact inside_pure _
    | none => exact inside_throw fun _ h => by cases h

/-! ## What lines and files lead to -/

/-- How the first of some lines is read: a line that includes nothing fails or is passed, in the
same file; an include line fails where the file that it names does, or is passed after that file. -/
inductive FirstRead (embed : Path → Loader Unit) (file : Path) (n : Nat) (raw : List Char)
    (rest : List (List Char)) (note : Option OpenNote) (s : Loading) : Prop where
  | failed (fault : Fault) (t : Loading) (hsources : t.plan.sources = s.plan.sources)
      (hfault : ∀ file, fault ≠ .includesTooDeep file) (hraw : embedded? note.isSome raw = none)
      (heq : readLines embed file n (raw :: rest) note s = .error fault t)
  | passed (after : Option OpenNote) (u : Loading) (hsources : u.plan.sources = s.plan.sources)
      (hraw : embedded? note.isSome raw = none) (hafter : after.isSome = noteAfter note.isSome raw)
      (heq : readLines embed file n (raw :: rest) note s =
        readLines embed file (n + 1) rest after u)
  | failedInside (name : String) (u : Loading) (fault : Fault) (t : Loading)
      (hsources : u.plan.sources = s.plan.sources) (hraw : embedded? note.isSome raw = some name)
      (hembed : embed (file.relativeTo name) u = .error fault t)
      (heq : readLines embed file n (raw :: rest) note s = .error fault t)
  | included (name : String) (u v : Loading) (hsources : u.plan.sources = s.plan.sources)
      (hraw : embedded? note.isSome raw = some name)
      (hembed : embed (file.relativeTo name) u = .ok () v)
      (heq : readLines embed file n (raw :: rest) note s = readLines embed file (n + 1) rest none v)

theorem firstRead (embed : Path → Loader Unit) (file : Path) (n : Nat) (raw : List Char)
    (rest : List (List Char)) (note : Option OpenNote) (s : Loading) :
    FirstRead embed file n raw rest note s := by
  cases hraw : embedded? note.isSome raw with
  | none =>
    obtain ⟨hsources, hfault⟩ := (Composed.readLine raw note).inside file n s
    have hcons : readLines embed file n (raw :: rest) note =
        readLine file n raw note >>= readLines embed file (n + 1) rest :=
          readLines_cons_of_none hraw
    cases hline : readLine file n raw note s with
    | error fault t =>
      rw [hline] at hsources hfault
      refine .failed fault t hsources
        (fun deep heq => hfault deep (congrArg Except.error heq)) hraw ?_
      rw [hcons, Action.bind_of_error _ hline]
    | ok after u =>
      rw [hline] at hsources
      refine .passed after u hsources hraw (isSome_of_readLine hline) ?_
      rw [hcons, Action.bind_of_ok _ hline]
  | some name =>
    obtain ⟨events, hcons⟩ : ∃ events, readLines embed file n (raw :: rest) note =
        (do say events; embed (file.relativeTo name); readLines embed file (n + 1) rest none) :=
      readLines_cons_of_some hraw
    obtain ⟨u, hsay, hsources⟩ : ∃ u, say events s = .ok () u ∧ u.plan.sources = s.plan.sources :=
      ⟨_, rfl, rfl⟩
    cases hembed : embed (file.relativeTo name) u with
    | error fault t =>
      refine .failedInside name u fault t hsources hraw hembed ?_
      rw [hcons, Action.bind_of_ok _ hsay, Action.bind_of_error _ hembed]
    | ok _ v =>
      refine .included name u v hsources hraw hembed ?_
      rw [hcons, Action.bind_of_ok _ hsay, Action.bind_of_ok _ hembed]

theorem embeddedNames_cons_of_none (h : embedded? note.isSome raw = none) :
    embeddedNames note.isSome (raw :: rest) = embeddedNames (noteAfter note.isSome raw) rest := by
  simp [embeddedNames, h]

theorem embeddedNames_cons_of_some {name : String} (h : embedded? note.isSome raw = some name) :
    embeddedNames note.isSome (raw :: rest) = name :: embeddedNames false rest := by
  simp [embeddedNames, h, (noteAfter_of_embedded? h).2]

/-- Where lines could be read, so could each file that they include. -/
theorem embed_eq_ok_of_mem {name : String} (h : readLines embed file n lines note s = .ok () t)
    (hname : name ∈ embeddedNames note.isSome lines) :
    ∃ u v, embed (file.relativeTo name) u = .ok () v := by
  induction lines generalizing n note s with
  | nil => cases hname
  | cons raw rest ih =>
    cases firstRead embed file n raw rest note s with
    | failed fault t' _ _ _ heq =>
      rw [heq] at h
      cases h
    | passed after u _ hraw hafter heq =>
      rw [embeddedNames_cons_of_none hraw, ← hafter] at hname
      exact ih (heq ▸ h) hname
    | failedInside name' u fault t' _ _ _ heq =>
      rw [heq] at h
      cases h
    | included name' u v _ hraw hembed heq =>
      rw [embeddedNames_cons_of_some hraw] at hname
      rcases List.mem_cons.mp hname with rfl | hrest
      · exact ⟨u, v, hembed⟩
      · rw [heq] at h
        exact ih h hrest

/-- Lines that fail for the nesting include a file that does. -/
theorem embed_tooDeep_of_readLines
    (h : readLines embed file n lines note s = .error (.includesTooDeep deep) t) :
    ∃ name ∈ embeddedNames note.isSome lines, ∃ u,
      embed (file.relativeTo name) u = .error (.includesTooDeep deep) t := by
  induction lines generalizing n note s with
  | nil => cases note <;> cases h
  | cons raw rest ih =>
    cases firstRead embed file n raw rest note s with
    | failed fault t' _ hfault _ heq =>
      rw [heq] at h
      cases h
      exact absurd rfl (hfault deep)
    | passed after u _ hraw hafter heq =>
      obtain ⟨name, hname, hdeep⟩ := ih (heq ▸ h)
      rw [hafter] at hname
      exact ⟨name, embeddedNames_cons_of_none hraw ▸ hname, hdeep⟩
    | failedInside name u fault t' _ hraw hembed heq =>
      rw [heq] at h
      cases h
      exact ⟨name, embeddedNames_cons_of_some hraw ▸ List.mem_cons_self, u, hembed⟩
    | included name u v _ hraw hembed heq =>
      obtain ⟨name', hname, hdeep⟩ := ih (heq ▸ h)
      exact ⟨name', embeddedNames_cons_of_some hraw ▸ List.mem_cons_of_mem _ hname, hdeep⟩

/-- The files read on the way through lines, where each include leads to at most `bound` of them. -/
theorem readLines_sources {bound : Nat}
    (hembed : ∀ path u, (Action.outcome (embed path u)).2.plan.sources.length ≤
      u.plan.sources.length + bound) :
    (Action.outcome (readLines embed file n lines note s)).2.plan.sources.length ≤
      s.plan.sources.length + (embeddedNames note.isSome lines).length * bound := by
  induction lines generalizing n note s with
  | nil => cases note <;> exact Nat.le_add_right _ _
  | cons raw rest ih =>
    cases firstRead embed file n raw rest note s with
    | failed fault t' hsources _ _ heq =>
      rw [heq, ← hsources]
      exact Nat.le_add_right _ _
    | passed after u hsources hraw hafter heq =>
      rw [heq, embeddedNames_cons_of_none hraw, ← hafter, ← hsources]
      exact ih
    | failedInside name u fault t' hsources hraw hfail heq =>
      have hinner := hembed (file.relativeTo name) u
      rw [hfail, hsources] at hinner
      rw [heq, embeddedNames_cons_of_some hraw, List.length_cons, Nat.succ_mul]
      exact Nat.le_trans hinner (by omega)
    | included name u v hsources hraw hok heq =>
      have hinner := hembed (file.relativeTo name) u
      rw [hok, hsources] at hinner
      have hrest :
          (Action.outcome (readLines embed file (n + 1) rest none v)).2.plan.sources.length ≤
          v.plan.sources.length + (embeddedNames false rest).length * bound := ih
      rw [heq, embeddedNames_cons_of_some hraw, List.length_cons, Nat.succ_mul]
      change v.plan.sources.length ≤ _ at hinner
      omega

/-- A file that cannot be opened stops a load, for another reason than the nesting; otherwise its
lines are gone through. -/
theorem readFile_succ (files : Files) (levels : Nat) (isIncluded : Bool) (file : Path)
    (s : Loading) :
    (∃ fault, (∀ deep, fault ≠ .includesTooDeep deep) ∧ ∃ t, t.plan.sources = s.plan.sources ∧
      readFile files (levels + 1) isIncluded file s = .error fault t) ∨
    ∃ lines u, files.lines? file = some lines ∧
      readFile files (levels + 1) isIncluded file s =
        readLines (readFile files levels true) file 1 lines none u ∧
      u.plan.sources = s.plan.sources ++ [file] := by
  obtain ⟨hsources, hfault⟩ := inside_readText files file s
  cases htext : readText files file s with
  | error fault t =>
    rw [htext] at hsources hfault
    refine .inl ⟨fault, fun deep heq => hfault deep (congrArg Except.error heq), t, hsources, ?_⟩
    rw [readFile, Action.bind_of_error _ htext]
  | ok text t =>
    rw [htext] at hsources
    rw [readFile, Action.bind_of_ok _ htext]
    exact .inr ⟨Text.lines text, _, lines?_of_readText htext, rfl, congrArg (· ++ [file]) hsources⟩

/-- A load goes through every chain of includes, within the levels that it has. -/
theorem lt_of_readFile {isIncluded : Bool} {last : Path}
    (h : readFile files levels isIncluded file s = .ok () t) (hchain : Nested files n file last) :
    n < levels ∧ (files.lines? last).isSome = true := by
  induction hchain generalizing levels isIncluded s t with
  | refl =>
    obtain ⟨below, lines, u, rfl, hlines, -, -⟩ := readFile_eq_ok h
    exact ⟨Nat.succ_pos below, by rw [hlines]; rfl⟩
  | head hembeds _ ih =>
    obtain ⟨below, lines, u, rfl, hlines, -, hread⟩ := readFile_eq_ok h
    obtain ⟨lines', hlines', name, hname, rfl⟩ := hembeds
    cases hlines.symm.trans hlines'
    obtain ⟨v, w, hinner⟩ := embed_eq_ok_of_mem hread hname
    obtain ⟨hlt, hlast⟩ := ih hinner
    exact ⟨Nat.succ_lt_succ hlt, hlast⟩

/-- A file read too deep is at the end of a chain of as many includes as there are levels. -/
theorem nested_of_readFile {isIncluded : Bool}
    (h : readFile files levels isIncluded file s = .error (.includesTooDeep deep) t) :
    Nested files levels file deep := by
  induction levels generalizing isIncluded file s with
  | zero =>
    cases h
    exact .refl
  | succ levels ih =>
    rcases readFile_succ files levels isIncluded file s with ⟨fault, hfault, t', -, heq⟩
      | ⟨lines, u, hlines, heq, -⟩
    · rw [heq] at h
      cases h
      exact absurd rfl (hfault deep)
    · rw [heq] at h
      obtain ⟨name, hname, v, hinner⟩ := embed_tooDeep_of_readLines h
      exact .head ⟨lines, hlines, name, hname, rfl⟩ (ih hinner)

/-- The most files that a load can read, a file counted each time it is read: `width` includes in
each of them, nested to `levels`. -/
def nodes (width : Nat) : Nat → Nat
  | 0 => 0
  | levels + 1 => 1 + width * nodes width levels

theorem readFile_sources (hwidth : ∀ file lines, files.lines? file = some lines →
      (embeddedNames false lines).length ≤ width) (isIncluded : Bool) (file : Path) (s : Loading) :
    (Action.outcome (readFile files levels isIncluded file s)).2.plan.sources.length ≤
      s.plan.sources.length + nodes width levels := by
  induction levels generalizing isIncluded file s with
  | zero => exact Nat.le_add_right _ _
  | succ levels ih =>
    rcases readFile_succ files levels isIncluded file s with ⟨fault, -, t, hsources, heq⟩
      | ⟨lines, u, hlines, heq, hu⟩
    · rw [heq, ← hsources]
      exact Nat.le_add_right _ _
    · calc
        _ ≤ u.plan.sources.length + (embeddedNames false lines).length * nodes width levels := by
          rw [heq]
          exact readLines_sources (ih true)
        _ ≤ u.plan.sources.length + width * nodes width levels :=
          Nat.add_le_add_left (Nat.mul_le_mul_right _ (hwidth file lines hlines)) _
        _ = s.plan.sources.length + nodes width (levels + 1) := by
          rw [hu, List.length_append, List.length_singleton, nodes, Nat.add_assoc]

end

/-- What a load of a file does after its lines have been read. -/
theorem loadFile_outcome (files : Files) (file : Path) (s : Loading) :
    (Action.outcome (loadFile files file s)).2.plan.sources =
        (Action.outcome (readFile files (maxDepth + 1) false file s)).2.plan.sources ∧
      ∀ deep, (Action.outcome (loadFile files file s)).1 = .error (.includesTooDeep deep) →
        ∃ t, readFile files (maxDepth + 1) false file s = .error (.includesTooDeep deep) t := by
  have hrest : Inside (do
      let plan := (← get : Loading).plan
      if plan.inputFile.isSome then return plan else throw .noInputFile : Loader Plan) := by
    refine inside_get.bind fun u => ?_
    show Inside (if u.plan.inputFile.isSome = true then pure u.plan else throw .noInputFile)
    split
    · exact inside_pure _
    · exact inside_throw fun _ h => by cases h
  unfold loadFile
  cases hread : readFile files (maxDepth + 1) false file s with
  | error fault t =>
    rw [Action.bind_of_error _ hread]
    refine ⟨rfl, fun deep h => ⟨t, ?_⟩⟩
    rw [Except.error.inj h]
  | ok _ t =>
    rw [Action.bind_of_ok _ hread]
    obtain ⟨hsources, hfault⟩ := hrest t
    exact ⟨hsources, fun deep h => absurd h (hfault deep)⟩

end Loader

/-! ## Cycles -/

namespace FileTree

variable {tree : FileTree} {main file other last : Path} {lines : List (List Char)} {n m : Nat}

/-- The most include lines in one file. -/
def fanout (tree : FileTree) : Nat :=
  (tree.files.map fun entry =>
    ((linesOf? entry.2).elim [] (embeddedNames false)).length).max?.getD 0

theorem lines?_eq_some (h : Files.lines? tree.read file = some lines) :
    ∃ place bytes, tree.resolve file = .ok place ∧ tree.file? place = some bytes ∧
      linesOf? bytes = some lines := by
  unfold Files.lines? at h
  split at h
  · next bytes hbytes =>
    obtain ⟨place, hplace, hfile⟩ := read_eq_ok hbytes
    exact ⟨place, bytes, hplace, hfile, h⟩
  · cases h

theorem length_embeddedNames_le (h : Files.lines? tree.read file = some lines) :
    (embeddedNames false lines).length ≤ tree.fanout := by
  obtain ⟨place, bytes, -, hfile, hlines⟩ := lines?_eq_some h
  refine List.le_max?_getD_of_mem (List.mem_map.mpr ⟨(place, bytes), mem_of_file? hfile, ?_⟩)
  rw [hlines]
  rfl

/-- From another spelling of its first file a chain of includes leads to another spelling of its
last one, as long as what the chains lead to can be read: a spelling may be too long for that. -/
theorem exists_nested_of_resolve (htree : tree.Sound)
    (hread : ∀ n last, Nested tree.read n main last → (Files.lines? tree.read last).isSome = true)
    (hother : Nested tree.read m main other) (hsame : tree.resolve other = tree.resolve file)
    (hchain : Nested tree.read n file last) :
    ∃ end', Nested tree.read n other end' ∧ tree.resolve end' = tree.resolve last := by
  induction hchain generalizing m other with
  | refl => exact ⟨other, .refl, hsame⟩
  | @head n file inner last hembeds _ ih =>
    obtain ⟨lines, hlines, name, hname, rfl⟩ := hembeds
    obtain ⟨place, bytes, hplace, hbytes, hof⟩ := lines?_eq_some hlines
    obtain ⟨lines', hlines'⟩ := Option.isSome_iff_exists.mp (hread m other hother)
    obtain ⟨place', bytes', hplace', hbytes', hof'⟩ := lines?_eq_some hlines'
    -- Both spellings lead to one place, so to the same lines.
    cases hplace'.symm.trans (hsame.trans hplace)
    cases hbytes.symm.trans hbytes'
    cases hof.symm.trans hof'
    have hembeds : Files.Embeds tree.read other (other.relativeTo name) :=
      ⟨lines, hlines', name, hname, rfl⟩
    have hnext : tree.resolve (other.relativeTo name) = tree.resolve (file.relativeTo name) :=
      resolve_relativeTo htree hbytes hplace' hplace name
    obtain ⟨end', hend, hresolve⟩ := ih (hother.trans (.head hembeds .refl)) hnext
    exact ⟨end', .head hembeds hend, hresolve⟩

/-- A file that includes itself is at the end of chains of any length. -/
theorem exists_nested_ge {k : Nat} {again : Path} (htree : tree.Sound)
    (hread : ∀ n last, Nested tree.read n main last → (Files.lines? tree.read last).isSome = true)
    (hfile : Nested tree.read n main file) (hcycle : Nested tree.read (k + 1) file again)
    (hsame : tree.resolve again = tree.resolve file) (length : Nat) :
    ∃ m last, length ≤ m ∧ Nested tree.read m main last ∧
      tree.resolve last = tree.resolve file := by
  induction length with
  | zero => exact ⟨n, file, Nat.zero_le n, hfile, rfl⟩
  | succ length ih =>
    obtain ⟨m, last, hlength, hlast, hresolve⟩ := ih
    obtain ⟨next, hnext, hresolve'⟩ := exists_nested_of_resolve htree hread hlast hresolve hcycle
    exact ⟨m + (k + 1), next, by omega, hlast.trans hnext, hresolve'.trans hsame⟩

end FileTree

/-- Loading from a tree of files ends after a bounded number of files. It gives no plan where a file
reached from the main one leads back to itself, by whatever files and spellings; and it fails for
the nesting only at the end of a chain of more than `maxDepth` includes. -/
theorem load_cyclic (tree : FileTree) (htree : tree.Sound) (main : Path) (symbols : SymbolTable) :
    (load tree.read main symbols).2.plan.sources.length ≤
      Loader.nodes tree.fanout (Loader.maxDepth + 1) ∧
    (∀ n k file again place, Nested tree.read n main file → Nested tree.read (k + 1) file again →
      tree.resolve file = .ok place → tree.resolve again = .ok place →
      ∃ fault, (load tree.read main symbols).1 = .error fault) ∧
    ∀ deep, (load tree.read main symbols).1 = .error (.includesTooDeep deep) →
      ∃ n, Loader.maxDepth < n ∧ Nested tree.read n main deep := by
  obtain ⟨hsources, hdeep⟩ := Loader.loadFile_outcome tree.read main { symbols }
  refine ⟨?_, ?_, ?_⟩
  · calc
      _ = _ := congrArg List.length hsources
      _ ≤ 0 + Loader.nodes tree.fanout (Loader.maxDepth + 1) :=
        Loader.readFile_sources (fun _ _ => FileTree.length_embeddedNames_le) false main { symbols }
      _ = _ := Nat.zero_add _
  · intro n k file again place hfile hcycle hplace hagain
    cases hload : load tree.read main symbols with
    | mk result loading =>
      cases result with
      | error fault => exact ⟨fault, rfl⟩
      | ok plan =>
        obtain ⟨hread, -, -⟩ := Loader.loadFile_eq_ok_iff.mp (load_eq_ok_iff.mp hload)
        obtain ⟨m, last, hlong, hlast, -⟩ :=
          FileTree.exists_nested_ge htree (fun _ _ hchain => (Loader.lt_of_readFile hread hchain).2)
            hfile hcycle
            (hagain.trans hplace.symm) (Loader.maxDepth + 1)
        have hshort := (Loader.lt_of_readFile hread hlast).1
        omega
  · intro deep hfault
    obtain ⟨t, hread⟩ := hdeep deep hfault
    exact ⟨_, Nat.lt_succ_self _, Loader.nested_of_readFile hread⟩

/-- Two files that include each other through a directory: the path of the main file grows with
every round. -/
theorem load_cyclic_mutual :
    let main := Path.ofString "main.lst"
    let inner := Path.ofString "sub/inner.lst"
    let put (tree : FileTree) (file : Path) (lines : List String) : FileTree :=
      (tree.put file (written (lines.map String.toList))).toOption.getD {}
    let tree := put (put {} main ["f image.bin", "i sub/inner.lst"]) inner ["i ../main.lst"]
    let again := (main.relativeTo "sub/inner.lst").relativeTo "../main.lst"
    tree.Sound ∧ again ≠ main ∧ Nested tree.read 2 main again ∧
      tree.resolve again = .ok { parts := ["main.lst"] } ∧
      (∃ fault, (load tree.read main {}).1 = .error fault) ∧
      ∃ deep n, (load tree.read main {}).1 = .error (.includesTooDeep deep) ∧ 16 < n ∧
        Nested tree.read n main deep := by
  intro main inner put tree again
  have hput : ∀ (tree : FileTree) file lines, tree.Sound → (put tree file lines).Sound := by
    intro tree file lines htree
    show ((tree.put file _).toOption.getD {}).Sound
    cases h : tree.put file (written (lines.map String.toList)) with
    | error reason => exact fun _ h => (nomatch h)
    | ok next => exact htree.put h
  have htree : tree.Sound := hput _ _ _ (hput _ _ _ fun _ h => (nomatch h))
  have hmain : Files.lines? tree.read main = some ["f image.bin".toList,
    "i sub/inner.lst".toList] := by decide +kernel
  have hinner : Files.lines? tree.read (main.relativeTo "sub/inner.lst") =
      some ["i ../main.lst".toList] := by decide +kernel
  have hchain : Nested tree.read 2 main again :=
    .head ⟨_, hmain, "sub/inner.lst", by decide +kernel, rfl⟩
      (.head ⟨_, hinner, "../main.lst", by decide +kernel, rfl⟩ .refl)
  have hresolve : ∀ path place, (tree.resolve path).toOption = some place →
      tree.resolve path = .ok place := by
    intro path place h
    cases hpath : tree.resolve path with
    | error reason =>
      rw [hpath] at h
      cases h
    | ok found =>
      rw [hpath] at h
      rw [Option.some.inj h]
  have hplace : tree.resolve main = .ok { parts := ["main.lst"] } :=
    hresolve _ _ (by decide +kernel)
  have hagain : tree.resolve again = .ok { parts := ["main.lst"] } :=
    hresolve _ _ (by decide +kernel)
  obtain ⟨-, hcyclic, hdeep⟩ := load_cyclic tree htree main {}
  obtain ⟨deep, hfault⟩ : ∃ deep, (load tree.read main {}).1 = .error (.includesTooDeep deep) := by
    have hdeep : (match (load tree.read main {}).1 with
        | .error (.includesTooDeep _) => true
        | _ => false) = true := by decide +kernel
    split at hdeep
    · next deep hfault => exact ⟨deep, hfault⟩
    · cases hdeep
  obtain ⟨n, hn, hnested⟩ := hdeep deep hfault
  exact ⟨htree, by decide +kernel, hchain, hagain,
    hcyclic 0 1 main again _ .refl hchain hplace hagain, deep, n, hfault, hn, hnested⟩

end Disassembler
