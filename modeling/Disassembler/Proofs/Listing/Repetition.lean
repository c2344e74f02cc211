import Disassembler.Proofs.Listing.Advance
import Disassembler.Proofs.Listing.Partition

/-!
Listings written again. A writer goes on from where it stopped, while its segments are gone through
from the first one on. After a listing that has succeeded no segment finds anything left to read:
each had been read up to its end, and the cursor never goes back. So every further listing has no
rows and leaves the writer's place, its symbols and its count of unknown instructions as they are.
-/

namespace Disassembler

/-! ## What a listing leaves of its writer -/

namespace Tracer

variable (state : Nat × Tracer)

/-- What a slice gives does not depend on whether anything is recorded. -/
theorem slice_fst {α : Type} {t : Tracer} {track name : String} {annotations : Trace.Annotations}
    {body : Tracer → α × Tracer} {a : α} (h : ∀ u, (body u).1 = a) :
    (t.slice track name annotations body).1 = a := by
  unfold Tracer.slice
  split
  · exact h _
  · exact h _

theorem unknown_row (row : Row) :
    (Tracer.row state row).1 = state.1 + [row].countP Row.isUnknown := by
  cases hbody : row.body with
  | code i =>
    simp only [Tracer.row, hbody]
    refine slice_fst fun u => ?_
    simp only [Tracer.countUnknown, List.countP_singleton]
    split <;> rfl
  | _ => simp [Tracer.row, hbody, Row.isUnknown]

theorem unknown_rows (rows : List Row) :
    (rows.foldl Tracer.row state).1 = state.1 + rows.countP Row.isUnknown := by
  induction rows generalizing state with
  | nil => rfl
  | cons row rows ih =>
    rw [List.foldl_cons, ih, unknown_row, Nat.add_assoc, ← List.countP_append,
      List.singleton_append]

theorem unknown_blocks (blocks : List Block) :
    (blocks.foldl Tracer.block state).1 = state.1 +
      (blocks.flatMap (·.rows)).countP Row.isUnknown := by
  induction blocks generalizing state with
  | nil => rfl
  | cons b blocks ih =>
    have hblock : (Tracer.block state b).1 = state.1 + b.rows.countP Row.isUnknown :=
      slice_fst fun u => unknown_rows (state.1, u) b.rows
    rw [List.foldl_cons, ih, hblock, Nat.add_assoc, ← List.countP_append, List.flatMap_cons]

end Tracer

namespace Writer

variable (l : Listing) (w : Writer)

/-- A listing leaves the place where its pass ends, whether or not it succeeds. -/
theorem spot_render : (w.render l).2.spot = (l.pass l.plan.segments w.spot).spot := by
  obtain ⟨log, hrender⟩ := render_eq l w
  rw [hrender]
  rfl

theorem unknown_render :
    (w.render l).2.unknown =
      w.unknown + (l.pass l.plan.segments w.spot).rows.countP Row.isUnknown := by
  obtain ⟨log, hrender⟩ := render_eq l w
  rw [hrender]
  exact Tracer.unknown_blocks _ _

variable {l w} in
theorem render_of_fault {fault : Fault} (h : (l.pass l.plan.segments w.spot).fault = some fault) :
    (w.render l).1 = .error fault := by
  obtain ⟨log, hrender⟩ := render_eq l w
  simp only [hrender, h]

variable {l w} in
theorem render_of_no_fault (h : (l.pass l.plan.segments w.spot).fault = none) :
    (w.render l).1 = (lines l w (l.pass l.plan.segments w.spot)).map fun lines =>
      listingText l lines (l.pass l.plan.segments w.spot).spot.symbols := by
  obtain ⟨log, hrender⟩ := render_eq l w
  simp only [hrender, h]

def afterRenders : Nat → Writer → Writer
  | 0, w => w
  | n + 1, w => afterRenders n (w.render l).2

variable {l w} in
/-- Listings leave the cursor on the image. -/
theorem afterRenders_at {image : List UInt8} {load : Int} {layout : Layout} {offset : Nat}
    (h : w.spot.cursor.At image load layout offset) (n : Nat) :
    ∃ last, (w.afterRenders l n).spot.cursor.At image load layout last := by
  induction n generalizing w offset with
  | zero => exact ⟨offset, h⟩
  | succ n ih =>
    obtain ⟨_, last, hpass⟩ := Listing.pass_advances (l := l) l.plan.segments h
    have hnext : (w.render l).2.spot.cursor.At image load layout last := by
      rw [spot_render]
      exact hpass.cursor
    exact ih hnext

end Writer

/-! ## Segments with nothing left to read -/

namespace Listing

/-- None of the segments in front of the one that ends the listing has anything left to read at a
place. -/
def Settled : List Segment → Spot → Prop
  | [], _ => True
  | segment :: rest, s =>
    segment.mode.rowKind? = none ∨ s.more (rest.head?.map (·.address)) = false ∧ Settled rest s

section

variable {l : Listing} {image : List UInt8} {load : Int} {layout : Layout} {offset last : Nat}
    {s t : Spot}

/-- A pass over settled segments leaves its place as it is and has no rows. -/
theorem pass_of_settled {segments : List Segment} (h : Settled segments s) :
    (l.pass segments s).spot = s ∧ (l.pass segments s).fault = none ∧
    (l.pass segments s).rows = [] := by
  induction segments with
  | nil => exact ⟨rfl, rfl, rfl⟩
  | cons segment rest ih =>
    cases hkind : segment.mode.rowKind? with
    | none =>
      rw [pass_of_stop hkind]
      exact ⟨rfl, rfl, rfl⟩
    | some kind =>
      obtain ⟨hmore, hrest⟩ := h.resolve_left (by simp [hkind])
      obtain ⟨hspot, hfault, hrows⟩ := ih hrest
      simp only [pass, hkind, scan_of_more_eq_false hmore]
      exact ⟨hspot, hfault, by simpa [Pass.rows, Pass.cons, Stretch.block] using hrows⟩

/-- What has been reached stays behind a cursor that moves on. -/
theorem more_eq_false_of_le {stop : Option Int} (hs : s.cursor.At image load layout offset)
    (ht : t.cursor.At image load layout last) (hle : offset ≤ last) (h : s.more stop = false) :
    t.more stop = false := by
  have hinside := ht.inside
  rw [more_eq_false_iff hs] at h
  refine (more_eq_false_iff ht).mpr ?_
  rcases h with hend | ⟨a, ha, hreached⟩
  · exact .inl (by omega)
  · exact .inr ⟨a, ha, by omega⟩

/-- A pass without a fault settles its segments. -/
theorem settled_of_pass {segments : List Segment} (hs : s.cursor.At image load layout offset)
    (hfault : (l.pass segments s).fault = none) : Settled segments (l.pass segments s).spot := by
  induction segments generalizing s offset with
  | nil => trivial
  | cons segment rest ih =>
    cases hkind : segment.mode.rowKind? with
    | none => exact .inl hkind
    | some kind =>
      obtain ⟨hscan, hpass⟩ := pass_of_kind hkind hfault
      rw [hpass] at hfault ⊢
      obtain ⟨middle, -, hmiddle, hdone, -⟩ := scan_tiles hs hscan
      -- the segment was read up to its end, and the rest of the pass has not gone back behind it
      obtain ⟨_, last, hrest⟩ := pass_advances (l := l) rest hmiddle
      exact .inr ⟨more_eq_false_of_le hmiddle hrest.cursor hrest.forward hdone, ih hmiddle hfault⟩

end

end Listing

namespace Writer

variable {l : Listing} {w : Writer}

/-- A listing of settled segments succeeds if there are segments at all. -/
theorem render_of_settled {start : Int} (hstart : l.plan.start = .ok start)
    (h : Listing.Settled l.plan.segments w.spot) :
    (w.render l).2.spot = w.spot ∧ (w.render l).2.unknown = w.unknown ∧
      ∃ lines, Writer.lines l w (l.pass l.plan.segments w.spot) = .ok lines ∧
        Listing.rowsOf lines = [] ∧ (w.render l).1 = .ok (listingText l lines w.spot.symbols) := by
  obtain ⟨hspot, hfault, hrows⟩ := Listing.pass_of_settled (l := l) h
  have hlines : Writer.lines l w (l.pass l.plan.segments w.spot) =
      .ok (l.lines w.spot.cursor.size start w.spot.symbols
        (l.pass l.plan.segments w.spot).blocks) := by
    simp only [Writer.lines, hstart, bind, Except.bind, pure, Except.pure]
  refine ⟨by rw [spot_render, hspot], by rw [unknown_render, hrows]; rfl, _, hlines, ?_, ?_⟩
  · rw [Writer.rowsOf_lines hlines, hrows]
  · rw [render_of_no_fault hfault, hlines, hspot]
    rfl

/-- Once its segments are settled, a writer stays as it is through any number of listings. -/
theorem afterRenders_of_settled {start : Int} (hstart : l.plan.start = .ok start)
    (h : Listing.Settled l.plan.segments w.spot) (n : Nat) :
    (w.afterRenders l n).spot = w.spot ∧ (w.afterRenders l n).unknown = w.unknown := by
  induction n generalizing w with
  | zero => exact ⟨rfl, rfl⟩
  | succ n ih =>
    obtain ⟨hspot, hunknown, -⟩ := render_of_settled hstart h
    obtain ⟨hspots, hunknowns⟩ := ih (hspot.symm ▸ h)
    exact ⟨hspots.trans hspot, hunknowns.trans hunknown⟩

theorem listingText_eq_append (l : Listing) (lines : List Line) (symbols : SymbolTable) :
    ∃ front, listingText l lines symbols = front ++ symbols.report := ⟨_, rfl⟩

end Writer

/-- Listings written again record nothing. For every machine, plan and image, if the first listing
of a new writer succeeds, then so does every later one. It has no rows, and it leaves the cursor,
the symbols and the number of unknown instructions as the first one left them, so that all of them
end with the same report on the references. -/
theorem render_repeated {l : Listing} {image : List UInt8} {symbols : SymbolTable} {tracer : Tracer}
    {w : Writer} {text : String} (hw : l.writer image symbols tracer = .ok w)
    (hrender : (w.render l).1 = .ok text) (n : Nat) :
    let first := (w.render l).2
    let later := first.afterRenders l n
    ∃ again lines, (later.render l).1 = .ok again ∧
      Writer.lines l later (l.pass l.plan.segments later.spot) = .ok lines ∧
      again = Writer.listingText l lines first.spot.symbols ∧ Listing.rowsOf lines = [] ∧
      (later.render l).2.spot = first.spot ∧ (later.render l).2.unknown = first.unknown ∧
      (∃ front, text = front ++ first.spot.symbols.report) ∧
        ∃ front, again = front ++ first.spot.symbols.report := by
  intro first later
  obtain ⟨start, hstart, hcursor, -⟩ := Listing.writer_eq_ok hw
  obtain ⟨hfault, hspot, firstLines, -, htext⟩ := Writer.render_eq_ok hrender
  have hsettled : Listing.Settled l.plan.segments first.spot := by
    show Listing.Settled _ (w.render l).2.spot
    rw [hspot]
    exact Listing.settled_of_pass (l.arch.cursor_at hcursor).1 hfault
  obtain ⟨hsame, hcount⟩ := Writer.afterRenders_of_settled hstart hsettled n
  obtain ⟨hlater, hunknown, lines, hlines, hrows, hagain⟩ :=
    Writer.render_of_settled hstart (show Listing.Settled _ later.spot from hsame.symm ▸ hsettled)
  rw [show later.spot = first.spot from hsame] at hlater hagain
  refine ⟨_, lines, hagain, hlines, rfl, hrows, hlater, hunknown.trans hcount, ?_, ?_⟩
  · rw [htext]
    exact Writer.listingText_eq_append l firstLines _
  · exact Writer.listingText_eq_append l lines _

/-- The third listing of an image that ends behind the segment where the plan ends the listing. One
instruction is unknown, and another one reaches into the words after it. -/
theorem render_repeated_third :
    let segments : List Segment :=
      [⟨0x1000, .code, none⟩, ⟨0x1003, .words, none⟩, ⟨0x1006, .stop, none⟩, ⟨0x1006, .bytes, none⟩]
    let l : Listing := { arch := Mos6502.arch, plan := { segments } }
    let image : List UInt8 := [0x02, 0xAD, 0x00, 0x20, 0x34, 0x12, 0x56, 0x78]
    let w : Writer := { spot := ⟨Cursor.start ⟨.byte, .little, 3⟩ image 0x1000, {}⟩ }
    let first := (w.render l).2
    let third := (first.afterRenders l 1).render l
    l.writer image {} = .ok w ∧ (first.spot.cursor.addr, first.unknown) = (0x1006, 1) ∧
      (first.spot.symbols.references 0x2000).map (·.source) = [0x1001] ∧
      (first.spot.symbols.references 0x1234).map (·.source) = [0x1004] ∧
      (∃ text, (w.render l).1 = .ok text) ∧ (∃ again, third.1 = .ok again) ∧
      third.2.spot = first.spot ∧ third.2.unknown = 1 := by
  intro segments l image w first third
  have hw : l.writer image {} = .ok w := rfl
  have hrender : (w.render l).1.isOk = true := by decide +kernel
  have hunknown : (first.spot.cursor.addr, first.unknown) = (0x1006, 1) := by decide +kernel
  cases htext : (w.render l).1 with
  | error fault => rw [htext] at hrender; cases hrender
  | ok text =>
    obtain ⟨again, _, hagain, -, -, -, hspot, hcount, -⟩ := render_repeated hw htext 1
    exact ⟨hw, hunknown, by decide +kernel, by decide +kernel, ⟨text, rfl⟩, ⟨again, hagain⟩, hspot,
      hcount.trans (congrArg Prod.snd hunknown)⟩

end Disassembler
