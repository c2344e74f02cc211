import Disassembler.Proofs.Listing.Clock
import Disassembler.Proofs.Listing.Repetition
import Disassembler.Proofs.Plan.Steps

/-!
How often a note is shown. A listing looks for a note in front of every line of code and at the
start of every block of data. The addresses of the lines of code and of the blocks of data that have
rows ascend, so that none of them is met twice. A block of data without rows is different: the next
block stands where it stands, and it shows the note on that address all the same.
-/

namespace Disassembler

def Line.note? : Line → Option (Int × String)
  | note address s => some (address, s)
  | _ => none

def Block.notePlaces (b : Block) : List Int :=
  (if b.kind = .code then [] else [b.start]) ++ (b.rows.filter Row.isCode).map (·.address)

/-- A block of data that has no rows. -/
def Block.isIdle (b : Block) : Bool := b.kind ≠ .code && b.rows.isEmpty

namespace Pass

/-- Where notes are looked for in front of something that is shown. -/
def shownAt (p : Pass) : List Int := (p.blocks.filter fun b => !b.isIdle).flatMap Block.notePlaces

/-- Where notes are looked for in front of nothing. -/
def idleAt (p : Pass) : List Int := (p.blocks.filter Block.isIdle).map (·.start)

theorem shownAt_cons_of_idle {b : Block} (h : b.isIdle = true) (log : List Event) (p : Pass) :
    (cons b log p).shownAt = p.shownAt := by
  simp [shownAt, cons, h]

theorem shownAt_cons_of_shown {b : Block} (h : b.isIdle = false) (log : List Event) (p : Pass) :
    (cons b log p).shownAt = b.notePlaces ++ p.shownAt := by
  simp [shownAt, cons, h]

end Pass

namespace Listing

def notesOf (lines : List Line) : List (Int × String) := lines.filterMap Line.note?

def noteCount (lines : List Line) (address : Int) : Nat :=
  (notesOf lines).countP fun n => n.1 = address

def notesOn (l : Listing) (address : Int) : List (Int × String) :=
  ((l.plan.blockComments.at? address).map fun text => (address, text)).toList

/-! ## Notes in print -/

section

variable (l : Listing) (symbols : SymbolTable)

theorem notesOf_append (xs ys : List Line) : notesOf (xs ++ ys) = notesOf xs ++ notesOf ys :=
  List.filterMap_append

theorem notesOf_noteLines (address : Int) : notesOf (l.noteLines address) = l.notesOn address := by
  unfold noteLines notesOn
  cases l.plan.blockComments.at? address <;> rfl

theorem notesOf_labelLines (address : Int) : notesOf (labelLines symbols address) = [] := by
  unfold labelLines
  cases (symbols.label? address).filter (· ≠ "") <;> rfl

theorem notesOf_rowLines (row : Row) :
    notesOf (l.rowLines symbols row) =
      (([row].filter Row.isCode).map (·.address)).flatMap l.notesOn := by
  cases hbody : row.body with
  | code i =>
    simp only [rowLines, hbody, notesOf_append, notesOf_noteLines, notesOf_labelLines]
    simp [Row.isCode, hbody, notesOf, Line.note?]
  | _ =>
    simp only [rowLines, hbody, notesOf_append, notesOf_labelLines]
    simp [Row.isCode, hbody, notesOf, Line.note?]

theorem notesOf_flatMap_rowLines (rows : List Row) :
    notesOf (rows.flatMap (l.rowLines symbols)) =
      ((rows.filter Row.isCode).map (·.address)).flatMap l.notesOn := by
  induction rows with
  | nil => rfl
  | cons row rows ih =>
    rw [List.flatMap_cons, notesOf_append, notesOf_rowLines, ih, ← List.flatMap_append,
      ← List.map_append, ← List.filter_append, List.singleton_append]

theorem notesOf_blockLines (b : Block) :
    notesOf (l.blockLines symbols b) = b.notePlaces.flatMap l.notesOn := by
  have hheader : notesOf (l.headerLines symbols b) = [] := by
    unfold headerLines
    split <;> rfl
  have hlead : notesOf (l.leadLines b) =
      (if b.kind = .code then [] else [b.start]).flatMap l.notesOn := by
    unfold leadLines
    split
    · rfl
    · rw [notesOf_noteLines, List.flatMap_singleton]
  rw [blockLines, notesOf_append, notesOf_append, hheader, hlead, notesOf_flatMap_rowLines,
    List.nil_append, Block.notePlaces, List.flatMap_append]

theorem notesOf_blocksLines (previous : Option RowKind) (blocks : List Block) :
    notesOf (l.blocksLines symbols previous blocks) =
      (blocks.flatMap Block.notePlaces).flatMap l.notesOn := by
  induction blocks generalizing previous with
  | nil => rfl
  | cons b blocks ih =>
    have hgap : notesOf (gapLines previous b.kind) = [] := by
      unfold gapLines
      split <;> rfl
    rw [blocksLines, notesOf_append, notesOf_append, hgap, notesOf_blockLines, ih, List.nil_append,
      List.flatMap_cons, List.flatMap_append]

/-- The notes of a listing are those on the places where its blocks look for them. -/
theorem notesOf_lines (size : Nat) (start : Int) (blocks : List Block) :
    notesOf (l.lines size start symbols blocks) =
      (blocks.flatMap Block.notePlaces).flatMap l.notesOn := by
  rw [lines, notesOf_append, notesOf_append, notesOf_blocksLines]
  exact List.append_nil _

end

/-! ## Counting -/

section

variable {l : Listing}

theorem at?_of_mem_notesOn {address : Int} {n : Int × String} (h : n ∈ l.notesOn address) :
    l.plan.blockComments.at? n.1 = some n.2 := by
  obtain ⟨text, htext, rfl⟩ := Option.map_eq_some_iff.mp (Option.mem_toList.mp h)
  exact htext

/-- A note that there is shows once for each place where it is looked for. -/
theorem countP_notesOn (l : Listing) (places : List Int) (address : Int) :
    (places.flatMap l.notesOn).countP (fun n => n.1 = address) =
      if (l.plan.blockComments.at? address).isSome then places.count address else 0 := by
  induction places with
  | nil => simp
  | cons place places ih =>
    have hfirst : (l.notesOn place).countP (fun n => n.1 = address) =
        if (l.plan.blockComments.at? address).isSome then
          if place == address then 1 else 0
        else 0 := by
      unfold notesOn
      by_cases hplace : place = address
      · subst hplace
        cases l.plan.blockComments.at? place <;> simp
      · cases l.plan.blockComments.at? place <;> simp [hplace]
    rw [List.flatMap_cons, List.countP_append, ih, hfirst, List.count_cons]
    split
    · exact Nat.add_comm _ _
    · rfl

theorem count_notePlaces (blocks : List Block) (address : Int) :
    (blocks.flatMap Block.notePlaces).count address =
      ((blocks.filter Block.isIdle).map (·.start)).count address +
        ((blocks.filter fun b => !b.isIdle).flatMap Block.notePlaces).count address := by
  induction blocks with
  | nil => rfl
  | cons b blocks ih =>
    rw [List.flatMap_cons, List.count_append, ih]
    cases hidle : b.isIdle with
    | true =>
      have hplaces : b.notePlaces = [b.start] := by
        simp only [Block.isIdle, Bool.and_eq_true, decide_eq_true_eq, List.isEmpty_iff] at hidle
        simp [Block.notePlaces, hidle.1, hidle.2]
      simp only [List.filter_cons, hidle, hplaces, if_true, Bool.not_true, Bool.false_eq_true,
        if_false, List.map_cons, List.count_cons, List.count_nil]
      omega
    | false =>
      simp only [List.filter_cons, hidle, Bool.not_false, Bool.false_eq_true, if_true, if_false,
        List.flatMap_cons, List.count_append]
      omega

end

/-! ## Places in order -/

/-- Lines of code are the rows that are read as code. -/
theorem isCode_nextRow {l : Listing} {kind : RowKind} {stop : Option Int} {s : Spot} {row : Row}
    (h : (l.nextRow kind stop s).result = .ok row) : row.isCode = decide (kind = .code) := by
  rw [← kind_of_nextRow h, Row.isCode]
  cases row.body <;> rfl

theorem isCode_scan (l : Listing) (kind : RowKind) (stop : Option Int) (s : Spot) :
    ∀ row ∈ (l.scan kind stop s).rows, row.isCode = decide (kind = .code) := by
  fun_induction Listing.scan l kind stop s with
  | case1 s hm r fault => simp
  | case2 s hm r row h _ =>
    rename_i ih
    exact List.forall_mem_cons.mpr ⟨isCode_nextRow h, ih⟩
  | case3 s hm => simp

end Listing

section

variable {l : Listing} {image : List UInt8} {load : Int} {layout : Layout} {offset last : Nat}

/-- The addresses of rows that lie side by side ascend. -/
theorem RowTiles.address_ascends {rows : List Row}
    (h : RowTiles l image load layout offset rows last) :
    (rows.map (·.address)).Pairwise (· < ·) ∧
      ∀ row ∈ rows, load + offset ≤ row.address ∧ row.address < load + last := by
  induction h with
  | nil => simp
  | @cons offset last row rows hread hrest ih =>
    obtain ⟨hascends, hbetween⟩ := ih
    have haddress := hread.address
    have hpositive := hread.positive
    have hlength := hrest.length_bytes
    refine ⟨List.pairwise_cons.mpr ⟨fun a ha => ?_, hascends⟩,
      List.forall_mem_cons.mpr ⟨by omega, fun q hq => ?_⟩⟩
    · obtain ⟨q, hq, rfl⟩ := List.mem_map.mp ha
      have hafter := (hbetween q hq).1
      show row.address < q.address
      omega
    · have hafter := hbetween q hq
      omega

/-- Where a block that shows something looks for notes: in ascending order, from its start to its
end. -/
theorem Block.notePlaces_ascend {b : Block} (hstart : b.start = load + offset)
    (htiles : RowTiles l image load layout offset b.rows last)
    (hcode : ∀ row ∈ b.rows, row.isCode = decide (b.kind = .code)) (hshown : b.isIdle = false) :
    b.notePlaces.Pairwise (· < ·) ∧ ∀ a ∈ b.notePlaces, load + offset ≤ a ∧ a < load + last := by
  obtain ⟨hascends, hbetween⟩ := htiles.address_ascends
  by_cases hkind : b.kind = .code
  · have hplaces : b.notePlaces = b.rows.map (·.address) := by
      have hall : b.rows.filter Row.isCode = b.rows :=
        List.filter_eq_self.mpr fun row hrow => by simp [hcode row hrow, hkind]
      simp [notePlaces, hkind, hall]
    rw [hplaces]
    refine ⟨hascends, fun a ha => ?_⟩
    obtain ⟨row, hrow, rfl⟩ := List.mem_map.mp ha
    exact hbetween row hrow
  · have hplaces : b.notePlaces = [b.start] := by
      have hnone : b.rows.filter Row.isCode = [] :=
        List.filter_eq_nil_iff.mpr fun row hrow => by simp [hcode row hrow, hkind]
      simp [notePlaces, hkind, hnone]
    rw [hplaces]
    refine ⟨List.pairwise_singleton _ _, fun a ha => ?_⟩
    rw [List.mem_singleton.mp ha, hstart]
    -- there is a first row, which begins at the start and ends behind it
    cases hrows : b.rows with
    | nil => simp [isIdle, hkind, hrows] at hshown
    | cons row rows =>
      have hfirst := hbetween row (hrows ▸ List.mem_cons_self)
      omega

namespace Listing

/-- In a pass without a fault, notes on what is shown are looked for in ascending order. -/
theorem pass_shownAt {segments : List Segment} {s : Spot}
    (hs : s.cursor.At image load layout offset) (hfault : (l.pass segments s).fault = none) :
    (l.pass segments s).shownAt.Pairwise (· < ·) ∧
    ∀ a ∈ (l.pass segments s).shownAt, load + offset ≤ a := by
  induction segments generalizing s offset with
  | nil => simp [pass, Pass.shownAt]
  | cons segment rest ih =>
    cases hkind : segment.mode.rowKind? with
    | none => simp [pass_of_stop hkind, Pass.shownAt]
    | some kind =>
      obtain ⟨hscan, hpass⟩ := pass_of_kind hkind hfault
      rw [hpass] at hfault ⊢
      obtain ⟨middle, htiles, hmiddle, -, -⟩ := scan_tiles hs hscan
      obtain ⟨hrest, hafter⟩ := ih hmiddle hfault
      have hforward := htiles.length_bytes
      cases hidle :
        ((l.scan kind (rest.head?.map (·.address)) s).block segment kind s.cursor.addr).isIdle with
      | true =>
        rw [Pass.shownAt_cons_of_idle hidle]
        refine ⟨hrest, fun a ha => ?_⟩
        have hbehind := hafter a ha
        omega
      | false =>
        obtain ⟨hascends, hbetween⟩ :=
          Block.notePlaces_ascend hs.addr htiles
            (l.isCode_scan kind (rest.head?.map (·.address)) s) hidle
        rw [Pass.shownAt_cons_of_shown hidle]
        refine ⟨List.pairwise_append.mpr ⟨hascends, hrest, fun a ha c hc => ?_⟩, ?_⟩
        · have hbefore := (hbetween a ha).2
          have hbehind := hafter c hc
          omega
        · refine List.forall_mem_append.mpr ⟨fun a ha => (hbetween a ha).1, fun a ha => ?_⟩
          have hbehind := hafter a ha
          omega

theorem rows_scan_eq_nil_iff {kind : RowKind} {stop : Option Int} {s : Spot}
    (hfault : (l.scan kind stop s).fault = none) :
    (l.scan kind stop s).rows = [] ↔ s.more stop = false := by
  constructor
  · intro hrows
    refine Bool.eq_false_iff.mpr fun hm => ?_
    cases hresult : (l.nextRow kind stop s).result with
    | error fault =>
      rw [scan_of_error hm hresult] at hfault
      cases hfault
    | ok row =>
      rw [scan_of_ok hm hresult] at hrows
      cases hrows
  · intro hmore
    rw [scan_of_more_eq_false hmore]

/-- A block has no rows if and only if it begins at the end of the image, or not in front of the
next segment. -/
theorem rows_pass_eq_nil_iff {segments : List Segment} {s : Spot}
    (hs : s.cursor.At image load layout offset) (hfault : (l.pass segments s).fault = none)
    {i : Nat} {b : Block} (hb : (l.pass segments s).blocks[i]? = some b) :
    segments[i]? = some b.segment ∧
      (b.rows = [] ↔
        b.start = load + image.length ∨ ∃ next, segments[i + 1]? = some next ∧
        next.address ≤ b.start) := by
  induction segments generalizing s offset i with
  | nil => simp [pass] at hb
  | cons segment rest ih =>
    cases hkind : segment.mode.rowKind? with
    | none => simp [pass_of_stop hkind] at hb
    | some kind =>
      obtain ⟨hscan, hpass⟩ := pass_of_kind hkind hfault
      rw [hpass] at hfault hb
      cases i with
      | zero =>
        cases hb
        refine ⟨rfl, ?_⟩
        have hend : load + (offset : Int) = load + image.length ↔ offset = image.length := by omega
        show (l.scan kind (rest.head?.map (·.address)) s).rows = [] ↔
          s.cursor.addr = load + image.length ∨ ∃ next, rest[0]? = some next ∧
          next.address ≤ s.cursor.addr
        rw [rows_scan_eq_nil_iff hscan, more_eq_false_iff hs, hs.addr, hend]
        cases rest with
        | nil => simp
        | cons next others => simp
      | succ i =>
        obtain ⟨middle, -, hmiddle, -, -⟩ := scan_tiles hs hscan
        exact ih hmiddle hfault hb

end Listing

end

/-- A place that comes up twice is the start of a block of data without rows, if those where
something is shown ascend. -/
theorem Pass.exists_idle {p : Pass} (h : p.shownAt.Pairwise (· < ·)) {address : Int}
    (htwice : 1 < p.idleAt.count address + p.shownAt.count address) :
    ∃ b ∈ p.blocks, b.kind ≠ .code ∧ b.rows = [] ∧ b.start = address := by
  have honce : p.shownAt.count address ≤ 1 :=
    List.nodup_iff_count.mp (h.imp fun hlt => Int.ne_of_lt hlt) address
  have hidle : 0 < p.idleAt.count address := by omega
  obtain ⟨b, hb, rfl⟩ := List.mem_map.mp (List.count_pos_iff.mp hidle)
  obtain ⟨hmem, hempty⟩ := List.mem_filter.mp hb
  simp only [Block.isIdle, Bool.and_eq_true, decide_eq_true_eq, List.isEmpty_iff] at hempty
  exact ⟨b, hmem, hempty.1, hempty.2, rfl⟩

namespace Writer

variable {l : Listing} {w : Writer} {p : Pass} {lines : List Line}

theorem notesOf_lines (h : Writer.lines l w p = .ok lines) :
    Listing.notesOf lines = (p.blocks.flatMap Block.notePlaces).flatMap l.notesOn := by
  obtain ⟨start, -, h⟩ := Fault.bind_eq_ok h
  cases h
  exact l.notesOf_lines w.spot.symbols _ start p.blocks

theorem noteCount_lines (h : Writer.lines l w p = .ok lines) (address : Int) :
    Listing.noteCount lines address =
      if (l.plan.blockComments.at? address).isSome then
        p.idleAt.count address + p.shownAt.count address else 0 := by
  rw [Listing.noteCount, notesOf_lines h, Listing.countP_notesOn, Listing.count_notePlaces]
  rfl

end Writer

/-- How often a listing shows its notes. For every machine, plan and image, in any listing of a
writer that succeeds, the note on an address shows once for each place where it is looked for: those
where something is shown, which ascend, so that there is one of them at most, and the starts of
blocks of data without rows. A note that shows more than once is therefore one at the start of such
a block, which begins at the end of the image or not in front of the next segment. -/
theorem render_notes {l : Listing} {image : List UInt8} {symbols : SymbolTable} {tracer : Tracer}
    {w : Writer} {text : String} (hw : l.writer image symbols tracer = .ok w) (n : Nat)
    (hrender : ((w.afterRenders l n).render l).1 = .ok text) :
    let later := w.afterRenders l n
    let pass := l.pass l.plan.segments later.spot
    ∃ start lines, l.plan.start = .ok start ∧ Writer.lines l later pass = .ok lines ∧
      text = Writer.listingText l lines pass.spot.symbols ∧
      (∀ note ∈ Listing.notesOf lines, l.plan.blockComments.at? note.1 = some note.2) ∧
      pass.shownAt.Pairwise (· < ·) ∧
      ∀ address,
        Listing.noteCount lines address =
          (if (l.plan.blockComments.at? address).isSome then
            pass.idleAt.count address + pass.shownAt.count address
          else 0) ∧
        (1 < Listing.noteCount lines address →
          ∃ (i : Nat) (b : Block), pass.blocks[i]? = some b ∧ l.plan.segments[i]? = some b.segment ∧
            b.kind ≠ .code ∧
            b.start = address ∧
            (address = start + image.length ∨
              ∃ next, l.plan.segments[i + 1]? = some next ∧ next.address ≤ address)) := by
  intro later pass
  obtain ⟨start, hstart, hcursor, -⟩ := Listing.writer_eq_ok hw
  obtain ⟨offset, hat⟩ := Writer.afterRenders_at (l := l) (l.arch.cursor_at hcursor).1 n
  obtain ⟨hfault, hspot, lines, hlines, htext⟩ := Writer.render_eq_ok hrender
  rw [hspot] at htext
  have hascends : pass.shownAt.Pairwise (· < ·) := (Listing.pass_shownAt hat hfault).1
  have hcount := Writer.noteCount_lines hlines
  refine ⟨start, lines, hstart, hlines, htext, fun note hnote => ?_, hascends,
    fun address => ⟨hcount address, ?_⟩⟩
  · rw [Writer.notesOf_lines hlines] at hnote
    obtain ⟨place, -, hmem⟩ := List.mem_flatMap.mp hnote
    exact Listing.at?_of_mem_notesOn hmem
  · intro htwice
    rw [hcount address] at htwice
    split at htwice
    · obtain ⟨b, hb, hdata, hrows, rfl⟩ := Pass.exists_idle hascends htwice
      obtain ⟨i, hi⟩ := List.mem_iff_getElem?.mp hb
      obtain ⟨hsegment, hempty⟩ := Listing.rows_pass_eq_nil_iff hat hfault hi
      exact ⟨i, b, hi, hsegment, hdata, rfl, hempty.mp hrows⟩
    · cases htwice

/-- A note on data and one on the code behind it. -/
theorem render_notes_once :
    let segments : List Segment := [⟨0x8000, .bytes, none⟩, ⟨0x8002, .code, none⟩]
    let blockComments : Comments := [(0x8000, "Table"), (0x8002, "Reset")]
    let l : Listing := { arch := Mos6502.arch, plan := { segments, blockComments } }
    let image : List UInt8 := [0x01, 0x02, 0x60]
    let w : Writer := { spot := ⟨Cursor.start ⟨.byte, .little, 3⟩ image 0x8000, {}⟩ }
    l.writer image {} = .ok w ∧ (w.render l).1.isOk = true ∧
      ∃ lines, Writer.lines l w (l.pass segments w.spot) = .ok lines ∧
        Listing.noteCount lines 0x8000 = 1 ∧
        Listing.noteCount lines 0x8002 = 1 := by
  intro segments blockComments l image w
  have hw : l.writer image {} = .ok w := rfl
  have hrender : (w.render l).1.isOk = true := by decide +kernel
  refine ⟨hw, hrender, ?_⟩
  cases htext : (w.render l).1 with
  | error fault => rw [htext] at hrender; cases hrender
  | ok text =>
    obtain ⟨start, lines, -, hlines, -, -, -, hcount⟩ := render_notes hw 0 htext
    refine ⟨lines, hlines, (hcount 0x8000).1.trans ?_, (hcount 0x8002).1.trans ?_⟩
    · decide +kernel
    · decide +kernel

/-- A note on code, and a segment of data that ends where it starts: the note shows for both. -/
theorem render_notes_emptyData :
    let files : Files := fun _ => .ok "f rom.bin\nn8000 Reset\n.\nb8000\nc8000\n".toUTF8.toList
    let main := Path.ofString "rom.lst"
    let plan : Plan := {
      inputFile := some (.ofString "rom.bin")
      segments := [⟨0x8000, .bytes, none⟩, ⟨0x8000, .code, none⟩]
      blockComments := [(0x8000, "Reset")]
      sources := [main] }
    let loading := (load files main {}).2
    let image : List UInt8 := [0x60]
    let l : Listing := { arch := Mos6502.arch, plan }
    let w : Writer := { spot := ⟨Cursor.start ⟨.byte, .little, 3⟩ image 0x8000, loading.symbols⟩ }
    load files main {} = (.ok plan, loading) ∧ l.writer image loading.symbols = .ok w ∧
    (w.render l).1.isOk = true ∧
      ∃ lines, Writer.lines l w (l.pass plan.segments w.spot) = .ok lines ∧
        Listing.notesOf lines = [(0x8000, "Reset"), (0x8000, "Reset")] ∧
        Listing.noteCount lines 0x8000 = 2 := by
  intro files main plan loading image l w
  have hload : load files main {} = (.ok plan, loading) := load_eq_ok (by decide +kernel)
  have hlines : Writer.lines l w (l.pass plan.segments w.spot) =
      .ok (l.lines 1 0x8000 loading.symbols (l.pass plan.segments w.spot).blocks) := rfl
  exact ⟨hload, rfl, by decide +kernel, _, hlines, by decide +kernel, by decide +kernel⟩

end Disassembler
