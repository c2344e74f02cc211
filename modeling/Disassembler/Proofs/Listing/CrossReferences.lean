import Disassembler.Proofs.Listing.Repetition
import Disassembler.Proofs.Plan.Steps

/-!
The references that a listing leaves behind. A load makes none, so that all of them come from the
rows that the first listing begins to read, in the order of these rows; a row that fails counts,
since references that it has recorded by then stay. A row of words or vectors refers from where each
word stands to its value, and a line of code refers from its own address. As the cursor never goes
back, the sources under each target ascend.
-/

namespace Disassembler

/-- A row that a listing begins to read: its sort, the address that such rows go up to, and where it
begins. -/
structure Beginning where
  kind : RowKind
  stop : Option Int
  spot : Spot

namespace Beginning

def address (b : Beginning) : Int := b.spot.cursor.addr

def read (l : Listing) (b : Beginning) : RowRead := l.nextRow b.kind b.stop b.spot

/-- The references to an address that are there when the row has been read, and were not before. -/
def added (l : Listing) (target : Int) (b : Beginning) : List Reference :=
  ((b.read l).spot.symbols.references target).drop (b.spot.symbols.references target).length

end Beginning

namespace Listing

def scanBeginnings (l : Listing) (kind : RowKind) (stop : Option Int) (s : Spot) : List Beginning :=
  if hm : s.more stop = true then
    match h : (l.nextRow kind stop s).result with
    | .error _ => [⟨kind, stop, s⟩]
    | .ok _ =>
      have := nextRow_shortens hm h
      ⟨kind, stop, s⟩ :: l.scanBeginnings kind stop (l.nextRow kind stop s).spot
  else []
termination_by s.cursor.rest.length

def beginnings (l : Listing) : List Segment → Spot → List Beginning
  | [], _ => []
  | s :: rest, spot =>
    match s.mode.rowKind? with
    | none => []
    | some kind =>
      let stop := rest.head?.map (·.address)
      let stretch := l.scan kind stop spot
      l.scanBeginnings kind stop spot ++
        if stretch.fault = none then l.beginnings rest stretch.spot else []

end Listing

/-- An image that is loaded at an address has a word with some value at another. -/
def WordAt (order : ByteOrder) (image : List UInt8) (load address value : Int) : Prop :=
  ∃ offset : Nat, address = load + offset ∧ offset + 2 ≤ image.length ∧
    value = order.value ((image.drop offset).take 2)

/-! ## One row -/

/-- A place on an image, with symbols that are in order. -/
def Spot.Placed (image : List UInt8) (load : Int) (layout : Layout) (s : Spot) : Prop :=
  s.symbols.Ordered ∧ ∃ offset, s.cursor.At image load layout offset

section

variable {l : Listing} {image : List UInt8} {load : Int} {layout : Layout} {s : Spot} {target : Int}

theorem Mention.ascending_refsTo {ms : List Mention}
    (h : ms.Pairwise fun m n => m.ref.source ≤ n.ref.source) (target : Int) :
    (refsTo target ms).Pairwise fun r q => r.source ≤ q.source :=
  List.pairwise_map.mpr (h.filter _)

theorem Mention.mem_refsTo {ms : List Mention} {r : Reference} :
    r ∈ refsTo target ms ↔ ∃ m ∈ ms, m.target = target ∧ m.ref = r := by
  simp only [refsTo, List.mem_map, List.mem_filter, decide_eq_true_eq, and_assoc]

theorem Mention.OfWord.wordAt {m : Mention} {offset : Nat} (h : m.OfWord image load layout offset) :
    m.ref.kind = .table ∧ WordAt layout.order image load m.ref.source m.target := by
  obtain ⟨k, hinside, href, htarget⟩ := h
  rw [href]
  exact ⟨rfl, offset + 2 * k, rfl, hinside, htarget⟩

/-- What is recorded from a place on stands behind what was there. -/
theorem Spot.Advances.references {offset last : Nat} {ms : List Mention} {t : Spot}
    (h : s.Advances image load layout offset ms t last) (hordered : s.symbols.Ordered)
    (target : Int) :
    t.symbols.Ordered ∧ t.symbols.references target = s.symbols.references target ++
      Mention.refsTo target ms := by
  rw [h.symbols]
  exact ⟨SymbolTable.ordered_appendAll hordered ms,
    SymbolTable.references_appendAll hordered ms target⟩

theorem Spot.Placed.nextRow (h : s.Placed image load layout) (kind : RowKind) (stop : Option Int) :
    (l.nextRow kind stop s).spot.Placed image load layout := by
  obtain ⟨hordered, offset, hs⟩ := h
  obtain ⟨ms, last, hrow, -⟩ := Listing.nextRow_advances (l := l) kind stop hs
  exact ⟨(hrow.references hordered 0).1, last, hrow.cursor⟩

namespace Beginning

/-- Reading a row puts references behind those that were there, from mentions that are fit for its
sort. -/
theorem exists_added {b : Beginning} {offset : Nat} (hordered : b.spot.symbols.Ordered)
    (hs : b.spot.cursor.At image load layout offset) (target : Int) :
    ∃ ms, (b.read l).spot.symbols.references target =
        b.spot.symbols.references target ++ Mention.refsTo target ms ∧
      b.added l target = Mention.refsTo target ms ∧
      ∀ m ∈ ms, b.kind.Records image load layout offset m := by
  obtain ⟨ms, last, hrow, hrecords⟩ := Listing.nextRow_advances (l := l) b.kind b.stop hs
  have hreferences : (b.read l).spot.symbols.references target = _ :=
    (hrow.references hordered target).2
  refine ⟨ms, hreferences, ?_, hrecords⟩
  rw [added, hreferences, List.drop_left]

theorem references_read {b : Beginning} (h : b.spot.Placed image load layout) (target : Int) :
    (b.read l).spot.symbols.references target = b.spot.symbols.references target ++
      b.added l target := by
  obtain ⟨hordered, offset, hs⟩ := h
  obtain ⟨ms, hreferences, hadded, -⟩ := exists_added (l := l) hordered hs target
  rw [hreferences, hadded]

/-- Where a reference comes from: a word refers to its value, and an instruction refers from its
address. -/
theorem mem_added {b : Beginning} {r : Reference} (h : b.spot.Placed image load layout)
    (hr : r ∈ b.added l target) :
    (b.kind = .words ∨ b.kind = .vectors) ∧ r.kind = .table ∧
    WordAt layout.order image load r.source target ∨
      b.kind = .code ∧ r.source = b.address := by
  obtain ⟨hordered, offset, hs⟩ := h
  obtain ⟨ms, -, hadded, hrecords⟩ := exists_added (l := l) hordered hs target
  rw [hadded] at hr
  obtain ⟨m, hm, rfl, rfl⟩ := Mention.mem_refsTo.mp hr
  have hrecord := hrecords m hm
  cases hkind : b.kind with
  | code =>
    rw [hkind] at hrecord
    exact .inr ⟨rfl, Eq.trans hrecord hs.addr.symm⟩
  | words =>
    rw [hkind] at hrecord
    exact .inl ⟨.inl rfl, Mention.OfWord.wordAt hrecord⟩
  | vectors =>
    rw [hkind] at hrecord
    exact .inl ⟨.inr rfl, Mention.OfWord.wordAt hrecord⟩
  | bytes => rw [hkind] at hrecord; exact hrecord.elim
  | strings => rw [hkind] at hrecord; exact hrecord.elim
  | chars => rw [hkind] at hrecord; exact hrecord.elim

end Beginning

/-! ## All rows -/

namespace Listing

/-- The rows that are begun make up the stretch; the last one may fail. -/
theorem result_scanBeginnings (l : Listing) (kind : RowKind) (stop : Option Int) (s : Spot) :
    (l.scanBeginnings kind stop s).map (fun b => (b.read l).result) =
      (l.scan kind stop s).rows.map .ok ++ (l.scan kind stop s).fault.toList.map .error := by
  fun_induction scanBeginnings l kind stop s with
  | case1 s hm fault h =>
    have hread : (Beginning.read l ⟨kind, stop, s⟩).result = .error fault := h
    rw [scan_of_error hm h, List.map_singleton, hread]
    rfl
  | case2 s hm row h _ ih =>
    have hread : (Beginning.read l ⟨kind, stop, s⟩).result = .ok row := h
    rw [scan_of_ok hm h, List.map_cons, hread, ih]
    rfl
  | case3 s hm =>
    rw [scan_of_more_eq_false (Bool.eq_false_iff.mpr hm)]
    rfl

theorem placed_scanBeginnings (kind : RowKind) (stop : Option Int)
    (hs : s.Placed image load layout) :
    (l.scan kind stop s).spot.Placed image load layout ∧
      ∀ b ∈ l.scanBeginnings kind stop s, b.spot.Placed image load layout := by
  fun_induction scanBeginnings l kind stop s with
  | case1 s hm fault h =>
    rw [scan_of_error hm h]
    exact ⟨hs.nextRow kind stop, by simpa using hs⟩
  | case2 s hm row h _ ih =>
    obtain ⟨hend, hrest⟩ := ih (hs.nextRow kind stop)
    rw [scan_of_ok hm h]
    exact ⟨hend, List.forall_mem_cons.mpr ⟨hs, hrest⟩⟩
  | case3 s hm =>
    rw [scan_of_more_eq_false (Bool.eq_false_iff.mpr hm)]
    exact ⟨hs, by simp⟩

theorem references_scan (kind : RowKind) (stop : Option Int) (hs : s.Placed image load layout)
    (target : Int) :
    (l.scan kind stop s).spot.symbols.references target =
      s.symbols.references target ++ (l.scanBeginnings kind stop s).flatMap (·.added l target) := by
  fun_induction scanBeginnings l kind stop s with
  | case1 s hm fault h =>
    have hrow := Beginning.references_read (l := l) (b := ⟨kind, stop, s⟩) hs target
    rw [scan_of_error hm h, List.flatMap_singleton]
    exact hrow
  | case2 s hm row h _ ih =>
    have hrow := Beginning.references_read (l := l) (b := ⟨kind, stop, s⟩) hs target
    rw [scan_of_ok hm h, List.flatMap_cons, ← List.append_assoc, ← hrow]
    exact ih (hs.nextRow kind stop)
  | case3 s hm =>
    rw [scan_of_more_eq_false (Bool.eq_false_iff.mpr hm), List.flatMap_nil, List.append_nil]

/-- The rows that a pass begins are its rows and, if there is a fault, the one that it strikes. -/
theorem result_beginnings (l : Listing) (segments : List Segment) (s : Spot) :
    (l.beginnings segments s).map (fun b => (b.read l).result) =
      (l.pass segments s).rows.map .ok ++ (l.pass segments s).fault.toList.map .error := by
  induction segments generalizing s with
  | nil => rfl
  | cons segment rest ih =>
    cases hkind : segment.mode.rowKind? with
    | none => simp [beginnings, pass, hkind, Pass.rows]
    | some kind =>
      have hscan := result_scanBeginnings l kind (rest.head?.map (·.address)) s
      cases hfault : (l.scan kind (rest.head?.map (·.address)) s).fault with
      | some fault =>
        rw [hfault] at hscan
        simp [beginnings, pass, hkind, hfault, hscan, Pass.rows, Stretch.block]
      | none =>
        rw [hfault] at hscan
        simp [beginnings, pass, hkind, hfault, hscan, ih, Pass.rows, Pass.cons, Stretch.block]

theorem placed_beginnings {segments : List Segment} (hs : s.Placed image load layout) :
    ∀ b ∈ l.beginnings segments s, b.spot.Placed image load layout := by
  induction segments generalizing s with
  | nil => simp [beginnings]
  | cons segment rest ih =>
    cases hkind : segment.mode.rowKind? with
    | none => simp [beginnings, hkind]
    | some kind =>
      obtain ⟨hend, hbegun⟩ := placed_scanBeginnings (l := l) kind (rest.head?.map (·.address)) hs
      simp only [beginnings, hkind]
      refine List.forall_mem_append.mpr ⟨hbegun, ?_⟩
      split
      · exact ih hend
      · simp

/-- All the references that a pass adds are those of the rows that it begins, in their order. -/
theorem references_pass (segments : List Segment) (hs : s.Placed image load layout) (target : Int) :
    (l.pass segments s).spot.symbols.references target =
      s.symbols.references target ++ (l.beginnings segments s).flatMap (·.added l target) := by
  induction segments generalizing s with
  | nil => simp [beginnings, pass]
  | cons segment rest ih =>
    cases hkind : segment.mode.rowKind? with
    | none => simp [beginnings, pass, hkind]
    | some kind =>
      have hscan := references_scan (l := l) kind (rest.head?.map (·.address)) hs target
      cases hfault : (l.scan kind (rest.head?.map (·.address)) s).fault with
      | some fault => simp [beginnings, pass, hkind, hfault, hscan]
      | none =>
        have hrest := ih (placed_scanBeginnings (l := l) kind (rest.head?.map (·.address)) hs).1
        simp only [beginnings, pass, hkind, hfault, if_true]
        rw [List.flatMap_append, ← List.append_assoc, ← hscan]
        exact hrest

/-- A writer begins with the symbols that it is given, and reads words in the byte order of the
machine. -/
theorem symbols_of_writer {symbols : SymbolTable} {tracer : Tracer} {w : Writer}
    (h : l.writer image symbols tracer = .ok w) :
    w.spot.symbols = symbols ∧ w.spot.cursor.layout.order = l.arch.profile.order := by
  obtain ⟨start, -, hcursor, hsymbols, -⟩ := writer_eq_ok h
  obtain ⟨width, -, hcursor⟩ := Fault.bind_eq_ok hcursor
  refine ⟨hsymbols, ?_⟩
  rw [← Except.ok.inj hcursor]
  rfl

end Listing

end

/-- Cross-references after the first listing, whether or not it succeeds. Let a command file be
loaded into a symbol table without entries, and a listing of an image be written. Under every target
the sources of the references ascend. They are the references that the rows add which the listing
begins to read, in the order of the rows; these rows are those of the listing, each at its address,
and the one that a fault strikes. What a row of words or vectors adds is of the sort for tables and
has as its source the address of a word whose value is the target; whatever else there is has as its
source the address of the line of code that adds it. -/
theorem render_references {files : Files} {main : Path} {initial : SymbolTable} {plan : Plan}
    {loading : Loading} {arch : Architecture} {balance : Bool} {image : List UInt8}
    {tracer : Tracer} {w : Writer} (hinitial : initial.entries = [])
    (hload : load files main initial = (.ok plan, loading))
    (hw : Listing.writer ⟨arch, plan, balance⟩ image loading.symbols tracer = .ok w) :
    let l : Listing := ⟨arch, plan, balance⟩
    let pass := l.pass plan.segments w.spot
    let begun := l.beginnings plan.segments w.spot
    ∃ start, plan.start = .ok start ∧
      begun.map (fun b => (b.read l).result) = pass.rows.map .ok ++ pass.fault.toList.map .error ∧
      (∀ b ∈ begun, ∀ row, (b.read l).result = .ok row → row.address = b.address) ∧
      ∀ target,
        let refs := (w.render l).2.spot.symbols.references target
        refs.Pairwise (fun r q => r.source ≤ q.source) ∧ refs = begun.flatMap (·.added l target) ∧
        ∀ b ∈ begun, ∀ r ∈ b.added l target,
          (b.kind = .words ∨ b.kind = .vectors) ∧ r.kind = .table ∧
              WordAt arch.profile.order image start r.source target ∨
            b.kind = .code ∧ r.source = b.address := by
  intro l pass begun
  obtain ⟨start, hstart, hcursor, -⟩ := Listing.writer_eq_ok hw
  obtain ⟨hsymbols, horder⟩ := Listing.symbols_of_writer hw
  have hat := (l.arch.cursor_at hcursor).1
  have hunreferenced : w.spot.symbols.Unreferenced := by
    have hloaded := load_unreferenced files main (.of_entries_eq_nil hinitial)
    rw [hload] at hloaded
    exact hsymbols ▸ hloaded
  have hplaced : w.spot.Placed image start w.spot.cursor.layout := ⟨hunreferenced.ordered, 0, hat⟩
  refine ⟨start, hstart, l.result_beginnings plan.segments w.spot, fun b _ row hrow => ?_,
    fun target => ?_⟩
  · obtain ⟨body, rfl, -⟩ := Listing.nextRow_ok hrow
    rfl
  have hnone := hunreferenced.references_eq_nil target
  rw [Writer.spot_render]
  refine ⟨?_, ?_, fun b hb r hr => ?_⟩
  · obtain ⟨ms, last, hpass⟩ := Listing.pass_advances (l := l) plan.segments hat
    rw [(hpass.references hplaced.1 target).2, hnone]
    exact Mention.ascending_refsTo hpass.ascending target
  · have hreferences := Listing.references_pass (l := l) plan.segments hplaced target
    rw [hnone] at hreferences
    exact hreferences
  · have hsource := Beginning.mem_added (Listing.placed_beginnings hplaced b hb) hr
    rw [horder] at hsource
    exact hsource

/-- Two words in front of code whose last instruction is cut off: a word, a call and a store refer
to one address. -/
theorem render_references_truncated :
    let files : Files := fun _ => .ok "f rom.bin\nw 8000\nc 8004 START\n".toUTF8.toList
    let main := Path.ofString "rom.lst"
    let plan : Plan := {
      inputFile := some (.ofString "rom.bin")
      segments := [⟨0x8000, .words, none⟩, ⟨0x8004, .code, some "START"⟩]
      sources := [main] }
    let loading := (load files main {}).2
    let image : List UInt8 :=
      [0x00, 0x90, 0x04, 0x80, 0x20, 0x00, 0x90, 0x8D, 0x00, 0x90, 0xAD, 0x00]
    let l : Listing := { arch := Mos6502.arch, plan }
    let w : Writer := { spot := ⟨Cursor.start ⟨.byte, .little, 3⟩ image 0x8000, loading.symbols⟩ }
    let refs := (w.render l).2.spot.symbols.references 0x9000
    load files main {} = (.ok plan, loading) ∧ l.writer image loading.symbols = .ok w ∧
      (w.render l).1.isOk = false ∧ refs = [⟨0x8000, .table⟩, ⟨0x8004, .call⟩, ⟨0x8007, .ptr⟩] ∧
      refs.Pairwise (fun r q => r.source ≤ q.source) ∧
      refs = (l.beginnings plan.segments w.spot).flatMap (·.added l 0x9000) := by
  intro files main plan loading image l w refs
  have hload : load files main {} = (.ok plan, loading) := load_eq_ok (by decide +kernel)
  have hw : l.writer image loading.symbols = .ok w := rfl
  obtain ⟨start, -, -, -, hrefs⟩ := render_references rfl hload hw
  obtain ⟨hascending, hadded, -⟩ := hrefs 0x9000
  exact ⟨hload, hw, by decide +kernel, by decide +kernel, hascending, hadded⟩

end Disassembler
