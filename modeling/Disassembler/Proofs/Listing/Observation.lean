import Disassembler.Plan.Loader
import Disassembler.Proofs.Arch.Bounds
import Disassembler.Proofs.Listing.Repetition

/-!
Listings under observation. What a listing shows does not depend on its tracer, for any machine. On
a built-in machine it does not depend either on whether deferred units that were not used are looked
for: its rules leave none behind.

A writer calls its tracer while it reads, row by row and around each slice, on the way out through a
fault too. It still gives what a pass without a tracer gives. Beyond that both facts are about two
writers that are asked side by side: a writer goes by its place and its count of unknown
instructions, so as long as two of them stand alike and pass over their segments alike, they show
the same.
-/

namespace Disassembler

/-- What shows of a listing: its text or what went wrong, how many instructions were unknown so far,
and the symbols. -/
structure Exhibit where
  text : Except Fault String
  unknown : Nat
  symbols : SymbolTable

def Writer.exhibit (l : Listing) (w : Writer) : Exhibit :=
  ⟨(w.render l).1, (w.render l).2.unknown, (w.render l).2.spot.symbols⟩

/-- What shows of a listing that a new writer is asked for after `n` others. -/
def Listing.exhibit (l : Listing) (image : List UInt8) (symbols : SymbolTable) (tracer : Tracer)
    (n : Nat) : Exhibit :=
  match l.writer image symbols tracer with
  | .error fault => ⟨.error fault, 0, symbols⟩
  | .ok w => (w.afterRenders l n).exhibit l

/-- The same for a command file that is loaded first. -/
def exhibit (arch : Architecture) (balance : Bool) (files : Files) (main : Path)
    (initial : SymbolTable) (image : List UInt8) (tracer : Tracer) (n : Nat) : Exhibit :=
  match load files main initial with
  | (.error fault, loading) => ⟨.error fault, 0, loading.symbols⟩
  | (.ok plan, loading) => Listing.exhibit ⟨arch, plan, balance⟩ image loading.symbols tracer n

/-! ## Looking for unused units -/

def Spot.OnBytes (image : List UInt8) (s : Spot) : Prop :=
  ∃ load layout offset, s.cursor.At image load layout offset ∧ layout.width = .byte

namespace Listing

section

variable {l : Listing} {b : Budget} {image : List UInt8} {load : Int} {layout : Layout}
    {offset : Nat} {s : Spot}

theorem nextRow_balance (hkeeps : l.arch.keeps b = true) (other : Bool) (kind : RowKind)
    (stop : Option Int) (hbyte : s.cursor.layout.width = .byte) :
    nextRow { l with balance := other } kind stop s = l.nextRow kind stop s := by
  cases kind with
  | code =>
    simp only [nextRow, codeRow]
    rw [decode_balance hkeeps l.balance other hbyte]
  | _ => rfl

theorem scan_balance (hkeeps : l.arch.keeps b = true) (other : Bool) (kind : RowKind)
    (stop : Option Int) (hbyte : layout.width = .byte) (hs : s.cursor.At image load layout offset) :
    scan { l with balance := other } kind stop s = l.scan kind stop s := by
  fun_induction Listing.scan l kind stop s generalizing offset with
  | case1 s hm r fault =>
    rename_i h
    have hrow :=
      nextRow_balance hkeeps other kind stop
        (hs.layout.symm ▸ hbyte : s.cursor.layout.width = .byte)
    rw [scan_of_error hm (by rw [hrow]; exact h), hrow]
  | case2 s hm r row h _ =>
    rename_i ih
    have hrow :=
      nextRow_balance hkeeps other kind stop
        (hs.layout.symm ▸ hbyte : s.cursor.layout.width = .byte)
    rw [scan_of_ok hm (by rw [hrow]; exact h), hrow, ih (nextRow_at hs hm h).2]
  | case3 s hm => exact scan_of_more_eq_false (Bool.eq_false_iff.mpr hm)

theorem pass_balance (hkeeps : l.arch.keeps b = true) (other : Bool) (segments : List Segment)
    (hbyte : layout.width = .byte) (hs : s.cursor.At image load layout offset) :
    pass { l with balance := other } segments s = l.pass segments s := by
  induction segments generalizing s offset with
  | nil => rfl
  | cons segment rest ih =>
    cases hkind : segment.mode.rowKind? with
    | none => rw [pass_of_stop hkind, pass_of_stop hkind]
    | some kind =>
      obtain ⟨_, last, hscan⟩ := scan_advances (l := l) kind (rest.head?.map (·.address)) hs
      simp only [pass, hkind, scan_balance hkeeps other kind _ hbyte hs, ih hscan.cursor]

end

theorem blocksLines_balance (l : Listing) (other : Bool) (symbols : SymbolTable)
    (previous : Option RowKind) (blocks : List Block) :
    blocksLines { l with balance := other } symbols previous blocks =
      l.blocksLines symbols previous blocks := by
  induction blocks generalizing previous with
  | nil => rfl
  | cons block blocks ih =>
    rw [blocksLines, blocksLines, ih]
    rfl

end Listing

/-! ## Two writers side by side -/

namespace Writer

/-- All that the next listing of a writer goes by. -/
def standing (w : Writer) : Spot × Nat := (w.spot, w.unknown)

theorem lines_balance (l : Listing) (other : Bool) (w : Writer) (p : Pass) :
    lines { l with balance := other } w p = lines l w p := by
  unfold lines Listing.lines
  simp only [Listing.blocksLines_balance]
  rfl

/-- Two settings under which the segments are passed over alike, from every place of some that are
never left. -/
structure PassAlike (l : Listing) (other : Bool) (P : Spot → Prop) : Prop where
  same : ∀ s, P s → Listing.pass { l with balance := other } l.plan.segments s =
    l.pass l.plan.segments s
  kept : ∀ s, P s → P (l.pass l.plan.segments s).spot

section

variable {l : Listing} {other : Bool} {P : Spot → Prop} {w v : Writer}

/-- One listing of each of two writers. -/
theorem render_alike (halike : PassAlike l other P) (hw : P w.spot)
    (hstanding : w.standing = v.standing) :
    (w.render l).1 = (v.render { l with balance := other }).1 ∧
      (w.render l).2.standing = (v.render { l with balance := other }).2.standing := by
  obtain ⟨hspot, hunknown⟩ := Prod.mk.inj hstanding
  have hpass : Listing.pass { l with balance := other } l.plan.segments v.spot =
      l.pass l.plan.segments w.spot := by
    rw [← hspot]
    exact halike.same w.spot hw
  have hlines : lines { l with balance := other } v = lines l w := by
    funext p
    rw [lines_balance, lines, lines, hspot]
  constructor
  · cases hfault : (l.pass l.plan.segments w.spot).fault with
    | some fault => rw [render_of_fault hfault, render_of_fault (hpass.symm ▸ hfault)]
    | none =>
      rw [render_of_no_fault hfault, render_of_no_fault (hpass.symm ▸ hfault), hpass, hlines]
      rfl
  · simp only [standing, spot_render, unknown_render, hpass, hunknown]

/-- Any number of listings of each of two writers. -/
theorem afterRenders_alike (halike : PassAlike l other P) (hw : P w.spot)
    (hstanding : w.standing = v.standing) (n : Nat) :
    P (w.afterRenders l n).spot ∧
      (w.afterRenders l n).standing = (v.afterRenders { l with balance := other } n).standing := by
  induction n generalizing w v with
  | zero => exact ⟨hw, hstanding⟩
  | succ n ih =>
    obtain ⟨-, hnext⟩ := render_alike halike hw hstanding
    refine ih ?_ hnext
    rw [spot_render]
    exact halike.kept w.spot hw

theorem exhibit_alike (halike : PassAlike l other P) (hw : P w.spot)
    (hstanding : w.standing = v.standing) (n : Nat) :
    (w.afterRenders l n).exhibit l =
      (v.afterRenders { l with balance := other } n).exhibit { l with balance := other } := by
  obtain ⟨hplace, hlater⟩ := afterRenders_alike halike hw hstanding n
  obtain ⟨htext, hlast⟩ := render_alike halike hplace hlater
  obtain ⟨hspot, hunknown⟩ := Prod.mk.inj hlast
  simp only [exhibit, htext, hspot, hunknown]

end

end Writer

namespace Listing

/-- Whether a writer can be begun is not up to the tracer, nor is where it stands. -/
theorem writer_congr (l : Listing) (other : Bool) (image : List UInt8) (symbols : SymbolTable)
    (t u : Tracer) :
    writer { l with balance := other } image symbols u =
      (l.writer image symbols t).map fun w => { w with tracer := u } := by
  unfold writer
  cases l.plan.start with
  | error fault => rfl
  | ok start =>
    cases hcursor : l.arch.cursor image start with
    | error fault => simp [hcursor, bind, Except.bind, Except.map]
    | ok cursor => simp [hcursor, bind, Except.bind, Except.map, pure, Except.pure]

theorem exhibit_alike {l : Listing} {P : Spot → Prop} {image : List UInt8} {symbols : SymbolTable}
    {t : Tracer} (other : Bool) (halike : Writer.PassAlike l other P)
    (hbegun : ∀ w, l.writer image symbols t = .ok w → P w.spot) (u : Tracer) (n : Nat) :
    l.exhibit image symbols t n = exhibit { l with balance := other } image symbols u n := by
  have hother := writer_congr l other image symbols t u
  unfold exhibit
  cases hw : l.writer image symbols t with
  | error fault =>
    rw [hw] at hother
    rw [show writer _ image symbols u = .error fault from hother]
  | ok w =>
    rw [hw] at hother
    rw [show writer _ image symbols u = .ok { w with tracer := u } from hother]
    exact Writer.exhibit_alike (v := { w with tracer := u }) halike (hbegun w hw) rfl n

/-- The tracer makes no difference to what shows, whatever the machine. -/
theorem exhibit_tracer (l : Listing) (image : List UInt8) (symbols : SymbolTable)
    (t u : Tracer) (n : Nat) : l.exhibit image symbols t n = l.exhibit image symbols u n :=
  exhibit_alike (P := fun _ => True) l.balance ⟨fun _ _ => rfl, fun _ _ => trivial⟩
    (fun _ _ => trivial) u n

/-- On a built-in machine, neither does a look for unused units. -/
theorem exhibit_balance {l : Listing} (harch : l.arch ∈ Architecture.builtIn) (other : Bool)
    (image : List UInt8) (symbols : SymbolTable) (t u : Tracer) (n : Nat) :
    l.exhibit image symbols t n = exhibit { l with balance := other } image symbols u n := by
  have hkeeps := l.arch.keeps_budget harch
  have halike : Writer.PassAlike l other (Spot.OnBytes image) := by
    constructor
    · rintro s ⟨load, layout, offset, hs, hbyte⟩
      exact pass_balance hkeeps other l.plan.segments hbyte hs
    · rintro s ⟨load, layout, offset, hs, hbyte⟩
      obtain ⟨_, last, hpass⟩ := pass_advances (l := l) l.plan.segments hs
      exact ⟨load, layout, last, hpass.cursor, hbyte⟩
  refine exhibit_alike other halike (fun w hw => ?_) u n
  obtain ⟨start, -, hcursor, -⟩ := writer_eq_ok hw
  obtain ⟨hat, hwidth, -⟩ := l.arch.cursor_at hcursor
  refine ⟨start, w.spot.cursor.layout, 0, hat, ?_⟩
  rw [l.arch.unitWidth_of_mem_builtIn harch] at hwidth
  cases hlayout : w.spot.cursor.layout.width with
  | byte => rfl
  | word => rw [hlayout] at hwidth; cases hwidth

end Listing

/-- Observation changes nothing that a listing shows. Let a command file be loaded into any symbol
table and a writer be asked for listings of an image, once or more often. Its text or what goes
wrong, its count of unknown instructions and its symbols are the same under any two tracers, whether
or not they record anything, for every machine; and for the built-in machines they are the same with
and without a look for deferred units that were not used. -/
theorem exhibit_unobserved (files : Files) (main : Path) (initial : SymbolTable)
    (image : List UInt8) (n : Nat) :
    (∀ arch balance t u,
      exhibit arch balance files main initial image t n =
        exhibit arch balance files main initial image u n) ∧
    ∀ arch ∈ Architecture.builtIn, ∀ t u,
      exhibit arch true files main initial image t n =
        exhibit arch false files main initial image u n := by
  unfold exhibit
  rcases load files main initial with ⟨fault | plan, loading⟩
  · exact ⟨fun _ _ _ _ => rfl, fun _ _ _ _ => rfl⟩
  · refine ⟨fun arch balance t u => ?_, fun arch harch t u => ?_⟩
    · exact Listing.exhibit_tracer ⟨arch, plan, balance⟩ image loading.symbols t u n
    · exact Listing.exhibit_balance (l := ⟨arch, plan, true⟩) harch false image
        loading.symbols t u n

/-- A deferred displacement and an unknown instruction behind a byte of data, in the second listing
of a writer. -/
theorem exhibit_unobserved_indexed :
    let files : Files := fun _ => .ok "f rom.bin\nb 8000\nc 8001 START\n".toUTF8.toList
    let main := Path.ofString "rom.lst"
    let image : List UInt8 := [0x01, 0xDD, 0xCB, 0x05, 0x06, 0xED, 0xFF]
    let t : Tracer := { current := some (Tracer.newRecording "t.trace" "listing") }
    let shown := exhibit Z80.arch true files main {} image t 1
    ({} : Tracer).start true "t.trace" "listing" = .ok t ∧ Z80.arch ∈ Architecture.builtIn ∧
      shown.text.isOk = true ∧ shown.unknown = 1 ∧ shown.symbols.labels = [(0x8001, "START")] ∧
      exhibit Z80.arch true files main {} image {} 1 = shown ∧
        exhibit Z80.arch false files main {} image {} 1 = shown := by
  intro files main image t shown
  have hmem : Z80.arch ∈ Architecture.builtIn := by simp [Architecture.builtIn]
  obtain ⟨htracer, hbalance⟩ := exhibit_unobserved files main {} image 1
  exact ⟨rfl, hmem, by decide +kernel, by decide +kernel, by decide +kernel,
    htracer Z80.arch true {} t, (hbalance Z80.arch hmem t {}).symm⟩

end Disassembler
