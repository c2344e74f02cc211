import Disassembler.Proofs.Arch.Bounds
import Disassembler.Proofs.Cursor.Run
import Disassembler.Proofs.Decoder.Progress

/-!
A sweep takes an image apart without gaps. Its instructions follow each other from the load address
on, each holds the bytes it was read from, and a sweep without a fault ends where the image does.
-/

namespace Disassembler

def instructionsOf (run : List Decoded) : List Instruction :=
  run.filterMap fun d => d.result.toOption

/-- Each instruction begins where the one before it ends, from one address to another. -/
def Contiguous : Int → List Instruction → Int → Prop
  | start, [], stop => start = stop
  | start, i :: is, stop => i.address = start ∧ Contiguous i.next is stop

/-- The instruction has been read from an offset of an image over `size` bytes. -/
structure Instruction.Read (image : List UInt8) (load : Int) (layout : Layout) (offset size : Nat)
    (i : Instruction) : Prop where
  address : i.address = load + offset
  next : i.next = load + (offset + size : Nat)
  unit : layout.width.size ≤ size
  inside : offset + size ≤ image.length
  raw : i.raw = ((image.drop offset).take size).take layout.maxLength.toNat

namespace Decoder

/-- An instruction is a unit and whatever is read after it. -/
theorem instruction_advances {arch : Architecture} {balance : Bool} {site : Site} {s t : Decoding}
    {i : Instruction} (h : instruction arch balance site s = .ok i t) :
    ∃ k, s.cursor.layout.width.size ≤ k ∧ k ≤ s.cursor.rest.length ∧ t.cursor = s.cursor.advance k ∧
      i.address = site.address ∧ i.next = t.cursor.addr ∧ i.raw = t.cursor.captured := by
  obtain ⟨unit, u, hu, h⟩ := Action.bind_eq_ok h
  obtain ⟨hle, hcu⟩ := fetch_advances hu
  have hforward : Forward (do
      let found ← Walk.walk arch site arch.root unit
      settle site found
      conclude balance site found) :=
    forward_bind (Walk.forward_walk _ _ _ _) fun _ => forward_bind (forward_settle _ _) fun _ =>
      forward_conclude _ _ _
  obtain ⟨k, hk, hct⟩ := hforward u
  have ht : t.cursor = s.cursor.advance (s.cursor.layout.width.size + k) := by
    rw [h, hcu, Cursor.advance_advance] at hct
    exact hct
  rw [hcu, Cursor.advance_rest_length] at hk
  obtain ⟨found, v, -, h⟩ := Action.bind_eq_ok h
  obtain ⟨_, w, -, h⟩ := Action.bind_eq_ok h
  obtain ⟨rfl, rfl⟩ := conclude_eq_ok h
  exact ⟨_, Nat.le_add_right _ k, by omega, ht, rfl, rfl, rfl⟩

end Decoder

/-- A step of a sweep. -/
theorem decode_at {arch : Architecture} {balance : Bool} {image : List UInt8} {load : Int}
    {layout : Layout} {offset : Nat} {cursor : Cursor} {symbols : SymbolTable} {i : Instruction}
    (hat : cursor.At image load layout offset)
    (h : (decode arch balance cursor symbols).result = .ok i) :
    ∃ size, i.Read image load layout offset size ∧
      (decode arch balance cursor symbols).cursor.At image load layout (offset + size) := by
  unfold decode at h ⊢
  cases hr : Decoder.instruction arch balance (arch.site cursor) (.start cursor symbols) with
  | error fault t => rw [hr] at h; cases h
  | ok j t =>
    rw [hr] at h
    cases h
    obtain ⟨k, hunit, hk, hcursor, haddress, hnext, hraw⟩ := Decoder.instruction_advances hr
    have hbegun : cursor.beginInstruction.At image load layout offset :=
      ⟨hat.layout, hat.rest, hat.addr, hat.inside⟩
    have hcursor : t.cursor = cursor.beginInstruction.advance k := hcursor
    have ht : t.cursor.At image load layout (offset + k) := hcursor ▸ hbegun.advance hk
    have hlayout := hat.layout
    have hunit : cursor.layout.width.size ≤ k := hunit
    refine ⟨k, ⟨haddress.trans hat.addr, hnext.trans ht.addr, hlayout ▸ hunit, ht.inside, ?_⟩, ht⟩
    rw [hraw, hcursor]
    simp [Cursor.advance, Cursor.beginInstruction, Cursor.room, hat.rest, hlayout]

/-! ## Whole sweeps -/

/-- Instructions that have been read one after another, from one offset of an image to another. -/
inductive Tiles (image : List UInt8) (load : Int) (layout : Layout) :
    Nat → List Instruction → Nat → Prop
  | nil {offset : Nat} : Tiles image load layout offset [] offset
  | cons {offset size stop : Nat} {i : Instruction} {is : List Instruction}
      (hread : i.Read image load layout offset size)
      (hrest : Tiles image load layout (offset + size) is stop) :
      Tiles image load layout offset (i :: is) stop

section

variable {image : List UInt8} {load : Int} {layout : Layout} {start stop : Nat}
    {is : List Instruction}

theorem Tiles.contiguous (h : Tiles image load layout start is stop) :
    Contiguous (load + start) is (load + stop) := by
  induction h with
  | nil => rfl
  | cons hread _ ih => exact ⟨hread.address, hread.next ▸ ih⟩

theorem Tiles.read (h : Tiles image load layout start is stop) :
    ∀ i ∈ is, ∃ offset size, i.Read image load layout offset size := by
  induction h with
  | nil => simp
  | cons hread _ ih =>
    intro i hi
    rcases List.mem_cons.mp hi with rfl | hi
    · exact ⟨_, _, hread⟩
    · exact ih i hi

/-- Where no instruction is longer than what is kept of it, nothing is lost. -/
theorem Tiles.flatten_raw (h : Tiles image load layout start is stop)
    (hkept : ∀ i ∈ is, i.length ≤ layout.maxLength) :
    (is.map (·.raw)).flatten ++ image.drop stop = image.drop start := by
  induction h with
  | nil => rfl
  | @cons offset size stop i is hread _ ih =>
    have hi := hkept i List.mem_cons_self
    have hsize : i.raw = (image.drop offset).take size := by
      have haddress := hread.address
      have hnext := hread.next
      rw [hread.raw, List.take_take]
      congr 1
      simp only [Instruction.length] at hi
      omega
    rw [List.map_cons, List.flatten_cons, List.append_assoc,
      ih fun j hj => hkept j (List.mem_cons_of_mem _ hj), hsize, ← List.drop_drop,
      List.take_append_drop]

end

theorem instructionsOf_cons_ok {d : Decoded} {i : Instruction} (h : d.result = .ok i)
    (run : List Decoded) : instructionsOf (d :: run) = i :: instructionsOf run := by
  simp [instructionsOf, h, Except.toOption]

theorem instructionsOf_singleton_error {d : Decoded} {fault : Fault} (h : d.result = .error fault) :
    instructionsOf [d] = [] := by
  simp [instructionsOf, h, Except.toOption]

section

variable {image : List UInt8} {load : Int} {layout : Layout}

/-- The instructions of a sweep lie side by side, up to the end of the image if none of them
fails. -/
theorem sweep_tiles (arch : Architecture) (balance : Bool) {offset : Nat} {cursor : Cursor}
    (symbols : SymbolTable) (hat : cursor.At image load layout offset) :
    ∃ stop,
      Tiles image load layout offset (instructionsOf (sweep arch balance cursor symbols)) stop ∧
      ((∀ d ∈ sweep arch balance cursor symbols, ∃ i, d.result = .ok i) → stop = image.length) := by
  fun_induction sweep arch balance cursor symbols generalizing offset with
  | case1 cursor symbols hend =>
    have hlength : image.length ≤ offset := by
      simpa [Cursor.atEnd, hat.rest] using hend
    exact ⟨offset, .nil, fun _ => Nat.le_antisymm hat.inside hlength⟩
  | case2 cursor symbols hend d fault =>
    rename_i herror
    refine ⟨offset, instructionsOf_singleton_error herror ▸ .nil, fun hok => ?_⟩
    obtain ⟨i, hi⟩ := hok d List.mem_cons_self
    rw [herror] at hi
    cases hi
  | case3 cursor symbols hend d i hi _ =>
    rename_i ih
    obtain ⟨size, hread, hnext⟩ := decode_at hat hi
    obtain ⟨stop, htiles, hcomplete⟩ := ih hnext
    rw [instructionsOf_cons_ok hi]
    exact ⟨stop, .cons hread htiles, fun hok => hcomplete fun e he => hok e
      (List.mem_cons_of_mem _ he)⟩

/-- Everything in a sweep has been decoded by itself. -/
theorem mem_sweep {arch : Architecture} {balance : Bool} {offset : Nat} {cursor : Cursor}
    {symbols : SymbolTable} (hat : cursor.At image load layout offset) :
    ∀ d ∈ sweep arch balance cursor symbols,
      ∃ c t, c.layout = layout ∧ d = decode arch balance c t := by
  fun_induction sweep arch balance cursor symbols generalizing offset with
  | case1 cursor symbols hend => simp
  | case2 cursor symbols hend d fault =>
    intro e he
    exact ⟨cursor, symbols, hat.layout, List.mem_singleton.mp he⟩
  | case3 cursor symbols hend d i hi _ =>
    rename_i ih
    intro e he
    rcases List.mem_cons.mp he with rfl | he
    · exact ⟨cursor, symbols, hat.layout, rfl⟩
    · obtain ⟨size, -, hnext⟩ := decode_at hat hi
      exact ih hnext e he

end

theorem Architecture.cursor_at {arch : Architecture} {image : List UInt8} {load : Int}
    {cursor : Cursor} (h : arch.cursor image load = .ok cursor) :
    cursor.At image load cursor.layout 0 ∧
    (cursor.layout.width.size : Int) = arch.profile.unitWidth ∧
      cursor.layout.maxLength = arch.profile.maxLength := by
  unfold Architecture.cursor UnitWidth.ofInt at h
  split at h
  · next hone =>
    cases h
    exact ⟨⟨rfl, rfl, by simp [Cursor.start], Nat.zero_le _⟩, hone.symm, rfl⟩
  split at h
  · next htwo =>
    cases h
    exact ⟨⟨rfl, rfl, by simp [Cursor.start], Nat.zero_le _⟩, htwo.symm, rfl⟩
  · cases h

namespace Instruction.Read

variable {image : List UInt8} {load : Int} {layout : Layout} {offset size : Nat} {i : Instruction}

theorem length_eq (h : i.Read image load layout offset size) : i.length = size := by
  rw [Instruction.length, h.address, h.next]
  omega

theorem raw_eq (h : i.Read image load layout offset size) :
    i.raw = (image.drop (i.address - load).toNat).take
      (min i.length (max 0 layout.maxLength)).toNat := by
  rw [h.raw, List.take_take, h.length_eq, h.address]
  congr 1
  · omega
  · congr 1
    omega

theorem length_raw (h : i.Read image load layout offset size) :
    (i.raw.length : Int) = min i.length (max 0 layout.maxLength) := by
  have hinside := h.inside
  rw [h.raw, h.length_eq, List.length_take, List.length_take, List.length_drop]
  omega

end Instruction.Read

/-- Instructions of a machine without prefixes are no longer than its longest. -/
theorem length_le_of_mem_sweep {arch : Architecture} (balance : Bool) {image : List UInt8}
    {load : Int} {cursor : Cursor} (symbols : SymbolTable) (harch : arch ∈ Architecture.builtIn)
    (hleads : arch.leads = []) (hcursor : arch.cursor image load = .ok cursor) :
    ∀ i ∈ instructionsOf (sweep arch balance cursor symbols),
      i.length ≤ arch.profile.maxLength := by
  obtain ⟨hat, hunit, -⟩ := arch.cursor_at hcursor
  intro i hi
  obtain ⟨d, hd, hresult⟩ := List.mem_filterMap.mp hi
  obtain ⟨c, t, hlayout, rfl⟩ := mem_sweep hat d hd
  have hbyte : c.layout.width = .byte := by
    rw [arch.unitWidth_of_mem_builtIn harch] at hunit
    rw [hlayout]
    cases hw : cursor.layout.width with
    | byte => rfl
    | word => rw [hw] at hunit; cases hunit
  have hkept := decode_kept (arch.keeps_budget harch) balance hbyte t
  generalize (decode arch balance c t).result = result at hkept hresult
  cases hkept with
  | error => cases hresult
  | ok _ atMost =>
    cases hresult
    rw [Budget.run_of_leads_eq_nil hleads] at atMost
    simpa using atMost

/-- A sweep of an image that is loaded at an address, on any machine: the instructions follow each
other from that address on, each is at least a unit long, and its raw bytes are the bytes of the
image at its place, as many as are kept. Without a fault the last instruction ends with the image,
and on machines without prefixes the raw bytes make up the image. -/
theorem sweep_contiguous (arch : Architecture) (balance : Bool) (image : List UInt8) (load : Int)
    (cursor : Cursor) (hcursor : arch.cursor image load = .ok cursor) (symbols : SymbolTable) :
    let run := sweep arch balance cursor symbols
    (∃ stop, Contiguous load (instructionsOf run) stop) ∧
    (∀ i ∈ instructionsOf run, arch.profile.unitWidth ≤ i.length ∧ load ≤ i.address ∧
      i.raw = (image.drop (i.address - load).toNat).take
        (min i.length (max 0 arch.profile.maxLength)).toNat ∧
      (i.raw.length : Int) = min i.length (max 0 arch.profile.maxLength)) ∧
    ((∀ d ∈ run, ∃ i, d.result = .ok i) →
      Contiguous load (instructionsOf run) (load + image.length) ∧
      (arch = Mos6502.arch ∨ arch = Z80.arch →
        ((instructionsOf run).map (·.raw)).flatten = image)) := by
  intro run
  obtain ⟨hat, hunit, hmax⟩ := arch.cursor_at hcursor
  obtain ⟨stop, htiles, hcomplete⟩ := sweep_tiles arch balance symbols hat
  have hcontiguous := htiles.contiguous
  simp only [Int.natCast_zero, Int.add_zero] at hcontiguous
  refine ⟨⟨_, hcontiguous⟩, fun i hi => ?_, fun hok => ?_⟩
  · obtain ⟨offset, size, hread⟩ := htiles.read i hi
    have hsize := hread.unit
    have hlength := hread.length_eq
    have haddress := hread.address
    rw [← hmax]
    exact ⟨by omega, by omega, hread.raw_eq, hread.length_raw⟩
  · have hstop := hcomplete hok
    refine ⟨hstop ▸ hcontiguous, fun harch => ?_⟩
    have hbuiltIn : arch ∈ Architecture.builtIn ∧ arch.leads = [] := by
      rcases harch with rfl | rfl
      · exact ⟨by simp [Architecture.builtIn], rfl⟩
      · exact ⟨by simp [Architecture.builtIn], rfl⟩
    have hkept := length_le_of_mem_sweep balance symbols hbuiltIn.1 hbuiltIn.2 hcursor
    have hflatten := htiles.flatten_raw (hmax ▸ hkept)
    simpa [hstop] using hflatten

/-- An operation on a bit of an indexed byte, whose displacement stands in front of it, among
shorter ones. -/
theorem sweep_contiguous_indexed :
    let image : List UInt8 := [0x3E, 0x07, 0xDD, 0xCB, 0x05, 0x46, 0xC9]
    let run := sweep Z80.arch true (Cursor.start ⟨.byte, .little, 4⟩ image 0x8000) {}
    Z80.arch.cursor image 0x8000 = .ok (Cursor.start ⟨.byte, .little, 4⟩ image 0x8000) ∧
      Contiguous 0x8000 (instructionsOf run) 0x8007 ∧
      ((instructionsOf run).map (·.raw)).flatten = image := by
  intro image run
  have hok : ∀ d ∈ run, ∃ i, d.result = .ok i := by
    have hall : run.all (·.result.isOk) = true := by decide +kernel
    intro d hd
    have hd := List.all_eq_true.mp hall d hd
    cases hr : d.result with
    | ok i => exact ⟨i, rfl⟩
    | error fault => rw [hr] at hd; cases hd
  obtain ⟨-, -, h⟩ := sweep_contiguous Z80.arch true image 0x8000 _ rfl {}
  exact ⟨rfl, (h hok).1, (h hok).2 (.inr rfl)⟩

end Disassembler
