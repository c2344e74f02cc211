import Disassembler.Arch.Registry
import Disassembler.Proofs.Decoder.Budget

/-!
The built-in machines keep a budget: each of their rules fits the stage of its table. Decoding on
them never meets a fault of the tables, it needs no more input than a longest instruction after its
prefixes, and the length of an instruction is bounded by that on both sides.
-/

namespace Disassembler

namespace Architecture

/-- The bytes that are prefixes: the segment overrides and the repetitions of the 8086. -/
def leads (arch : Architecture) : List UInt8 :=
  if arch.profile.name = "i8086" then [0x26, 0x2E, 0x36, 0x3E, 0xF2, 0xF3] else []

def leadCount (arch : Architecture) (bytes : List UInt8) : Nat :=
  (bytes.takeWhile arch.leads.contains).length

/-- The root is entered after one byte and a page after two. The bit pages of the index registers
come later: the displacement in front of the operation has been deferred by then. -/
def stageOf (table : String) : Stage :=
  if table = "z80.ixcb" ∨ table = "z80.iycb" then ⟨4, 1⟩
  else if table ∈ ["z80.cb", "z80.ed", "z80.ix", "z80.iy"] then ⟨2, 0⟩
  else ⟨1, 0⟩

/-- The budget of a built-in machine leaves room for labels of 200 characters. -/
def budget (arch : Architecture) : Budget :=
  { stages := stageOf, leads := arch.leads, labels := 200 }

theorem keeps_budget : ∀ arch ∈ builtIn, arch.keeps arch.budget = true := by
  decide +kernel

theorem unitWidth_of_mem_builtIn (arch : Architecture) (h : arch ∈ builtIn) :
    arch.profile.unitWidth = 1 := by
  simp only [builtIn, List.mem_cons, List.not_mem_nil, or_false] at h
  rcases h with rfl | rfl | rfl <;> rfl

/-- A cursor of the unit width of a built-in machine reads bytes. -/
theorem eq_byte_of_mem_builtIn {arch : Architecture} (h : arch ∈ builtIn) {width : UnitWidth}
    (hwidth : UnitWidth.ofInt arch.profile.unitWidth = .ok width) : width = .byte := by
  rw [arch.unitWidth_of_mem_builtIn h] at hwidth
  exact (Except.ok.inj hwidth).symm

end Architecture

/-- Decoding on a built-in machine, with a cursor of its unit width anywhere in an image and labels
of up to 200 characters: it fails only because the input ends, it does not fail where a longest
instruction after its prefixes fits, and an instruction is longer than its prefixes by one byte at
least and by a longest instruction at most. -/
theorem decode_bounded (arch : Architecture) (harch : arch ∈ Architecture.builtIn) (balance : Bool)
    (cursor : Cursor) (hwidth : UnitWidth.ofInt arch.profile.unitWidth = .ok cursor.layout.width)
    (symbols : SymbolTable) (hlabels : ∀ p ∈ symbols.labels, p.2.length ≤ 200) :
    (∀ fault, (decode arch balance cursor symbols).result = .error fault →
      ∃ address, fault = .endOfInput address) ∧
    (arch.leadCount cursor.rest + arch.profile.maxLength ≤ cursor.rest.length →
      ∃ i, (decode arch balance cursor symbols).result = .ok i) ∧
    (∀ i, (decode arch balance cursor symbols).result = .ok i →
      arch.leadCount cursor.rest + 1 ≤ i.length ∧
      i.length ≤ arch.leadCount cursor.rest + arch.profile.maxLength) := by
  have hbyte : cursor.layout.width = .byte := by
    have hone : UnitWidth.ofInt arch.profile.unitWidth = .ok .byte := by
      rw [arch.unitWidth_of_mem_builtIn harch]
      rfl
    exact Except.ok.inj (hwidth.symm.trans hone)
  have hkept := decode_kept (arch.keeps_budget harch) balance hbyte symbols
  generalize (decode arch balance cursor symbols).result = result at hkept
  cases hkept with
  | ok atLeast atMost =>
    refine ⟨fun _ h => (nomatch h), fun _ => ⟨_, rfl⟩, fun i h => ?_⟩
    cases h
    exact ⟨atLeast, atMost⟩
  | error hfailed =>
    -- labels are short, so that only the end of the input is left
    obtain ⟨hend, hlt⟩ := hfailed.resolve_right fun hlong => hlong.2 hlabels
    refine ⟨fun fault h => ?_, fun henough => ?_, fun _ h => (nomatch h)⟩
    · cases h
      exact hend
    · have hcount : arch.leadCount cursor.rest = arch.budget.run cursor.rest := rfl
      omega

/-- The longest instruction of the 8086 after two prefixes, at an address whose label fills the room
for labels. -/
theorem decode_bounded_longest :
    let image : List UInt8 := [0xF3, 0x2E, 0x81, 0x06, 0x34, 0x12, 0x78, 0x56]
    let name := String.ofList (List.replicate 200 'L')
    let symbols : SymbolTable := { entries := [{ address := 0x1234, label := some name }] }
    let d := decode I8086.arch true (Cursor.start ⟨.byte, .little, 6⟩ image 0x100) symbols
    (∀ p ∈ symbols.labels, p.2.length ≤ 200) ∧ ∃ i, d.result = .ok i ∧ 3 ≤ i.length ∧
      i.length ≤ 8 := by
  intro image name symbols d
  have hlabels : ∀ p ∈ symbols.labels, p.2.length ≤ 200 := by
    intro p hp
    have hp : p = (0x1234, name) := List.mem_singleton.mp hp
    rw [hp]
    exact Nat.le_of_eq (by rw [String.length_ofList, List.length_replicate])
  obtain ⟨-, hreturns, hlength⟩ := decode_bounded I8086.arch List.mem_cons_self true
    (Cursor.start ⟨.byte, .little, 6⟩ image 0x100) rfl symbols hlabels
  obtain ⟨i, hi⟩ := hreturns (by decide)
  exact ⟨hlabels, i, hi, hlength i hi⟩

end Disassembler
