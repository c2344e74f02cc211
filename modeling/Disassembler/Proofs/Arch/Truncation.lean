import Disassembler.Proofs.Arch.Prefixes
import Disassembler.Proofs.Decoder.Passage
import Disassembler.Proofs.Decoder.Recording

/-!
References of an instruction that is cut off. On the built-in machines an instruction makes one
reference at most, and if the input ends within it, it makes none. There is one exception: when the
8086 stores an immediate operand, the address of the memory operand is referred to before the
immediate is read, so that the reference stays if the input ends between the two.
-/

namespace Disassembler

theorem SymbolTable.references_append {t : SymbolTable} (h : t.Ordered) (m : Mention) (a : Int) :
    (t.append m).references a = t.references a ++ if a = m.target then [m.ref] else [] := by
  have hrefs : Mention.refsTo a [m] = if a = m.target then [m.ref] else [] := by
    by_cases ha : a = m.target
    · simp [Mention.refsTo, ha]
    · simp [Mention.refsTo, ha, Ne.symm ha]
  rw [← hrefs]
  exact references_appendAll h [m] a

namespace Decoder

open Disassembler.Action (Fed fed_pure)

variable {α β : Type} {source : Int} {old : SymbolTable} {cut cut' : Int → Prop}

/-- An outcome with at most one more reference. Where `cut` holds of a target, the outcome is a
fault, and if that is the end of the input, a reference to the target has been made by then.
Otherwise no reference is left at the end of the input. -/
structure CutShort (source : Int) (before : SymbolTable) (cut : Int → Prop)
    (r : EStateM.Result Fault Decoding α) : Prop where
  once : before.OneMore source (Action.outcome r).2.symbols
  unchanged : ∀ {address t}, r = .error (.endOfInput address) t → (∀ target, ¬ cut target) →
    t.symbols = before
  failed : ∀ {target}, cut target → ∀ a t, r ≠ .ok a t
  kept : ∀ {target address t}, cut target → r = .error (.endOfInput address) t →
    t.symbols = before.append ⟨target, source, .data⟩

theorem Spared.cutShort {r : EStateM.Result Fault Decoding α} (h : Spared source old r)
    (hcut : ∀ target, ¬ cut target) : CutShort source old cut r where
  once := h.once
  unchanged := fun hend _ => h.late hend
  failed := fun hc => absurd hc (hcut _)
  kept := fun hc => absurd hc (hcut _)

theorem CutShort.congr {r : EStateM.Result Fault Decoding α} (h : CutShort source old cut r)
    (hcut : ∀ target, cut' target ↔ cut target) : CutShort source old cut' r where
  once := h.once
  unchanged := fun hend hnone => h.unchanged hend fun target hc =>
    hnone target ((hcut target).mpr hc)
  failed := fun hc => h.failed ((hcut _).mp hc)
  kept := fun hc => h.kept ((hcut _).mp hc)

/-- Another fault than the end of the input does not count. -/
theorem CutShort.of_error {fault : Fault} {t : Decoding}
    (hfault : ∀ address, fault ≠ .endOfInput address) (h : old.OneMore source t.symbols) :
    CutShort source old cut (.error fault t : EStateM.Result Fault Decoding α) where
  once := h
  unchanged := fun hend => by cases hend; exact absurd rfl (hfault _)
  failed := fun _ _ _ hok => by cases hok
  kept := fun _ hend => by cases hend; exact absurd rfl (hfault _)

/-- Whatever neither refers to anything nor reads may follow. -/
theorem CutShort.before {m : Decoder α} {f : α → Decoder β} {s : Decoding}
    (h : CutShort source old cut (m s)) (hf : ∀ a t, m s = .ok a t → Quiet (f a) ∧ Fed (f a)) :
    CutShort source old cut ((m >>= f) s) := by
  cases hm : m s with
  | error fault t =>
    rw [hm] at h
    rw [Action.bind_of_error _ hm]
    refine ⟨h.once, fun hend => ?_, fun _ _ _ hok => (by cases hok), fun hc hend => ?_⟩
    · cases hend
      exact h.unchanged rfl
    · cases hend
      exact h.kept hc rfl
  | ok a t =>
    rw [hm] at h
    obtain ⟨hquiet, hfed⟩ := hf a t hm
    have hsame : (Action.outcome (f a t)).2.symbols = t.symbols := hquiet t
    rw [Action.bind_of_ok _ hm]
    refine ⟨?_, fun hend => absurd hend (hfed t _ _), fun hc => absurd rfl (h.failed hc a t),
      fun hc => absurd rfl (h.failed hc a t)⟩
    rw [hsame]
    exact h.once

/-! ## Reading -/

variable {s t : Decoding} {site : Site} {kind : RefKind}

theorem readByte_of_cons {byte : UInt8} {bytes : List UInt8} (h : s.cursor.rest = byte :: bytes) :
    readByte s = .ok byte.toNat { s with cursor := s.cursor.advance 1 } := by
  have hread : onCursor (Cursor.reading (fun _ => 1) (·.order.value)) s = _ :=
    reading_of_le (by rw [h]; exact Nat.succ_le_succ (Nat.zero_le _))
  rw [h, List.take_succ_cons, List.take_zero, value_singleton] at hread
  exact hread

theorem readByte_of_nil (h : s.cursor.rest = []) :
    readByte s = .error (.endOfInput (some s.cursor.addr)) s := by
  have hread : onCursor (Cursor.reading (fun _ => 1) (·.order.value)) s = _ :=
    reading_of_lt (by rw [h]; exact Nat.zero_lt_one)
  exact hread

theorem readWord_of_cons {low high : UInt8} {bytes : List UInt8}
    (h : s.cursor.rest = low :: high :: bytes) :
    readWord s = .ok (s.cursor.layout.order.value [low, high])
      { s with cursor := s.cursor.advance 2 } := by
  have hread : onCursor (Cursor.reading (fun _ => 2) (·.order.value)) s = _ :=
    reading_of_le (by rw [h]; exact Nat.succ_le_succ (Nat.succ_le_succ (Nat.zero_le _)))
  rw [h] at hread
  exact hread

/-- What is read and then only written needs as many bytes as are read, and no more. -/
theorem needs_of_reading {n : Nat} {value : Layout → List UInt8 → α} {m : Decoder α}
    {f : α → Decoder β} (hm : m = onCursor (Cursor.reading (fun _ => n) value))
    (hfed : ∀ a, Fed (f a)) :
    (∀ address t, (m >>= f) s = .error (.endOfInput address) t → s.cursor.rest.length < n) ∧
      ∀ b t, (m >>= f) s = .ok b t → n ≤ s.cursor.rest.length := by
  subst hm
  by_cases hn : n ≤ s.cursor.rest.length
  · rw [Action.bind_of_ok _ (reading_of_le hn)]
    exact ⟨fun address t h => absurd h (hfed _ _ address t), fun _ _ _ => hn⟩
  · rw [Action.bind_of_error _ (reading_of_lt (Nat.lt_of_not_le hn))]
    exact ⟨fun _ _ _ => Nat.lt_of_not_le hn, fun _ _ h => by cases h⟩

theorem Still.keeps {m : Decoder α} (h : Still m) : Keeps (·.cursor) m := h

theorem still_mnemonic (name : String) : Keeps (·.cursor) (mnemonic site name) :=
  Keeps.bind (fun _ => rfl) fun _ => Keeps.bind (still_onOutput _).keeps fun _ =>
    (still_onOutput _).keeps

theorem fed_address (value : Int) (format wrap : String) :
    Fed (address site kind value format wrap) := by
  rw [address_eq_naming]
  refine (fed_onOutput (Output.fed_text _)).bind fun _ => Fed.bind ?_ fun shown => ?_
  · exact Action.fed_lift_mapError fun _ _ h => by cases h
  · refine Fed.bind (fun s => ?_) fun _ => (fed_onOutput (Output.fed_text _)).bind fun _ =>
      Action.fed_modify _
    exact fed_onOutput (Output.fed_append _) s

/-- An address that has been written has been referred to. -/
theorem address_eq_ok {value : Int} {format wrap : String} {a : Unit}
    (h : address site kind value format wrap s = .ok a t) :
    t.cursor = s.cursor ∧ t.symbols = s.symbols.record value site.address kind := by
  rw [address_eq_naming] at h
  obtain ⟨_, s₁, hbefore, h⟩ := Action.bind_eq_ok h
  obtain ⟨shown, s₂, hlift, h⟩ := Action.bind_eq_ok h
  obtain ⟨_, s₃, hnaming, h⟩ := Action.bind_eq_ok h
  obtain ⟨_, s₄, hafter, hrecord⟩ := Action.bind_eq_ok h
  obtain ⟨_, -, rfl⟩ := onOutput_eq_ok hbefore
  obtain rfl := Action.state_of_lift hlift
  obtain ⟨_, -, rfl⟩ := onOutput_eq_ok (m := Output.append _) hnaming
  obtain ⟨_, -, rfl⟩ := onOutput_eq_ok hafter
  cases hrecord
  exact ⟨rfl, rfl⟩

end Decoder

/-! ## Tables without pages -/

/-- Where there are prefixes, a rule that sends the walk on accepts one of them. -/
theorem Rule.mem_leads_of_onward? {b : Budget} {p : Profile} {stage : Stage} {rule : Rule}
    {byte : UInt8} {further : Nat} {next : Next} (hfits : rule.fits b p stage = true)
    (hleads : b.leads ≠ []) (haccepts : rule.accepts byte.toNat = true)
    (honward : rule.onward? further = some next) : byte ∈ b.leads := by
  cases rule with
  | lead effect kind opcode =>
    obtain ⟨first, hmem, hfirst⟩ := List.any_eq_true.mp (Bool.and_eq_true_iff.mp hfits).2
    have hsame : (first.toNat : Int) = byte.toNat :=
      (of_decide_eq_true hfirst).trans (of_decide_eq_true haccepts).symm
    rwa [UInt8.toNat_inj.mp (Int.ofNat.inj hsame)] at hmem
  | sub target opcode =>
    simp only [fits, Bool.and_eq_true, List.isEmpty_iff] at hfits
    exact absurd hfits.1.1 hleads
  | push target opcode count =>
    simp only [fits, Bool.and_eq_true, List.isEmpty_iff] at hfits
    exact absurd hfits.1.1.1 hleads
  | _ => cases honward

/-- A walk that stops in its first table has the references that are made there. -/
theorem Walk.cutShort_walk {arch : Architecture} {site : Site} {table : Table} {unit : Nat}
    {source : Int} {old : SymbolTable} {cut : Int → Prop} {s : Decoding}
    (hstops : ∀ rule ∈ table.rules, rule.accepts unit = true →
      ∀ further, rule.onward? further = none)
    (h : Decoder.CutShort source old cut (scan site table.name unit table.rules none s)) :
    Decoder.CutShort source old cut (walk arch site table unit s) := by
  rw [walk_eq_bind]
  refine h.before fun next t hscan => ?_
  have hend : next.goesOn = false := by
    refine Bool.eq_false_iff.mpr fun hgo => ?_
    obtain ⟨rule, hr, haccepts, -, -, further, -, -, -, honward⟩ := scan_sentOn hscan hgo
    rw [hstops rule hr haccepts] at honward
    cases honward
  cases next with
  | stop found => exact ⟨Decoder.keeps_pure _, Action.fed_pure _⟩
  | goto | again => cases hend

/-! ## Memory operands at an address -/

namespace ModRM

open Decoder
open Disassembler.Action (Fed fed_pure)

variable {site : Site} {kind : RefKind} {s t : Decoding} {opcode : Nat} {order : ByteOrder}
    {bytes rest : List UInt8}
  {target : Int}

/-- The bytes of a memory operand at an absolute address: a ModRM byte without a base, and the
address. -/
def Direct (order : ByteOrder) (bytes : List UInt8) (target : Int) (rest : List UInt8) : Prop :=
  ∃ modrm low high, bytes = modrm :: low :: high :: rest ∧ modrm.toNat / 64 = 0 ∧
    modrm.toNat % 8 = 6 ∧
    target = order.value [low, high]

theorem Direct.unique {target' : Int} {rest' : List UInt8} (h : Direct order bytes target rest)
    (h' : Direct order bytes target' rest') : target' = target ∧ rest' = rest := by
  obtain ⟨modrm, low, high, rfl, -, -, rfl⟩ := h
  obtain ⟨modrm', low', high', hbytes, -, -, rfl⟩ := h'
  cases hbytes
  exact ⟨rfl, rfl⟩

theorem fed_segment : Fed segment := by
  refine (fed_takeEffect "seg").bind fun name => ?_
  cases name with
  | none => exact fed_pure ()
  | some name => exact fed_write _ _

theorem still_segment : Keeps (·.cursor) segment := by
  refine Keeps.bind (fun _ => rfl) fun name => ?_
  cases name with
  | none => exact keeps_pure ()
  | some name => exact (still_onOutput _).keeps

theorem quiet_segment : Quiet segment := Composed.quiet (.segment : Composed {} _ _)

theorem operands_eq_memory (h : (Form.ofOpcode opcode).selectsOperation = true) :
    operands site kind opcode = readByte >>= fun modrm =>
      effectiveAddress site kind (Form.ofOpcode opcode).wide (modrm / 64 % 4) (modrm % 8) := by
  unfold operands
  simp only [h, if_true]

/-- The address is read whole, and when the operand has been written, it has been referred to. -/
theorem operands_of_direct (site : Site) (kind : RefKind)
    (h : (Form.ofOpcode opcode).selectsOperation = true)
    (hdirect : Direct s.cursor.layout.order s.cursor.rest target rest) :
    (∀ address t, operands site kind opcode s ≠ .error (.endOfInput address) t) ∧
      ∀ a t, operands site kind opcode s = .ok a t →
        t.cursor.rest = rest ∧ t.symbols = s.symbols.record target site.address kind := by
  obtain ⟨modrm, low, high, hbytes, hmod, hrm, rfl⟩ := hdirect
  let u : Decoding := { s with cursor := s.cursor.advance 1 }
  have hu : u.cursor.rest = low :: high :: rest := by
    simp only [u, Cursor.advance, hbytes, List.drop_succ_cons, List.drop_zero]
  have habsolute : effectiveAddress site kind (Form.ofOpcode opcode).wide (modrm.toNat / 64 % 4)
      (modrm.toNat % 8) =
      absolute site kind (Form.ofOpcode opcode).wide := by
    unfold effectiveAddress
    rw [if_neg (by omega), if_pos (by omega)]
  have hrun : operands site kind opcode s = (segment >>= fun _ => Decoder.address site kind
      (s.cursor.layout.order.value [low, high]) "0%04X"
        (sizeLetter (Form.ofOpcode opcode).wide ++ "[%s]"))
        { u with cursor := u.cursor.advance 2 } := by
    rw [operands_eq_memory h, Action.bind_of_ok _ (readByte_of_cons hbytes), habsolute]
    exact Action.bind_of_ok _ (readWord_of_cons hu)
  rw [hrun]
  refine ⟨fun address t => (fed_segment.bind fun _ => fed_address _ _ _) _ address t,
    fun a t hok => ?_⟩
  obtain ⟨_, v, hsegment, haddress⟩ := Action.bind_eq_ok hok
  obtain ⟨hcursor, hsymbols⟩ := address_eq_ok haddress
  have hv : v.cursor = u.cursor.advance 2 := still_segment.of_ok hsegment
  have hquiet : v.symbols = _ := quiet_segment.of_ok hsegment
  refine ⟨?_, by rw [hsymbols, hquiet]⟩
  rw [hcursor, hv, Cursor.advance, hu]
  rfl

/-- Any other memory operand refers to nothing, however far the input goes. -/
theorem operands_of_not_direct (site : Site) (kind : RefKind)
    (h : (Form.ofOpcode opcode).selectsOperation = true)
    (hdirect : ∀ target rest, ¬ Direct s.cursor.layout.order s.cursor.rest target rest) :
    (Action.outcome (operands site kind opcode s)).2.symbols = s.symbols := by
  rw [operands_eq_memory h]
  cases hbytes : s.cursor.rest with
  | nil =>
    rw [Action.bind_of_error _ (readByte_of_nil hbytes)]
    rfl
  | cons modrm bytes =>
    rw [Action.bind_of_ok _ (readByte_of_cons hbytes)]
    by_cases hfields : modrm.toNat / 64 % 4 = 0 ∧ modrm.toNat % 8 = 6
    · have hmodrm := modrm.toNat_lt
      have hshort : (s.cursor.advance 1).rest.length < 2 := by
        rcases bytes with _ | ⟨low, _ | ⟨high, rest⟩⟩
        · simp [Cursor.advance, hbytes]
        · simp [Cursor.advance, hbytes]
        · exact absurd ⟨modrm, low, high, hbytes, by omega, hfields.2, rfl⟩ (hdirect _ rest)
      unfold effectiveAddress
      rw [if_neg (by omega), if_pos hfields]
      have hread : readWord { s with cursor := s.cursor.advance 1 } = .error _ _ :=
        (reading_of_lt hshort : onCursor (Cursor.reading (fun _ => 2) (·.order.value)) _ = _)
      rw [absolute, Action.bind_of_error _ hread]
      rfl
    · exact quiet_effectiveAddress hfields _

end ModRM

/-! ## Stores of an immediate operand -/

namespace I8086

open Decoder
open Disassembler.Action (Fed fed_pure)

variable {site : Site} {s t : Decoding} {opcode : UInt8} {bytes : List UInt8} {target : Int}

/-- The store of an immediate operand, a byte under the first of its opcodes and a word under the
second. -/
def store : Insn := ⟨"MOV", modrmImm, .data⟩

def storeOpcodes : List UInt8 := [0xC6, 0xC7]

def immediateBytes (opcode : UInt8) : Nat := if opcode = 0xC7 then 2 else 1

def CutOperands (order : ByteOrder) (symbols : SymbolTable) (opcode : UInt8) (bytes : List UInt8)
    (target : Int) : Prop :=
  ∃ rest, ModRM.Direct order bytes target rest ∧ rest.length < immediateBytes opcode ∧
    symbols.inRange target = true

/-- The bytes of a store at an address in range, cut off within its immediate operand. -/
def CutStore (order : ByteOrder) (symbols : SymbolTable) (bytes : List UInt8)
    (target : Int) : Prop :=
  ∃ opcode following, bytes = opcode :: following ∧ opcode ∈ storeOpcodes ∧
    CutOperands order symbols opcode following target

/-- The immediate operand needs as many bytes as it has, and no more. -/
theorem needs_immediate (hopcode : opcode ∈ storeOpcodes) {f : Unit → Decoder Next}
    (hfed : ∀ a, Fed (f a)) :
    (∀ address t, (ModRM.immediate opcode.toNat >>= f) s = .error (.endOfInput address) t →
      s.cursor.rest.length < immediateBytes opcode) ∧
    ∀ b t, (ModRM.immediate opcode.toNat >>= f) s = .ok b t →
      immediateBytes opcode ≤ s.cursor.rest.length := by
  have hwritten : ∀ template (value : Int), Fed (number template value >>= f) :=
    fun template value => (fed_number template value).bind hfed
  simp only [storeOpcodes, List.mem_cons, List.not_mem_nil, or_false] at hopcode
  rcases hopcode with rfl | rfl
  · have himmediate : ModRM.immediate (0xC6 : UInt8).toNat = readByte >>= fun v : Nat =>
        number "0%02X" v := rfl
    have hread : readByte = onCursor (Cursor.reading (fun _ => 1) (·.order.value)) := rfl
    rw [himmediate, bind_assoc]
    exact needs_of_reading hread fun v => hwritten _ _
  · have himmediate : ModRM.immediate (0xC7 : UInt8).toNat = readWord >>= fun v : Nat =>
        number "0%04X" v := rfl
    have hread : readWord = onCursor (Cursor.reading (fun _ => 2) (·.order.value)) := rfl
    rw [himmediate, bind_assoc]
    exact needs_of_reading hread fun v => hwritten _ _

def storeOperands (site : Site) (opcode : Nat) : Decoder Next := do
  ModRM.operands site .data opcode
  comma
  ModRM.immediate opcode
  return .stop true

theorem emit_store :
    Walk.emit site store opcode.toNat = mnemonic site "MOV" >>= fun _ =>
      storeOperands site opcode.toNat := by
  have hrender : modrmImm.render site .data opcode.toNat = (do
      ModRM.operands site .data opcode.toNat
      comma
      ModRM.immediate opcode.toNat) := Operand.render_pair _ _ _
  simp only [Walk.emit, store, hrender, storeOperands, bind_assoc]

theorem selectsOperation_of_store (hopcode : opcode ∈ storeOpcodes) :
    (ModRM.Form.ofOpcode opcode.toNat).selectsOperation = true := by
  simp only [storeOpcodes, List.mem_cons, List.not_mem_nil, or_false] at hopcode
  rcases hopcode with rfl | rfl <;> decide

theorem quiet_immediate : Quiet (ModRM.immediate opcode.toNat >>= fun _ => pure (Next.stop true)) :=
  Keeps.bind (Composed.quiet (.groupImmediate _ : Composed {} _ _)) fun _ => keeps_pure _

/-- If the memory operand is at an address, only the immediate operand can be cut off, and by then
the address has been referred to. -/
theorem storeOperands_of_direct (site : Site) (hopcode : opcode ∈ storeOpcodes) {rest : List UInt8}
    (hdirect : ModRM.Direct s.cursor.layout.order s.cursor.rest target rest) :
    (∀ address t, storeOperands site opcode.toNat s = .error (.endOfInput address) t →
      rest.length < immediateBytes opcode ∧
      t.symbols = s.symbols.record target site.address .data) ∧
    ∀ a t, storeOperands site opcode.toNat s = .ok a t → immediateBytes opcode ≤ rest.length := by
  obtain ⟨hfed, hwritten⟩ :=
    ModRM.operands_of_direct site .data (selectsOperation_of_store hopcode) hdirect
  have hcomma : Fed comma := fed_separator _
  have hneeds : ∀ {u}, _ := fun {u} => needs_immediate (s := u) hopcode fun _ =>
    fed_pure (Next.stop true)
  refine ⟨fun address t h => ?_, fun a t h => ?_⟩
  · rcases Action.bind_eq_error h with h | ⟨_, u, hoperands, h⟩
    · exact absurd h (hfed address t)
    rcases Action.bind_eq_error h with h | ⟨_, v, hseparator, h⟩
    · exact absurd h (hcomma u address t)
    obtain ⟨hrest, hsymbols⟩ := hwritten _ u hoperands
    obtain ⟨_, -, rfl⟩ := onOutput_eq_ok hseparator
    have hsame : t.symbols = _ := quiet_immediate.of_error h
    have hshort := hneeds.1 address t h
    exact ⟨hrest ▸ hshort, hsame.trans hsymbols⟩
  · obtain ⟨_, u, hoperands, h⟩ := Action.bind_eq_ok h
    obtain ⟨_, v, hseparator, h⟩ := Action.bind_eq_ok h
    obtain ⟨_, -, rfl⟩ := onOutput_eq_ok hseparator
    have hlong := hneeds.2 a t h
    exact (hwritten _ u hoperands).1 ▸ hlong

/-- The operands of a store make one reference at most. It stays at the end of the input just if the
immediate operand is what is cut off. -/
theorem cutShort_storeOperands (hopcode : opcode ∈ storeOpcodes) :
    CutShort site.address s.symbols
      (CutOperands s.cursor.layout.order s.symbols opcode s.cursor.rest)
      (storeOperands site opcode.toNat s) := by
  have hquiet : Quiet (comma >>= fun _ => ModRM.immediate opcode.toNat >>=
    fun _ => pure (Next.stop true)) :=
    Keeps.bind (quiet_onOutput _) fun _ => quiet_immediate
  have honce : s.symbols.OneMore site.address
      (Action.outcome (storeOperands site opcode.toNat s)).2.symbols :=
    (ModRM.sparing_operands _).once_bind (fun _ => hquiet) s
  by_cases hdirect : ∃ target rest, ModRM.Direct s.cursor.layout.order s.cursor.rest target rest
  · obtain ⟨target, rest, hdirect⟩ := hdirect
    obtain ⟨hend, hok⟩ := storeOperands_of_direct site hopcode hdirect
    refine ⟨honce, fun {address t} h hnone => ?_, fun {target'} hcut a t h => ?_,
      fun {target' address t} hcut h => ?_⟩
    · obtain ⟨hshort, hsymbols⟩ := hend address t h
      have hrange : s.symbols.inRange target = false := by
        refine Bool.eq_false_iff.mpr fun hrange => ?_
        exact hnone target ⟨rest, hdirect, hshort, hrange⟩
      rw [hsymbols, SymbolTable.record_eq_self (.inr hrange)]
    · obtain ⟨rest', hdirect', hshort, -⟩ := hcut
      rw [(hdirect.unique hdirect').2] at hshort
      exact absurd (hok a t h) (Nat.not_le_of_lt hshort)
    · obtain ⟨rest', hdirect', -, hrange⟩ := hcut
      obtain ⟨rfl, rfl⟩ := hdirect.unique hdirect'
      rw [(hend address t h).2, SymbolTable.record_eq_append (by decide) hrange]
  · have hnone : ∀ target rest, ¬ ModRM.Direct s.cursor.layout.order s.cursor.rest target rest :=
      fun target rest h => hdirect ⟨target, rest, h⟩
    have hsame : (Action.outcome (storeOperands site opcode.toNat s)).2.symbols = s.symbols := by
      have hoperands :=
        ModRM.operands_of_not_direct site .data (selectsOperation_of_store hopcode) hnone
      cases h : ModRM.operands site .data opcode.toNat s with
      | error fault t =>
        rw [h] at hoperands
        rw [storeOperands, Action.bind_of_error _ h]
        exact hoperands
      | ok a t =>
        rw [h] at hoperands
        rw [storeOperands, Action.bind_of_ok _ h]
        exact (hquiet t).trans hoperands
    refine Spared.cutShort ⟨.inl hsame, fun {address t} h => ?_⟩ fun target hcut =>
      hnone target _ hcut.choose_spec.1
    rw [h] at hsame
    exact hsame

/-- A store behind its opcode. -/
theorem cutShort_emit_store (hopcode : opcode ∈ storeOpcodes) :
    CutShort site.address s.symbols
      (CutOperands s.cursor.layout.order s.symbols opcode s.cursor.rest)
      (Walk.emit site store opcode.toNat s) := by
  rw [emit_store]
  cases h : mnemonic site "MOV" s with
  | error fault t =>
    rw [Action.bind_of_error _ h]
    refine .of_error (fun address hfault => ?_) (.inl ((quiet_mnemonic _).of_error h))
    exact fed_mnemonic _ s address t (hfault ▸ h)
  | ok a t =>
    rw [Action.bind_of_ok _ h]
    have hsymbols : t.symbols = s.symbols := (quiet_mnemonic _).of_ok h
    have hcursor : t.cursor = s.cursor := (still_mnemonic _).of_ok h
    rw [← hsymbols, ← hcursor]
    exact cutShort_storeOperands hopcode

/-! ## Instructions -/

theorem find?_store : ∀ opcode ∈ storeOpcodes,
    root.rules.find? (·.accepts opcode.toNat) = some (.mask store 0xFE 0xC6) := by
  decide +kernel

theorem sparing_or_store : ∀ rule ∈ root.rules, rule.sparing = true ∨
    rule = .mask store 0xFE 0xC6 := by
  decide +kernel

/-- Only its own opcodes are those of a store. -/
theorem mem_storeOpcodes (h : (Rule.mask store 0xFE 0xC6).accepts opcode.toNat = true) :
    opcode ∈ storeOpcodes := by
  have hvalue : ∀ n < 256, n &&& 0xFE = 0xC6 → n = 0xC6 ∨ n = 0xC7 := by decide +kernel
  have hmasked : opcode.toNat &&& 0xFE = 0xC6 := Int.ofNat.inj (of_decide_eq_true h)
  rcases hvalue _ opcode.toNat_lt hmasked with h | h
  · exact List.mem_cons.mpr (.inl (UInt8.toNat_inj.mp h))
  · exact List.mem_cons_of_mem _ (List.mem_singleton.mpr (UInt8.toNat_inj.mp h))

/-- The root on a byte that has been read. -/
theorem cutShort_scan (site : Site) (byte : UInt8) (s : Decoding) :
    CutShort site.address s.symbols
      (fun target => byte ∈ storeOpcodes ∧
        CutOperands s.cursor.layout.order s.symbols byte s.cursor.rest target)
      (Walk.scan site root.name byte.toNat root.rules none s) := by
  by_cases hopcode : byte ∈ storeOpcodes
  · have hselected : Walk.scan site root.name byte.toNat root.rules none =
        Walk.emit site store byte.toNat := by
      rw [Walk.scan_eq_select, Walk.selectBy_of_find? (find?_store byte hopcode) rfl, pure_bind]
      rfl
    rw [hselected]
    exact (cutShort_emit_store hopcode).congr fun target => and_iff_right hopcode
  · refine (Walk.sparing_scan (fun rule hr haccepts => ?_) s).cutShort fun target hcut =>
      hopcode hcut.1
    refine (sparing_or_store rule hr).resolve_right fun hstore => hopcode ?_
    subst hstore
    exact mem_storeOpcodes haccepts

theorem leads_eq : arch.leads = [0x26, 0x2E, 0x36, 0x3E, 0xF2, 0xF3] := if_pos rfl

/-- Nothing but a prefix sends the walk on. -/
theorem stops_of_notMem {byte : UInt8} (hbyte : byte ∉ arch.leads) :
    ∀ rule ∈ root.rules, rule.accepts byte.toNat = true →
      ∀ further, rule.onward? further = none := by
  intro rule hr haccepts further
  refine Option.eq_none_iff_forall_ne_some.mpr fun next honward => hbyte ?_
  have hkeeps := (arch.fitted_of_keeps (arch.keeps_budget List.mem_cons_self) default).2.2.2
  have hfits := List.all_eq_true.mp (Bool.and_eq_true_iff.mp hkeeps).1 rule hr
  exact Rule.mem_leads_of_onward? hfits (by decide) haccepts honward

/-- An instruction without a prefix. -/
theorem cutShort_instruction (balance : Bool) (site : Site) (hwidth : s.cursor.layout.width = .byte)
    (hlead : ∀ byte ∈ s.cursor.rest.head?, byte ∉ arch.leads) :
    CutShort site.address s.symbols (CutStore s.cursor.layout.order s.symbols s.cursor.rest)
      (instruction arch balance site s) := by
  cases hrest : s.cursor.rest with
  | nil =>
    have hshort : s.cursor.rest.length < s.cursor.layout.width.size := by
      rw [hrest, hwidth]
      exact Nat.zero_lt_one
    have hfetch : fetch s = .error _ s :=
      (reading_of_lt hshort : onCursor (Cursor.reading (·.width.size) (·.order.value)) s = _)
    rw [instruction, Action.bind_of_error _ hfetch]
    refine Spared.cutShort ⟨.inl rfl, fun h => by cases h; rfl⟩ fun target hcut => ?_
    obtain ⟨_, _, hbytes, -⟩ := hcut
    cases hbytes
  | cons byte bytes =>
    have hbyte : byte ∉ arch.leads := hlead byte (by rw [hrest]; rfl)
    have hfollowing : (s.cursor.advance 1).rest = bytes := by
      rw [Cursor.advance, hrest]
      rfl
    have hscan := cutShort_scan site byte { s with cursor := s.cursor.advance 1 }
    rw [hfollowing] at hscan
    rw [instruction, Action.bind_of_ok _ (fetch_byte hwidth hrest)]
    refine (Walk.cutShort_walk (stops_of_notMem hbyte) (hscan.congr fun target => ?_)).before
      fun found _ _ =>
      ⟨quiet_closing balance site found, fed_closing balance site found⟩
    constructor
    · rintro ⟨_, _, hbytes, hopcode, hcut⟩
      cases hbytes
      exact ⟨hopcode, hcut⟩
    · rintro ⟨hopcode, hcut⟩
      exact ⟨byte, bytes, rfl, hopcode, hcut⟩

theorem mem_of_leads : ∀ byte ∈ arch.leads, byte ∈ repeats ++ overrides := by
  rw [leads_eq]
  decide +kernel

/-- An instruction behind any prefixes. -/
theorem cutShort_prefixed (balance : Bool) (site : Site) {cursor : Cursor}
    (hwidth : cursor.layout.width = .byte) (symbols : SymbolTable) :
    CutShort site.address symbols
      (CutStore cursor.layout.order symbols (cursor.rest.dropWhile arch.leads.contains))
      (instruction arch balance site (.start cursor symbols)) := by
  have hrun : ∀ byte ∈ cursor.rest.takeWhile arch.leads.contains, (arch.effect? byte).isSome =
      true := fun byte h =>
    effect?_isSome
      (mem_of_leads byte (List.contains_iff_mem.mp (List.all_eq_true.mp List.all_takeWhile byte h)))
  obtain ⟨t, ht, hpast⟩ :=
    instruction_leads balance site (s := .start cursor symbols) hwidth rfl hrun
    List.takeWhile_append_dropWhile.symm
  have hlead : ∀ byte ∈ t.cursor.rest.head?, byte ∉ arch.leads := by
    intro byte hhead hmem
    have hfirst : (cursor.rest.dropWhile arch.leads.contains).head? = some byte :=
      hpast.rest ▸ hhead
    have hstopped := List.head?_dropWhile_not arch.leads.contains cursor.rest
    rw [hfirst] at hstopped
    exact Bool.eq_false_iff.mp hstopped (List.contains_iff_mem.mpr hmem)
  have hcut := cutShort_instruction balance site (hpast.layout ▸ hwidth) hlead
  rw [hpast.layout, hpast.rest, hpast.symbols] at hcut
  rw [ht]
  exact hcut

end I8086

/-! ## The built-in machines -/

/-- Input that ends within the immediate operand of a store on the 8086: behind any prefixes, the
store is at the address `target`, which is in range. -/
def Architecture.CutStore (arch : Architecture) (cursor : Cursor) (symbols : SymbolTable)
    (target : Int) : Prop :=
  arch = I8086.arch ∧
    I8086.CutStore cursor.layout.order symbols (cursor.rest.dropWhile arch.leads.contains) target

theorem Architecture.sparing_of_mem_builtIn :
    ∀ arch ∈ builtIn, arch ≠ I8086.arch → arch.sparing = true := by
  intro arch harch hne
  simp only [builtIn, List.mem_cons, List.not_mem_nil, or_false] at harch
  rcases harch with rfl | rfl | rfl
  · exact absurd rfl hne
  · decide +kernel
  · decide +kernel

theorem Decoder.cutShort_builtIn {arch : Architecture} (harch : arch ∈ Architecture.builtIn)
    (balance : Bool) (site : Site) {cursor : Cursor} (hbyte : cursor.layout.width = .byte)
    (symbols : SymbolTable) :
    CutShort site.address symbols (arch.CutStore cursor symbols)
      (instruction arch balance site (.start cursor symbols)) := by
  by_cases h : arch = I8086.arch
  · subst h
    exact (I8086.cutShort_prefixed balance site hbyte symbols).congr fun target => and_iff_right rfl
  · exact (sparing_instruction (arch.sparing_of_mem_builtIn harch h) balance
      (.start cursor symbols)).cutShort
      fun target hcut => h hcut.1

/-- References of an instruction that may be cut off, on a built-in machine with labels of up to 200
characters. An instruction makes one reference at most, from the address where it begins. If the
input ends within it, it makes none, except where a store of the 8086 is cut off within its
immediate operand: there the input does end, and what is left is a single reference, that to the
address of the store. -/
theorem decode_truncated (arch : Architecture) (harch : arch ∈ Architecture.builtIn)
    (balance : Bool) (cursor : Cursor)
    (hwidth : UnitWidth.ofInt arch.profile.unitWidth = .ok cursor.layout.width)
    (symbols : SymbolTable) (hlabels : ∀ p ∈ symbols.labels, p.2.length ≤ 200) :
    let d := decode arch balance cursor symbols
    symbols.OneMore cursor.addr d.symbols ∧
    (∀ address, d.result = .error (.endOfInput address) →
      (∀ target, ¬ arch.CutStore cursor symbols target) →
      d.symbols = symbols) ∧
    ∀ target, arch.CutStore cursor symbols target →
      (∃ address, d.result = .error (.endOfInput address)) ∧
        d.symbols = symbols.append ⟨target, cursor.addr, .data⟩ ∧
        (symbols.Ordered → ∀ a, d.symbols.references a =
          symbols.references a ++ if a = target then [⟨cursor.addr, .data⟩] else []) := by
  intro d
  have hbyte : cursor.layout.width = .byte := Architecture.eq_byte_of_mem_builtIn harch hwidth
  have hcut := Decoder.cutShort_builtIn harch balance (arch.site cursor) hbyte symbols
  have hkept := decode_kept (arch.keeps_budget harch) balance hbyte symbols
  cases hrun : Decoder.instruction arch balance (arch.site cursor) (.start cursor symbols) with
  | ok i t =>
    have hd : d = .of (.ok i) t := by simp only [d, decode, hrun]
    rw [hrun] at hcut
    rw [hd]
    exact ⟨hcut.once, fun _ h => (by cases h),
      fun target hstore => absurd rfl (hcut.failed hstore i t)⟩
  | error fault t =>
    have hd : d = .of (.error fault) t := by simp only [d, decode, hrun]
    rw [hrun] at hcut
    rw [show decode arch balance cursor symbols = _ from hd] at hkept
    rw [hd]
    refine ⟨hcut.once, fun address h => ?_, fun target hstore => ?_⟩
    · cases h
      exact hcut.unchanged rfl
    · cases hkept with
      | error hfailed =>
        -- labels are short, so that only the end of the input is left
        obtain ⟨⟨address, rfl⟩, -⟩ := hfailed.resolve_right fun hlong => hlong.2 hlabels
        have hsymbols : t.symbols = symbols.append ⟨target, cursor.addr, .data⟩ :=
          hcut.kept hstore rfl
        refine ⟨⟨address, rfl⟩, hsymbols, fun hordered a => ?_⟩
        exact (congrArg (·.references a) hsymbols).trans
          (SymbolTable.references_append hordered _ a)

/-- A store of a word behind two prefixes, at an address whose label fills the room for labels. If
one byte of the word is missing, the reference stays; if one byte of the address is missing, there
is none. -/
theorem decode_truncated_store :
    let name := String.ofList (List.replicate 200 'L')
    let symbols : SymbolTable := { entries := [{ address := 0x1234, label := some name }] }
    let image : List UInt8 := [0xF3, 0x2E, 0xC7, 0x06, 0x34, 0x12, 0x78]
    let cursor (size : Nat) : Cursor := .start ⟨.byte, .little, 6⟩ (image.take size) 0x100
    (∀ p ∈ symbols.labels, p.2.length ≤ 200) ∧ I8086.arch.CutStore (cursor 7) symbols 0x1234 ∧
      (∃ address, (decode I8086.arch true (cursor 7) symbols).result =
        .error (.endOfInput address)) ∧
      (decode I8086.arch true (cursor 7) symbols).symbols.references 0x1234 = [⟨0x100, .data⟩] ∧
      (decode I8086.arch true (cursor 5) symbols).result = .error (.endOfInput (some 0x104)) ∧
      (decode I8086.arch true (cursor 5) symbols).symbols = symbols := by
  intro name symbols image cursor
  have hlabels : ∀ p ∈ symbols.labels, p.2.length ≤ 200 := by
    intro p hp
    rw [List.mem_singleton.mp hp]
    exact Nat.le_of_eq (by rw [String.length_ofList, List.length_replicate])
  have hdirect : ModRM.Direct .little [0x06, 0x34, 0x12, 0x78] 0x1234 [0x78] :=
    ⟨0x06, 0x34, 0x12, rfl, by decide, by decide, by decide⟩
  have hstore : I8086.arch.CutStore (cursor 7) symbols 0x1234 :=
    ⟨rfl, 0xC7, [0x06, 0x34, 0x12, 0x78], by rw [I8086.leads_eq]; decide, by decide, [0x78],
      hdirect, by decide, by decide⟩
  have hnone : ∀ target, ¬ I8086.arch.CutStore (cursor 5) symbols target := by
    rintro target ⟨-, opcode, following, hbytes, -, rest, ⟨modrm, low, high, rfl, -⟩, -⟩
    have hlength : ((cursor 5).rest.dropWhile I8086.arch.leads.contains).length = 3 := by
      rw [I8086.leads_eq]
      decide
    rw [hbytes] at hlength
    simp at hlength
  have hresult : (decode I8086.arch true (cursor 5) symbols).result =
      .error (.endOfInput (some 0x104)) := by
    decide +kernel
  obtain ⟨-, -, hcut⟩ :=
    decode_truncated I8086.arch List.mem_cons_self true (cursor 7) rfl symbols hlabels
  obtain ⟨-, hwhole, -⟩ :=
    decode_truncated I8086.arch List.mem_cons_self true (cursor 5) rfl symbols hlabels
  obtain ⟨hend, -, hrefs⟩ := hcut 0x1234 hstore
  exact ⟨hlabels, hstore, hend, hrefs (by decide) 0x1234, hresult, hwhole _ hresult hnone⟩

end Disassembler
