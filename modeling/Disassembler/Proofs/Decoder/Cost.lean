import Disassembler.Proofs.Decoder.Within

/-!
The cost of an operand, read off the operand alone: it does not depend on the unit that selects it
nor on the bytes that follow. Every operand with a cost stays within it.
-/

namespace Disassembler

def longest (names : List String) : Nat := (names.map String.length).foldr max 0

theorem length_getD_le_longest (names : List String) (i : Nat) :
    (names.getD i "").length ≤ longest names := by
  induction names generalizing i with
  | nil => simp [longest]
  | cons name names ih =>
    cases i with
    | zero => exact Nat.le_max_left _ _
    | succ i =>
      have hrest : (names.getD i "").length ≤ longest names := ih i
      exact Nat.le_trans hrest (Nat.le_max_right _ _)

open Decoder.Within (addressChars)

namespace ModRM

/-- An override, a size, brackets, and in them an address or registers with a displacement. -/
def memoryChars (n : Nat) : Nat := 15 + max n 10

end ModRM

namespace Operand

def offsetChars (register : String) : Option Nat := do
  let up ← Text.widest "(%s+$%02X)" [.text register, .number 127]
  let down ← Text.widest "(%s-$%02X)" [.text register, .number 128]
  return max up down

/-- What an operand can cost when labels have at most `n` characters; nothing is said of operands
whose faults depend on more than that. -/
def cost (n : Nat) : Operand → Option Cost
  | none => some {}
  | literal s => some { chars := s.length }
  | pair first separator second => do
    let c ← cost n first
    let d ← cost n second
    return c.plus (Cost.plus { chars := separator.length } d)
  | imm8 template => do return { bytes := 1, chars := ← Text.widest template [.number 255] }
  | imm16 template => do return { bytes := 2, chars := ← Text.widest template [.number 65535] }
  | abs8 format wrap => do return { bytes := 1, chars := ← addressChars n format wrap 255 }
  | abs16 format wrap => do return { bytes := 2, chars := ← addressChars n format wrap 65535 }
  | rel8 format wrap => do return { bytes := 1, chars := ← addressChars n format wrap 65535 }
  | rel16 format wrap => do return { bytes := 2, chars := ← addressChars n format wrap 65535 }
  | field _ _ names => some { chars := longest names }
  | indexed register => do return { bytes := 1, chars := ← offsetChars register }
  | indexedDeferred register => do return { units := 1, chars := ← offsetChars register }
  | skip => some { bytes := 1 }
  | direct => some { bytes := 2, chars := ModRM.memoryChars n }
  | farPointer => some { bytes := 4, chars := 11 }
  | modrm => some { bytes := 3, chars := 4 + ModRM.memoryChars n }
  | groupImmediate => some { bytes := 2, chars := 5 }
  | _ => Option.none

end Operand

namespace Decoder.Within

variable {n : Nat} {site : Site} {kind : RefKind}

theorem offset {register : String} {displacement k : Nat}
    (hk : Operand.offsetChars register = some k) (hd : displacement ≤ 255) :
    Within n { chars := k } (fun _ => True) (Operand.offset register displacement) := by
  unfold Operand.offsetChars at hk
  obtain ⟨up, hup, hk⟩ := Option.bind_eq_some_iff.mp hk
  obtain ⟨down, hdown, hk⟩ := Option.bind_eq_some_iff.mp hk
  cases hk
  have hregister : Text.Under (.text register) (.text register) := .text (Nat.le_refl _)
  unfold Operand.offset
  split
  · have hup :=
      write (n := n) hup
        (.cons hregister (.cons (.nat (show (displacement : Int) ≤ 127 by omega)) .nil))
    exact hup.charge (Nat.le_refl _) rfl (Nat.le_max_left _ _)
  · have hdown := write (n := n) hdown (.cons hregister
      (.cons (.number (show 0 ≤ 256 - (displacement : Int) by omega) (by omega)) .nil))
    exact hdown.charge (Nat.le_refl _) rfl (Nat.le_max_right _ _)

theorem relative {displacement bits k : Nat} {format wrap : String}
    (hk : addressChars n format wrap 65535 = some k) :
    Within n { chars := k } (fun _ => True)
      (Operand.relative site kind displacement bits format wrap) := by
  have htarget : ∀ base, Text.Under (.number (Displacement.target base displacement bits))
      (.number 65535) := by
    intro base
    have hlt : Displacement.target base displacement bits < 65536 :=
      Int.emod_lt_of_pos _ (by decide)
    exact .number (Int.emod_nonneg _ (by decide)) (by omega)
  exact (bind here fun base _ => address hk (htarget base)).charge (Nat.le_refl _) rfl
    (by simp [Cost.plus])

/-! ## Operands with a ModRM byte -/

theorem segment : Within n { chars := 7 } (fun _ => True) ModRM.segment := by
  refine (bind (d := { chars := 7 }) (Q := fun _ => True)
    (takeEffect _) fun effect heffect => ?_).charge
    (Nat.le_refl _) rfl (by simp [Cost.plus])
  cases effect with
  | none => exact (pure (P := fun _ => True) trivial).charge (Nat.le_refl _) rfl (Nat.zero_le _)
  | some v =>
    obtain ⟨text, rfl, hlen⟩ := heffect v rfl
    have hwidest : Text.widest "%s:" [.text "REPNZ "] = some 7 := by decide
    exact write hwidest (.cons (.text hlen) .nil)

theorem absolute (wide : Bool) :
    Within n { bytes := 2, chars := ModRM.memoryChars n } (fun _ => True)
    (ModRM.absolute site kind wide) := by
  have haddress : addressChars n "0%04X" (ModRM.sizeLetter wide ++ "[%s]") 65535 =
      some (2 + max n 5 + 1) := by
    have hdigits : Text.widest "0%04X" [.number 65535] = some 5 := by decide
    unfold addressChars
    rw [hdigits]
    cases wide <;> rfl
  refine (bind readWord fun target ht => bind segment fun _ _ => address haddress
    (.nat (by omega))).charge
    (Nat.le_refl _) rfl ?_
  simp only [Cost.plus, ModRM.memoryChars]
  omega

theorem register (form : ModRM.Form) (reg : Nat) :
    Within n { chars := 2 } (fun _ => True) (form.register reg) := by
  unfold ModRM.Form.register
  refine (plain _).charge (Nat.le_refl _) rfl ?_
  show String.length _ ≤ 2
  split
  · exact length_getD_le_longest ModRM.segmentRegisters _
  · unfold ModRM.register
    split
    · exact length_getD_le_longest ModRM.wordRegisters _
    · exact length_getD_le_longest ModRM.byteRegisters _

theorem effectiveAddress (wide : Bool) (mod rm : Nat) :
    Within n { bytes := 2, chars := ModRM.memoryChars n } (fun _ => True)
      (ModRM.effectiveAddress site kind wide mod rm) := by
  have hsize : Text.Under (.text (ModRM.sizeLetter wide)) (.text "W") :=
    .text (by cases wide <;> decide)
  have hbase : Text.Under (.text (ModRM.bases.getD rm "")) (.text "BX + SI") :=
    .text (length_getD_le_longest ModRM.bases rm)
  have hnone : Text.widest "%s[%s]" [.text "W", .text "BX + SI"] = some 10 := by decide
  have hbyte : Text.widest "%s[%s + 0%02X]" [.text "W", .text "BX + SI", .number 255] =
      some 16 := by decide
  have hword : Text.widest "%s[%s + 0%04X]" [.text "W", .text "BX + SI", .number 65535] =
      some 18 := by decide
  unfold ModRM.effectiveAddress
  split
  · refine (plain _).charge (Nat.zero_le _) rfl ?_
    have hname : (ModRM.register wide rm).length ≤ 2 := by
      unfold ModRM.register
      split
      · exact length_getD_le_longest ModRM.wordRegisters _
      · exact length_getD_le_longest ModRM.byteRegisters _
    simp only [ModRM.memoryChars]
    omega
  split
  · exact absolute wide
  split
  · refine (bind segment fun _ _ => write hnone (.cons hsize (.cons hbase .nil))).charge
      (Nat.zero_le _) rfl ?_
    simp only [Cost.plus, ModRM.memoryChars]
    omega
  split
  · refine (bind readByte fun displacement hd => bind segment fun _ _ =>
      write hbyte (.cons hsize (.cons hbase (.cons (.nat (by omega)) .nil)))).charge ?_ rfl ?_
    · simp only [Cost.plus]
      omega
    · simp only [Cost.plus, ModRM.memoryChars]
      omega
  · refine (bind readWord fun displacement hd => bind segment fun _ _ =>
      write hword (.cons hsize (.cons hbase (.cons (.nat (by omega)) .nil)))).charge ?_ rfl ?_
    · simp only [Cost.plus]
      omega
    · simp only [Cost.plus, ModRM.memoryChars]
      omega

theorem modrm (opcode : Nat) :
    Within n { bytes := 3, chars := 4 + ModRM.memoryChars n } (fun _ => True)
    (ModRM.operands site kind opcode) := by
  have hoperands : ∀ byte : Nat,
      Within n { bytes := 2, chars := 4 + ModRM.memoryChars n } (fun _ => True)
      (if (ModRM.Form.ofOpcode opcode).selectsOperation = true then
        ModRM.effectiveAddress site kind (ModRM.Form.ofOpcode opcode).wide
          (byte / 64 % 4) (byte % 8)
      else if (ModRM.Form.ofOpcode opcode).toRegister = true then do
        (ModRM.Form.ofOpcode opcode).register (byte / 8 % 8)
        comma
        ModRM.effectiveAddress site kind (ModRM.Form.ofOpcode opcode).wide
          (byte / 64 % 4) (byte % 8)
      else do
        ModRM.effectiveAddress site kind (ModRM.Form.ofOpcode opcode).wide
          (byte / 64 % 4) (byte % 8)
        comma
        (ModRM.Form.ofOpcode opcode).register (byte / 8 % 8)) := by
    intro byte
    have hcomma : Within n { chars := 2 } (fun _ => True) comma := separator ", "
    split
    · exact (effectiveAddress _ _ _).charge (Nat.le_refl _) rfl (Nat.le_add_left _ _)
    split
    · refine (bind (register _ _) fun _ _ => bind hcomma fun _ _ =>
        effectiveAddress _ _ _).charge ?_ rfl ?_
      · simp only [Cost.plus]
        omega
      · simp only [Cost.plus]
        omega
    · refine (bind (effectiveAddress _ _ _) fun _ _ => bind hcomma fun _ _ =>
        register _ _).charge ?_ rfl ?_
      · simp only [Cost.plus]
        omega
      · simp only [Cost.plus]
        omega
  refine (bind readByte fun byte _ => hoperands byte).charge (Nat.le_refl _) rfl ?_
  simp only [Cost.plus]
  omega

theorem groupImmediate (opcode : Nat) :
    Within n { bytes := 2, chars := 5 } (fun _ => True) (ModRM.immediate opcode) := by
  have hword : Text.widest "0%04X" [.number 65535] = some 5 := by decide
  have hbyte : Text.widest "0%02X" [.number 255] = some 3 := by decide
  have hextended : ∀ v : Int, Text.Under (.number (v % 65536)) (.number 65535) := by
    intro v
    have hlt := Int.emod_lt_of_pos v (show (0 : Int) < 65536 by decide)
    exact .number (Int.emod_nonneg _ (by decide)) (by omega)
  unfold ModRM.immediate
  split
  · exact (bind readWord fun v hv => number hword (.nat (by omega))).charge (Nat.le_refl _) rfl
      (Nat.le_refl _)
  split
  · exact (bind readSigned fun v _ => number hword (hextended v)).charge (by simp [Cost.plus]) rfl
      (Nat.le_refl _)
  · exact (bind readByte fun v hv => number hbyte (.nat (by omega))).charge
      (by simp [Cost.plus]) rfl
      (by simp [Cost.plus])

theorem farPointer : Within n { bytes := 4, chars := 11 } (fun _ => True) ModRM.farPointer := by
  have hpair : Text.widest "0%04X:0%04X" [.number 65535, .number 65535] = some 11 := by decide
  exact (bind readWord fun offset ho => bind readWord fun segment hs =>
    write hpair (.cons (.nat (by omega)) (.cons (.nat (by omega)) .nil))).charge (Nat.le_refl _) rfl
      (Nat.le_refl _)

/-- Every operand stays within its cost. -/
theorem render {o : Operand} {c : Cost} (hc : o.cost n = some c) (selector : Nat) :
    Within n c (fun _ => True) (o.render site kind selector) := by
  induction o generalizing c with
  | none =>
    cases hc
    exact pure trivial
  | literal s =>
    cases hc
    exact text s
  | pair first sep second hfirst hsecond =>
    obtain ⟨d, hd, hc⟩ := Option.bind_eq_some_iff.mp hc
    obtain ⟨e, he, hc⟩ := Option.bind_eq_some_iff.mp hc
    cases hc
    exact bind (hfirst hd) fun _ _ => bind (separator sep) fun _ _ => hsecond he
  | imm8 template =>
    obtain ⟨k, hk, hc⟩ := Option.bind_eq_some_iff.mp hc
    cases hc
    exact (bind readByte fun v hv => number hk (.nat (by omega))).charge (Nat.le_refl _) rfl
      (by simp [Cost.plus])
  | imm16 template =>
    obtain ⟨k, hk, hc⟩ := Option.bind_eq_some_iff.mp hc
    cases hc
    exact (bind readWord fun v hv => number hk (.nat (by omega))).charge (Nat.le_refl _) rfl
      (by simp [Cost.plus])
  | abs8 format wrap =>
    obtain ⟨k, hk, hc⟩ := Option.bind_eq_some_iff.mp hc
    cases hc
    exact (bind readByte fun v hv => address hk (.nat (by omega))).charge (Nat.le_refl _) rfl
      (by simp [Cost.plus])
  | abs16 format wrap =>
    obtain ⟨k, hk, hc⟩ := Option.bind_eq_some_iff.mp hc
    cases hc
    exact (bind readWord fun v hv => address hk (.nat (by omega))).charge (Nat.le_refl _) rfl
      (by simp [Cost.plus])
  | rel8 format wrap =>
    obtain ⟨k, hk, hc⟩ := Option.bind_eq_some_iff.mp hc
    cases hc
    exact (bind readByte fun v _ => relative hk).charge (Nat.le_refl _) rfl (by simp [Cost.plus])
  | rel16 format wrap =>
    obtain ⟨k, hk, hc⟩ := Option.bind_eq_some_iff.mp hc
    cases hc
    exact (bind readWord fun v _ => relative hk).charge (Nat.le_refl _) rfl (by simp [Cost.plus])
  | field shift width names =>
    cases hc
    exact (plain _).charge (Nat.le_refl _) rfl (length_getD_le_longest _ _)
  | indexed register =>
    rw [Operand.cost] at hc
    obtain ⟨k, hk, hc⟩ := Option.bind_eq_some_iff.mp hc
    cases hc
    exact (bind readByte fun v hv => offset hk hv).charge (Nat.le_refl _) rfl (by simp [Cost.plus])
  | indexedDeferred register =>
    rw [Operand.cost] at hc
    obtain ⟨k, hk, hc⟩ := Option.bind_eq_some_iff.mp hc
    cases hc
    have hbyte : ∀ v : Int, (v % 256).toNat ≤ 255 := by
      intro v
      have hlt := Int.emod_lt_of_pos v (show (0 : Int) < 256 by decide)
      omega
    exact (bind pop fun v _ => offset hk (hbyte v)).charge (Nat.le_refl _) rfl (by simp [Cost.plus])
  | skip =>
    cases hc
    exact (bind readByte fun v _ => pure (P := fun _ => True) trivial).charge (Nat.le_refl _) rfl
      (Nat.le_refl _)
  | direct =>
    cases hc
    exact absolute _
  | farPointer =>
    cases hc
    exact farPointer
  | modrm =>
    cases hc
    exact modrm _
  | groupImmediate =>
    cases hc
    exact groupImmediate _
  | _ => cases hc

end Decoder.Within

end Disassembler
