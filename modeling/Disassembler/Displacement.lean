import Disassembler.Fault

/-!
Displacements: the low bits of a number read as a two's complement number, and the address that such
a displacement leads to.
-/

namespace Disassembler.Displacement

/-- How many numbers have that many bits. -/
def modulus (bits : Nat) : Nat := Nat.pow 2 bits

/-- The number in `[-2^(bits-1), 2^(bits-1))` that agrees with `value` in its low `bits` bits. -/
def signExtend (value : Int) (bits : Nat) : Int :=
  let low := value % modulus bits
  if low < modulus (bits - 1) then low else low - modulus bits

/-- The target of a displacement from `base`, in an address space of `addressBits` bits. -/
def target (base displacement : Int) (bits : Nat) (addressBits : Nat := 16) : Int :=
  (base + signExtend displacement bits) % modulus addressBits

/-- Whether there is a number whose only bit is bit `n`. -/
def checkShift (n : Int) : Except Fault Unit :=
  if n < 0 then .error .negativeShift else (Capacity.checkShift n.toNat).mapError .excess

/-- `signExtend` for any width: there must be a sign bit and a bit above it. -/
def signExtendChecked (value bits : Int) : Except Fault Int := do
  checkShift (bits - 1)
  checkShift bits
  return signExtend value bits.toNat

/-- `target` for any widths. -/
def targetChecked (base displacement bits : Int) (addressBits : Int := 16) : Except Fault Int := do
  checkShift (bits - 1)
  checkShift bits
  checkShift addressBits
  return target base displacement bits.toNat addressBits.toNat

end Disassembler.Displacement
