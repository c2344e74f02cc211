import Disassembler.Arch.I8086
import Disassembler.Arch.Mos6502
import Disassembler.Arch.Z80
import Disassembler.Text.Blank
import Disassembler.Text.Case

/-!
The built-in machines and the names they answer to.
-/

namespace Disassembler.Architecture

/-- Ordered by name. -/
def builtIn : List Architecture := [I8086.arch, Mos6502.arch, Z80.arch]

def known : List String := builtIn.map (·.profile.name)

/-- What a short name stands for. -/
def fullName : String → String
  | "6502" => "mos6502"
  | "02" => "mos6502"
  | "x86" => "i8086"
  | "8086" => "i8086"
  | name => name

/-- Look up a machine; blanks around the name and the case of its letters do not matter. -/
def ofName (name : String) : Except Fault Architecture :=
  match builtIn.find? fun arch => arch.profile.name = fullName (Text.lower (Text.trim name)) with
  | some arch => .ok arch
  | none => .error (.unknownArchitecture name known)

end Disassembler.Architecture
