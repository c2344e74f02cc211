/-!
The limits of the machine: the numbers that can count characters, and how large a text or a number
can get.
-/

namespace Disassembler

/-- What goes beyond a limit. -/
inductive Excess where
  /-- a count that no machine word holds -/
  | word
  /-- a text or a number that there is no room for -/
  | memory
  deriving DecidableEq, Repr

namespace Capacity

/-- Counts are words of 64 bits with a sign. -/
def minCount : Int := -9223372036854775808

def maxCount : Int := 9223372036854775807

/-- No text has more characters, and no number more bits. -/
def room : Nat := 4294967296

/-- Text can be filled up to a width that is a count and that there is room for. -/
def checkWidth (width : Int) : Except Excess Unit :=
  if width < minCount ∨ maxCount < width then .error .word
  else if room < width then .error .memory
  else .ok ()

theorem checkWidth_of_le {width : Int} (h₀ : minCount ≤ width) (h₁ : width ≤ room) :
    checkWidth width = .ok () := by
  have hr : (room : Int) ≤ maxCount := by decide
  unfold checkWidth
  rw [if_neg (by omega), if_neg (by omega)]

/-- Numbers are kept in groups of 30 bits, and the groups are counted. -/
def groupBits : Nat := 30

def maxGroups : Nat := 2305843009213693945

/-- The number of groups that a number needs whose highest bit is bit `n`. -/
def groups (n : Nat) : Nat := 1 + n / groupBits + if n % groupBits = 0 then 0 else 1

/-- One can be shifted by `n` bits if the groups can be counted and there is room for them. -/
def checkShift (n : Nat) : Except Excess Unit :=
  if maxGroups < groups n then .error .word
  else if room ≤ n then .error .memory
  else .ok ()

end Capacity

end Disassembler
