import Disassembler.Listing.Scan

/-!
The blocks of a listing. Each segment of a plan up to the first one that ends the listing gives a
block of rows.
-/

namespace Disassembler

structure Block where
  segment : Segment
  kind : RowKind
  /-- where the cursor stood when the block was begun -/
  start : Int
  rows : List Row
  deriving DecidableEq, Repr

def Segment.event (s : Segment) : Event :=
  ⟨.debug, .listing, "segment " ++ s.mode.name ++ " at " ++ Text.address s.address⟩

end Disassembler
