import Disassembler.Fault
import Disassembler.Plan.Directive

/-!
The plan of a listing: which image is shown, how it is split into segments, and what is remarked on
it.
-/

namespace Disassembler

/-- A segment reaches from its address to the next one. -/
structure Segment where
  address : Int
  mode : SegmentMode
  name : Option String := none
  deriving DecidableEq, Repr

/-- Insert keeping the order of the addresses; after those with the same address. -/
def Segment.insert (s : Segment) : List Segment → List Segment
  | [] => [s]
  | t :: ts => if s.address < t.address then s :: t :: ts else t :: Segment.insert s ts

/-- One text for an address, in ascending order of the addresses. -/
abbrev Comments := List (Int × String)

namespace Comments

def insert (address : Int) (text : String) : Comments → Comments
  | [] => [(address, text)]
  | c :: cs => if address < c.1 then (address, text) :: c :: cs else c :: insert address text cs

def at? (address : Int) (comments : Comments) : Option String := comments.lookup address

end Comments

structure Plan where
  inputFile : Option Path := none
  /-- the byte that ends a string -/
  terminator : UInt8 := 0
  segments : List Segment := []
  lineComments : Comments := []
  blockComments : Comments := []
  /-- the command files that were read, in order -/
  sources : List Path := []
  deriving DecidableEq, Repr, Inhabited

def Plan.addSegment (plan : Plan) (s : Segment) : Plan :=
  { plan with segments := s.insert plan.segments }

/-- The image is loaded where the first segment starts. -/
def Plan.start (plan : Plan) : Except Fault Int :=
  match plan.segments with
  | [] => .error .noSegments
  | s :: _ => .ok s.address

end Disassembler
