import Disassembler.Decoder.Forward

/-!
Runs of operations on a cursor, those that fail included. A read moves the cursor over the bytes
that it needs, or it finds too few of them and changes nothing. From this follows what holds after
every run: address and offset keep in step, and the bytes kept are the first ones of those read
since the instruction began.
-/

namespace Disassembler

/-- The cursor is at an offset of an image that is loaded at an address. -/
structure Cursor.At (image : List UInt8) (load : Int) (layout : Layout) (offset : Nat)
    (c : Cursor) : Prop where
  layout : c.layout = layout
  rest : c.rest = image.drop offset
  addr : c.addr = load + offset
  inside : offset ≤ image.length

namespace Cursor.At

variable {image : List UInt8} {load : Int} {layout : Layout} {offset : Nat} {c : Cursor}

theorem length_rest (hat : c.At image load layout offset) :
    c.rest.length = image.length - offset := by
  rw [hat.rest, List.length_drop]

theorem advance (hat : c.At image load layout offset) {n : Nat} (hn : n ≤ c.rest.length) :
    (c.advance n).At image load layout (offset + n) := by
  have hrest := hat.rest
  have haddr := hat.addr
  have hinside := hat.inside
  rw [hrest, List.length_drop] at hn
  refine ⟨hat.layout, ?_, ?_, by omega⟩
  · simp [Cursor.advance, hrest, List.drop_drop]
  · simp only [Cursor.advance, haddr]
    omega

end Cursor.At

/-- The number that one or two bytes stand for, place by place. -/
def ByteOrder.number : ByteOrder → List UInt8 → Int
  | _, [b] => b.toNat
  | .little, [a, b] => a.toNat + 256 * b.toNat
  | .big, [a, b] => 256 * a.toNat + b.toNat
  | _, _ => 0

theorem ByteOrder.value_eq_number (order : ByteOrder) {bytes : List UInt8}
    (h : bytes.length = 1 ∨ bytes.length = 2) : (order.value bytes : Int) = order.number bytes := by
  match bytes, h with
  | [b], _ => cases order <;> simp [value, number]
  | [a, b], _ => cases order <;> simp [value, number] <;> omega

namespace Cursor

theorem signed_eq_bmod {n : Nat} (h : n < 256) : signed n = (n : Int).bmod 256 := by
  rw [signed, Int.bmod_def]
  split <;> split <;> omega

/-! ## Operations -/

inductive Operation where
  | fetch
  | peek
  | readByte
  | readSigned
  | readWord
  | beginInstruction
  | address
  | captured
  | remaining
  | atEnd
  deriving DecidableEq, Repr

inductive Answer where
  | done
  | number (n : Int)
  | bytes (bytes : List UInt8)
  | flag (b : Bool)
  deriving DecidableEq, Repr

namespace Operation

def perform : Operation → Action Cursor Answer
  | fetch => (fun n : Nat => .number n) <$> Cursor.fetch
  | peek => (fun n : Nat => .number n) <$> Cursor.peek
  | readByte => (fun n : Nat => .number n) <$> Cursor.readByte
  | readSigned => .number <$> Cursor.readSigned
  | readWord => (fun n : Nat => .number n) <$> Cursor.readWord
  | beginInstruction => fun c => .ok .done c.beginInstruction
  | address => fun c => .ok (.number c.addr) c
  | captured => fun c => .ok (.bytes c.captured) c
  | remaining => fun c => .ok (.number c.remaining) c
  | atEnd => fun c => .ok (.flag c.atEnd) c

def after (op : Operation) (c : Cursor) : Cursor := (Action.outcome (op.perform c)).2

def needs (layout : Layout) : Operation → Nat
  | fetch | peek => layout.width.size
  | readByte | readSigned => 1
  | readWord => 2
  | _ => 0

/-- How many bytes are read. A look at the next unit needs its bytes and leaves them unread. -/
def reads (layout : Layout) : Operation → Nat
  | peek => 0
  | op => op.needs layout

def bytesRead (op : Operation) (c : Cursor) : List UInt8 :=
  match op.perform c with
  | .ok .. => c.rest.take (op.reads c.layout)
  | .error .. => []

def readAfter (op : Operation) (c : Cursor) (read : List UInt8) : List UInt8 :=
  if op = beginInstruction then [] else read ++ op.bytesRead c

/-- What an operation answers if it does not fail, where `ahead` are the bytes not read yet. -/
def answer (layout : Layout) (addr : Int) (ahead kept : List UInt8) : Operation → Answer
  | fetch | peek => .number (layout.order.number (ahead.take layout.width.size))
  | readByte => .number (layout.order.number (ahead.take 1))
  | readSigned => .number ((layout.order.number (ahead.take 1)).bmod 256)
  | readWord => .number (layout.order.number (ahead.take 2))
  | beginInstruction => .done
  | address => .number addr
  | captured => .bytes kept
  | remaining => .number ahead.length
  | atEnd => .flag (ahead.length = 0)

end Operation

def run (ops : List Operation) (c : Cursor) : Cursor := ops.foldl (fun c op => op.after c) c

/-- The bytes that a run has read since its last instruction began, where `read` have been read
before. -/
def readSince : List Operation → Cursor → List UInt8 → List UInt8
  | [], _, read => read
  | op :: ops, c, read => readSince ops (op.after c) (op.readAfter c read)

/-! ## One operation -/

variable {c : Cursor} {n : Nat}

namespace Operation

def moved (op : Operation) (c : Cursor) : Cursor :=
  if op = beginInstruction then c.beginInstruction else c.advance (op.reads c.layout)

/-- With too few bytes ahead nothing happens. -/
theorem perform_of_lt {op : Operation} (h : c.rest.length < op.needs c.layout) :
    op.perform c = .error (.endOfInput (some c.addr)) c := by
  cases op with
  | fetch | readByte | readSigned | readWord =>
    simp only [needs] at h
    simp only [perform, Cursor.fetch, Cursor.readByte, Cursor.readSigned, Cursor.readWord,
      Functor.map, EStateM.map, take_of_lt h]
  | peek =>
    simp only [needs] at h
    simp only [perform, Cursor.peek, Functor.map, EStateM.map, look_of_lt h]
  | _ => simp only [needs] at h; omega

theorem perform_of_le {op : Operation} (hremaining : c.remaining = c.rest.length)
    (h : op.needs c.layout ≤ c.rest.length) :
    op.perform c = .ok (op.answer c.layout c.addr c.rest c.captured) (op.moved c) := by
  have hnumber {n : Nat} (hn : n = 1 ∨ n = 2) (hle : n ≤ c.rest.length) :
      (c.layout.order.value (c.rest.take n) : Int) = c.layout.order.number (c.rest.take n) :=
    ByteOrder.value_eq_number _ (by rw [List.length_take]; omega)
  have hwidth : c.layout.width.size = 1 ∨ c.layout.width.size = 2 := by
    cases c.layout.width <;> decide
  cases op with
  | fetch =>
    simp only [needs] at h
    simp [perform, answer, moved, reads, needs, Cursor.fetch, Functor.map, EStateM.map,
      take_of_le h, hnumber hwidth h]
  | peek =>
    simp only [needs] at h
    simp [perform, answer, moved, reads, Cursor.peek, Functor.map, EStateM.map, look_of_le h,
      hnumber hwidth h, advance_zero]
  | readByte =>
    simp only [needs] at h
    simp [perform, answer, moved, reads, needs, Cursor.readByte, Functor.map, EStateM.map,
      take_of_le h, hnumber _ h]
  | readSigned =>
    simp only [needs] at h
    have hbyte : c.layout.order.value (c.rest.take 1) < 256 := by
      obtain ⟨b, hb⟩ :=
        List.length_eq_one_iff.mp (show (c.rest.take 1).length = 1 by rw [List.length_take]; omega)
      rw [hb]
      cases c.layout.order <;> simpa [ByteOrder.value] using b.toNat_lt
    simp [perform, answer, moved, reads, needs, Cursor.readSigned, Cursor.readByte, Functor.map,
      EStateM.map, take_of_le h, signed_eq_bmod hbyte, hnumber _ h]
  | readWord =>
    simp only [needs] at h
    simp [perform, answer, moved, reads, needs, Cursor.readWord, Functor.map, EStateM.map,
      take_of_le h, hnumber _ h]
  | beginInstruction => rfl
  | address | captured => simp [perform, answer, moved, reads, needs, advance_zero]
  | remaining => simp [perform, answer, moved, reads, needs, advance_zero, hremaining]
  | atEnd =>
    cases hrest : c.rest
      <;> simp [perform, answer, moved, reads, needs, advance_zero, Cursor.atEnd, hrest]

theorem perform_cases {op : Operation} (hremaining : c.remaining = c.rest.length) :
    (op.needs c.layout ≤ c.rest.length ∧
      op.perform c = .ok (op.answer c.layout c.addr c.rest c.captured) (op.moved c)) ∨
    (c.rest.length < op.needs c.layout ∧ op.perform c = .error (.endOfInput (some c.addr)) c) := by
  rcases Nat.lt_or_ge c.rest.length (op.needs c.layout) with h | h
  · exact .inr ⟨h, perform_of_lt h⟩
  · exact .inl ⟨h, perform_of_le hremaining h⟩

theorem reads_le_needs (layout : Layout) (op : Operation) : op.reads layout ≤ op.needs layout := by
  cases op <;> simp [reads, needs]

end Operation

/-! ## Runs -/

/-- The cursor is inside its image, and `read` are the bytes that were read since the instruction
began. -/
structure Tracks (image : List UInt8) (load : Int) (layout : Layout) (read : List UInt8)
    (c : Cursor) : Prop
    extends c.At image load layout c.idx where
  size : c.size = image.length
  behind : read <:+ image.take c.idx
  captured : c.captured = read.take c.layout.maxLength.toNat

namespace Tracks

variable {image read : List UInt8} {load : Int} {layout : Layout}

theorem remaining (h : c.Tracks image load layout read) : c.remaining = c.rest.length := by
  have hinside := h.inside
  rw [Cursor.remaining, h.size, h.length_rest]
  omega

theorem beginInstruction (h : c.Tracks image load layout read) :
    c.beginInstruction.Tracks image load layout [] where
  toAt := ⟨h.layout, h.rest, h.addr, h.inside⟩
  size := h.size
  behind := List.nil_suffix
  captured := List.take_nil.symm

/-- The bytes passed over come behind those read before, in the image as among the bytes kept. -/
theorem advance (h : c.Tracks image load layout read) (hn : n ≤ c.rest.length) :
    (c.advance n).Tracks image load layout (read ++ c.rest.take n) where
  toAt := h.toAt.advance hn
  size := h.size
  behind := by
    have htake : image.take (c.idx + n) = image.take c.idx ++ c.rest.take n := by
      rw [h.rest, List.take_add]
    obtain ⟨before, hbefore⟩ := h.behind
    exact ⟨before, by rw [Cursor.advance, htake, ← hbefore, List.append_assoc]⟩
  captured := by
    have hroom : c.room = c.layout.maxLength.toNat - read.length := by
      rw [room, h.captured, List.length_take]
      omega
    rw [Cursor.advance, hroom, h.captured, List.take_append]

theorem perform_eq_error_iff (h : c.Tracks image load layout read) {op : Operation} {fault : Fault}
    {d : Cursor} :
    op.perform c = .error fault d ↔
      (image.drop c.idx).length < op.needs layout ∧ fault = .endOfInput (some c.addr) ∧ d = c := by
  rw [← h.rest, ← h.layout]
  rcases op.perform_cases h.remaining with ⟨hle, hok⟩ | ⟨hlt, herror⟩
  · rw [hok]
    exact ⟨fun heq => (by cases heq), fun hlt => absurd hlt.1 (Nat.not_lt_of_le hle)⟩
  · rw [herror, EStateM.Result.error.injEq]
    exact ⟨fun heq => ⟨hlt, heq.1.symm, heq.2.symm⟩, fun heq => ⟨heq.2.1.symm, heq.2.2.symm⟩⟩

theorem perform_eq_ok (h : c.Tracks image load layout read) {op : Operation} {a : Answer}
    {d : Cursor} (hok : op.perform c = .ok a d) :
    a = op.answer layout c.addr (image.drop c.idx) c.captured ∧
    d.idx = c.idx + op.reads layout := by
  rw [← h.rest, ← h.layout]
  rcases op.perform_cases h.remaining with ⟨-, hmoved⟩ | ⟨-, herror⟩
  · rw [hmoved] at hok
    cases hok
    refine ⟨rfl, ?_⟩
    unfold Operation.moved
    split
    · next hop => rw [hop]; rfl
    · rfl
  · rw [herror] at hok
    cases hok

/-- What one operation keeps, whether or not it fails. -/
theorem after (h : c.Tracks image load layout read) (op : Operation) :
    (op.after c).Tracks image load layout (op.readAfter c read) := by
  unfold Operation.after Operation.readAfter Operation.bytesRead
  rcases op.perform_cases h.remaining with ⟨hle, hok⟩ | ⟨hlt, herror⟩
  · rw [hok]
    simp only [Action.outcome, Operation.moved]
    split
    · exact h.beginInstruction
    · exact h.advance (Nat.le_trans (op.reads_le_needs _) hle)
  · have hop : op ≠ .beginInstruction := by
      rintro rfl
      exact Nat.not_lt_zero _ hlt
    rw [herror, if_neg hop, List.append_nil]
    exact h

theorem run (h : c.Tracks image load layout read) (ops : List Operation) :
    (run ops c).Tracks image load layout (readSince ops c read) := by
  induction ops generalizing c read with
  | nil => exact h
  | cons op ops ih => exact ih (h.after op)

end Tracks

theorem tracks_start (layout : Layout) (image : List UInt8) (load : Int) :
    (start layout image load).Tracks image load layout [] where
  toAt := ⟨rfl, rfl, (Int.add_zero load).symm, Nat.zero_le _⟩
  size := rfl
  behind := List.nil_suffix
  captured := List.take_nil.symm

/-- A look at the next unit answers what reading it would. -/
theorem outcome_peek (c : Cursor) :
    Action.outcome (peek c) = ((Action.outcome (fetch c)).1, c) := by
  rcases Nat.lt_or_ge c.rest.length c.layout.width.size with h | h
  · simp only [peek, fetch, Functor.map, EStateM.map, look_of_lt h, take_of_lt h, Action.outcome]
  · simp only [peek, fetch, Functor.map, EStateM.map, look_of_le h, take_of_le h, Action.outcome]

/-- After any run of operations on a new cursor, failing ones included: the address is as far from
where it started as the offset, which lies in the image, and the bytes kept are the first of those
read since the instruction began, as many as there is room for. An operation fails exactly if fewer
bytes remain than it needs, and then it changes nothing; otherwise it answers from the bytes that
remain. A look at the next unit answers what reading it would and changes nothing, and units of two
bytes are read as words are. -/
theorem run_inStep (layout : Layout) (image : List UInt8) (load : Int) (ops : List Operation) :
    let c := run ops (start layout image load)
    let read := readSince ops (start layout image load) []
    let remaining := image.drop c.idx
    c.addr - load = c.idx ∧ c.idx ≤ image.length ∧
    (read <:+ image.take c.idx ∧
      c.captured = read.take (min (max 0 layout.maxLength) read.length).toNat) ∧
    (∀ op : Operation,
      ((∃ address d, op.perform c = .error (.endOfInput address) d) ↔
        remaining.length < op.needs layout) ∧
      (∀ fault d, op.perform c = .error fault d → fault = .endOfInput (some c.addr) ∧ d = c) ∧
      ∀ a d, op.perform c = .ok a d →
        a = op.answer layout c.addr remaining c.captured ∧ d.idx = c.idx + op.reads layout) ∧
    Action.outcome (peek c) = ((Action.outcome (fetch c)).1, c) ∧
    (layout.width = .word → fetch c = readWord c) := by
  intro c read remaining
  have h : c.Tracks image load layout read := (tracks_start layout image load).run ops
  refine ⟨?_, h.inside, ⟨h.behind, ?_⟩, fun op => ⟨⟨?_, fun hlt => ?_⟩, fun fault d herror => ?_,
    fun a d => ?_⟩, outcome_peek c, fun hword => ?_⟩
  · rw [h.addr]
    omega
  · have hcount : (min (max 0 layout.maxLength) read.length).toNat =
        min layout.maxLength.toNat read.length := by omega
    rw [h.captured, h.layout, hcount, ← List.take_eq_take_min]
  · rintro ⟨address, d, herror⟩
    exact (h.perform_eq_error_iff.mp herror).1
  · exact ⟨_, _, h.perform_eq_error_iff.mpr ⟨hlt, rfl, rfl⟩⟩
  · exact (h.perform_eq_error_iff.mp herror).2
  · exact h.perform_eq_ok
  · rw [← h.layout] at hword
    simp only [fetch, readWord, hword, UnitWidth.size]

/-- Past an odd offset and past the room for bytes: one byte remains where a unit has two. -/
theorem run_inStep_odd :
    let layout : Layout := { width := .word, order := .big, maxLength := 2 }
    let c :=
      run [.readSigned, .peek, .fetch, .readByte, .fetch]
        (start layout [0xFE, 0x12, 0x34, 0x80, 0x01] 0x1000)
    c = { layout, size := 5, rest := [0x01], addr := 0x1004, idx := 4, captured := [0xFE, 0x12] } ∧
      c.addr - 0x1000 = c.idx ∧ Operation.peek.perform c = .error (.endOfInput (some c.addr)) c ∧
      fetch c = readWord c := by
  intro layout c
  have hc : c = { layout, size := 5, rest := [0x01], addr := 0x1004, idx := 4,
                  captured := [0xFE, 0x12] } := by decide
  obtain ⟨haddr, -, -, hops, -, hword⟩ := run_inStep layout [0xFE, 0x12, 0x34, 0x80, 0x01] 0x1000
    [.readSigned, .peek, .fetch, .readByte, .fetch]
  obtain ⟨⟨-, hshort⟩, hfails, -⟩ := hops .peek
  obtain ⟨address, d, herror⟩ := hshort (by decide)
  obtain ⟨hfault, hd⟩ := hfails _ _ herror
  rw [hfault, hd] at herror
  exact ⟨hc, haddr, herror, hword rfl⟩

end Cursor

end Disassembler
