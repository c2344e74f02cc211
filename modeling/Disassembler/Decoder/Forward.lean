import Disassembler.Decoder.Operand

/-!
Decoding only moves the cursor forward: whatever an operand does, and whether or not it fails, the
cursor ends up where reading some of the bytes ahead leaves it.
-/

namespace Disassembler

namespace Cursor

theorem advance_zero (c : Cursor) : c.advance 0 = c := by simp [advance]

/-- Moving twice is moving once over both distances. -/
theorem advance_advance (c : Cursor) (a b : Nat) : (c.advance a).advance b = c.advance (a + b) := by
  simp only [advance, room, List.drop_drop, List.take_add, List.take_append, List.length_append,
    List.length_take, List.append_assoc, mk.injEq, true_and]
  refine ⟨by omega, by omega, ?_⟩
  congr 3
  omega

theorem advance_rest_length (c : Cursor) (n : Nat) :
    (c.advance n).rest.length = c.rest.length - n := by
  simp [advance]

end Cursor

namespace Decoder

variable {α β : Type}

/-- The action leaves the cursor where reading some of the bytes ahead does. -/
def Forward (m : Decoder α) : Prop :=
  ∀ s, ∃ n, n ≤ s.cursor.rest.length ∧ (Action.outcome (m s)).2.cursor = s.cursor.advance n

/-- The action does not touch the cursor. -/
def Still (m : Decoder α) : Prop := ∀ s, (Action.outcome (m s)).2.cursor = s.cursor

theorem Still.forward {m : Decoder α} (h : Still m) : Forward m :=
  fun s => ⟨0, by omega, by rw [h s, Cursor.advance_zero]⟩

theorem Forward.le {m : Decoder α} (h : Forward m) {s t : Decoding} {a : α} (hm : m s = .ok a t) :
    t.cursor.rest.length ≤ s.cursor.rest.length := by
  obtain ⟨n, -, hcursor⟩ := h s
  rw [hm] at hcursor
  have ht : t.cursor = s.cursor.advance n := hcursor
  rw [ht, Cursor.advance_rest_length]
  exact Nat.sub_le _ _

theorem still_pure (a : α) : Still (pure a) := fun _ => rfl

theorem still_onOutput (m : Action Output α) : Still (onOutput m) := by
  intro s
  simp only [onOutput, Action.on]
  split <;> rfl

theorem still_onStack (m : Action Deferred α) : Still (onStack m) := by
  intro s
  simp only [onStack, Action.on]
  split <;> rfl

theorem still_lift (r : Except Fault α) : Still (Action.lift r) := by
  intro s
  simp only [Action.lift]
  split <;> rfl

theorem still_modify (f : Decoding → Decoding) (h : ∀ s, (f s).cursor = s.cursor) :
    Still (modify f) := fun s => h s

theorem still_get : Still get := fun _ => rfl

theorem forward_throw (e : Fault) : Forward (throw e : Decoder α) := Still.forward fun _ => rfl

/-- Two stretches of reading make one. -/
theorem forward_trans {c d e : Cursor} {a : Nat} (ha : a ≤ c.rest.length) (hd : d = c.advance a)
    (he : ∃ n, n ≤ d.rest.length ∧ e = d.advance n) : ∃ n, n ≤ c.rest.length ∧ e = c.advance n := by
  obtain ⟨b, hb, eb⟩ := he
  rw [hd] at hb eb
  rw [Cursor.advance_rest_length] at hb
  rw [Cursor.advance_advance] at eb
  exact ⟨a + b, by omega, eb⟩

theorem forward_pure (a : α) : Forward (pure a) := (still_pure a).forward

theorem forward_bind {m : Decoder α} {f : α → Decoder β} (hm : Forward m)
    (hf : ∀ a, Forward (f a)) : Forward (m >>= f) := by
  intro s
  obtain ⟨a, ha, ea⟩ := hm s
  change ∃ n, n ≤ _ ∧ (Action.outcome (EStateM.bind m f s)).2.cursor = _
  unfold EStateM.bind
  cases h : m s with
  | error e t =>
    rw [h] at ea
    exact ⟨a, ha, ea⟩
  | ok x t =>
    rw [h] at ea
    exact forward_trans ha ea (hf x t)

/-- The same for an action of the cursor alone. -/
def Moves (m : Action Cursor α) : Prop :=
  ∀ c : Cursor, ∃ n, n ≤ c.rest.length ∧ (Action.outcome (m c)).2 = c.advance n

theorem moves_take (f : Cursor → List UInt8 → α) (n : Cursor → Nat) :
    Moves fun c => (f c <$> Cursor.take (n c)) c := by
  intro c
  simp only [Functor.map, EStateM.map]
  rcases Nat.lt_or_ge c.rest.length (n c) with h | h
  · rw [Cursor.take_of_lt h]
    exact ⟨0, by omega, (Cursor.advance_zero c).symm⟩
  · rw [Cursor.take_of_le h]
    exact ⟨n c, h, rfl⟩

theorem moves_look (f : Cursor → List UInt8 → α) (n : Cursor → Nat) :
    Moves fun c => (f c <$> Cursor.look (n c)) c := by
  intro c
  refine ⟨0, by omega, ?_⟩
  simp only [Functor.map, EStateM.map, Cursor.advance_zero]
  rcases Nat.lt_or_ge c.rest.length (n c) with h | h
  · rw [Cursor.look_of_lt h]
    rfl
  · rw [Cursor.look_of_le h]
    rfl

theorem forward_onCursor {m : Action Cursor α} (h : Moves m) : Forward (onCursor m) := by
  intro s
  obtain ⟨n, hn, e⟩ := h s.cursor
  refine ⟨n, hn, ?_⟩
  simp only [onCursor, Action.on]
  cases hm : m s.cursor <;> simpa [Action.outcome, hm] using e

/-! ## Steps -/

/-- A fetch reads one unit. -/
theorem fetch_reads {s t : Decoding} {unit : Nat} (h : fetch s = .ok unit t) :
    s.cursor.layout.width.size ≤ s.cursor.rest.length ∧
      unit = s.cursor.layout.order.value (s.cursor.rest.take s.cursor.layout.width.size) ∧
      t = { s with cursor := s.cursor.advance s.cursor.layout.width.size } := by
  simp only [fetch, onCursor, Action.on] at h
  cases hm : Cursor.fetch s.cursor with
  | error fault c => rw [hm] at h; cases h
  | ok a c =>
    rw [hm] at h
    cases h
    obtain ⟨hle, hvalue, rfl⟩ := Cursor.map_take_eq_ok hm
    exact ⟨hle, hvalue, rfl⟩

theorem forward_fetch : Forward fetch :=
  forward_onCursor (moves_take (·.layout.order.value) (·.layout.width.size))

theorem forward_readByte : Forward readByte :=
  forward_onCursor (moves_take (·.layout.order.value) fun _ => 1)

theorem forward_readWord : Forward readWord :=
  forward_onCursor (moves_take (·.layout.order.value) fun _ => 2)

theorem moves_map {m : Action Cursor α} (f : α → β) (h : Moves m) : Moves (f <$> m) := by
  intro c
  obtain ⟨n, hn, e⟩ := h c
  refine ⟨n, hn, ?_⟩
  simp only [Functor.map, EStateM.map]
  cases hm : m c <;> simpa [Action.outcome, hm] using e

theorem forward_readSigned : Forward readSigned :=
  forward_onCursor (moves_map _ (moves_take (·.layout.order.value) fun _ => 1))

theorem forward_peek : Forward peek :=
  forward_bind (still_modify _ fun _ => rfl).forward fun _ =>
    forward_onCursor (moves_look (·.layout.order.value) (·.layout.width.size))

theorem forward_here : Forward here := forward_bind still_get.forward fun _ => forward_pure _

theorem forward_push (unit : Int) : Forward (push unit) := (still_onStack _).forward

theorem forward_pop : Forward pop := (still_onStack _).forward

theorem forward_text (s : String) : Forward (text s) := (still_onOutput _).forward

theorem forward_value (v : Value) : Forward (value v) := (still_onOutput _).forward

theorem forward_write (template : String) (args : List Value) : Forward (write template args) :=
  (still_onOutput _).forward

theorem forward_separator (s : String) : Forward (separator s) := (still_onOutput _).forward

theorem forward_setEffect (key : String) (value : Value) : Forward (setEffect key value) :=
  (still_modify _ fun _ => rfl).forward

theorem forward_takeEffect (key : String) : Forward (takeEffect key) :=
  Still.forward fun _ => rfl

theorem forward_record (site : Site) (target : Int) (kind : RefKind) :
    Forward (record site target kind) :=
  (still_modify _ fun _ => rfl).forward

theorem forward_note (message : String) : Forward (note message) :=
  (still_modify _ fun _ => rfl).forward

theorem forward_mnemonic (site : Site) (name : String) : Forward (mnemonic site name) :=
  forward_bind (forward_takeEffect _) fun _ =>
    forward_bind (forward_value _) fun _ => (still_onOutput _).forward

theorem forward_address (site : Site) (kind : RefKind) (value : Int) (format wrap : String) :
    Forward (address site kind value format wrap) :=
  forward_bind (forward_text _) fun _ =>
    forward_bind (still_lift _).forward fun _ =>
      forward_bind still_get.forward fun _ =>
        forward_bind (still_onOutput _).forward fun _ =>
          forward_bind (forward_text _) fun _ => forward_record _ _ _

end Decoder

/-! ## Operands -/

namespace ModRM

open Decoder

theorem forward_segment : Forward segment := by
  refine forward_bind (forward_takeEffect _) fun name => ?_
  cases name with
  | none => exact forward_pure _
  | some _ => exact forward_write _ _

theorem forward_absolute (site : Site) (kind : RefKind) (wide : Bool) :
    Forward (absolute site kind wide) :=
  forward_bind forward_readWord fun _ => forward_bind forward_segment fun _ =>
    forward_address _ _ _ _ _

theorem forward_effectiveAddress (site : Site) (kind : RefKind) (wide : Bool) (mod rm : Nat) :
    Forward (effectiveAddress site kind wide mod rm) := by
  unfold effectiveAddress
  split
  · exact forward_write _ _
  split
  · exact forward_absolute _ _ _
  split
  · exact forward_bind forward_segment fun _ => forward_write _ _
  split
  · exact forward_bind forward_readByte fun _ => forward_bind forward_segment fun _ =>
      forward_write _ _
  · exact forward_bind forward_readWord fun _ => forward_bind forward_segment fun _ =>
      forward_write _ _

theorem forward_operands (site : Site) (kind : RefKind) (opcode : Nat) :
    Forward (operands site kind opcode) := by
  refine forward_bind forward_readByte fun modrm => ?_
  have register := fun n => forward_write "%s" [.text (if (Form.ofOpcode opcode).isSegment then
    segmentRegisters.getD (n % 4) "" else ModRM.register (Form.ofOpcode opcode).wide n)]
  have memory := fun mod rm => forward_effectiveAddress site kind (Form.ofOpcode opcode).wide mod rm
  split
  · exact memory _ _
  split
  · exact forward_bind (register _) fun _ => forward_bind (forward_separator _) fun _ => memory _ _
  · exact forward_bind (memory _ _) fun _ => forward_bind (forward_separator _) fun _ => register _

theorem forward_immediate (opcode : Nat) : Forward (immediate opcode) := by
  unfold immediate
  split
  · exact forward_bind forward_readWord fun _ => forward_write _ _
  split
  · exact forward_bind forward_readSigned fun _ => forward_write _ _
  · exact forward_bind forward_readByte fun _ => forward_write _ _

theorem forward_farPointer : Forward farPointer :=
  forward_bind forward_readWord fun _ => forward_bind forward_readWord fun _ => forward_write _ _

end ModRM

namespace Operand

open Decoder

theorem forward_offset (register : String) (displacement : Nat) :
    Forward (offset register displacement) := by
  unfold offset
  split <;> exact forward_write _ _

theorem forward_relative (site : Site) (kind : RefKind) (displacement bits : Nat)
    (format wrap : String) : Forward (relative site kind displacement bits format wrap) :=
  forward_bind forward_here fun _ => forward_address _ _ _ _ _

theorem forward_render (site : Site) (kind : RefKind) (selector : Nat) (o : Operand) :
    Forward (o.render site kind selector) := by
  induction o with
  | none => exact forward_pure _
  | literal s => exact forward_text s
  | pair first separator second hfirst hsecond =>
    exact forward_bind hfirst fun _ => forward_bind (forward_separator _) fun _ => hsecond
  | imm8 template => exact forward_bind forward_readByte fun _ => forward_write _ _
  | imm16 template => exact forward_bind forward_readWord fun _ => forward_write _ _
  | abs8 format wrap => exact forward_bind forward_readByte fun _ => forward_address _ _ _ _ _
  | abs16 format wrap => exact forward_bind forward_readWord fun _ => forward_address _ _ _ _ _
  | rel8 format wrap => exact forward_bind forward_readByte fun _ => forward_relative _ _ _ _ _ _
  | rel16 format wrap => exact forward_bind forward_readWord fun _ => forward_relative _ _ _ _ _ _
  | deferred template => exact forward_bind forward_pop fun _ => forward_write _ _
  | opcode template => exact forward_write _ _
  | unit template => exact forward_bind forward_fetch fun _ => forward_write _ _
  | peek template => exact forward_bind forward_peek fun _ => forward_write _ _
  | push => exact forward_push _
  | set key value => exact forward_setEffect _ _
  | take key fallback => exact forward_bind (forward_takeEffect _) fun _ => forward_value _
  | refer => exact forward_record _ _ _
  | field shift width names => exact forward_write _ _
  | indexed register => exact forward_bind forward_readByte fun _ => forward_offset _ _
  | indexedDeferred register => exact forward_bind forward_pop fun _ => forward_offset _ _
  | skip => exact forward_bind forward_readByte fun _ => forward_pure _
  | direct => exact ModRM.forward_absolute _ _ _
  | farPointer => exact ModRM.forward_farPointer
  | modrm => exact ModRM.forward_operands _ _ _
  | groupImmediate => exact ModRM.forward_immediate _

end Operand

end Disassembler
