import Disassembler.Arch.I8086
import Disassembler.Proofs.Decoder.Agreement
import Disassembler.Proofs.Decoder.Sweep
import Mathlib.Data.List.Infix

/-!
An instruction depends on the bytes ahead of the cursor and on nothing else of the image: neither on
where the cursor is in it nor on how much of it there is. Of the bytes ahead it depends on those
that it reads and on one unit behind them, which rules and operands may look at.
-/

namespace Disassembler

def Decoding.facing (s : Decoding) (size idx : Nat) (rest : List UInt8) : Decoding :=
  { s with cursor := { s.cursor with size, idx, rest } }

namespace Decoder

variable {α β : Type} {site : Site} {kinds : RefKind → Prop}

/-! ## Steps that do not look at the input -/

/-- The action does not touch the input and does the same in front of any other. -/
def Blind (m : Decoder α) : Prop :=
  ∀ s size idx rest, Agree (fun t u => t.cursor = s.cursor ∧ u = t.facing size idx rest) (m s)
    (m (s.facing size idx rest))

theorem blind_here : Blind here := fun _ _ _ _ => .ok ⟨rfl, rfl⟩

theorem blind_onStack (m : Action Deferred α) : Blind (onStack m) := by
  intro s size idx rest
  simp only [onStack, Action.on, Decoding.facing]
  cases m s.stack with
  | ok a d => exact .ok ⟨rfl, rfl⟩
  | error fault d => exact .error ⟨rfl, rfl⟩

theorem blind_onOutput (m : Action Output α) : Blind (onOutput m) := by
  intro s size idx rest
  simp only [onOutput, Action.on, Decoding.facing]
  cases m s.out with
  | ok a o => exact .ok ⟨rfl, rfl⟩
  | error fault o => exact .error ⟨rfl, rfl⟩

theorem blind_setEffect (key : String) (value : Value) : Blind (setEffect key value) :=
  fun _ _ _ _ => .ok ⟨rfl, rfl⟩

theorem blind_takeEffect (key : String) : Blind (takeEffect key) := fun _ _ _ _ => .ok ⟨rfl, rfl⟩

theorem blind_note (message : String) : Blind (note message) := fun _ _ _ _ => .ok ⟨rfl, rfl⟩

theorem blind_naming (value : Int) (shown : String) : Blind (naming value shown) :=
  fun s => blind_onOutput (Output.append (.address value shown (s.symbols.label? value))) s

theorem blind_record (site : Site) (target : Int) (kind : RefKind) :
    Blind (record site target kind) :=
  fun _ _ _ _ => .ok ⟨rfl, rfl⟩

/-! ## The same input elsewhere -/

def Elsewhere (s t : Decoding) : Prop := ∃ size idx, t = s.facing size idx s.cursor.rest

theorem Blind.elsewhere {m : Decoder α} (h : Blind m) : Matched Elsewhere m m := by
  rintro s _ ⟨size, idx, rfl⟩
  refine (h s size idx s.cursor.rest).mono ?_
  rintro t _ ⟨hcursor, rfl⟩
  exact ⟨size, idx, by rw [hcursor]⟩

theorem elsewhere_read (count : Layout → Nat) (value : Layout → List UInt8 → α) :
    Matched Elsewhere (onCursor (Cursor.reading count value))
      (onCursor (Cursor.reading count value)) := by
  rintro s _ ⟨size, idx, rfl⟩
  by_cases h : count s.cursor.layout ≤ s.cursor.rest.length
  · rw [reading_of_le h, reading_of_le (s := s.facing size idx s.cursor.rest) h]
    exact .ok ⟨size, _, rfl⟩
  · rw [reading_of_lt (Nat.lt_of_not_le h),
      reading_of_lt (s := s.facing size idx s.cursor.rest) (Nat.lt_of_not_le h)]
    exact .error ⟨size, idx, rfl⟩

theorem elsewhere_peek : Matched Elsewhere peek peek := by
  rintro s _ ⟨size, idx, rfl⟩
  by_cases h : s.cursor.layout.width.size ≤ s.cursor.rest.length
  · rw [peek_of_le h, peek_of_le (s := s.facing size idx s.cursor.rest) h]
    exact .ok ⟨size, idx, rfl⟩
  · rw [peek_of_lt (Nat.lt_of_not_le h), peek_of_lt (s := s.facing size idx s.cursor.rest)
      (Nat.lt_of_not_le h)]
    exact .error ⟨size, idx, rfl⟩

theorem steady_elsewhere : Steady site kinds Elsewhere where
  read := elsewhere_read
  peek := elsewhere_peek
  here := blind_here.elsewhere
  stack m := (blind_onStack m).elsewhere
  output m := (blind_onOutput m).elsewhere
  setEffect key value := (blind_setEffect key value).elsewhere
  takeEffect key := (blind_takeEffect key).elsewhere
  note message := (blind_note message).elsewhere
  naming value shown := (blind_naming value shown).elsewhere
  record target kind _ := (blind_record site target kind).elsewhere

theorem blind_conclude (balance : Bool) (site : Site) (found : Bool) :
    Blind (conclude balance site found) := by
  intro s size idx rest
  have hsame : (balance && found && (s.facing size idx rest).stack.size ≠ 0) =
      (balance && found && s.stack.size ≠ 0) := rfl
  unfold conclude
  cases h : (balance && found && decide (s.stack.size ≠ 0)) with
  | true =>
    rw [if_pos rfl, if_pos (hsame.trans h)]
    exact .error ⟨rfl, rfl⟩
  | false =>
    rw [if_neg Bool.false_ne_true, if_neg (by rw [hsame, h]; exact Bool.false_ne_true)]
    exact .ok ⟨rfl, rfl⟩

theorem elsewhere_instruction (arch : Architecture) (balance : Bool) (site : Site) :
    Matched Elsewhere (instruction arch balance site) (instruction arch balance site) := by
  intro s t h
  have hlength : t.cursor.rest.length = s.cursor.rest.length := by
    obtain ⟨size, idx, rfl⟩ := h
    rfl
  rw [instruction_eq_bodyUpTo balance (Nat.lt_succ_self s.cursor.rest.length),
    instruction_eq_bodyUpTo balance (n := s.cursor.rest.length + 1) (by omega)]
  have hbody := (composed_bodyUpTo arch site (s.cursor.rest.length + 1)).matched steady_elsewhere
  exact hbody.bind (fun found => (blind_conclude balance site found).elsewhere) s t h

/-! ## One unit behind -/

/-- An action that succeeds after reading `k` bytes has looked no further than one unit behind them:
in front of any other input that begins with as many of the same bytes it does the same. -/
def Nearsighted (m : Decoder α) : Prop :=
  ∀ s a t, m s = .ok a t → ∃ k, t.cursor = s.cursor.advance k ∧
    ∀ size idx rest, s.cursor.rest.take (k + s.cursor.layout.width.size) <+: rest →
      m (s.facing size idx rest) = .ok a (t.facing size (idx + k) (rest.drop k))

theorem Blind.nearsighted {m : Decoder α} (h : Blind m) : Nearsighted m := by
  intro s a t hm
  have hstill : t.cursor = s.cursor := by
    have hs := h s 0 0 []
    rw [hm] at hs
    generalize m (s.facing 0 0 []) = r at hs
    cases hs with
    | ok hs => exact hs.1
  refine ⟨0, by rw [hstill, Cursor.advance_zero], fun size idx rest _ => ?_⟩
  have hfacing := h s size idx rest
  rw [hm] at hfacing
  generalize m (s.facing size idx rest) = r at hfacing
  cases hfacing with
  | ok hu => rw [hu.2, Nat.add_zero, List.drop_zero]

/-- What is read before the end of a common beginning is the same. -/
theorem take_of_common {n w : Nat} {x y : List UInt8} (h : x.take (n + w) <+: y)
    (hn : n ≤ x.length) : n ≤ y.length ∧ y.take n = x.take n := by
  obtain ⟨tail, rfl⟩ := h
  have hlength : n ≤ (x.take (n + w)).length := by
    rw [List.length_take]
    omega
  refine ⟨by rw [List.length_append]; omega, ?_⟩
  rw [List.take_append_of_le_length hlength, List.take_take, Nat.min_eq_left (Nat.le_add_right n w)]

namespace Nearsighted

theorem pure (a : α) : Nearsighted (pure a) := Blind.nearsighted fun _ _ _ _ => .ok ⟨rfl, rfl⟩

theorem throw (fault : Fault) : Nearsighted (throw fault : Decoder α) := by
  intro s a t h
  cases h

theorem chain {m : Decoder α} {f : α → Decoder β} (hm : Nearsighted m)
    (hf : ∀ s a t, m s = .ok a t → Nearsighted (f a)) : Nearsighted (m >>= f) := by
  intro s b t h
  obtain ⟨a, u, hu, ht⟩ := Action.bind_eq_ok h
  obtain ⟨j, hj, hfirst⟩ := hm s a u hu
  obtain ⟨k, hk, hsecond⟩ := hf s a u hu u b t ht
  refine ⟨j + k, by rw [hk, hj, Cursor.advance_advance], fun size idx rest hrest => ?_⟩
  -- the beginning that both have in common reaches one unit past what either of the two actions
  -- reads
  have hshort : s.cursor.rest.take (j + s.cursor.layout.width.size) <+: rest :=
    (List.take_prefix_take_left (by omega)).trans hrest
  have hlater : u.cursor.rest.take (k + u.cursor.layout.width.size) <+: rest.drop j := by
    have hdrop := hrest.drop j
    rw [List.drop_take] at hdrop
    rw [hj]
    simpa only [Cursor.advance, Nat.add_assoc, Nat.add_sub_cancel_left] using hdrop
  rw [Action.bind_of_ok _ (hfirst size idx rest hshort),
    hsecond size (idx + j) (rest.drop j) hlater, List.drop_drop, Nat.add_assoc]

theorem read (count : Layout → Nat) (value : Layout → List UInt8 → α) :
    Nearsighted (onCursor (Cursor.reading count value)) := by
  intro s a t h
  by_cases hn : count s.cursor.layout ≤ s.cursor.rest.length
  · rw [reading_of_le hn] at h
    cases h
    refine ⟨count s.cursor.layout, rfl, fun size idx rest hrest => ?_⟩
    obtain ⟨hle, htake⟩ := take_of_common hrest hn
    rw [reading_of_le (s := s.facing size idx rest) hle]
    simp only [Decoding.facing, Cursor.advance, Cursor.room, htake]
  · rw [reading_of_lt (Nat.lt_of_not_le hn)] at h
    cases h

theorem peek : Nearsighted peek := by
  intro s a t h
  by_cases hn : s.cursor.layout.width.size ≤ s.cursor.rest.length
  · rw [peek_of_le hn] at h
    cases h
    refine ⟨0, (Cursor.advance_zero _).symm, fun size idx rest hrest => ?_⟩
    rw [Nat.zero_add] at hrest
    obtain ⟨hle, htake⟩ := take_of_common (n := s.cursor.layout.width.size) (w := 0) hrest hn
    rw [peek_of_le (s := s.facing size idx rest) hle]
    simp only [Decoding.facing, htake, Nat.add_zero, List.drop_zero]
  · rw [peek_of_lt (Nat.lt_of_not_le hn)] at h
    cases h

end Nearsighted

/-- Everything composed of elementary steps looks no further than one unit behind what it reads. -/
theorem Composed.nearsighted {m : Decoder α} (h : Composed site kinds m) : Nearsighted m := by
  induction h with
  | pure a => exact .pure a
  | throw fault => exact .throw fault
  | chain _ _ ihm ihf => exact ihm.chain ihf
  | read count value => exact .read count value
  | peek => exact .peek
  | here => exact blind_here.nearsighted
  | stack m => exact (blind_onStack m).nearsighted
  | output m => exact (blind_onOutput m).nearsighted
  | setEffect key value => exact (blind_setEffect key value).nearsighted
  | takeEffect key => exact (blind_takeEffect key).nearsighted
  | note message => exact (blind_note message).nearsighted
  | naming value shown => exact (blind_naming value shown).nearsighted
  | record target kind _ => exact (blind_record _ target kind).nearsighted

/-- The instruction in front of other input with the same beginning. -/
theorem instruction_facing {arch : Architecture} {balance : Bool} {s t : Decoding} {i : Instruction}
    (h : instruction arch balance site s = .ok i t) :
    ∃ k, t.cursor = s.cursor.advance k ∧ i.next = t.cursor.addr ∧ i.address = site.address ∧
      ∀ size idx rest, s.cursor.rest.take (k + s.cursor.layout.width.size) <+: rest →
        instruction arch balance site (s.facing size idx rest) =
          .ok i (t.facing size (idx + k) (rest.drop k)) := by
  obtain ⟨k, hunit, hk, hcursor, haddress, hnext, -⟩ := instruction_advances h
  refine ⟨k, hcursor, hnext, haddress, fun size idx rest hrest => ?_⟩
  let n := max s.cursor.rest.length rest.length + 1
  have hbody : Nearsighted (bodyUpTo arch site n >>= conclude balance site) :=
    (composed_bodyUpTo arch site n).nearsighted.chain fun _ found _ _ =>
      (blind_conclude balance site found).nearsighted
  rw [instruction_eq_bodyUpTo balance (n := n) (by omega)] at h
  obtain ⟨j, hj, hfacing⟩ := hbody s i t h
  have heq : j = k := by
    have haddr : (s.cursor.advance j).addr = (s.cursor.advance k).addr := by rw [← hj, ← hcursor]
    simp only [Cursor.advance] at haddr
    omega
  subst heq
  rw [instruction_eq_bodyUpTo balance (n := n) (by simp only [Decoding.facing]; omega)]
  exact hfacing size idx rest hrest

end Decoder

open Decoder

/-- What is decoded, in the same bytes elsewhere. -/
theorem decode_elsewhere (arch : Architecture) (balance : Bool) {c d : Cursor}
    (symbols : SymbolTable) (haddr : d.addr = c.addr)
    (h : Elsewhere (.start c symbols) (.start d symbols)) :
    ∃ result t u, decode arch balance c symbols = .of result t ∧
      decode arch balance d symbols = .of result u ∧ Elsewhere t u := by
  have hsite : arch.site d = arch.site c := by simp only [Architecture.site, haddr]
  have hagree := elsewhere_instruction arch balance (arch.site c) _ _ h
  unfold decode
  rw [hsite]
  generalize instruction arch balance (arch.site c) (.start c symbols) = r at hagree
  generalize instruction arch balance (arch.site c) (.start d symbols) = q at hagree
  cases hagree with
  | ok htu => exact ⟨_, _, _, rfl, rfl, htu⟩
  | error htu => exact ⟨_, _, _, rfl, rfl, htu⟩

/-- What is decoded, in front of other input that has the instruction and one unit more in
common. -/
theorem decode_common {arch : Architecture} {balance : Bool} {layout : Layout}
    {x : List UInt8} {a : Int} {symbols : SymbolTable} {i : Instruction}
    (h : (decode arch balance (.start layout x a) symbols).result = .ok i) {z : List UInt8}
    (hz : x.take (i.length.toNat + layout.width.size) <+: z) :
    (decode arch balance (.start layout z a) symbols).result = .ok i ∧
      (decode arch balance (.start layout z a) symbols).symbols =
        (decode arch balance (.start layout x a) symbols).symbols := by
  unfold decode at h ⊢
  cases hi : instruction arch balance (arch.site (.start layout x a))
    (.start (.start layout x a) symbols) with
  | error fault t => rw [hi] at h; cases h
  | ok j t =>
    rw [hi] at h
    cases h
    obtain ⟨k, hcursor, hnext, haddress, hfacing⟩ := instruction_facing hi
    have hlength : i.length.toNat = k := by
      have haddr : t.cursor.addr = a + k := by rw [hcursor]; rfl
      have hstart : i.address = a := haddress
      rw [Instruction.length, hnext, haddr, hstart]
      omega
    have hother : instruction arch balance (arch.site (.start layout z a))
        (.start (.start layout z a) symbols) = _ :=
      hfacing z.length 0 z (hlength ▸ hz)
    rw [hother]
    exact ⟨rfl, rfl⟩

/-- Decoding is local. At an index of an image it does what it does at the front of the bytes from
there on, with the same result or fault and the same symbols. And an instruction stays the same,
with the references that it makes, whatever follows it one unit after its end. -/
theorem decode_local (arch : Architecture) (balance : Bool) (layout : Layout)
    (symbols : SymbolTable) :
    (∀ (d : List UInt8) (i : Nat) (a : Int) (kept : List UInt8),
      let inside := decode arch balance { Cursor.start layout d a i with captured := kept } symbols
      let anew := decode arch balance (.start layout (d.drop i) a) symbols
      inside.result = anew.result ∧ inside.symbols = anew.symbols ∧ inside.peeks = anew.peeks ∧
        inside.cursor.rest = anew.cursor.rest ∧ inside.cursor.addr = anew.cursor.addr) ∧
    (∀ (x : List UInt8) (a : Int) (insn : Instruction),
      (decode arch balance (.start layout x a) symbols).result = .ok insn →
      ∀ y : List UInt8,
        let changed := decode arch balance
          (.start layout (x.take (insn.length.toNat + layout.width.size) ++ y) a) symbols
        changed.result = .ok insn ∧
          changed.symbols = (decode arch balance (.start layout x a) symbols).symbols) := by
  refine ⟨fun d i a kept => ?_, fun x a insn h y => decode_common h (List.prefix_append _ y)⟩
  intro inside anew
  obtain ⟨result, t, _, hanew, hinside, size, idx, rfl⟩ :=
    decode_elsewhere arch balance (c := .start layout (d.drop i) a)
      (d := { Cursor.start layout d a i with captured := kept }) symbols rfl ⟨d.length, i, rfl⟩
  have hanew : anew = _ := hanew
  have hinside : inside = _ := hinside
  rw [hanew, hinside]
  exact ⟨rfl, rfl, rfl, rfl, rfl⟩

/-- A rule that looks at the next byte and turns the first one down: what is decoded is one byte
long, and yet the byte behind it counts. -/
theorem decode_local_lookahead :
    let cursor (bytes : List UInt8) := Cursor.start ⟨.byte, .little, 6⟩ bytes 0x100
    (decode I8086.arch true (cursor [0xD4, 0x0B, 0xC3]) {}).result =
      .ok ⟨"???", 0x100, 0x101, [0xD4], false⟩ ∧
      (∀ y, (decode I8086.arch true (cursor (0xD4 :: 0x0B :: y)) {}).result =
        .ok ⟨"???", 0x100, 0x101, [0xD4], false⟩) ∧
      (decode I8086.arch true (cursor [0xD4, 0x0A]) {}).result =
        .ok ⟨"AAM", 0x100, 0x102, [0xD4, 0x0A], true⟩ := by
  intro cursor
  have h : (decode I8086.arch true (cursor [0xD4, 0x0B, 0xC3]) {}).result =
      .ok ⟨"???", 0x100, 0x101, [0xD4], false⟩ := by decide +kernel
  obtain ⟨-, hcommon⟩ := decode_local I8086.arch true ⟨.byte, .little, 6⟩ {}
  exact ⟨h, fun y => (hcommon _ _ _ h y).1, by decide +kernel⟩

end Disassembler
