import Disassembler.Proofs.Decoder.Composed
import Disassembler.Proofs.Symbol.Append
import Disassembler.Proofs.Text.Fill
import Mathlib.Algebra.Group.Nat.Defs

/-!
Steps with a price. A step that stays within a cost reads no more bytes, takes as many deferred
units and writes no more characters than the cost says, and it fails only if the input or the room
for text runs out before that.
-/

namespace Disassembler

/-- What a step may use up: bytes of the input, deferred units, and characters of the output. -/
structure Cost where
  bytes : Nat := 0
  units : Nat := 0
  chars : Nat := 0
  deriving DecidableEq, Repr

def Cost.plus (c d : Cost) : Cost := ⟨c.bytes + d.bytes, c.units + d.units, c.chars + d.chars⟩

def SymbolTable.Short (n : Nat) (t : SymbolTable) : Prop := ∀ p ∈ t.labels, p.2.length ≤ n

/-- What prefixes leave for later operands is text of at most six characters. -/
def effectLimit : Nat := 6

namespace Decoder

variable {α β : Type} {n : Nat} {c d : Cost} {s t u : Decoding}

/-- Units are bytes, and every effect is a short text. -/
structure Ready (s : Decoding) : Prop where
  byte : s.cursor.layout.width = .byte
  effects : ∀ p ∈ s.effects, ∃ text, p.2 = .text text ∧ text.length ≤ effectLimit

/-- A step at a cost has led from one state to another; how much was written is known if labels are
short. -/
structure Spent (n : Nat) (c : Cost) (s t : Decoding) : Prop where
  ready : Ready t
  cursor : ∃ k, k ≤ c.bytes ∧ k ≤ s.cursor.rest.length ∧ t.cursor = s.cursor.advance k
  stack : t.stack.items.length + c.units = s.stack.items.length
  limit : t.out.limit = s.out.limit
  chars : s.symbols.Short n → t.out.length ≤ s.out.length + c.chars
  short : s.symbols.Short n → t.symbols.Short n

/-- The faults that a step at a cost may run into: too little input, or too little room for its
text. -/
def Excused (n : Nat) (c : Cost) (s : Decoding) (fault : Fault) : Prop :=
  (∃ address, fault = .endOfInput address) ∧ s.cursor.rest.length < c.bytes ∨
    fault = .textTooLong s.out.limit ∧ (s.symbols.Short n → s.out.limit < s.out.length + c.chars)

/-- A step that stays within a cost and gives results with a property. -/
structure Within (n : Nat) (c : Cost) (P : α → Prop) (m : Decoder α) : Prop where
  spent : ∀ {s a t}, Ready s → c.units ≤ s.stack.items.length → m s = .ok a t → P a ∧ Spent n c s t
  excused : ∀ {s fault t}, Ready s → c.units ≤ s.stack.items.length → m s = .error fault t →
    Excused n c s fault

/-- To stay is to move by no bytes. -/
theorem stays (cursor : Cursor) (b : Nat) :
    ∃ k, k ≤ b ∧ k ≤ cursor.rest.length ∧ cursor = cursor.advance k :=
  ⟨0, Nat.zero_le _, Nat.zero_le _, (Cursor.advance_zero _).symm⟩

theorem Spent.refl (h : Ready s) : Spent n {} s s :=
  ⟨h, stays _ _, rfl, rfl, fun _ => Nat.le_refl _, id⟩

theorem Spent.trans (h₁ : Spent n c s t) (h₂ : Spent n d t u) : Spent n (c.plus d) s u := by
  obtain ⟨j, hj, hjr, ej⟩ := h₁.cursor
  obtain ⟨k, hk, hkr, ek⟩ := h₂.cursor
  have hstack₁ := h₁.stack
  have hstack₂ := h₂.stack
  refine ⟨h₂.ready, ⟨j + k, Nat.add_le_add hj hk, ?_, ?_⟩, ?_, h₂.limit.trans h₁.limit,
    fun hs => ?_, fun hs => h₂.short (h₁.short hs)⟩
  · rw [ej, Cursor.advance_rest_length] at hkr
    omega
  · rw [ek, ej, Cursor.advance_advance]
  · simp only [Cost.plus]
    omega
  · have hc := h₁.chars hs
    have hd := h₂.chars (h₁.short hs)
    simp only [Cost.plus]
    omega

theorem Excused.left (h : Excused n c s fault) : Excused n (c.plus d) s fault := by
  rcases h with ⟨hf, hlt⟩ | ⟨hf, hlt⟩
  · exact .inl ⟨hf, Nat.lt_of_lt_of_le hlt (Nat.le_add_right _ _)⟩
  · refine .inr ⟨hf, fun hs => ?_⟩
    have := hlt hs
    simp only [Cost.plus]
    omega

theorem Excused.right (h₁ : Spent n c s t) (h₂ : Excused n d t fault) :
    Excused n (c.plus d) s fault := by
  rcases h₂ with ⟨hf, hlt⟩ | ⟨hf, hlt⟩
  · obtain ⟨k, hk, hkr, ek⟩ := h₁.cursor
    rw [ek, Cursor.advance_rest_length] at hlt
    refine .inl ⟨hf, ?_⟩
    simp only [Cost.plus]
    omega
  · rw [h₁.limit] at hf hlt
    refine .inr ⟨hf, fun hs => ?_⟩
    have hc := h₁.chars hs
    have hd := hlt (h₁.short hs)
    simp only [Cost.plus]
    omega

namespace Within

variable {P : α → Prop} {Q : β → Prop}

theorem pure {a : α} (h : P a) : Within n {} P (pure a) where
  spent := by
    intro s b t hs _ hm
    cases hm
    exact ⟨h, .refl hs⟩
  excused := by
    intro s fault t _ _ hm
    cases hm

theorem bind {m : Decoder α} {f : α → Decoder β} (hm : Within n c P m)
    (hf : ∀ a, P a → Within n d Q (f a)) : Within n (c.plus d) Q (m >>= f) where
  spent := by
    intro s b t hs hunits h
    simp only [Cost.plus] at hunits
    obtain ⟨a, u, hu, ht⟩ := Action.bind_eq_ok h
    obtain ⟨ha, hsu⟩ := hm.spent hs (by omega) hu
    have hstack := hsu.stack
    obtain ⟨hb, hut⟩ := (hf a ha).spent hsu.ready (by omega) ht
    exact ⟨hb, hsu.trans hut⟩
  excused := by
    intro s fault t hs hunits h
    simp only [Cost.plus] at hunits
    rcases Action.bind_eq_error h with hu | ⟨a, u, hu, ht⟩
    · exact (hm.excused hs (by omega) hu).left
    · obtain ⟨ha, hsu⟩ := hm.spent hs (by omega) hu
      have hstack := hsu.stack
      exact .right hsu ((hf a ha).excused hsu.ready (by omega) ht)

/-- A larger cost will do, as long as it takes the same number of deferred units. -/
theorem weaken {m : Decoder α} (h : Within n c P m) (hb : c.bytes ≤ d.bytes)
    (hu : c.units = d.units) (hc : c.chars ≤ d.chars) {P' : α → Prop} (hP : ∀ a, P a → P' a) :
    Within n d P' m where
  spent := by
    intro s a t hs hunits hm
    obtain ⟨ha, hr, ⟨k, hk, hkr, ek⟩, hstack, hl, hchars, hshort⟩ := h.spent hs (by omega) hm
    refine ⟨hP a ha, hr, ⟨k, by omega, hkr, ek⟩, by omega, hl, fun hn => ?_, hshort⟩
    have := hchars hn
    omega
  excused := by
    intro s fault t hs hunits hm
    rcases h.excused hs (by omega) hm with ⟨hf, hlt⟩ | ⟨hf, hlt⟩
    · exact .inl ⟨hf, by omega⟩
    · refine .inr ⟨hf, fun hn => ?_⟩
      have := hlt hn
      omega

/-- A larger cost for a step whose result does not matter. -/
theorem charge {m : Decoder α} (h : Within n c P m) (hb : c.bytes ≤ d.bytes)
    (hu : c.units = d.units) (hc : c.chars ≤ d.chars) : Within n d (fun _ => True) m :=
  h.weaken hb hu hc fun _ _ => trivial

end Within

end Decoder

/-! ## Input -/

theorem ByteOrder.value_lt (order : ByteOrder) (bytes : List UInt8) :
    order.value bytes < 256 ^ bytes.length := by
  cases order with
  | little =>
    induction bytes with
    | nil => decide
    | cons b bs ih =>
      have hb := b.toNat_lt
      simp only [value, List.foldr_cons, List.length_cons, Nat.pow_succ] at ih ⊢
      omega
  | big =>
    have general : ∀ (bs : List UInt8) (a : Nat),
        bs.foldl (fun n b => n * 256 + b.toNat) a < (a + 1) * 256 ^ bs.length := by
      intro bs
      induction bs with
      | nil => intro a; simp
      | cons b bs ih =>
        intro a
        have hb := b.toNat_lt
        have hstep : a * 256 + b.toNat + 1 ≤ (a + 1) * 256 := by omega
        calc
          _ < (a * 256 + b.toNat + 1) * 256 ^ bs.length := ih _
          _ ≤ (a + 1) * 256 * 256 ^ bs.length := Nat.mul_le_mul_right _ hstep
          _ = _ := by simp only [List.length_cons, Nat.pow_succ]; ac_rfl
    have h := general bytes 0
    simpa only [value, Nat.zero_add, Nat.one_mul] using h

namespace Decoder.Within

variable {α : Type} {n : Nat}

/-- What is read comes from as many bytes as were asked for. -/
theorem reading (count : Layout → Nat) (value : Layout → List UInt8 → α) (k : Nat)
    (hk : ∀ layout, layout.width = .byte → count layout = k) :
    Within n { bytes := k } (fun a => ∃ layout bytes, bytes.length = k ∧ value layout bytes = a)
      (onCursor (Cursor.reading count value)) where
  spent := by
    intro s a t hs _ hm
    simp only [onCursor, Action.on, Cursor.reading, Functor.map, EStateM.map, Cursor.take,
      hk _ hs.byte] at hm
    by_cases h : (s.cursor.rest.take k).length = k
    · rw [if_pos h] at hm
      cases hm
      rw [List.length_take] at h
      exact ⟨⟨_, _, by rw [List.length_take]; exact h, rfl⟩, ⟨hs.byte, hs.effects⟩,
        ⟨k, Nat.le_refl _, by omega, rfl⟩, rfl, rfl, fun _ => Nat.le_refl _, id⟩
    · rw [if_neg h] at hm
      cases hm
  excused := by
    intro s fault t hs _ hm
    simp only [onCursor, Action.on, Cursor.reading, Functor.map, EStateM.map, Cursor.take,
      hk _ hs.byte] at hm
    by_cases h : (s.cursor.rest.take k).length = k
    · rw [if_pos h] at hm
      cases hm
    · rw [if_neg h] at hm
      cases hm
      rw [List.length_take] at h
      exact .inl ⟨⟨_, rfl⟩, show s.cursor.rest.length < k by omega⟩

theorem readByte : Within n { bytes := 1 } (fun v : Nat => v ≤ 255) readByte :=
  (reading (fun _ => 1) (·.order.value) 1 fun _ _ => rfl).weaken (Nat.le_refl _) rfl
    (Nat.le_refl _) (by
    rintro _ ⟨layout, bytes, hl, rfl⟩
    have := layout.order.value_lt bytes
    rw [hl] at this
    omega)

theorem readWord : Within n { bytes := 2 } (fun v : Nat => v ≤ 65535) readWord :=
  (reading (fun _ => 2) (·.order.value) 2 fun _ _ => rfl).weaken (Nat.le_refl _) rfl
    (Nat.le_refl _) (by
    rintro _ ⟨layout, bytes, hl, rfl⟩
    have := layout.order.value_lt bytes
    rw [hl] at this
    omega)

theorem readSigned : Within n { bytes := 1 } (fun _ => True) readSigned := by
  unfold Decoder.readSigned
  rw [Cursor.readSigned_eq_reading]
  exact (reading (fun _ => 1) _ 1 fun _ _ => rfl).charge (Nat.le_refl _) rfl (Nat.le_refl _)

/-- A step that changes nothing that matters here. -/
theorem still {m : Decoder α} (f : Decoding → Decoding) (g : Decoding → α)
    (hm : ∀ s, m s = .ok (g s) (f s)) (hf : ∀ s, Ready s → Spent n {} s (f s)) {P : α → Prop}
    (hP : ∀ s, Ready s → P (g s)) : Within n {} P m where
  spent := by
    intro s a t hs _ h
    rw [hm] at h
    cases h
    exact ⟨hP s hs, hf s hs⟩
  excused := by
    intro s fault t _ _ h
    rw [hm] at h
    cases h

theorem here : Within n {} (fun _ => True) here :=
  still id (·.cursor.addr) (fun _ => rfl) (fun _ => .refl) fun _ _ => trivial

theorem note (message : String) : Within n {} (fun _ => True) (note message) :=
  still (fun s => { s with log := s.log ++ [⟨.debug, .decoder, message⟩] }) (fun _ => ())
    (fun _ => rfl)
    (fun _ hs => ⟨⟨hs.byte, hs.effects⟩, stays _ _, rfl, rfl, fun _ => Nat.le_refl _, id⟩)
      fun _ _ => trivial

theorem pop : Within n { units := 1 } (fun _ => True) pop where
  spent := by
    intro s a t hs hunits hm
    simp only [Decoder.pop, onStack, Action.on, Deferred.pop] at hm
    cases hi : s.stack.items with
    | nil => rw [hi] at hunits; simp at hunits
    | cons unit items =>
      rw [hi] at hm
      cases hm
      exact ⟨trivial, ⟨hs.byte, hs.effects⟩, stays _ _, by rw [hi]; rfl, rfl,
        fun _ => Nat.le_refl _, id⟩
  excused := by
    intro s fault t hs hunits hm
    simp only [Decoder.pop, onStack, Action.on, Deferred.pop] at hm
    cases hi : s.stack.items with
    | nil => rw [hi] at hunits; simp at hunits
    | cons unit items => rw [hi] at hm; cases hm

end Decoder.Within

/-! ## Output -/

namespace Output

/-- An action that writes at most `k` characters, and fails only if they do not fit. -/
structure Writes (k : Nat) (m : Action Output Unit) : Prop where
  written : ∀ {o o' a}, m o = .ok a o' → o'.limit = o.limit ∧ o'.length ≤ o.length + k
  refused : ∀ {o o' fault}, m o = .error fault o' → fault = .textTooLong o.limit ∧
    o.limit < o.length + k

theorem writes_pure (k : Nat) : Writes k (pure ()) where
  written := by
    intro o o' a h
    cases h
    exact ⟨rfl, Nat.le_add_right _ _⟩
  refused := by
    intro o o' fault h
    cases h

theorem writes_append {k : Nat} {t : Token} (hcheck : t.check = .ok ()) (hk : t.length ≤ k) :
    Writes k (append t) := by
  have hoffer : append t = offer t := by
    unfold append
    rw [hcheck]
    rfl
  rw [hoffer]
  constructor
  · intro o o' a h
    unfold offer at h
    split at h
    · cases h
      exact ⟨rfl, Nat.add_le_add_left hk _⟩
    · cases h
  · intro o o' fault h
    unfold offer at h
    split at h
    · cases h
    · next hlong =>
      cases h
      exact ⟨rfl, by omega⟩

theorem writes_text {k : Nat} {s : String} (hk : s.length ≤ k) : Writes k (text s) := by
  unfold text
  split
  · exact writes_pure k
  · exact writes_append rfl hk

theorem writes_write {k : Nat} {template s : String} {args : List Value}
    (hfill : Text.fill template args = .ok s) (hk : s.length ≤ k) :
    Writes k (write template args) := by
  have htext : write template args = text s := by
    unfold write
    rw [hfill]
    rfl
  rw [htext]
  exact writes_text hk

end Output

namespace Decoder.Within

variable {n : Nat} {site : Site}

theorem output {k : Nat} {m : Action Output Unit} (h : Output.Writes k m) :
    Within n { chars := k } (fun _ => True) (onOutput m) where
  spent := by
    intro s a t hs _ hm
    simp only [onOutput, Action.on] at hm
    cases ho : m s.out with
    | error fault o => rw [ho] at hm; cases hm
    | ok _ o =>
      rw [ho] at hm
      cases hm
      obtain ⟨hl, hlen⟩ := h.written ho
      exact ⟨trivial, ⟨hs.byte, hs.effects⟩, stays _ _, rfl, hl, fun _ => hlen, id⟩
  excused := by
    intro s fault t hs _ hm
    simp only [onOutput, Action.on] at hm
    cases ho : m s.out with
    | error fault o =>
      rw [ho] at hm
      cases hm
      obtain ⟨hf, hlen⟩ := h.refused ho
      exact .inr ⟨hf, fun _ => by simpa using hlen⟩
    | ok _ o => rw [ho] at hm; cases hm

theorem text (s : String) : Within n { chars := s.length } (fun _ => True) (text s) :=
  output (Output.writes_text (Nat.le_refl _))

theorem separator (s : String) : Within n { chars := s.length } (fun _ => True) (separator s) :=
  output (Output.writes_append rfl (Nat.le_refl _))

/-- A template is no longer than with the largest arguments. -/
theorem write {template : String} {args bounds : List Value} {k : Nat}
    (hk : Text.widest template bounds = some k) (h : List.Forall₂ Text.Under args bounds) :
    Within n { chars := k } (fun _ => True) (write template args) := by
  obtain ⟨filled, hfill, hlen⟩ := Text.fill_under h hk
  exact output (Output.writes_write hfill hlen)

theorem number {template : String} {value bound : Int} {k : Nat}
    (hk : Text.widest template [.number bound] = some k)
    (h : Text.Under (.number value) (.number bound)) :
    Within n { chars := k } (fun _ => True) (number template value) :=
  write hk (.cons h .nil)

/-- Text on its own is written as it stands. -/
theorem plain (s : String) :
    Within n { chars := s.length } (fun _ => True) (Decoder.write "%s" [.text s]) := by
  have hfill : Text.fill "%s" [.text s] = .ok s := by
    simp [Text.fill, Text.expand, Text.convert, Value.plain, Capacity.room,
      List.leftpad, Except.map]
  exact output (Output.writes_write hfill (Nat.le_refl _))

/-- An address takes the room of its digits or of its label. -/
theorem naming (value : Int) {shown : String} {w : Nat} (h : shown.length ≤ w) :
    Within n { chars := max n w } (fun _ => True) (naming value shown) := by
  have hlabel : ∀ s : Decoding, s.symbols.Short n →
      ((s.symbols.label? value).getD shown).length ≤ max n w := by
    intro s hs
    cases hl : s.symbols.label? value with
    | none => exact Nat.le_trans h (Nat.le_max_right _ _)
    | some name =>
      exact Nat.le_trans (hs _ (SymbolTable.mem_labels_of_label? hl)) (Nat.le_max_left _ _)
  have hstep := fun s : Decoding => output (n := n) (Output.writes_append (k := _)
    (t := .address value shown (s.symbols.label? value)) rfl (Nat.le_refl _))
  constructor
  · intro s a t hs _ hm
    obtain ⟨_, hspent⟩ := (hstep s).spent hs (Nat.zero_le _) hm
    refine ⟨trivial, hspent.ready, hspent.cursor, hspent.stack, hspent.limit, fun hn => ?_,
      hspent.short⟩
    exact Nat.le_trans (hspent.chars hn) (Nat.add_le_add_left (hlabel s hn) _)
  · intro s fault t hs _ hm
    rcases (hstep s).excused hs (Nat.zero_le _) hm with ⟨_, hlt⟩ | ⟨hf, hlt⟩
    · cases hlt
    · refine .inr ⟨hf, fun hn => ?_⟩
      have hlong := hlt hn
      have hle := hlabel s hn
      simp only [Token.length] at hlong ⊢
      omega

theorem record (target : Int) (kind : RefKind) :
    Within n {} (fun _ => True) (record site target kind) :=
  still (fun s => { s with symbols := s.symbols.record target site.address kind }) (fun _ => ())
    (fun _ => rfl)
    (fun _ hs => ⟨⟨hs.byte, hs.effects⟩, stays _ _, rfl, rfl, fun _ => Nat.le_refl _,
      fun hn p hp => hn p (SymbolTable.labels_record hp)⟩) fun _ _ => trivial

def addressChars (n : Nat) (format wrap : String) (bound : Int) : Option Nat := do
  let digits ← Text.widest format [.number bound]
  return (Text.splitAtHole wrap.toList).1.length + max n digits +
    (Text.splitAtHole wrap.toList).2.length

theorem address {kind : RefKind} {value bound : Int} {format wrap : String} {k : Nat}
    (hk : addressChars n format wrap bound = some k)
    (h : Text.Under (.number value) (.number bound)) :
    Within n { chars := k } (fun _ => True) (address site kind value format wrap) := by
  obtain ⟨digits, hdigits, hk⟩ := Option.bind_eq_some_iff.mp hk
  cases hk
  obtain ⟨shown, hfill, hlen⟩ := Text.fill_under (.cons h .nil) hdigits
  have hlift :
      (Action.lift ((Text.fill format [.number value]).mapError .template) : Decoder String) =
      Pure.pure shown := by
    rw [hfill]
    rfl
  rw [address_eq_naming, hlift, pure_bind]
  have hrecord : Within n {} (fun _ => True) (Decoder.record site value kind) := record value kind
  have hsteps := bind (text (n := n) (String.ofList (Text.splitAtHole wrap.toList).1)) fun _ _ =>
    bind (naming value hlen) fun _ _ =>
      bind (text (String.ofList (Text.splitAtHole wrap.toList).2)) fun _ _ => hrecord
  refine hsteps.charge (Nat.zero_le _) rfl ?_
  simp only [Cost.plus, String.length_ofList]
  omega

/-! ## Effects of prefixes -/

/-- An effect that is there is a short text. -/
theorem takeEffect (key : String) : Within n {}
    (fun effect => ∀ v, effect = some v → ∃ text, v = .text text ∧
      text.length ≤ effectLimit) (takeEffect key) := by
  refine still (fun s => { s with effects := s.effects.filter (·.1 ≠ key) })
    (fun s => s.effects.lookup key)
    (fun _ => rfl) (fun s hs => ?_) fun s hs v hv => ?_
  · exact ⟨⟨hs.byte, fun p hp => hs.effects p (List.mem_of_mem_filter hp)⟩, stays _ _, rfl, rfl,
      fun _ => Nat.le_refl _, id⟩
  · obtain ⟨before, after, hsplit, _⟩ := List.lookup_eq_some_iff.mp hv
    exact hs.effects (key, v) (by rw [hsplit]; simp)

theorem mnemonic (name : String) (h₀ : 0 ≤ site.mnemonicWidth)
    (h₁ : site.mnemonicWidth ≤ Capacity.room) :
    Within n { chars := effectLimit + max name.length site.mnemonicWidth.toNat } (fun _ => True)
      (mnemonic site name) := by
  have hcheck : (Token.mnemonic name site.mnemonicWidth).check = .ok () := by
    have hw := Capacity.checkWidth_of_le (Int.le_trans (by decide) h₀) h₁
    simp only [Token.check, hw]
    rfl
  have hlead : ∀ effect : Option Value,
      (∀ v, effect = some v → ∃ text, v = .text text ∧ text.length ≤ effectLimit) →
      Within n { chars := effectLimit } (fun _ => True) (value (effect.getD .nothing)) := by
    intro effect heffect
    cases effect with
    | none => exact output (Output.writes_pure _)
    | some v =>
      obtain ⟨text, rfl, hlen⟩ := heffect v rfl
      exact output (Output.writes_text hlen)
  have hname := output (n := n) (Output.writes_append hcheck (Nat.le_refl _))
  refine (bind (takeEffect _) fun effect he => bind (hlead effect he) fun _ _ => hname).charge
    (Nat.zero_le _) rfl ?_
  simp only [Cost.plus, Token.length]
  omega

end Decoder.Within

end Disassembler
