import Disassembler.Proofs.Decoder.Agreement
import Disassembler.Proofs.Symbol.Append

/-!
The same instruction at two sites. Where it starts shows in the sources of the references that it
makes and in the log, and nowhere in what is written. Two runs in front of the same bytes, with the
same effects under every key, therefore write the same text and refer to the same addresses, or fail
alike.
-/

namespace Disassembler

namespace Entry

def bare (e : Entry) : Entry := { e with refs := [] }

/-- Where a reference goes does not depend on its source. -/
theorem map_bare_update (a : Int) (ref : Reference) (es : List Entry) :
    (update a (addReference ref) es).map bare = update a id (es.map bare) := by
  induction es with
  | nil => rfl
  | cons e es ih =>
    have haddress : e.bare.address = e.address := rfl
    simp only [List.map_cons, update, haddress]
    split
    · rfl
    split
    · rfl
    · rw [List.map_cons, ih]

end Entry

namespace SymbolTable

def mentions (source : Int) (refs : List (Int × RefKind)) : List Mention :=
  refs.map fun r => ⟨r.1, source, r.2⟩

/-- Two tables that have grown out of one by the same references, each from a source of its own. -/
def Parallel (T : SymbolTable) (source₁ source₂ : Int) (t₁ t₂ : SymbolTable) : Prop :=
  ∃ refs, t₁ = T.appendAll (mentions source₁ refs) ∧ t₂ = T.appendAll (mentions source₂ refs)

/-! ## Labels do not depend on sources -/

def bare (t : SymbolTable) : SymbolTable := { t with entries := t.entries.map Entry.bare }

theorem label?_bare (t : SymbolTable) (a : Int) : t.bare.label? a = t.label? a := by
  simp only [label?, get?, bare, List.find?_map, Option.bind_map]
  rfl

theorem bare_append (t : SymbolTable) (m : Mention) :
    (t.append m).bare = t.bare.update m.target id := by
  simp only [append, update, bare, Entry.map_bare_update]

theorem bare_appendAll (t : SymbolTable) (source : Int) (refs : List (Int × RefKind)) :
    (t.appendAll (mentions source refs)).bare = refs.foldl (fun t r => t.update r.1 id) t.bare := by
  induction refs generalizing t with
  | nil => rfl
  | cons r refs ih =>
    rw [List.foldl_cons, ← bare_append t ⟨r.1, source, r.2⟩, ← ih]
    rfl

namespace Parallel

variable {T t₁ t₂ : SymbolTable} {source₁ source₂ : Int}

theorem refl (T : SymbolTable) (source₁ source₂ : Int) : Parallel T source₁ source₂ T T :=
  ⟨[], rfl, rfl⟩

theorem label (h : Parallel T source₁ source₂ t₁ t₂) (a : Int) : t₂.label? a = t₁.label? a := by
  obtain ⟨refs, rfl, rfl⟩ := h
  rw [← label?_bare, bare_appendAll, ← bare_appendAll T source₁, label?_bare]

theorem record (h : Parallel T source₁ source₂ t₁ t₂) (target : Int) (kind : RefKind) :
    Parallel T source₁ source₂ (t₁.record target source₁ kind) (t₂.record target source₂ kind) := by
  obtain ⟨refs, rfl, rfl⟩ := h
  by_cases hk : kind = .none
  · rw [record_eq_self (.inl hk), record_eq_self (.inl hk)]
    exact ⟨refs, rfl, rfl⟩
  cases hr : T.inRange target with
  | false =>
    rw [record_eq_self (.inr (by rwa [inRange_appendAll])),
      record_eq_self (.inr (by rwa [inRange_appendAll]))]
    exact ⟨refs, rfl, rfl⟩
  | true =>
    rw [record_eq_append hk (by rwa [inRange_appendAll]),
      record_eq_append hk (by rwa [inRange_appendAll])]
    refine ⟨refs ++ [(target, kind)], ?_, ?_⟩ <;> simp [appendAll, mentions]

end Parallel

end SymbolTable

namespace Decoder

variable {α : Type} {T : SymbolTable} {σ₁ σ₂ : Site}

/-! ## States alike -/

/-- The same bytes ahead, the same text and deferred units, and the same effects under every key. -/
structure Alike (T : SymbolTable) (σ₁ σ₂ : Site) (s₁ s₂ : Decoding) : Prop where
  layout : s₂.cursor.layout = s₁.cursor.layout
  rest : s₂.cursor.rest = s₁.cursor.rest
  addr : s₂.cursor.addr = s₁.cursor.addr
  out : s₂.out = s₁.out
  stack : s₂.stack = s₁.stack
  effects : ∀ key, s₂.effects.lookup key = s₁.effects.lookup key
  symbols : T.Parallel σ₁.address σ₂.address s₁.symbols s₂.symbols

theorem lookup_cons_ite (key k : String) (v : Value) (effects : List (String × Value)) :
    ((k, v) :: effects).lookup key = if key = k then some v else effects.lookup key := by
  rw [List.lookup_cons]
  by_cases h : key = k
  · rw [if_pos h, beq_iff_eq.mpr h]
  · rw [if_neg h, beq_false_of_ne h]

theorem lookup_filter_ne (effects : List (String × Value)) (key used : String) :
    (effects.filter (·.1 ≠ used)).lookup key = if key = used then none else effects.lookup key := by
  induction effects with
  | nil => simp
  | cons e effects ih =>
    by_cases hk : e.1 = used
    · rw [List.filter_cons_of_neg (by simpa using hk), ih, lookup_cons_ite, hk]
      split <;> rfl
    · rw [List.filter_cons_of_pos (by simpa using hk), lookup_cons_ite, lookup_cons_ite, ih]
      by_cases hkey : key = e.1
      · rw [if_pos hkey, if_neg (by rwa [hkey]), if_pos hkey]
      · rw [if_neg hkey, if_neg hkey]

/-! ## Elementary steps -/

theorem alike_read (count : Layout → Nat) (value : Layout → List UInt8 → α) :
    Matched (Alike T σ₁ σ₂) (onCursor (Cursor.reading count value))
      (onCursor (Cursor.reading count value)) := by
  intro s₁ s₂ h
  by_cases hn : count s₁.cursor.layout ≤ s₁.cursor.rest.length
  · rw [reading_of_le hn, reading_of_le (s := s₂) (by rwa [h.layout, h.rest]), h.layout, h.rest]
    exact .ok
      { h with
        rest := by simp only [Cursor.advance, h.rest]
        addr := by simp only [Cursor.advance, h.addr] }
  · have hlt := Nat.lt_of_not_le hn
    rw [reading_of_lt hlt, reading_of_lt (s := s₂) (by rwa [h.layout, h.rest]), h.addr]
    exact .error h

theorem alike_peek : Matched (Alike T σ₁ σ₂) peek peek := by
  intro s₁ s₂ h
  by_cases hn : s₁.cursor.layout.width.size ≤ s₁.cursor.rest.length
  · rw [peek_of_le hn, peek_of_le (s := s₂) (by rwa [h.layout, h.rest]), h.layout, h.rest]
    exact .ok { h with }
  · have hlt := Nat.lt_of_not_le hn
    rw [peek_of_lt hlt, peek_of_lt (s := s₂) (by rwa [h.layout, h.rest]), h.addr]
    exact .error { h with }

theorem alike_here : Matched (Alike T σ₁ σ₂) here here := by
  intro s₁ s₂ h
  change Agree _ (.ok s₁.cursor.addr s₁) (.ok s₂.cursor.addr s₂)
  rw [h.addr]
  exact .ok h

theorem alike_onStack (m : Action Deferred α) :
    Matched (Alike T σ₁ σ₂) (onStack m) (onStack m) := by
  intro s₁ s₂ h
  simp only [onStack, Action.on, h.stack]
  cases m s₁.stack with
  | ok a d => exact .ok { h with stack := rfl }
  | error fault d => exact .error { h with stack := rfl }

theorem alike_onOutput (m : Action Output α) :
    Matched (Alike T σ₁ σ₂) (onOutput m) (onOutput m) := by
  intro s₁ s₂ h
  simp only [onOutput, Action.on, h.out]
  cases m s₁.out with
  | ok a o => exact .ok { h with out := rfl }
  | error fault o => exact .error { h with out := rfl }

theorem alike_setEffect (key : String) (value : Value) :
    Matched (Alike T σ₁ σ₂) (setEffect key value) (setEffect key value) := by
  intro s₁ s₂ h
  refine .ok { h with effects := fun k => ?_ }
  simp only [lookup_cons_ite, lookup_filter_ne, h.effects k]

theorem alike_takeEffect (key : String) :
    Matched (Alike T σ₁ σ₂) (takeEffect key) (takeEffect key) := by
  intro s₁ s₂ h
  change Agree _ (.ok (s₁.effects.lookup key) _) (.ok (s₂.effects.lookup key) _)
  rw [h.effects key]
  refine .ok { h with effects := fun k => ?_ }
  simp only [lookup_filter_ne, h.effects k]

theorem alike_note (message₁ message₂ : String) :
    Matched (Alike T σ₁ σ₂) (note message₁) (note message₂) :=
  fun _ _ h => .ok { h with }

theorem alike_naming (value : Int) (shown : String) :
    Matched (Alike T σ₁ σ₂) (naming value shown) (naming value shown) := by
  intro s₁ s₂ h
  change Agree _ (onOutput (Output.append (.address value shown (s₁.symbols.label? value))) s₁)
    (onOutput (Output.append (.address value shown (s₂.symbols.label? value))) s₂)
  rw [h.symbols.label value]
  exact alike_onOutput _ s₁ s₂ h

theorem alike_record (target : Int) (kind : RefKind) :
    Matched (Alike T σ₁ σ₂) (record σ₁ target kind) (record σ₂ target kind) :=
  fun _ _ h => .ok { h with symbols := h.symbols.record target kind }

/-- Everything that makes no reference. -/
theorem steady_alike (site : Site) : Steady site (.none = ·) (Alike T σ₁ σ₂) where
  read := alike_read
  peek := alike_peek
  here := alike_here
  stack := alike_onStack
  output := alike_onOutput
  setEffect := alike_setEffect
  takeEffect := alike_takeEffect
  note message := alike_note message message
  naming := alike_naming
  record target kind hk := by
    intro s₁ s₂ h
    have hsame : ∀ s : Decoding, record site target kind s = .ok () s := by
      intro s
      change EStateM.Result.ok () { s with symbols := s.symbols.record target site.address kind } =
        _
      rw [SymbolTable.record_eq_self (.inl hk.symm)]
    rw [hsame, hsame]
    exact .ok h

theorem Composed.alike {m : Decoder α} (h : Composed σ₁ (.none = ·) m) :
    Matched (Alike T σ₁ σ₂) m m :=
  h.matched (steady_alike σ₁)

/-! ## Operands -/

theorem alike_mnemonic (hwidth : σ₂.mnemonicWidth = σ₁.mnemonicWidth) (name : String) :
    Matched (Alike T σ₁ σ₂) (mnemonic σ₁ name) (mnemonic σ₂ name) := by
  have hsame : mnemonic σ₂ name = mnemonic σ₁ name := by simp only [mnemonic, hwidth]
  rw [hsame]
  exact (Composed.mnemonic name).alike

theorem alike_address (kind : RefKind) (value : Int) (format wrap : String) :
    Matched (Alike T σ₁ σ₂) (address σ₁ kind value format wrap)
      (address σ₂ kind value format wrap) := by
  rw [address_eq_naming, address_eq_naming]
  exact (Composed.output _).alike.bind fun _ => (Composed.lift _).alike.bind fun _ =>
    (alike_naming _ _).bind fun _ => (Composed.output _).alike.bind fun _ => alike_record value kind

theorem alike_relative (kind : RefKind) (displacement bits : Nat) (format wrap : String) :
    Matched (Alike T σ₁ σ₂) (Operand.relative σ₁ kind displacement bits format wrap)
      (Operand.relative σ₂ kind displacement bits format wrap) :=
  alike_here.bind fun _ => alike_address kind _ format wrap

theorem alike_absolute (kind : RefKind) (wide : Bool) :
    Matched (Alike T σ₁ σ₂) (ModRM.absolute σ₁ kind wide) (ModRM.absolute σ₂ kind wide) :=
  Composed.readWord.alike.bind fun _ => Composed.segment.alike.bind fun _ =>
    alike_address kind _ _ _

theorem alike_effectiveAddress (kind : RefKind) (wide : Bool) (mod rm : Nat) :
    Matched (Alike T σ₁ σ₂) (ModRM.effectiveAddress σ₁ kind wide mod rm)
      (ModRM.effectiveAddress σ₂ kind wide mod rm) := by
  by_cases habsolute : mod ≠ 3 ∧ mod = 0 ∧ rm = 6
  · obtain ⟨hmod, hzero⟩ := habsolute
    simp only [ModRM.effectiveAddress, if_neg hmod, if_pos hzero]
    exact alike_absolute kind wide
  · -- no other operand in memory refers to its address
    have hsame : ∀ σ : Site, ModRM.effectiveAddress σ kind wide mod rm =
        ModRM.effectiveAddress σ₁ .none wide mod rm := by
      intro σ
      by_cases hmod : mod = 3
      · simp only [ModRM.effectiveAddress, if_pos hmod]
      · simp only [ModRM.effectiveAddress, if_neg hmod, if_neg fun hzero => habsolute ⟨hmod, hzero⟩]
    rw [hsame σ₁, hsame σ₂]
    exact Composed.alike (.effectiveAddress .none rfl wide mod rm)

theorem alike_modrm (kind : RefKind) (opcode : Nat) :
    Matched (Alike T σ₁ σ₂) (ModRM.operands σ₁ kind opcode) (ModRM.operands σ₂ kind opcode) := by
  refine Composed.readByte.alike.bind fun byte => ?_
  have memory : ∀ mod rm, Matched (Alike T σ₁ σ₂)
      (ModRM.effectiveAddress σ₁ kind (ModRM.Form.ofOpcode opcode).wide mod rm)
      (ModRM.effectiveAddress σ₂ kind (ModRM.Form.ofOpcode opcode).wide mod rm) :=
        alike_effectiveAddress kind _
  have register : ∀ n, Matched (Alike T σ₁ σ₂) ((ModRM.Form.ofOpcode opcode).register n)
      ((ModRM.Form.ofOpcode opcode).register n) := fun n => (Composed.write _ _).alike
  have comma : Matched (Alike T σ₁ σ₂) comma comma := (Composed.output _).alike
  split
  · exact memory _ _
  split
  · exact (register _).bind fun _ => comma.bind fun _ => memory _ _
  · exact (memory _ _).bind fun _ => comma.bind fun _ => register _

theorem alike_render (kind : RefKind) (selector : Nat) (o : Operand) :
    Matched (Alike T σ₁ σ₂) (o.render σ₁ kind selector) (o.render σ₂ kind selector) := by
  have silent : ∀ o : Operand, (∀ σ : Site, o.render σ kind selector = o.render σ₁ .none selector) →
      Matched (Alike T σ₁ σ₂) (o.render σ₁ kind selector) (o.render σ₂ kind selector) := by
    intro o hsame
    rw [hsame σ₁, hsame σ₂]
    exact Composed.alike (.render .none rfl selector o)
  induction o with
  | pair first separator second hfirst hsecond =>
    exact hfirst.bind fun _ => (Composed.output _).alike.bind fun _ => hsecond
  | abs8 format wrap => exact Composed.readByte.alike.bind fun _ => alike_address kind _ format wrap
  | abs16 format wrap =>
    exact Composed.readWord.alike.bind fun _ => alike_address kind _ format wrap
  | rel8 format wrap =>
    exact Composed.readByte.alike.bind fun _ => alike_relative kind _ 8 format wrap
  | rel16 format wrap =>
    exact Composed.readWord.alike.bind fun _ => alike_relative kind _ 16 format wrap
  | refer => exact alike_record _ kind
  | direct => exact alike_absolute kind _
  | modrm => exact alike_modrm kind selector
  | none | literal _ | imm8 _ | imm16 _ | deferred _ | opcode _ | unit _ | peek _ | push
    | set _ _ | take _ _
  | field _ _ _ | indexed _ | indexedDeferred _ | skip | farPointer | groupImmediate =>
    exact silent _ fun _ => rfl

end Decoder

/-! ## Rules and tables -/

namespace Walk

open Decoder

variable {T : SymbolTable} {σ₁ σ₂ : Site}

theorem alike_emit (hwidth : σ₂.mnemonicWidth = σ₁.mnemonicWidth) (insn : Insn) (unit : Nat) :
    Matched (Alike T σ₁ σ₂) (emit σ₁ insn unit) (emit σ₂ insn unit) :=
  (alike_mnemonic hwidth _).bind fun _ => (alike_render _ _ _).bind fun _ => .pure _

theorem alike_carryOut (hwidth : σ₂.mnemonicWidth = σ₁.mnemonicWidth) (table : String) (unit : Nat)
    (rule : Option Rule) :
    Matched (Alike T σ₁ σ₂) (carryOut σ₁ table unit rule) (carryOut σ₂ table unit rule) := by
  refine carryOut_induction (P := fun m => Matched (Alike T σ₁ σ₂) (m σ₁) (m σ₂)) rule (.pure _)
    (fun _ _ _ _ => alike_emit hwidth _ _) (fun _ => Composed.fetch.alike.bind fun _ => .pure _)
      (fun _ _ => ?_)
    (fun effect kind _ _ => ?_) .throw
  · exact (Composed.deferFor _ _).alike.bind fun _ => Composed.fetch.alike.bind fun _ => .pure _
  · -- the log names the site
    have heffect : Matched (Alike T σ₁ σ₂) (applyEffect σ₁ effect kind unit)
        (applyEffect σ₂ effect kind unit) :=
      (alike_note _ _).bind fun _ => alike_render _ _ _
    exact heffect.bind fun _ => Composed.fetch.alike.bind fun _ => .pure _

theorem alike_scan (hwidth : σ₂.mnemonicWidth = σ₁.mnemonicWidth) (table : String) (unit : Nat)
    (rules : List Rule) (seen : Option Nat) :
    Matched (Alike T σ₁ σ₂) (scan σ₁ table unit rules seen) (scan σ₂ table unit rules seen) := by
  rw [scan_eq_select, scan_eq_select]
  exact (Composed.selectBy .lookahead unit rules seen).alike.bind fun rule =>
    alike_carryOut hwidth table unit rule

theorem alike_walkUpTo (hwidth : σ₂.mnemonicWidth = σ₁.mnemonicWidth) (arch : Architecture)
    (n : Nat) (table : Table) (unit : Nat) :
    Matched (Alike T σ₁ σ₂) (walkUpTo arch σ₁ n table unit) (walkUpTo arch σ₂ n table unit) := by
  induction n generalizing table unit with
  | zero => exact .throw _
  | succ n ih =>
    refine (alike_scan hwidth _ _ _ _).bind fun next => ?_
    cases next with
    | stop found => exact .pure _
    | goto name further => exact ih _ _
    | again further => exact ih _ _

end Walk

/-! ## Instructions -/

/-- Instructions that read the same, and after which decoding goes on at the same address. -/
structure Instruction.Resembles (i j : Instruction) : Prop where
  text : j.text = i.text
  found : j.found = i.found
  next : j.next = i.next

namespace Decoder

variable {T : SymbolTable} {σ₁ σ₂ : Site}

theorem alike_settle (hwidth : σ₂.mnemonicWidth = σ₁.mnemonicWidth) (found : Bool) :
    Matched (Alike T σ₁ σ₂) (settle σ₁ found) (settle σ₂ found) := by
  cases found with
  | true => exact .pure _
  | false => exact (alike_note _ _).bind fun _ => alike_mnemonic hwidth _

theorem alike_bodyUpTo (hwidth : σ₂.mnemonicWidth = σ₁.mnemonicWidth)
    (arch : Architecture) (n : Nat) :
    Matched (Alike T σ₁ σ₂) (bodyUpTo arch σ₁ n) (bodyUpTo arch σ₂ n) :=
  Composed.fetch.alike.bind fun unit =>
    (Walk.alike_walkUpTo hwidth arch n arch.root unit).bind fun found =>
    (alike_settle hwidth found).bind fun _ => .pure _

/-- What decoding an instruction comes to at two sites. Only a deferred unit that is left over can
tell them apart, by the address in its fault. -/
inductive Coincide (T : SymbolTable) (σ₁ σ₂ : Site) : EStateM.Result Fault Decoding Instruction →
    EStateM.Result Fault Decoding Instruction → Prop
  | ok {i j : Instruction} {t₁ t₂ : Decoding} (h : i.Resembles j) (ht : Alike T σ₁ σ₂ t₁ t₂) :
      Coincide T σ₁ σ₂ (.ok i t₁) (.ok j t₂)
  | error {fault : Fault} {t₁ t₂ : Decoding} (ht : Alike T σ₁ σ₂ t₁ t₂) :
      Coincide T σ₁ σ₂ (.error fault t₁) (.error fault t₂)
  | unconsumed {n : Nat} {t₁ t₂ : Decoding} (ht : Alike T σ₁ σ₂ t₁ t₂) :
      Coincide T σ₁ σ₂ (.error (.unconsumed n σ₁.address) t₁) (.error (.unconsumed n σ₂.address) t₂)

theorem coincide_conclude (balance found : Bool) {s₁ s₂ : Decoding} (h : Alike T σ₁ σ₂ s₁ s₂) :
    Coincide T σ₁ σ₂ (conclude balance σ₁ found s₁) (conclude balance σ₂ found s₂) := by
  unfold conclude
  rw [h.stack]
  split
  · exact .unconsumed h
  · exact .ok ⟨by rw [h.out], rfl, h.addr⟩ h

theorem coincide_instruction (hwidth : σ₂.mnemonicWidth = σ₁.mnemonicWidth) (arch : Architecture)
    (balance : Bool) {s₁ s₂ : Decoding} (h : Alike T σ₁ σ₂ s₁ s₂) :
    Coincide T σ₁ σ₂ (instruction arch balance σ₁ s₁) (instruction arch balance σ₂ s₂) := by
  let n := s₁.cursor.rest.length + 1
  have hbody := alike_bodyUpTo hwidth arch n s₁ s₂ h
  rw [instruction_eq_bodyUpTo balance (n := n) (Nat.lt_succ_self _),
    instruction_eq_bodyUpTo balance (n := n) (by rw [h.rest]; exact Nat.lt_succ_self _)]
  generalize h₁ : bodyUpTo arch σ₁ n s₁ = r₁ at hbody
  generalize h₂ : bodyUpTo arch σ₂ n s₂ = r₂ at hbody
  cases hbody with
  | ok ht =>
    rw [Action.bind_of_ok _ h₁, Action.bind_of_ok _ h₂]
    exact coincide_conclude balance _ ht
  | error ht =>
    rw [Action.bind_of_error _ h₁, Action.bind_of_error _ h₂]
    exact .error ht

end Decoder

/-- Decoding at two cursors, unless a deferred unit is left over: instructions that read the same,
or the same fault, and the same references. -/
theorem decode_coincide {arch : Architecture} {balance : Bool} {c d : Cursor}
    {symbols : SymbolTable} (h : Decoder.Coincide symbols (arch.site c) (arch.site d)
      (Decoder.instruction arch balance (arch.site c) (.start c symbols))
      (Decoder.instruction arch balance (arch.site d) (.start d symbols)))
    (hused : ∀ n address, (decode arch balance c symbols).result ≠ .error (.unconsumed n address)) :
    ((∃ i j, (decode arch balance c symbols).result = .ok i ∧
      (decode arch balance d symbols).result = .ok j ∧
        i.Resembles j) ∨
      ∃ fault, (decode arch balance c symbols).result = .error fault ∧
        (decode arch balance d symbols).result = .error fault) ∧
    symbols.Parallel c.addr d.addr (decode arch balance c symbols).symbols
      (decode arch balance d symbols).symbols := by
  unfold decode at hused ⊢
  generalize Decoder.instruction arch balance (arch.site c) (.start c symbols) = r at h hused
  generalize Decoder.instruction arch balance (arch.site d) (.start d symbols) = q at h
  cases h with
  | ok hij ht => exact ⟨.inl ⟨_, _, rfl, rfl, hij⟩, ht.symbols⟩
  | error ht => exact ⟨.inr ⟨_, rfl, rfl⟩, ht.symbols⟩
  | unconsumed ht => exact absurd rfl (hused _ _)

end Disassembler
