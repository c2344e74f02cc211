import Disassembler.Proofs.Decoder.References

/-!
Labels show in the text of an instruction and nowhere else. Two runs of the decoder on the same
input, against tables with the same range but with labels and references of their own, read the same
bytes, take the same rules and append the same references in the same order.
-/

namespace Disassembler.Decoder

/-- Two states in which decoding against `T₁` and against `T₂` has got to the same point. What was
written may differ if the labels do. -/
structure Abreast (T₁ T₂ : SymbolTable) (s₁ s₂ : Decoding) : Prop where
  cursor : s₁.cursor = s₂.cursor
  stack : s₁.stack = s₂.stack
  effects : s₁.effects = s₂.effects
  symbols : ∃ ms, s₁.symbols = T₁.appendAll ms ∧ s₂.symbols = T₂.appendAll ms
  out : (∀ a, T₁.label? a = T₂.label? a) → s₁.out = s₂.out

/-- Where two runs of an action from states abreast both succeed, they give the same and end
abreast. -/
def Lockstep {α : Type} (T₁ T₂ : SymbolTable) (m : Decoder α) : Prop :=
  ∀ s₁ s₂ a₁ a₂ t₁ t₂, Abreast T₁ T₂ s₁ s₂ → m s₁ = .ok a₁ t₁ → m s₂ = .ok a₂ t₂ →
    a₁ = a₂ ∧ Abreast T₁ T₂ t₁ t₂

variable {α β : Type} {T₁ T₂ : SymbolTable} {site : Site} {kinds : RefKind → Prop}

namespace Lockstep

theorem pure (a : α) : Lockstep T₁ T₂ (pure a) := by
  intro s₁ s₂ a₁ a₂ t₁ t₂ h h₁ h₂
  cases h₁
  cases h₂
  exact ⟨rfl, h⟩

theorem throw (fault : Fault) : Lockstep T₁ T₂ (throw fault : Decoder α) := by
  intro s₁ s₂ a₁ a₂ t₁ t₂ _ h₁ _
  cases h₁

theorem chain {m : Decoder α} {f : α → Decoder β} (hm : Lockstep T₁ T₂ m)
    (hf : ∀ s a t, m s = .ok a t → Lockstep T₁ T₂ (f a)) : Lockstep T₁ T₂ (m >>= f) := by
  intro s₁ s₂ b₁ b₂ t₁ t₂ h h₁ h₂
  obtain ⟨a₁, u₁, hm₁, hf₁⟩ := Action.bind_eq_ok h₁
  obtain ⟨a₂, u₂, hm₂, hf₂⟩ := Action.bind_eq_ok h₂
  obtain ⟨rfl, hu⟩ := hm s₁ s₂ a₁ a₂ u₁ u₂ h hm₁ hm₂
  exact hf s₁ a₁ u₁ hm₁ u₁ u₂ b₁ b₂ t₁ t₂ hu hf₁ hf₂

/-- The cursors are the same, and so is what is read. -/
theorem onCursor (m : Action Cursor α) : Lockstep T₁ T₂ (onCursor m) := by
  intro s₁ s₂ a₁ a₂ t₁ t₂ h h₁ h₂
  simp only [Decoder.onCursor, Action.on, ← h.cursor] at h₁ h₂
  cases hm : m s₁.cursor with
  | error e c => rw [hm] at h₁; cases h₁
  | ok a c =>
    rw [hm] at h₁ h₂
    cases h₁
    cases h₂
    exact ⟨rfl, rfl, h.stack, h.effects, h.symbols, h.out⟩

theorem onStack (m : Action Deferred α) : Lockstep T₁ T₂ (onStack m) := by
  intro s₁ s₂ a₁ a₂ t₁ t₂ h h₁ h₂
  simp only [Decoder.onStack, Action.on, ← h.stack] at h₁ h₂
  cases hm : m s₁.stack with
  | error e d => rw [hm] at h₁; cases h₁
  | ok a d =>
    rw [hm] at h₁ h₂
    cases h₁
    cases h₂
    exact ⟨rfl, h.cursor, rfl, h.effects, h.symbols, h.out⟩

/-- Different tokens may be written, but not if the labels are the same. -/
theorem onOutput {m₁ m₂ : Action Output Unit} {s₁ s₂ t₁ t₂ : Decoding} {a₁ a₂ : Unit}
    (hm : (∀ a, T₁.label? a = T₂.label? a) → m₁ = m₂) (h : Abreast T₁ T₂ s₁ s₂)
    (h₁ : onOutput m₁ s₁ = .ok a₁ t₁) (h₂ : onOutput m₂ s₂ = .ok a₂ t₂) :
    a₁ = a₂ ∧ Abreast T₁ T₂ t₁ t₂ := by
  simp only [Decoder.onOutput, Action.on] at h₁ h₂
  cases ho₁ : m₁ s₁.out with
  | error e o => rw [ho₁] at h₁; cases h₁
  | ok _ o₁ =>
    cases ho₂ : m₂ s₂.out with
    | error e o => rw [ho₂] at h₂; cases h₂
    | ok _ o₂ =>
      rw [ho₁] at h₁
      rw [ho₂] at h₂
      cases h₁
      cases h₂
      refine ⟨rfl, h.cursor, h.stack, h.effects, h.symbols, fun hl => ?_⟩
      rw [hm hl, h.out hl, ho₂] at ho₁
      cases ho₁
      rfl

/-- Only the label of the address is looked at, and references do not change labels. -/
theorem naming (hT₁ : T₁.Ordered) (hT₂ : T₂.Ordered) (value : Int) (shown : String) :
    Lockstep T₁ T₂ (naming value shown) := by
  intro s₁ s₂ a₁ a₂ t₁ t₂ h h₁ h₂
  obtain ⟨ms, e₁, e₂⟩ := h.symbols
  refine onOutput (fun hl => ?_) h h₁ h₂
  simp only [e₁, e₂, SymbolTable.label?_appendAll hT₁, SymbolTable.label?_appendAll hT₂, hl value]

/-- Whether a reference is appended depends on its kind and on the range. -/
theorem record (hr : ∀ a, T₁.inRange a = T₂.inRange a) (target : Int) (kind : RefKind) :
    Lockstep T₁ T₂ (record site target kind) := by
  intro s₁ s₂ a₁ a₂ t₁ t₂ h h₁ h₂
  cases h₁
  cases h₂
  refine ⟨rfl, h.cursor, h.stack, h.effects, ?_, h.out⟩
  obtain ⟨ms, e₁, e₂⟩ := h.symbols
  simp only [e₁, e₂]
  by_cases hskip : kind = .none ∨ T₁.inRange target = false
  · refine ⟨ms, SymbolTable.record_eq_self ?_, SymbolTable.record_eq_self ?_⟩
    · rwa [SymbolTable.inRange_appendAll]
    · rwa [SymbolTable.inRange_appendAll, ← hr]
  · rw [not_or, Bool.not_eq_false] at hskip
    obtain ⟨hk, ht⟩ := hskip
    refine ⟨ms ++ [⟨target, site.address, kind⟩], ?_, ?_⟩
    · rw [SymbolTable.record_eq_append hk (by rwa [SymbolTable.inRange_appendAll])]
      simp [SymbolTable.appendAll]
    · rw [SymbolTable.record_eq_append hk (by rwa [SymbolTable.inRange_appendAll, ← hr])]
      simp [SymbolTable.appendAll]

end Lockstep

/-- Everything composed of elementary steps runs in lockstep. -/
theorem Composed.lockstep (hr : ∀ a, T₁.inRange a = T₂.inRange a) (hT₁ : T₁.Ordered)
    (hT₂ : T₂.Ordered) {m : Decoder α} (h : Composed site kinds m) : Lockstep T₁ T₂ m := by
  induction h with
  | pure a => exact .pure a
  | throw fault => exact .throw fault
  | chain _ _ ihm ihf => exact .chain ihm ihf
  | read count value => exact .onCursor _
  | peek =>
    intro s₁ s₂ a₁ a₂ t₁ t₂ hs h₁ h₂
    exact Lockstep.onCursor Cursor.peek { s₁ with peeks := s₁.peeks + 1 }
      { s₂ with peeks := s₂.peeks + 1 }
      a₁ a₂ t₁ t₂ ⟨hs.cursor, hs.stack, hs.effects, hs.symbols, hs.out⟩ h₁ h₂
  | here =>
    intro s₁ s₂ a₁ a₂ t₁ t₂ hs h₁ h₂
    cases h₁
    cases h₂
    exact ⟨congrArg Cursor.addr hs.cursor, hs⟩
  | stack m => exact .onStack m
  | output m => exact fun s₁ s₂ a₁ a₂ t₁ t₂ => Lockstep.onOutput fun _ => rfl
  | setEffect key value =>
    intro s₁ s₂ a₁ a₂ t₁ t₂ hs h₁ h₂
    cases h₁
    cases h₂
    exact ⟨rfl, hs.cursor, hs.stack, by simp only [hs.effects], hs.symbols, hs.out⟩
  | takeEffect key =>
    intro s₁ s₂ a₁ a₂ t₁ t₂ hs h₁ h₂
    cases h₁
    cases h₂
    exact ⟨by rw [hs.effects], hs.cursor, hs.stack, by simp only [hs.effects], hs.symbols, hs.out⟩
  | note message =>
    intro s₁ s₂ a₁ a₂ t₁ t₂ hs h₁ h₂
    cases h₁
    cases h₂
    exact ⟨rfl, hs.cursor, hs.stack, hs.effects, hs.symbols, hs.out⟩
  | naming value shown => exact .naming hT₁ hT₂ value shown
  | record target kind _ => exact .record hr target kind

theorem abreast_start (cursor : Cursor) (T₁ T₂ : SymbolTable) :
    Abreast T₁ T₂ (.start cursor T₁) (.start cursor T₂) :=
  ⟨rfl, rfl, rfl, ⟨[], rfl, rfl⟩, fun _ => rfl⟩

end Disassembler.Decoder

namespace Disassembler

/-- A decoded instruction is what the body of decoding leaves, concluded. -/
theorem decode_eq_ok {arch : Architecture} {balance : Bool} {cursor : Cursor}
    {symbols : SymbolTable} {i : Instruction}
    (h : (decode arch balance cursor symbols).result = .ok i) :
    ∃ found s, Decoder.bodyUpTo arch (arch.site cursor) (cursor.rest.length + 1)
      (.start cursor symbols) =
        .ok found s ∧
      (decode arch balance cursor symbols).symbols = s.symbols ∧
      i = ⟨Text.trimEnd s.out.toString, cursor.addr, s.cursor.addr, s.cursor.captured, found⟩ := by
  have heq : Decoder.instruction arch balance (arch.site cursor) (.start cursor symbols) = _ :=
    Decoder.instruction_eq_bodyUpTo balance (Nat.lt_succ_self cursor.rest.length)
  unfold decode at h ⊢
  cases hi : Decoder.instruction arch balance (arch.site cursor) (.start cursor symbols) with
  | error e t => rw [hi] at h; cases h
  | ok j t =>
    rw [hi] at h
    obtain ⟨found, s, hb, hc⟩ := Action.bind_eq_ok (heq.symm.trans hi)
    obtain ⟨rfl, hj⟩ := Decoder.conclude_eq_ok hc
    cases h
    exact ⟨found, t, hb, rfl, hj⟩

/-- Labels do not change what is decoded: against two tables with the same range the same bytes are
read with the same finding, and the same references are appended in the same order. If the tables
agree on labels the texts are the same as well. -/
theorem decode_noninterference (arch : Architecture) (balance : Bool) (cursor : Cursor)
    (T₁ T₂ : SymbolTable) (hlow : T₁.low = T₂.low) (hhigh : T₁.high = T₂.high)
    (hT₁ : T₁.Ordered) (hT₂ : T₂.Ordered) (i₁ i₂ : Instruction)
    (h₁ : (decode arch balance cursor T₁).result = .ok i₁)
    (h₂ : (decode arch balance cursor T₂).result = .ok i₂) :
    (i₁.found = i₂.found ∧ i₁.raw = i₂.raw ∧ i₁.address = i₂.address ∧ i₁.next = i₂.next) ∧
    (∃ ms : List Mention,
      (decode arch balance cursor T₁).symbols = T₁.appendAll ms ∧
      (decode arch balance cursor T₂).symbols = T₂.appendAll ms ∧
      ∀ a, (decode arch balance cursor T₁).symbols.references a = T₁.references a ++
        Mention.refsTo a ms ∧
        (decode arch balance cursor T₂).symbols.references a = T₂.references a ++
          Mention.refsTo a ms) ∧
    ((∀ a, T₁.label? a = T₂.label? a) → i₁ = i₂) := by
  have hrange : ∀ a, T₁.inRange a = T₂.inRange a := by
    intro a
    simp only [SymbolTable.inRange, hlow, hhigh]
  have hlock :=
    (Decoder.composed_bodyUpTo arch (arch.site cursor) (cursor.rest.length + 1)).lockstep
    hrange hT₁ hT₂
  obtain ⟨found₁, s₁, hb₁, hs₁, rfl⟩ := decode_eq_ok h₁
  obtain ⟨found₂, s₂, hb₂, hs₂, rfl⟩ := decode_eq_ok h₂
  obtain ⟨rfl, habreast⟩ := hlock _ _ _ _ _ _ (Decoder.abreast_start cursor T₁ T₂) hb₁ hb₂
  obtain ⟨ms, e₁, e₂⟩ := habreast.symbols
  refine ⟨⟨rfl, ?_, rfl, ?_⟩, ⟨ms, hs₁.trans e₁, hs₂.trans e₂, fun a => ⟨?_, ?_⟩⟩, fun hl => ?_⟩
  · simp only [habreast.cursor]
  · simp only [habreast.cursor]
  · rw [hs₁, e₁, SymbolTable.references_appendAll hT₁]
  · rw [hs₂, e₂, SymbolTable.references_appendAll hT₂]
  · simp only [habreast.cursor, habreast.out hl]

/-- A load behind a segment override, once with a label on its address and once without. -/
theorem decode_noninterference_override :
    ∃ cursor T₁ T₂ i₁ i₂, T₁.Ordered ∧ T₂.Ordered ∧ T₁.label? 0x1234 ≠ T₂.label? 0x1234 ∧
      (decode I8086.arch true cursor T₁).result = .ok i₁ ∧
      (decode I8086.arch true cursor T₂).result = .ok i₂ ∧
      i₁.text = "MOV     AX, CS:W[COUNT]" ∧ i₂.text = "MOV     AX, CS:W[01234]" ∧
      i₁.raw = i₂.raw ∧ i₁.next = i₂.next := by
  let cursor := Cursor.start ⟨.byte, .little, 6⟩ [0x2E, 0xA1, 0x34, 0x12] 0x100
  let T₁ : SymbolTable := { entries := [{ address := 0x1234, label := some "COUNT" }] }
  let T₂ : SymbolTable := { entries := [{ address := 0x1234, refs := [⟨0x80, .jump⟩] }] }
  have h₁ : (decode I8086.arch true cursor T₁).result =
      .ok ⟨"MOV     AX, CS:W[COUNT]", 0x100, 0x104, [0x2E, 0xA1, 0x34, 0x12], true⟩ := by
        decide +kernel
  have h₂ : (decode I8086.arch true cursor T₂).result =
      .ok ⟨"MOV     AX, CS:W[01234]", 0x100, 0x104, [0x2E, 0xA1, 0x34, 0x12], true⟩ := by
        decide +kernel
  have h :=
    decode_noninterference I8086.arch true cursor T₁ T₂ rfl rfl (by decide) (by decide) _ _ h₁ h₂
  exact ⟨cursor, T₁, T₂, _, _, by decide, by decide, by decide, h₁, h₂, rfl, rfl,
    h.1.2.1, h.1.2.2.2⟩

end Disassembler
