import Disassembler.Arch.I8086
import Disassembler.Proofs.Decoder.Composed
import Disassembler.Proofs.Symbol.Append
import Mathlib.Control.Monad.Basic

/-!
What decoding does to the symbol table: it appends references, all from the address of the
instruction, and leaves labels, marks and range alone. This holds at every point where decoding can
fail, too.
-/

namespace Disassembler

namespace SymbolTable

/-- A reference that may be added to a table: it comes from `source`, has a kind, one of `kinds`,
and leads to an address in range. -/
structure Admits (t : SymbolTable) (source : Int) (kinds : RefKind → Prop)
    (m : Mention) : Prop where
  source : m.ref.source = source
  kind : m.ref.kind ≠ .none
  known : kinds m.ref.kind
  target : t.inRange m.target = true

def Grows (source : Int) (kinds : RefKind → Prop) (before after : SymbolTable) : Prop :=
  ∃ ms, (∀ m ∈ ms, before.Admits source kinds m) ∧ after = before.appendAll ms

variable {source : Int} {kinds : RefKind → Prop} {t u v : SymbolTable}

theorem Grows.refl (t : SymbolTable) : Grows source kinds t t := ⟨[], by simp, rfl⟩

theorem Grows.trans (h₁ : Grows source kinds t u) (h₂ : Grows source kinds u v) :
    Grows source kinds t v := by
  obtain ⟨ms, hms, rfl⟩ := h₁
  obtain ⟨ns, hns, rfl⟩ := h₂
  refine ⟨ms ++ ns, fun m hm => ?_, by simp [appendAll]⟩
  rcases List.mem_append.mp hm with hm | hm
  · exact hms m hm
  · obtain ⟨hs, hk, hn, ht⟩ := hns m hm
    rw [inRange_appendAll] at ht
    exact ⟨hs, hk, hn, ht⟩

theorem grows_record (target : Int) {kind : RefKind} (hk : kinds kind) :
    Grows source kinds t (t.record target source kind) := by
  by_cases hn : kind = .none
  · rw [record_eq_self (.inl hn)]
    exact .refl t
  cases hr : t.inRange target with
  | false =>
    rw [record_eq_self (.inr hr)]
    exact .refl t
  | true =>
    rw [record_eq_append hn hr]
    refine ⟨[⟨target, source, kind⟩], fun m hm => ?_, rfl⟩
    rw [List.mem_singleton.mp hm]
    exact ⟨rfl, hn, hk, hr⟩

end SymbolTable

namespace Decoder

open SymbolTable (Grows)

variable {α : Type} {site : Site} {kinds : RefKind → Prop}

/-- Whether an action succeeds or fails, the table it leaves has grown by references from the
site. -/
theorem Composed.grows {m : Decoder α} (h : Composed site kinds m) (s : Decoding) :
    Grows site.address kinds s.symbols (Action.outcome (m s)).2.symbols := by
  induction h generalizing s with
  | pure a => exact .refl _
  | throw fault => exact .refl _
  | @chain _ _ m f _ _ ihm ihf =>
    have hm := ihm s
    cases hms : m s with
    | error e t =>
      rw [Action.bind_of_error _ hms]
      rwa [hms] at hm
    | ok a t =>
      rw [Action.bind_of_ok _ hms]
      rw [hms] at hm
      exact hm.trans (ihf s a t hms t)
  | read count value =>
    simp only [onCursor, Action.on]
    split <;> exact .refl _
  | peek =>
    change Grows _ _ _
      (Action.outcome (onCursor Cursor.peek { s with peeks := s.peeks + 1 })).2.symbols
    simp only [onCursor, Action.on]
    split <;> exact .refl _
  | here => exact .refl _
  | stack m =>
    simp only [onStack, Action.on]
    split <;> exact .refl _
  | output m =>
    simp only [onOutput, Action.on]
    split <;> exact .refl _
  | setEffect key value => exact .refl _
  | takeEffect key => exact .refl _
  | note message => exact .refl _
  | naming value shown =>
    change Grows _ _ _ (Action.outcome (onOutput _ s)).2.symbols
    simp only [onOutput, Action.on]
    split <;> exact .refl _
  | record target kind hk => exact SymbolTable.grows_record target hk

theorem conclude_state (balance : Bool) (site : Site) (found : Bool) (s : Decoding) :
    (Action.outcome (conclude balance site found s)).2 = s := by
  unfold conclude
  split <;> rfl

theorem instruction_grows (arch : Architecture) (balance : Bool) (site : Site) (s : Decoding) :
    Grows site.address arch.Mentions s.symbols
      (Action.outcome (instruction arch balance site s)).2.symbols := by
  have hbody := (composed_bodyUpTo arch site (s.cursor.rest.length + 1)).grows s
  rw [instruction_eq_bodyUpTo balance (Nat.lt_succ_self _)]
  cases hb : bodyUpTo arch site (s.cursor.rest.length + 1) s with
  | error e t =>
    rw [Action.bind_of_error _ hb]
    rwa [hb] at hbody
  | ok found t =>
    rw [Action.bind_of_ok _ hb, conclude_state]
    rwa [hb] at hbody

end Decoder

theorem decode_grows (arch : Architecture) (balance : Bool) (cursor : Cursor)
    (symbols : SymbolTable) :
    SymbolTable.Grows cursor.addr arch.Mentions symbols
      (decode arch balance cursor symbols).symbols := by
  have h := Decoder.instruction_grows arch balance (arch.site cursor) (.start cursor symbols)
  unfold decode
  cases hi : Decoder.instruction arch balance (arch.site cursor) (.start cursor symbols) with
  | error e t => rwa [hi] at h
  | ok i t => rwa [hi] at h

/-! ## What stays and what is new -/

namespace SymbolTable

/-- `after` differs from `before` by references only: they come from `source`, each has a kind that
a rule of the machine makes, and they lead to addresses in range. -/
structure AppendsOnly (arch : Architecture) (source : Int) (before after : SymbolTable) : Prop where
  ordered : after.Ordered
  low : after.low = before.low
  high : after.high = before.high
  label : ∀ a, after.label? a = before.label? a
  /-- an entry keeps its label and its mark, and further references stand behind those it had -/
  present : ∀ a e, before.get? a = some e → ∃ new,
    after.get? a = some { e with refs := e.refs ++ new } ∧
      ∀ r ∈ new, r.source = source ∧ r.kind ≠ .none ∧ arch.Mentions r.kind ∧ before.inRange a = true
  /-- an entry is made for a reference only, and has no label -/
  absent : ∀ a, before.get? a = none → after.get? a = none ∨ ∃ new,
    new ≠ [] ∧ after.get? a = some { address := a, label := none, auto := false, refs := new } ∧
      ∀ r ∈ new, r.source = source ∧ r.kind ≠ .none ∧ arch.Mentions r.kind ∧ before.inRange a = true

theorem Grows.refsTo {source : Int} {kinds : RefKind → Prop} {t : SymbolTable} {ms : List Mention}
    (h : ∀ m ∈ ms, t.Admits source kinds m) (a : Int) :
    ∀ r ∈ Mention.refsTo a ms, r.source = source ∧ r.kind ≠ .none ∧ kinds r.kind ∧
      t.inRange a = true := by
  intro r hr
  obtain ⟨m, hm, rfl⟩ := List.mem_map.mp hr
  obtain ⟨hmem, ha⟩ := List.mem_filter.mp hm
  obtain ⟨hs, hk, hn, ht⟩ := h m hmem
  rw [of_decide_eq_true ha] at ht
  exact ⟨hs, hk, hn, ht⟩

theorem Grows.appendsOnly {arch : Architecture} {source : Int} {before after : SymbolTable}
    (hordered : before.Ordered) (h : Grows source arch.Mentions before after) :
    AppendsOnly arch source before after := by
  obtain ⟨ms, hms, rfl⟩ := h
  refine ⟨ordered_appendAll hordered ms, low_appendAll ms, high_appendAll ms,
    label?_appendAll hordered ms, ?_, ?_⟩
  · intro a e he
    refine ⟨Mention.refsTo a ms, ?_, Grows.refsTo hms a⟩
    rw [get?_appendAll hordered, he]
    rfl
  · intro a ha
    rw [get?_appendAll hordered, ha]
    by_cases hn : Mention.refsTo a ms = []
    · exact .inl (if_pos hn)
    · exact .inr ⟨Mention.refsTo a ms, hn, if_neg hn, Grows.refsTo hms a⟩

end SymbolTable

/-- Decoding an instruction, whether or not it succeeds, only appends references to the symbol
table. -/
theorem decode_appendsOnly (arch : Architecture) (balance : Bool) (cursor : Cursor)
    (symbols : SymbolTable) (h : symbols.Ordered) :
    symbols.AppendsOnly arch cursor.addr (decode arch balance cursor symbols).symbols :=
  (decode_grows arch balance cursor symbols).appendsOnly h

/-- A store whose immediate operand is cut off: by then the reference to its address has been
appended. -/
theorem decode_appendsOnly_truncated :
    let symbols : SymbolTable :=
      { entries := [{ address := 0x1234, label := some "COUNT", refs := [⟨0x80, .call⟩] }] }
    let cursor := Cursor.start ⟨.byte, .little, 6⟩ [0xC6, 0x06, 0x34, 0x12] 0x100
    let d := decode I8086.arch true cursor symbols
    symbols.Ordered ∧ d.result = .error (.endOfInput (some 0x104)) ∧
      d.symbols.references 0x1234 = [⟨0x80, .call⟩, ⟨0x100, .data⟩] ∧
      symbols.AppendsOnly I8086.arch 0x100 d.symbols := by
  intro symbols cursor d
  have hordered : symbols.Ordered := by decide
  exact ⟨hordered, by decide +kernel, by decide +kernel,
    decode_appendsOnly I8086.arch true cursor symbols hordered⟩

end Disassembler
