import Disassembler.Proofs.Arch.Bounds
import Disassembler.Proofs.Decoder.Sites
import Mathlib.Data.List.Induction

/-!
A prefix leaves an effect under a key, in place of the one that was there, and the walk starts
again. Of the prefixes in front of an instruction only the last one under each key counts. On the
8086 these are the last repetition and the last segment override: an instruction behind any number
of prefixes is the one behind these two.
-/

namespace Disassembler

/-! ## The last of several bytes -/

section

variable {p : List UInt8}

theorem findRev?_singleton (q : UInt8 → Bool) (byte : UInt8) :
    [byte].findRev? q = if q byte then some byte else none := by
  rw [List.findRev?_eq_find?_reverse, List.reverse_singleton, List.find?_singleton]

theorem findRev?_append (q : UInt8 → Bool) (l m : List UInt8) :
    (l ++ m).findRev? q = (m.findRev? q).or (l.findRev? q) := by
  simp only [List.findRev?_eq_find?_reverse, List.reverse_append, List.find?_append]

theorem findRev?_congr {q r : UInt8 → Bool} (h : ∀ byte ∈ p, q byte = r byte) :
    p.findRev? q = p.findRev? r := by
  rw [List.findRev?_eq_find?_reverse, List.findRev?_eq_find?_reverse, ← List.getLast?_filter,
    ← List.getLast?_filter, List.filter_congr h]

theorem mem_of_findRev? {q : List UInt8} {x : UInt8}
    (h : p.findRev? q.contains = some x) : x ∈ q := by
  rw [List.findRev?_eq_find?_reverse] at h
  exact List.contains_iff_mem.mp (List.find?_some h)

theorem findRev?_last_self (q p : List UInt8) :
    (p.findRev? q.contains).toList.findRev? q.contains = p.findRev? q.contains := by
  cases h : p.findRev? q.contains with
  | none => rfl
  | some x =>
    have hx : q.contains x = true := List.contains_iff_mem.mpr (mem_of_findRev? h)
    exact (findRev?_singleton q.contains x).trans (if_pos hx)

theorem findRev?_last_of_disjoint {q r : List UInt8} (hdisjoint : ∀ x ∈ q, x ∉ r) (p : List UInt8) :
    (p.findRev? q.contains).toList.findRev? r.contains = none := by
  cases h : p.findRev? q.contains with
  | none => rfl
  | some x =>
    have hx : ¬ r.contains x = true := fun hx =>
      hdisjoint x (mem_of_findRev? h) (List.contains_iff_mem.mp hx)
    exact (findRev?_singleton r.contains x).trans (if_neg hx)

end

/-! ## What a prefix does -/

def Rule.effect? : Rule → Option (String × Value)
  | lead (.set key value) _ _ => some (key, value)
  | _ => none

namespace Architecture

def effect? (arch : Architecture) (byte : UInt8) : Option (String × Value) :=
  (arch.root.rules.find? (·.accepts byte.toNat)).bind Rule.effect?

def sets (arch : Architecture) (key : String) (byte : UInt8) : Bool :=
  (arch.effect? byte).map (·.1) = some key

end Architecture

theorem Rule.eq_lead {rule : Rule} {e : String × Value} (h : rule.effect? = some e) :
    ∃ kind opcode, rule = .lead (.set e.1 e.2) kind opcode := by
  unfold effect? at h
  split at h
  · cases h
    exact ⟨_, _, rfl⟩
  · cases h

namespace Walk

open Decoder

variable {site : Site} {table : Table} {unit : Nat}

/-- The first rule that accepts the unit is a prefix. -/
theorem scan_lead {name : String} {rules : List Rule} {seen : Option Nat} {effect : Operand}
    {kind : RefKind} {opcode : Int}
    (h : rules.find? (·.accepts unit) = some (.lead effect kind opcode)) :
    scan site name unit rules seen = (do
      applyEffect site effect kind unit
      return .again (← fetch)) := by
  induction rules with
  | nil => cases h
  | cons rule rules ih =>
    rw [List.find?_cons] at h
    unfold scan
    cases ha : rule.accepts unit with
    | true =>
      rw [ha] at h
      cases h
      rfl
    | false =>
      rw [ha] at h
      exact ih h

theorem walk_lead (arch : Architecture) (site : Site) {key : String} {value : Value}
    {kind : RefKind} {opcode : Int}
    (h : table.rules.find? (·.accepts unit) = some (.lead (.set key value) kind opcode))
    (s : Decoding) :
    ∃ log, walk arch site table unit s = (fetch >>= walk arch site table)
      { s with effects := (key, value) :: s.effects.filter (·.1 ≠ key), log } := by
  rw [walk_eq_bind, scan_lead h]
  simp only [bind_assoc, pure_bind]
  exact ⟨_, Action.bind_of_ok _ rfl⟩

end Walk

namespace Decoder

variable {arch : Architecture} {balance : Bool} {site : Site} {s : Decoding} {byte : UInt8}
    {bytes : List UInt8}

/-- A prefix in front of an instruction. -/
theorem instruction_lead {e : String × Value} (hwidth : s.cursor.layout.width = .byte)
    (hrest : s.cursor.rest = byte :: bytes) (heffect : arch.effect? byte = some e) :
    ∃ log, instruction arch balance site s = instruction arch balance site
      { s with
        cursor := s.cursor.advance 1
        effects := e :: s.effects.filter (·.1 ≠ e.1)
        log } := by
  obtain ⟨rule, hfind, hrule⟩ := Option.bind_eq_some_iff.mp heffect
  obtain ⟨kind, opcode, rfl⟩ := Rule.eq_lead hrule
  obtain ⟨log, hwalk⟩ := Walk.walk_lead arch site hfind { s with cursor := s.cursor.advance 1 }
  refine ⟨log, ?_⟩
  unfold instruction
  rw [Action.bind_of_ok _ (fetch_byte hwidth hrest), Action.bind_congr _ hwalk, bind_assoc]

/-- Behind the prefixes `p` of a state: they have been read, and under each key the last of them has
left its effect. -/
structure Past (arch : Architecture) (p bytes : List UInt8) (s t : Decoding) : Prop where
  layout : t.cursor.layout = s.cursor.layout
  rest : t.cursor.rest = bytes
  addr : t.cursor.addr = s.cursor.addr + p.length
  out : t.out = s.out
  stack : t.stack = s.stack
  symbols : t.symbols = s.symbols
  effects : ∀ key, t.effects.lookup key = ((p.findRev? (arch.sets key)).bind arch.effect?).map (·.2)

theorem Past.lead {p : List UInt8} {t : Decoding} {e : String × Value}
    (h : Past arch p (byte :: bytes) s t) (heffect : arch.effect? byte = some e)
    (log : List Event) :
    Past arch (p ++ [byte]) bytes s
      { t with
        cursor := t.cursor.advance 1
        effects := e :: t.effects.filter (·.1 ≠ e.1)
        log } where
  layout := h.layout
  rest := by simp only [Cursor.advance, h.rest, List.drop_succ_cons, List.drop_zero]
  addr := by
    simp only [Cursor.advance, h.addr, List.length_append, List.length_singleton]
    omega
  out := h.out
  stack := h.stack
  symbols := h.symbols
  effects key := by
    have hsets : arch.sets key byte = decide (key = e.1) := by
      simp only [Architecture.sets, heffect, Option.map_some, Option.some.injEq, eq_comm]
    rw [lookup_cons_ite, lookup_filter_ne, findRev?_append, findRev?_singleton, hsets,
      h.effects key]
    by_cases hkey : key = e.1
    · rw [if_pos hkey, if_pos (decide_eq_true hkey), Option.some_or, Option.bind_some, heffect]
      rfl
    · rw [if_neg hkey, if_neg hkey, if_neg (by simpa using hkey), Option.none_or]

/-- An instruction behind a run of prefixes. -/
theorem instruction_leads (balance : Bool) (site : Site) {p : List UInt8}
    (hwidth : s.cursor.layout.width = .byte) (hnone : s.effects = [])
    (hp : ∀ byte ∈ p, (arch.effect? byte).isSome) (hrest : s.cursor.rest = p ++ bytes) :
    ∃ t, instruction arch balance site s = instruction arch balance site t ∧
      Past arch p bytes s t := by
  -- from the end of the run: under its key, the prefix that is read last replaces what was there
  induction p using List.reverseRecOn generalizing bytes with
  | nil =>
    exact ⟨s, rfl, rfl, hrest, (Int.add_zero _).symm, rfl, rfl, rfl, fun key => by rw [hnone]; rfl⟩
  | append_singleton p byte ih =>
    obtain ⟨t, ht, hpast⟩ :=
      ih (fun x hx => hp x (List.mem_append_left _ hx)) (hrest.trans (List.append_assoc ..))
    obtain ⟨e, he⟩ :=
      Option.isSome_iff_exists.mp (hp byte (List.mem_append_right _ List.mem_cons_self))
    obtain ⟨log, hlead⟩ := instruction_lead (by rw [hpast.layout, hwidth]) hpast.rest he
    exact ⟨_, ht.trans hlead, hpast.lead he log⟩

/-- Behind two runs of prefixes that end at the same address, with the same last prefix under every
key. -/
theorem Past.alike {p q : List UInt8} {c d : Cursor} {symbols : SymbolTable} {t u : Decoding}
    {σ₁ σ₂ : Site} (hp : Past arch p bytes (.start c symbols) t)
    (hq : Past arch q bytes (.start d symbols) u) (hlayout : d.layout = c.layout)
    (haddr : d.addr + q.length = c.addr + p.length)
    (hlast : ∀ key, q.findRev? (arch.sets key) = p.findRev? (arch.sets key)) :
    Alike symbols σ₁ σ₂ t u where
  layout := (hq.layout.trans hlayout).trans hp.layout.symm
  rest := hq.rest.trans hp.rest.symm
  addr := (hq.addr.trans haddr).trans hp.addr.symm
  out := hq.out.trans hp.out.symm
  stack := hq.stack.trans hp.stack.symm
  effects key := by rw [hp.effects, hq.effects, hlast]
  symbols := by
    rw [hp.symbols, hq.symbols]
    exact .refl symbols _ _

end Decoder

/-! ## The last prefixes of the 8086 -/

namespace I8086

def repeats : List UInt8 := [0xF2, 0xF3]

def overrides : List UInt8 := [0x26, 0x2E, 0x36, 0x3E]

/-- The prefixes that count: the last repetition and then the last override, as far as there are
any. -/
def lastPrefixes (p : List UInt8) : List UInt8 :=
  (p.findRev? repeats.contains).toList ++ (p.findRev? overrides.contains).toList

variable {p : List UInt8}

theorem key_of_mem : ∀ byte ∈ repeats ++ overrides,
    (arch.effect? byte).map (·.1) = some (if repeats.contains byte then "lead" else "seg") := by
  decide +kernel

theorem overrides_contains :
    ∀ byte ∈ repeats ++ overrides, overrides.contains byte = !repeats.contains byte := by
  decide +kernel

theorem effect?_isSome {byte : UInt8} (h : byte ∈ repeats ++ overrides) :
    (arch.effect? byte).isSome := by
  rw [← Option.isSome_map, key_of_mem byte h]
  rfl

/-- Under a key either the repetitions leave their effects, or the overrides do, or no prefix
does. -/
theorem sets_cases (key : String) :
    (∀ byte ∈ repeats ++ overrides, arch.sets key byte = repeats.contains byte) ∨
      (∀ byte ∈ repeats ++ overrides, arch.sets key byte = overrides.contains byte) ∨
      ∀ byte ∈ repeats ++ overrides, arch.sets key byte = false := by
  by_cases hlead : key = "lead"
  · refine .inl fun byte h => ?_
    rw [Architecture.sets, key_of_mem byte h, hlead]
    cases repeats.contains byte <;> rfl
  by_cases hseg : key = "seg"
  · refine .inr (.inl fun byte h => ?_)
    rw [Architecture.sets, key_of_mem byte h, hseg, overrides_contains byte h]
    cases repeats.contains byte <;> rfl
  · refine .inr (.inr fun byte h => ?_)
    rw [Architecture.sets, key_of_mem byte h]
    cases repeats.contains byte
    · exact decide_eq_false fun e => hseg (Option.some.inj e).symm
    · exact decide_eq_false fun e => hlead (Option.some.inj e).symm

theorem mem_lastPrefixes {byte : UInt8} (h : byte ∈ lastPrefixes p) :
    byte ∈ repeats ++ overrides := by
  simp only [lastPrefixes, List.mem_append, Option.mem_toList] at h
  rcases h with h | h
  · exact List.mem_append_left _ (mem_of_findRev? h)
  · exact List.mem_append_right _ (mem_of_findRev? h)

/-- Leaving out all other prefixes leaves the last one under each key. -/
theorem findRev?_sets_lastPrefixes (hp : ∀ byte ∈ p, byte ∈ repeats ++ overrides) (key : String) :
    (lastPrefixes p).findRev? (arch.sets key) = p.findRev? (arch.sets key) := by
  have hlast : ∀ q, (∀ byte ∈ repeats ++ overrides, arch.sets key byte = q byte) →
      (lastPrefixes p).findRev? q = p.findRev? q →
      (lastPrefixes p).findRev? (arch.sets key) = p.findRev? (arch.sets key) := by
    intro q hq hsame
    rw [findRev?_congr fun byte h => hq byte (mem_lastPrefixes h), hsame]
    exact (findRev?_congr fun byte h => hq byte (hp byte h)).symm
  rcases sets_cases key with h | h | h
  · refine hlast _ h ?_
    rw [lastPrefixes, findRev?_append, findRev?_last_of_disjoint (by decide +kernel),
      findRev?_last_self, Option.none_or]
  · refine hlast _ h ?_
    rw [lastPrefixes, findRev?_append, findRev?_last_self,
      findRev?_last_of_disjoint (by decide +kernel), Option.or_none]
  · refine hlast (fun _ => false) h ?_
    have hnone : ∀ l : List UInt8, l.findRev? (fun _ => false) = none := by
      intro l
      rw [List.findRev?_eq_find?_reverse]
      exact List.find?_eq_none.mpr fun _ _ => Bool.false_ne_true
    rw [hnone, hnone]

/-- The budget of the machine leaves no deferred unit over. -/
theorem result_ne_unconsumed (balance : Bool) {cursor : Cursor}
    (hbyte : cursor.layout.width = .byte) (symbols : SymbolTable) (n : Nat) (address : Int) :
    (decode arch balance cursor symbols).result ≠ .error (.unconsumed n address) := by
  intro h
  have hkept :=
    decode_kept (Architecture.keeps_budget arch List.mem_cons_self) balance hbyte symbols
  rw [h] at hkept
  cases hkept with
  | error hfailed =>
    rcases hfailed with ⟨⟨_, hend⟩, -⟩ | ⟨hlong, -⟩
    · cases hend
    · cases hlong

/-- The last prefixes count. Behind any run of prefixes, and behind the last repetition and the last
override of the run alone, so placed that they end at the same address, the same bytes give
instructions with the same text, the same `found` and the same next address, or the same fault.
Either way the same references are made in the same order, each from the address where decoding
began. -/
theorem decode_lastPrefixes (balance : Bool) (order : ByteOrder) (maxLength : Int) (p : List UInt8)
    (hp : ∀ byte ∈ p, byte ∈ repeats ++ overrides) (b : List UInt8) (a : Int)
    (symbols : SymbolTable) :
    let c := lastPrefixes p
    let long := decode arch balance (.start ⟨.byte, order, maxLength⟩ (p ++ b) a) symbols
    let short :=
      decode arch balance (.start ⟨.byte, order, maxLength⟩ (c ++ b)
        (a + p.length - c.length)) symbols
    ((∃ i j, long.result = .ok i ∧ short.result = .ok j ∧ i.Resembles j) ∨
      ∃ fault, long.result = .error fault ∧ short.result = .error fault) ∧
    symbols.Parallel a (a + p.length - c.length) long.symbols short.symbols := by
  intro c long short
  let first := Cursor.start ⟨.byte, order, maxLength⟩ (p ++ b) a
  let second := Cursor.start ⟨.byte, order, maxLength⟩ (c ++ b) (a + p.length - c.length)
  obtain ⟨t, hfirst, hlong⟩ :=
    Decoder.instruction_leads balance (arch.site first) (s := .start first symbols) rfl rfl
    (fun byte h => effect?_isSome (hp byte h)) rfl
  obtain ⟨u, hsecond, hshort⟩ :=
    Decoder.instruction_leads balance (arch.site second) (s := .start second symbols) rfl
    rfl (fun byte h => effect?_isSome (mem_lastPrefixes h)) rfl
  have halike : Decoder.Alike symbols (arch.site first) (arch.site second) t u :=
    hlong.alike hshort rfl (Int.sub_add_cancel _ _) (findRev?_sets_lastPrefixes hp)
  have hwidth : (arch.site second).mnemonicWidth = (arch.site first).mnemonicWidth := rfl
  have hcoincide := Decoder.coincide_instruction hwidth arch balance halike
  rw [← hfirst, ← hsecond] at hcoincide
  exact decode_coincide hcoincide (result_ne_unconsumed balance rfl symbols)

/-- A store behind five prefixes, two of which count. -/
theorem decode_lastPrefixes_store :
    let p : List UInt8 := [0x26, 0xF3, 0x2E, 0xF2, 0x36]
    let b : List UInt8 := [0xC6, 0x06, 0x34, 0x12, 0x05]
    let symbols : SymbolTable := { entries := [{ address := 0x1234, label := some "COUNT" }] }
    let long := decode arch true (.start ⟨.byte, .little, 6⟩ (p ++ b) 0x100) symbols
    let short := decode arch true (.start ⟨.byte, .little, 6⟩ ([0xF2, 0x36] ++ b) 0x103) symbols
    (∀ byte ∈ p, byte ∈ repeats ++ overrides) ∧ lastPrefixes p = [0xF2, 0x36] ∧
      (∃ i j, long.result = .ok i ∧ short.result = .ok j ∧ i.Resembles j ∧
        i.text = "REPNZ MOV     SS:B[COUNT], 005" ∧ i.next = 0x10A) ∧
      long.symbols.references 0x1234 = [⟨0x100, .data⟩] ∧
      symbols.Parallel 0x100 0x103 long.symbols short.symbols := by
  intro p b symbols long short
  have hp : ∀ byte ∈ p, byte ∈ repeats ++ overrides := by decide +kernel
  have hlong : long.result =
      .ok ⟨"REPNZ MOV     SS:B[COUNT], 005", 0x100, 0x10A,
        [0x26, 0xF3, 0x2E, 0xF2, 0x36, 0xC6], true⟩ := by
    decide +kernel
  have hlast : lastPrefixes p = [0xF2, 0x36] := by decide
  have hstart : (0x100 : Int) + p.length - [(0xF2 : UInt8), 0x36].length = 0x103 := by decide
  obtain ⟨hsame, hrefs⟩ := decode_lastPrefixes true .little 6 p hp b 0x100 symbols
  rw [hlast, hstart] at hsame hrefs
  refine ⟨hp, hlast, ?_, by decide +kernel, hrefs⟩
  rcases hsame with ⟨i, j, hi, hj, hij⟩ | ⟨fault, hfault, -⟩
  · cases hlong.symm.trans hi
    exact ⟨_, j, hlong, hj, hij, rfl, rfl⟩
  · cases hlong.symm.trans hfault

end I8086

end Disassembler
