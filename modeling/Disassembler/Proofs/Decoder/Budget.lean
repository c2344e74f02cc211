import Disassembler.Proofs.Decoder.Cost

/-!
Machines that keep a budget. A budget says of each table how many bytes have been read and how many
units deferred when the walk enters it. Whether every rule fits the stage of its table can be
computed. If all do, an instruction is no longer than the machine's longest after its prefixes,
every deferred unit is used, and decoding fails only if the input ends too early or a label is too
long.
-/

namespace Disassembler

/-- Where a walk stands when it enters a table: the bytes read since the last prefix, and the units
deferred. -/
structure Stage where
  read : Nat
  deferred : Nat
  deriving DecidableEq, Repr

/-- The stage of each table by its name, the units that are prefixes, and the length that labels may
have. -/
structure Budget where
  stages : String → Stage
  leads : List UInt8 := []
  labels : Nat

def Budget.run (b : Budget) (bytes : List UInt8) : Nat := (bytes.takeWhile b.leads.contains).length

def textLimit : Nat := 256

/-- The instruction uses up what is deferred, and its bytes and its text find room. -/
def Insn.fits (b : Budget) (p : Profile) (stage : Stage) (insn : Insn) : Bool :=
  match insn.operand.cost b.labels with
  | none => false
  | some c =>
    c.units = stage.deferred && (stage.read + c.bytes : Nat) ≤ p.maxLength &&
      effectLimit + max insn.mnemonic.length p.mnemonicWidth.toNat + c.chars ≤ textLimit

def Operand.leavesText : Operand → Bool
  | set _ (.text s) => s.length ≤ effectLimit
  | _ => false

namespace Rule

/-- What the rule does at a stage is within the budget. Tables lead to others only where nothing is
a prefix. -/
def fits (b : Budget) (p : Profile) (stage : Stage) : Rule → Bool
  | exact insn _ => insn.fits b p stage
  | range insn _ _ => insn.fits b p stage
  | mask insn _ _ => insn.fits b p stage
  | maskNext insn _ _ _ => insn.fits b p stage && stage.read < p.maxLength
  | memMod insn _ _ _ => insn.fits b p stage && stage.read < p.maxLength
  | sub table _ =>
    b.leads.isEmpty && stage.read < p.maxLength && b.stages table = ⟨stage.read + 1, stage.deferred⟩
  | push table _ count =>
    b.leads.isEmpty && (stage.read + count.toNat : Nat) <
      p.maxLength && stage.deferred + count.toNat ≤ 16 &&
      b.stages table = ⟨stage.read + count.toNat + 1, stage.deferred + count.toNat⟩
  | lead effect _ opcode => effect.leavesText && b.leads.any fun byte => (byte.toNat : Int) = opcode
  | undef _ => true
  | foreign _ => false

def isLead : Rule → Bool
  | lead _ _ _ => true
  | _ => false

end Rule

/-- Every rule of the table fits, and every prefix is taken for one. -/
def Table.keeps (b : Budget) (p : Profile) (stage : Stage) (t : Table) : Bool :=
  t.rules.all (·.fits b p stage) &&
    b.leads.all fun byte => (t.rules.find? (·.accepts byte.toNat)).any Rule.isLead

def Architecture.keeps (b : Budget) (arch : Architecture) : Bool :=
  (b.stages arch.root.name = ⟨1, 0⟩ && 1 ≤ arch.profile.maxLength &&
    0 ≤ arch.profile.mnemonicWidth && arch.profile.mnemonicWidth ≤ 200) &&
    (arch.root :: arch.pages).all fun t => t.keeps b arch.profile (b.stages t.name)

namespace Budget

variable {b : Budget}

theorem run_cons_of_mem {byte : UInt8} (h : byte ∈ b.leads) (bytes : List UInt8) :
    b.run (byte :: bytes) = b.run bytes + 1 := by
  simp [run, h]

theorem run_cons_of_notMem {byte : UInt8} (h : byte ∉ b.leads) (bytes : List UInt8) :
    b.run (byte :: bytes) = 0 := by
  simp [run, h]

theorem run_of_leads_eq_nil (h : b.leads = []) (bytes : List UInt8) : b.run bytes = 0 := by
  cases bytes with
  | nil => rfl
  | cons byte bytes => exact run_cons_of_notMem (by simp [h]) bytes

/-- The faults that a machine on a budget may still run into, once `read` bytes have been read:
there are fewer bytes than prefixes and a longest instruction take, or a label is too long. -/
def Failed (b : Budget) (p : Profile) (read : Nat) (bytes : List UInt8) (c : Cursor)
    (symbols : SymbolTable) (fault : Fault) : Prop :=
  (∃ address, fault = .endOfInput address) ∧
  (read + c.rest.length : Nat) < p.maxLength + b.run bytes ∨
    fault = .textTooLong textLimit ∧ ¬ symbols.Short b.labels

end Budget

namespace Decoder

open Budget (Failed)

variable {b : Budget} {p : Profile} {stage : Stage} {s t : Decoding}

/-- The walk has entered a table at a stage. Nothing has been written yet. -/
structure Entered (p : Profile) (stage : Stage) (s : Decoding) : Prop where
  ready : Ready s
  fits : stage.read ≤ p.maxLength
  items : s.stack.items.length = stage.deferred
  depth : s.stack.depth = 16
  limit : s.out.limit = textLimit
  blank : s.out.length = 0

/-- The place in the input, the looks ahead, the symbols and the log do not count. -/
theorem Entered.of_same (h : Entered p stage s) (hlayout : t.cursor.layout = s.cursor.layout)
    (heffects : t.effects = s.effects) (hstack : t.stack = s.stack) (hout : t.out = s.out) :
    Entered p stage t :=
  ⟨⟨hlayout ▸ h.ready.byte, heffects ▸ h.ready.effects⟩, h.fits, hstack ▸ h.items, hstack ▸ h.depth,
    hout ▸ h.limit, hout ▸ h.blank⟩

theorem Entered.advance (h : Entered p stage s) (k : Nat)
    (hk : (stage.read + k : Nat) ≤ p.maxLength) :
    Entered p ⟨stage.read + k, stage.deferred⟩ { s with cursor := s.cursor.advance k } :=
  ⟨⟨h.ready.byte, h.ready.effects⟩, hk, h.items, h.depth, h.limit, h.blank⟩

/-- A unit is the next byte. -/
theorem fetch_byte (hwidth : s.cursor.layout.width = .byte) {byte : UInt8} {bytes : List UInt8}
    (hrest : s.cursor.rest = byte :: bytes) :
    fetch s = .ok byte.toNat { s with cursor := s.cursor.advance 1 } := by
  have hvalue : s.cursor.layout.order.value [byte] = byte.toNat := by
    cases s.cursor.layout.order <;> simp [ByteOrder.value]
  simp [fetch, onCursor, Action.on, Cursor.fetch, Functor.map, EStateM.map, Cursor.take,
    hwidth, hrest, UnitWidth.size, hvalue]

theorem fetch_cases (h : Ready s) :
    s.cursor.rest = [] ∧ fetch s = .error (.endOfInput (some s.cursor.addr)) s ∨
      ∃ byte bytes, s.cursor.rest = byte :: bytes ∧
        fetch s = .ok byte.toNat { s with cursor := s.cursor.advance 1 } := by
  cases hr : s.cursor.rest with
  | nil =>
    left
    simp [fetch, onCursor, Action.on, Cursor.fetch, Functor.map, EStateM.map,
      Cursor.take, h.byte, hr, UnitWidth.size]
  | cons byte bytes => exact .inr ⟨byte, bytes, rfl, fetch_byte h.byte hr⟩

theorem peek_cases (h : Ready s) :
    s.cursor.rest = [] ∧ (∃ t, peek s = .error (.endOfInput (some s.cursor.addr)) t) ∨
      ∃ unit peeks, peek s = .ok unit { s with peeks } := by
  cases hr : s.cursor.rest with
  | nil =>
    refine .inl ⟨rfl, { s with peeks := s.peeks + 1 }, ?_⟩
    simp [peek_eq, onCursor, Action.on, Cursor.peek, Functor.map, EStateM.map, Cursor.look, h.byte,
      hr, UnitWidth.size]
  | cons byte bytes =>
    refine .inr ⟨s.cursor.layout.order.value [byte], s.peeks + 1, ?_⟩
    simp [peek_eq, onCursor, Action.on, Cursor.peek, Functor.map, EStateM.map, Cursor.look, h.byte,
      hr, UnitWidth.size]

/-! ## The rules of one table -/

inductive Scanned (b : Budget) (p : Profile) (stage : Stage) (byte : UInt8) (c : Cursor)
    (symbols : SymbolTable) : EStateM.Result Fault Decoding Next → Prop
  | found {k : Nat} {t : Decoding} (hk : k ≤ c.rest.length)
      (hread : (stage.read + k : Nat) ≤ p.maxLength)
      (hcursor : t.cursor = c.advance k) (hused : t.stack.items = []) (hlead : byte ∉ b.leads) :
      Scanned b p stage byte c symbols (.ok (.stop true) t)
  | missed {t : Decoding} (hcursor : t.cursor = c) (hentered : Entered p stage t)
      (hsymbols : t.symbols = symbols)
      (hlead : byte ∉ b.leads) :
      Scanned b p stage byte c symbols (.ok (.stop false) t)
  | onward {name : String} {next : UInt8} {k : Nat} {t : Decoding} (hk : k ≤ c.rest.length)
      (hread : (b.stages name).read = stage.read + k) (hcursor : t.cursor = c.advance k)
      (hentered : Entered p (b.stages name) t) (hsymbols : t.symbols = symbols)
      (hleads : b.leads = []) :
      Scanned b p stage byte c symbols (.ok (.goto name next.toNat) t)
  | again {next : UInt8} {bytes : List UInt8} {t : Decoding} (hrest : c.rest = next :: bytes)
      (hcursor : t.cursor = c.advance 1) (hentered : Entered p stage t)
      (hsymbols : t.symbols = symbols)
      (hlead : byte ∈ b.leads) : Scanned b p stage byte c symbols (.ok (.again next.toNat) t)
  | failed {fault : Fault} {t : Decoding}
      (h : Failed b p stage.read (byte :: c.rest) c symbols fault) :
      Scanned b p stage byte c symbols (.error fault t)

/-- A site whose mnemonics are as wide as the profile says, with room for them. -/
structure Fitted (p : Profile) (site : Site) : Prop where
  width : site.mnemonicWidth = p.mnemonicWidth
  nonneg : 0 ≤ p.mnemonicWidth
  room : p.mnemonicWidth ≤ Capacity.room

end Decoder

namespace Walk

open Decoder
open Budget (Failed)

variable {b : Budget} {p : Profile} {stage : Stage} {s t : Decoding} {site : Site}

theorem within_emit {n : Nat} {insn : Insn} {c : Cost} (hp : Fitted p site)
    (hc : insn.operand.cost n = some c) (unit : Nat) :
    Within n ⟨c.bytes, c.units, effectLimit +
      max insn.mnemonic.length p.mnemonicWidth.toNat + c.chars⟩
      (· = .stop true) (emit site insn unit) := by
  have hname : Within n { chars := effectLimit + max insn.mnemonic.length p.mnemonicWidth.toNat }
      (fun _ => True) (mnemonic site insn.mnemonic) := by
    rw [← hp.width]
    exact Within.mnemonic _ (hp.width ▸ hp.nonneg) (hp.width ▸ hp.room)
  refine (hname.bind fun _ _ => (Within.render hc unit).bind fun _ _ =>
    Within.pure (P := (· = Next.stop true)) rfl).weaken ?_ ?_ ?_ fun _ h => h
  · simp [Cost.plus]
  · simp [Cost.plus]
  · simp [Cost.plus]

/-- An instruction that fits is written, unless the input ends or a label is too long. -/
theorem scanned_emit {insn : Insn} {byte : UInt8} (hp : Fitted p site)
    (hfits : insn.fits b p stage = true) (hs : Entered p stage s) (hlead : byte ∉ b.leads)
    (unit : Nat) : Scanned b p stage byte s.cursor s.symbols (emit site insn unit s) := by
  unfold Insn.fits at hfits
  cases hc : insn.operand.cost b.labels with
  | none => rw [hc] at hfits; cases hfits
  | some c =>
    rw [hc] at hfits
    simp only [Bool.and_eq_true, decide_eq_true_eq] at hfits
    obtain ⟨⟨hunits, hbytes⟩, hchars⟩ := hfits
    have hwithin := within_emit hp hc unit
    have hitems := hs.items
    cases hm : emit site insn unit s with
    | ok next t =>
      obtain ⟨rfl, hspent⟩ := hwithin.spent hs.ready (by simp only; omega) hm
      obtain ⟨k, hk, hkr, hcursor⟩ := hspent.cursor
      have hstack := hspent.stack
      simp only at hk hstack
      exact .found hkr (by omega) hcursor (List.eq_nil_of_length_eq_zero (by omega)) hlead
    | error fault t =>
      refine .failed ?_
      rcases hwithin.excused hs.ready (by simp only; omega) hm with ⟨hend, hlt⟩ | ⟨hfault, hlong⟩
      · simp only at hlt
        exact .inl ⟨hend, by omega⟩
      · rw [hs.limit] at hfault hlong
        refine .inr ⟨hfault, fun hshort => ?_⟩
        have hover := hlong hshort
        rw [hs.blank] at hover
        simp only at hover
        omega

/-- Units are deferred as long as there is input. -/
theorem defer_cases (n : Nat) (hs : Entered p stage s)
    (hread : (stage.read + n : Nat) ≤ p.maxLength) (hdepth : stage.deferred + n ≤ 16) :
    s.cursor.rest.length < n ∧ (∃ address t, defer n s = .error (.endOfInput address) t) ∨
      n ≤ s.cursor.rest.length ∧ ∃ t, defer n s = .ok () t ∧ t.cursor = s.cursor.advance n ∧
        t.symbols = s.symbols ∧ Entered p ⟨stage.read + n, stage.deferred + n⟩ t := by
  induction n generalizing stage s with
  | zero => exact .inr ⟨Nat.zero_le _, s, rfl, (Cursor.advance_zero _).symm, rfl, hs⟩
  | succ n ih =>
    rcases fetch_cases hs.ready with ⟨hrest, hfetch⟩ | ⟨byte, bytes, hrest, hfetch⟩
    · exact .inl ⟨by simp [hrest], _, _, Action.bind_of_error _ hfetch⟩
    · let u : Decoding :=
        { s with
          cursor := s.cursor.advance 1
          stack := { s.stack with items := byte.toNat :: s.stack.items } }
      have hpush : push byte.toNat { s with cursor := s.cursor.advance 1 } = .ok () u := by
        have hlt : (s.stack.items.length : Int) < s.stack.depth := by rw [hs.depth, hs.items]; omega
        simp [push, onStack, Action.on, Deferred.push, hlt, u]
      have hstep : defer (n + 1) s = defer n u :=
        (Action.bind_of_ok _ hfetch).trans (Action.bind_of_ok _ hpush)
      have hu : Entered p ⟨stage.read + 1, stage.deferred + 1⟩ u :=
        ⟨⟨hs.ready.byte, hs.ready.effects⟩, by simp only; omega, by simp [u, hs.items], hs.depth,
          hs.limit, hs.blank⟩
      have hlength : u.cursor.rest.length + 1 = s.cursor.rest.length := by
        simp [u, Cursor.advance, hrest]
      rw [hstep]
      rcases ih hu (by simp only; omega) (by simp only; omega) with
        ⟨hlt, herror⟩ | ⟨hle, t, ht, hcursor, hsymbols, he⟩
      · exact .inl ⟨by omega, herror⟩
      · refine .inr ⟨by omega, t, ht, ?_, hsymbols, ?_⟩
        · rw [hcursor, show u.cursor = s.cursor.advance 1 from rfl, Cursor.advance_advance,
            Nat.add_comm]
        · simpa only [Nat.add_assoc, Nat.add_comm 1 n] using he

theorem lookahead_cases (seen : Option Nat) (h : Ready s) :
    s.cursor.rest = [] ∧ (∃ address t, lookahead seen s = .error (.endOfInput address) t) ∨
      ∃ unit peeks, lookahead seen s = .ok unit { s with peeks } := by
  cases seen with
  | some unit => exact .inr ⟨unit, s.peeks, rfl⟩
  | none =>
    rcases peek_cases h with ⟨hrest, t, ht⟩ | hok
    · exact .inl ⟨hrest, _, t, ht⟩
    · exact .inr hok

/-- A rule that looks at the next unit writes its instruction or leaves the unit to the rules after
it. -/
theorem scanned_lookahead {insn : Insn} {byte : UInt8} {seen : Option Nat} {mask value : Int}
    {other : Nat → Decoder Next} (hp : Fitted p site) (hfits : insn.fits b p stage = true)
    (hroom : stage.read < p.maxLength) (hs : Entered p stage s) (hlead : byte ∉ b.leads)
    (unit : Nat)
    (ih : ∀ n u, Entered p stage u → Scanned b p stage byte u.cursor u.symbols (other n u)) :
    Scanned b p stage byte s.cursor s.symbols
      ((do let n ← lookahead seen; if masked n mask = value then emit site insn unit else other n)
        s) := by
  rcases lookahead_cases seen hs.ready with ⟨hrest, address, t, ht⟩ | ⟨n, peeks, hn⟩
  · rw [Action.bind_of_error _ ht]
    exact .failed (.inl ⟨⟨_, rfl⟩, by simp only [hrest, List.length_nil]; omega⟩)
  · rw [Action.bind_of_ok _ hn]
    have hu : Entered p stage { s with peeks } := hs.of_same rfl rfl rfl rfl
    by_cases hm : (masked n mask : Int) = value
    · rw [if_pos hm]
      exact scanned_emit hp hfits hu hlead unit
    · rw [if_neg hm]
      exact ih n _ hu

theorem scanned_sub {target : String} {byte : UInt8} (hs : Entered p stage s)
    (hleads : b.leads = []) (hroom : stage.read < p.maxLength)
    (htarget : b.stages target = ⟨stage.read + 1, stage.deferred⟩) :
    Scanned b p stage byte s.cursor s.symbols
      ((do return .goto target (← fetch) : Decoder Next) s) := by
  rcases fetch_cases hs.ready with ⟨hrest, hfetch⟩ | ⟨next, bytes, hrest, hfetch⟩
  · rw [Action.bind_of_error _ hfetch]
    exact .failed (.inl ⟨⟨_, rfl⟩, by simp only [hrest, List.length_nil]; omega⟩)
  · rw [Action.bind_of_ok _ hfetch]
    refine .onward (by simp [hrest]) (by rw [htarget]) rfl ?_ rfl hleads
    rw [htarget]
    exact hs.advance 1 (by omega)

theorem scanned_push {target : String} {count : Int} {byte : UInt8} (hs : Entered p stage s)
    (hleads : b.leads = []) (hroom : (stage.read + count.toNat : Nat) < p.maxLength)
    (hdepth : stage.deferred + count.toNat ≤ 16)
    (htarget : b.stages target = ⟨stage.read + count.toNat + 1, stage.deferred + count.toNat⟩) :
    Scanned b p stage byte s.cursor s.symbols
      ((do deferFor target count; return .goto target (← fetch) : Decoder Next) s) := by
  rcases defer_cases count.toNat hs (by omega) hdepth with
    ⟨hlt, _, t, ht⟩ | ⟨hle, t, ht, hcursor, hsymbols, he⟩
  · have herror : deferFor target count s = .error _ t := Action.bind_of_error _ ht
    rw [Action.bind_of_error _ herror]
    exact .failed (.inl ⟨⟨_, rfl⟩, by omega⟩)
  · obtain ⟨u, hu, hcu, hsu, he⟩ : ∃ u, deferFor target count s = .ok () u ∧ u.cursor = t.cursor ∧
        u.symbols = t.symbols ∧
        Entered p ⟨stage.read + count.toNat, stage.deferred + count.toNat⟩ u :=
      ⟨_, Action.bind_of_ok _ ht, rfl, rfl, he.of_same rfl rfl rfl rfl⟩
    rw [Action.bind_of_ok _ hu]
    have hrestu : u.cursor.rest.length = s.cursor.rest.length - count.toNat := by
      rw [hcu, hcursor, Cursor.advance_rest_length]
    rcases fetch_cases he.ready with ⟨hrest, hfetch⟩ | ⟨next, bytes, hrest, hfetch⟩
    · rw [Action.bind_of_error _ hfetch]
      rw [hrest, List.length_nil] at hrestu
      exact .failed (.inl ⟨⟨_, rfl⟩, by omega⟩)
    · rw [Action.bind_of_ok _ hfetch]
      rw [hrest, List.length_cons] at hrestu
      refine .onward (k := count.toNat + 1) (by omega)
        (by rw [htarget, Nat.add_assoc]) ?_ ?_ ?_ hleads
      · simp only [hcu, hcursor, Cursor.advance_advance]
      · rw [htarget]
        exact he.advance 1 (by simp only; omega)
      · exact hsu.trans hsymbols

/-- A prefix leaves its effect and the walk starts again with the next unit. -/
theorem scanned_lead {effect : Operand} {kind : RefKind} {byte : UInt8} (hs : Entered p stage s)
    (htext : effect.leavesText = true) (hlead : byte ∈ b.leads) (unit : Nat) :
    Scanned b p stage byte s.cursor s.symbols
      ((do applyEffect site effect kind unit; return .again (← fetch) : Decoder Next) s) := by
  obtain ⟨key, text, rfl, hlen⟩ : ∃ key text, effect = .set key (.text text) ∧
      text.length ≤ effectLimit := by
    unfold Operand.leavesText at htext
    split at htext
    · exact ⟨_, _, rfl, of_decide_eq_true htext⟩
    · cases htext
  obtain ⟨u, hu, hcu, hsu, he⟩ : ∃ u,
      applyEffect site (.set key (.text text)) kind unit s = .ok () u ∧
      u.cursor = s.cursor ∧ u.symbols = s.symbols ∧ Entered p stage u := by
    refine ⟨_, rfl, rfl, rfl, ⟨hs.ready.byte, fun q hq => ?_⟩, hs.fits, hs.items, hs.depth,
      hs.limit, hs.blank⟩
    rcases List.mem_cons.mp hq with rfl | hq
    · exact ⟨text, rfl, hlen⟩
    · exact hs.ready.effects q (List.mem_of_mem_filter hq)
  rw [Action.bind_of_ok _ hu]
  rcases fetch_cases he.ready with ⟨hrest, hfetch⟩ | ⟨next, bytes, hrest, hfetch⟩
  · rw [Action.bind_of_error _ hfetch]
    have hfits := hs.fits
    rw [hcu] at hrest
    refine .failed (.inl ⟨⟨_, rfl⟩, ?_⟩)
    rw [Budget.run_cons_of_mem hlead, hrest, List.length_nil]
    omega
  · rw [Action.bind_of_ok _ hfetch]
    exact .again (hcu ▸ hrest) (congrArg (·.advance 1) hcu) (he.of_same rfl rfl rfl rfl) hsu hlead

/-- Trying rules that fit, of which a prefix finds its own rule first. -/
theorem scanned_scan {rules : List Rule} {byte : UInt8} (hp : Fitted p site)
    (hfits : ∀ rule ∈ rules, rule.fits b p stage = true)
    (hfirst : byte ∈ b.leads → (rules.find? (·.accepts byte.toNat)).any Rule.isLead = true)
    (hs : Entered p stage s) (table : String) (seen : Option Nat) :
    Scanned b p stage byte s.cursor s.symbols (scan site table byte.toNat rules seen s) := by
  induction rules generalizing seen s with
  | nil => exact .missed rfl hs rfl fun h => by simpa using hfirst h
  | cons rule rules ih =>
    have hrules := fun r hr => hfits r (List.mem_cons_of_mem _ hr)
    have hrule := hfits rule List.mem_cons_self
    unfold scan
    by_cases ha : rule.accepts byte.toNat = true
    · rw [if_pos ha]
      rw [List.find?_cons_of_pos ha] at hfirst
      -- unless the rule is one for prefixes, the unit is none, and nothing is asked of the rules
      -- that follow
      cases rule with
      | exact insn opcode =>
        exact scanned_emit hp hrule hs (fun h => absurd (hfirst h) Bool.false_ne_true) _
      | range insn low high =>
        exact scanned_emit hp hrule hs (fun h => absurd (hfirst h) Bool.false_ne_true) _
      | mask insn mask value =>
        exact scanned_emit hp hrule hs (fun h => absurd (hfirst h) Bool.false_ne_true) _
      | maskNext insn opcode mask value =>
        simp only [Rule.fits, Bool.and_eq_true, decide_eq_true_eq] at hrule
        exact scanned_lookahead hp hrule.1 hrule.2 hs
          (fun h => absurd (hfirst h) Bool.false_ne_true) _ fun n u hu =>
          ih hrules (fun h => absurd (hfirst h) Bool.false_ne_true) hu _
      | memMod insn mode opcodes mask =>
        simp only [Rule.fits, Bool.and_eq_true, decide_eq_true_eq] at hrule
        exact scanned_lookahead hp hrule.1 hrule.2 hs
          (fun h => absurd (hfirst h) Bool.false_ne_true) _ fun n u hu =>
          ih hrules (fun h => absurd (hfirst h) Bool.false_ne_true) hu _
      | sub target opcode =>
        simp only [Rule.fits, Bool.and_eq_true, decide_eq_true_eq, List.isEmpty_iff] at hrule
        exact scanned_sub hs hrule.1.1 hrule.1.2 hrule.2
      | push target opcode count =>
        simp only [Rule.fits, Bool.and_eq_true, decide_eq_true_eq, List.isEmpty_iff] at hrule
        exact scanned_push hs hrule.1.1.1 hrule.1.1.2 hrule.1.2 hrule.2
      | lead effect kind opcode =>
        simp only [Rule.fits, Bool.and_eq_true, List.any_eq_true, decide_eq_true_eq] at hrule
        obtain ⟨htext, other, hmem, hother⟩ := hrule
        have heq : other = byte := by
          have hunit : (byte.toNat : Int) = opcode := by simpa [Rule.accepts] using ha
          exact UInt8.toNat_inj.mp (by omega)
        exact scanned_lead hs htext (heq ▸ hmem) _
      | undef opcode => exact .missed rfl hs rfl fun h => absurd (hfirst h) Bool.false_ne_true
      | foreign value => exact absurd hrule Bool.false_ne_true
    · rw [if_neg ha]
      rw [List.find?_cons_of_neg ha] at hfirst
      exact ih hrules hfirst hs seen

/-! ## The whole walk -/

/-- From a unit that has been read, `k` more bytes cover its prefixes and no more than a longest
instruction. -/
structure Covers (b : Budget) (p : Profile) (read : Nat) (byte : UInt8) (c : Cursor)
    (k : Nat) : Prop where
  left : k ≤ c.rest.length
  atLeast : b.run (byte :: c.rest) ≤ k
  atMost : (read + k : Nat) ≤ p.maxLength + b.run (byte :: c.rest)

inductive Walked (b : Budget) (p : Profile) (read : Nat) (byte : UInt8) (c : Cursor)
    (symbols : SymbolTable) : EStateM.Result Fault Decoding Bool → Prop
  | found {k : Nat} {t : Decoding} (hk : Covers b p read byte c k)
      (hcursor : t.cursor = c.advance k)
      (hused : t.stack.items = []) : Walked b p read byte c symbols (.ok true t)
  | missed {k : Nat} {t : Decoding} {stage : Stage} (hk : Covers b p read byte c k)
      (hcursor : t.cursor = c.advance k) (hentered : Entered p stage t)
      (hsymbols : t.symbols = symbols) :
      Walked b p read byte c symbols (.ok false t)
  | failed {fault : Fault} {t : Decoding} (h : Failed b p read (byte :: c.rest) c symbols fault) :
      Walked b p read byte c symbols (.error fault t)

/-- Going on from a later place: it is `j` bytes ahead, its stage has `d` of them read, and the
others are prefixes. -/
theorem Walked.later {read j d : Nat} {byte next : UInt8} {c : Cursor} {symbols : SymbolTable}
    {r : EStateM.Result Fault Decoding Bool} (hj : j ≤ c.rest.length)
    (hrun : b.run (byte :: c.rest) + d = b.run (next :: (c.advance j).rest) + j)
    (h : Walked b p (read + d) next (c.advance j) symbols r) :
    Walked b p read byte c symbols r := by
  have covers : ∀ {k}, Covers b p (read + d) next (c.advance j) k →
      Covers b p read byte c (j + k) := by
    intro k hk
    have hleft := hk.left
    have hatLeast := hk.atLeast
    have hatMost := hk.atMost
    rw [Cursor.advance_rest_length] at hleft
    exact ⟨by omega, by omega, by omega⟩
  cases h with
  | found hk hcursor hused =>
    exact .found (covers hk) (by rw [hcursor, Cursor.advance_advance]) hused
  | missed hk hcursor hentered hsymbols =>
    exact .missed (covers hk) (by rw [hcursor, Cursor.advance_advance]) hentered hsymbols
  | failed h =>
    refine .failed ?_
    rcases h with ⟨hend, hlt⟩ | hlong
    · rw [Cursor.advance_rest_length] at hlt
      exact .inl ⟨hend, by omega⟩
    · exact .inr hlong

end Walk

/-- Where nothing is a prefix, the table of any name keeps to the stage of its name. -/
theorem Architecture.keeps_table {b : Budget} {arch : Architecture} (h : arch.keeps b = true)
    (hleads : b.leads = []) (name : String) :
    (arch.table name).keeps b arch.profile (b.stages name) = true := by
  simp only [Architecture.keeps, Bool.and_eq_true, List.all_eq_true] at h
  unfold Architecture.table
  cases ht : Table.named? (arch.root :: arch.pages) name with
  | none => simp [Table.keeps, hleads]
  | some t =>
    have hname : t.name = name := by simpa using List.find?_some ht
    have hkeeps := h.2 t (List.mem_of_find?_eq_some ht)
    rwa [hname] at hkeeps

namespace Walk

open Decoder

variable {b : Budget} {arch : Architecture} {site : Site}

theorem scanned_table {p : Profile} {stage : Stage} {table : Table} {s : Decoding}
    (hp : Fitted p site) (ht : table.keeps b p stage = true) (hs : Entered p stage s)
    (byte : UInt8) :
    Scanned b p stage byte s.cursor s.symbols
      (scan site table.name byte.toNat table.rules none s) := by
  simp only [Table.keeps, Bool.and_eq_true, List.all_eq_true] at ht
  exact scanned_scan hp ht.1 (ht.2 byte) hs _ _

/-- A walk through tables that keep a budget. -/
theorem walked_walk (h : arch.keeps b = true) (hp : Fitted arch.profile site) (table : Table)
    (unit : Nat) (s : Decoding) : ∀ (stage : Stage) (byte : UInt8), unit = byte.toNat →
      table.keeps b arch.profile stage = true → Entered arch.profile stage s →
      Walked b arch.profile stage.read byte s.cursor s.symbols (walk arch site table unit s) := by
  fun_induction walk arch site table unit s with
  | case1 table unit s fault t hscan =>
    rintro stage byte rfl ht hs
    have hstep := scanned_table hp ht hs byte
    rw [hscan] at hstep
    cases hstep with
    | failed h => exact .failed h
  | case2 table unit s found t hscan =>
    rintro stage byte rfl ht hs
    have hstep := scanned_table hp ht hs byte
    have hfits := hs.fits
    rw [hscan] at hstep
    cases hstep with
    | found hk hread hcursor hused hlead =>
      have hrun := Budget.run_cons_of_notMem hlead s.cursor.rest
      exact .found ⟨hk, by omega, by omega⟩ hcursor hused
    | missed hcursor hentered hsymbols hlead =>
      have hrun := Budget.run_cons_of_notMem hlead s.cursor.rest
      exact .missed ⟨Nat.zero_le _, by omega, by omega⟩
        (by rw [hcursor, Cursor.advance_zero]) hentered hsymbols
  | case3 table unit s name further t hscan _ ih =>
    rintro stage byte rfl ht hs
    have hstep := scanned_table hp ht hs byte
    rw [hscan] at hstep
    cases hstep with
    | @onward name next k t hk hread hcursor hentered hsymbols hleads =>
      have hrest := ih _ next rfl (arch.keeps_table h hleads _) hentered
      rw [hread, hcursor, hsymbols] at hrest
      have hrun := Budget.run_of_leads_eq_nil hleads
      exact .later hk (by rw [hrun, hrun]) hrest
  | case4 table unit s further t hscan _ ih =>
    rintro stage byte rfl ht hs
    have hstep := scanned_table hp ht hs byte
    rw [hscan] at hstep
    cases hstep with
    | @again next bytes t hrest hcursor hentered hsymbols hlead =>
      have hwalk := ih _ next rfl ht hentered
      rw [hcursor, hsymbols] at hwalk
      have hrun : b.run (byte :: s.cursor.rest) =
          b.run (next :: (s.cursor.advance 1).rest) + 1 := by
        rw [Budget.run_cons_of_mem hlead, hrest]
        simp [Cursor.advance, hrest]
      exact .later (d := 0) (by simp [hrest]) (by omega) hwalk

end Walk

/-! ## One instruction -/

namespace Decoder

variable {b : Budget} {arch : Architecture} {site : Site}

/-- Saying that no rule matched takes no input, and there is room for it. -/
theorem settle_cases {p : Profile} {stage : Stage} {s : Decoding} (hp : Fitted p site)
    (hwidth : p.mnemonicWidth ≤ 200) (hs : Entered p stage s) (n : Nat) :
    (∃ t, settle site false s = .error (.textTooLong textLimit) t) ∧ ¬ s.symbols.Short n ∨
      ∃ t, settle site false s = .ok () t ∧ t.cursor = s.cursor := by
  have hname := Within.mnemonic (n := n) unknownMnemonic (hp.width ▸ hp.nonneg) (hp.width ▸ hp.room)
  have hwithin : Within n { chars := effectLimit + 200 } (fun _ => True) (settle site false) := by
    refine ((Within.note _).bind fun _ _ => hname).charge (Nat.le_refl _) rfl ?_
    have hlength : unknownMnemonic.length = 3 := by decide
    have hsite := hp.width
    simp only [Cost.plus]
    omega
  cases h : settle site false s with
  | error fault t =>
    left
    rcases hwithin.excused hs.ready (Nat.zero_le _) h with ⟨-, hlt⟩ | ⟨hfault, hlong⟩
    · exact absurd hlt (Nat.not_lt_zero _)
    · rw [hs.limit] at hfault hlong
      rw [hs.blank] at hlong
      exact ⟨⟨t, by rw [hfault]⟩, fun hshort => absurd (hlong hshort) (by decide)⟩
  | ok _ t =>
    right
    obtain ⟨-, hspent⟩ := hwithin.spent hs.ready (Nat.zero_le _) h
    obtain ⟨k, hk, -, hcursor⟩ := hspent.cursor
    exact ⟨t, rfl, by rw [hcursor, Nat.le_zero.mp hk, Cursor.advance_zero]⟩

/-- With every deferred unit used, or without a match, none is left over. -/
theorem balanced_of_used (balance : Bool) {found : Bool} {s : Decoding}
    (h : found = true → s.stack.items = []) : (balance && found && s.stack.size ≠ 0) = false := by
  cases found with
  | false => simp
  | true => simp [Deferred.size, h rfl]

/-- With every deferred unit used, or without a match, there is an instruction up to the cursor. -/
theorem conclude_of_used (balance : Bool) (site : Site) {found : Bool} {s : Decoding}
    (h : found = true → s.stack.items = []) :
    ∃ i, conclude balance site found s = .ok i s ∧ i.address = site.address ∧
      i.next = s.cursor.addr := by
  refine ⟨⟨Text.trimEnd s.out.toString, site.address, s.cursor.addr, s.cursor.captured, found⟩,
    ?_, rfl, rfl⟩
  unfold conclude
  rw [balanced_of_used balance h]
  rfl

/-- Where every deferred unit has been used, it does not matter whether that is looked at. -/
theorem conclude_eq_of_used (balance other : Bool) (site : Site) {found : Bool} {s : Decoding}
    (h : found = true → s.stack.items = []) :
    conclude balance site found s = conclude other site found s := by
  unfold conclude
  rw [balanced_of_used balance h, balanced_of_used other h]

end Decoder

open Decoder

/-- What decoding an instruction comes to on a machine that keeps a budget. -/
inductive Kept (b : Budget) (p : Profile) (c : Cursor) (symbols : SymbolTable) :
    Except Fault Instruction → Prop
  | ok {i : Instruction} (atLeast : b.run c.rest + 1 ≤ i.length)
      (atMost : i.length ≤ b.run c.rest + p.maxLength) :
      Kept b p c symbols (.ok i)
  | error {fault : Fault}
      (h : Budget.Failed b p 0 c.rest c symbols fault) : Kept b p c symbols (.error fault)

theorem Cursor.rest_after_unit {c : Cursor} {byte : UInt8} {bytes : List UInt8}
    (hrest : c.rest = byte :: bytes) : (c.beginInstruction.advance 1).rest = bytes := by
  simp [Cursor.advance, Cursor.beginInstruction, hrest]

/-- A fault after the first unit, seen from before it. -/
theorem Budget.Failed.before {b : Budget} {p : Profile} {c : Cursor} {symbols : SymbolTable}
    {byte : UInt8} {bytes : List UInt8} {fault : Fault} (hrest : c.rest = byte :: bytes)
    (h : Failed b p 1 (byte :: (c.beginInstruction.advance 1).rest)
      (c.beginInstruction.advance 1) symbols fault) :
    Failed b p 0 c.rest c symbols fault := by
  rcases h with ⟨hend, hlt⟩ | hlong
  · rw [Cursor.rest_after_unit hrest, ← hrest] at hlt
    refine .inl ⟨hend, ?_⟩
    rw [hrest] at hlt ⊢
    simp only [List.length_cons]
    omega
  · exact .inr hlong

/-- An instruction that covers its prefixes after the first unit. -/
theorem Kept.of_covers {b : Budget} {p : Profile} {c : Cursor} {symbols : SymbolTable}
    {byte : UInt8} {bytes : List UInt8} {k : Nat} {i : Instruction} (hrest : c.rest = byte :: bytes)
    (hk : Walk.Covers b p 1 byte (c.beginInstruction.advance 1) k) (haddress : i.address = c.addr)
    (hnext : i.next = ((c.beginInstruction.advance 1).advance k).addr) :
    Kept b p c symbols (.ok i) := by
  have hlength : i.length = k + 1 := by
    simp only [Instruction.length, haddress, hnext, Cursor.advance, Cursor.beginInstruction]
    omega
  have hatLeast := hk.atLeast
  have hatMost := hk.atMost
  rw [Cursor.rest_after_unit hrest, ← hrest] at hatLeast hatMost
  exact .ok (by omega) (by omega)

theorem Architecture.fitted_of_keeps {b : Budget} {arch : Architecture} (h : arch.keeps b = true)
    (cursor : Cursor) :
    Fitted arch.profile (arch.site cursor) ∧ arch.profile.mnemonicWidth ≤ 200 ∧
    1 ≤ arch.profile.maxLength ∧
      arch.root.keeps b arch.profile ⟨1, 0⟩ = true := by
  simp only [Architecture.keeps, Bool.and_eq_true, List.all_eq_true, decide_eq_true_eq] at h
  obtain ⟨⟨⟨⟨hstage, hlength⟩, hnonneg⟩, hwidth⟩, htables⟩ := h
  exact ⟨⟨rfl, hnonneg, Int.le_trans hwidth (by decide)⟩, hwidth, hlength,
    hstage ▸ htables _ List.mem_cons_self⟩

/-- The first unit of an instruction on a machine that keeps a budget, and the walk that it
starts. -/
theorem Walk.walked_start {b : Budget} {arch : Architecture} (h : arch.keeps b = true)
    {cursor : Cursor} (hbyte : cursor.layout.width = .byte) (symbols : SymbolTable) :
    cursor.rest = [] ∧
        (∃ address, fetch (.start cursor symbols) =
          .error (.endOfInput address) (.start cursor symbols)) ∨
      ∃ byte bytes s, cursor.rest = byte :: bytes ∧
        fetch (.start cursor symbols) = .ok byte.toNat s ∧
        Walked b arch.profile 1 byte (cursor.beginInstruction.advance 1) symbols
          (walk arch (arch.site cursor) arch.root byte.toNat s) := by
  obtain ⟨hp, -, hlength, hroot⟩ := arch.fitted_of_keeps h cursor
  have hready : Ready (.start cursor symbols) := ⟨hbyte, by simp [Decoding.start]⟩
  rcases fetch_cases hready with ⟨hrest, hfetch⟩ | ⟨byte, bytes, hrest, hfetch⟩
  · exact .inl ⟨hrest, _, hfetch⟩
  · have hs : Entered arch.profile ⟨1, 0⟩
        { Decoding.start cursor symbols with cursor := cursor.beginInstruction.advance 1 } :=
      ⟨⟨hbyte, hready.effects⟩, hlength, rfl, rfl, rfl, rfl⟩
    exact .inr ⟨byte, bytes, _, hrest, hfetch, walked_walk h hp arch.root _ _ _ byte rfl hroot hs⟩

/-- Decoding on a machine that keeps a budget. -/
theorem decode_kept {b : Budget} {arch : Architecture} (h : arch.keeps b = true) (balance : Bool)
    {cursor : Cursor} (hbyte : cursor.layout.width = .byte) (symbols : SymbolTable) :
    Kept b arch.profile cursor symbols (decode arch balance cursor symbols).result := by
  obtain ⟨hp, hwidth, hlength, -⟩ := arch.fitted_of_keeps h cursor
  unfold decode instruction
  rcases Walk.walked_start h hbyte symbols with
    ⟨hnil, address, hfetch⟩ | ⟨byte, bytes, s, hcons, hfetch, hwalked⟩
  · rw [Action.bind_of_error _ hfetch]
    refine .error (.inl ⟨⟨_, rfl⟩, ?_⟩)
    simp only [hnil, List.length_nil]
    omega
  · rw [Action.bind_of_ok _ hfetch]
    generalize hw : Walk.walk arch (arch.site cursor) arch.root byte.toNat s = r at hwalked
    cases hwalked with
    | failed hfailed =>
      rw [Action.bind_of_error _ hw]
      exact .error (hfailed.before hcons)
    | found hk hcursor hused =>
      rw [Action.bind_of_ok _ hw]
      obtain ⟨i, hi, haddress, hnext⟩ :=
        conclude_of_used balance (arch.site cursor) (fun _ => hused)
      rw [Action.bind_of_ok _ (show settle _ true _ = .ok () _ from rfl), hi]
      exact .of_covers hcons hk haddress (by rw [hnext, hcursor])
    | @missed k t stage hk hcursor hentered hsymbols =>
      rw [Action.bind_of_ok _ hw]
      rcases settle_cases hp hwidth hentered b.labels with ⟨⟨u, hu⟩, hlong⟩ | ⟨u, hu, hcu⟩
      · rw [Action.bind_of_error _ hu]
        exact .error (.inr ⟨rfl, hsymbols ▸ hlong⟩)
      · rw [Action.bind_of_ok _ hu]
        obtain ⟨i, hi, haddress, hnext⟩ :=
          conclude_of_used balance (arch.site cursor) (s := u) fun h : false = true => nomatch h
        rw [hi]
        exact .of_covers hcons hk haddress (by rw [hnext, hcu, hcursor])

/-- On a machine that keeps a budget, looking for deferred units that were not used changes nothing:
whatever the symbols are, there are none when an instruction has been written. -/
theorem decode_balance {b : Budget} {arch : Architecture} (h : arch.keeps b = true)
    (balance other : Bool) {cursor : Cursor} (hbyte : cursor.layout.width = .byte)
    (symbols : SymbolTable) :
    decode arch balance cursor symbols = decode arch other cursor symbols := by
  have hsame : instruction arch balance (arch.site cursor) (.start cursor symbols) =
      instruction arch other (arch.site cursor) (.start cursor symbols) := by
    unfold instruction
    rcases Walk.walked_start h hbyte symbols with
      ⟨-, _, hfetch⟩ | ⟨byte, bytes, s, -, hfetch, hwalked⟩
    · rw [Action.bind_of_error _ hfetch, Action.bind_of_error _ hfetch]
    · rw [Action.bind_of_ok _ hfetch, Action.bind_of_ok _ hfetch]
      generalize hw : Walk.walk arch (arch.site cursor) arch.root byte.toNat s = r at hwalked
      cases hwalked with
      | failed => rw [Action.bind_of_error _ hw, Action.bind_of_error _ hw]
      | found hk hcursor hused =>
        rw [Action.bind_of_ok _ hw, Action.bind_of_ok _ hw]
        exact conclude_eq_of_used balance other (arch.site cursor) fun _ => hused
      | @missed k t stage hk hcursor hentered hsymbols =>
        rw [Action.bind_of_ok _ hw, Action.bind_of_ok _ hw]
        cases hu : settle (arch.site cursor) false t with
        | error fault u => rw [Action.bind_of_error _ hu, Action.bind_of_error _ hu]
        | ok _ u =>
          rw [Action.bind_of_ok _ hu, Action.bind_of_ok _ hu]
          exact conclude_eq_of_used balance other (arch.site cursor) fun hfound => by cases hfound
  unfold decode
  rw [hsame]

end Disassembler
