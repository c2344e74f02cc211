import Disassembler.Decoder.Forward
import Disassembler.Decoder.Rule

/-!
The walk through the decode tables. A unit is tried against the rules of a table; a rule writes an
instruction, rules one out, or sends the walk on with a further unit.
-/

namespace Disassembler

/-- What the rules of one table make of a unit. -/
inductive Next where
  /-- the walk is over; `found` says whether an instruction was written -/
  | stop (found : Bool)
  /-- go on with a further unit in the table of a name -/
  | goto (table : String) (unit : Nat)
  /-- go on with a further unit in the same table -/
  | again (unit : Nat)
  deriving DecidableEq, Repr

def Next.goesOn : Next → Bool
  | stop _ => false
  | goto _ _ => true
  | again _ => true

/-- The test that a rule makes on the unit after the one that it accepts. -/
def Rule.test? : Rule → Option (Nat → Bool)
  | maskNext _ _ bits value => some fun next => masked next bits = value
  | memMod _ mode _ bits => some fun next => masked next bits = mode
  | _ => none

/-- The instruction that a rule writes. -/
def Rule.written? : Rule → Option Insn
  | exact insn _ => some insn
  | range insn _ _ => some insn
  | mask insn _ _ => some insn
  | maskNext insn _ _ _ => some insn
  | memMod insn _ _ _ => some insn
  | _ => none

namespace Walk

open Decoder

/-- Write an instruction. -/
def emit (site : Site) (insn : Insn) (unit : Nat) : Decoder Next := do
  mnemonic site insn.mnemonic
  insn.operand.render site insn.kind unit
  return .stop true

/-- Defer `n` units. -/
def defer : Nat → Decoder Unit
  | 0 => pure ()
  | n + 1 => do
    push (← fetch)
    defer n

/-- Defer units on the way to a table; a negative count defers none. -/
def deferFor (target : String) (count : Int) : Decoder Unit := do
  defer count.toNat
  note ("pushed " ++ Text.decimal count ++ " units for " ++ target)

/-- Carry out the effect of a prefix. -/
def applyEffect (site : Site) (effect : Operand) (kind : RefKind) (unit : Nat) : Decoder Unit := do
  note ("prefix " ++ String.ofList (Text.byteStyle.layout unit) ++ " at " ++
    Text.address site.address)
  effect.render site kind unit

/-- The unit after the one being tried. It is looked at once at most. -/
def lookahead : Option Nat → Decoder Nat
  | some unit => pure unit
  | none => peek

/-- Try the rules of a table in order. -/
def scan (site : Site) (table : String) (unit : Nat) : List Rule → Option Nat → Decoder Next
  | [], _ => return .stop false
  | rule :: rules, seen =>
    if rule.accepts unit then
      match rule with
      | .exact insn _ => emit site insn unit
      | .range insn _ _ => emit site insn unit
      | .mask insn _ _ => emit site insn unit
      | .maskNext insn _ mask value => do
        let next ← lookahead seen
        if masked next mask = value then emit site insn unit
        else scan site table unit rules (some next)
      | .memMod insn mode _ mask => do
        let next ← lookahead seen
        if masked next mask = mode then emit site insn unit
        else scan site table unit rules (some next)
      | .sub target _ => return .goto target (← fetch)
      | .push target _ count => do
        deferFor target count
        return .goto target (← fetch)
      | .lead effect kind _ => do
        applyEffect site effect kind unit
        return .again (← fetch)
      | .undef _ => return .stop false
      | .foreign value => throw (.unknownRule value.shown table)
    else scan site table unit rules seen

/-! ## Selecting a rule and carrying it out -/

section

variable {site : Site} {table : String} {unit : Nat} {rules : List Rule} {seen : Option Nat}
    {s t : Decoding}

/-- Select the rule that decides on a unit. Where a rule has a test, `look` gives the next unit; it
is told what the last look gave. -/
def selectBy (look : Option Nat → Decoder Nat) (unit : Nat) :
    List Rule → Option Nat → Decoder (Option Rule)
  | [], _ => return none
  | rule :: rules, seen =>
    if rule.accepts unit then
      match rule.test? with
      | none => return some rule
      | some test => do
        let next ← look seen
        if test next then return some rule else selectBy look unit rules (some next)
    else selectBy look unit rules seen

/-- Carry out the rule that has been selected for a unit. -/
def carryOut (site : Site) (table : String) (unit : Nat) : Option Rule → Decoder Next
  | none => return .stop false
  | some (.exact insn _) => emit site insn unit
  | some (.range insn _ _) => emit site insn unit
  | some (.mask insn _ _) => emit site insn unit
  | some (.maskNext insn _ _ _) => emit site insn unit
  | some (.memMod insn _ _ _) => emit site insn unit
  | some (.sub target _) => return .goto target (← fetch)
  | some (.push target _ count) => do
    deferFor target count
    return .goto target (← fetch)
  | some (.lead effect kind _) => do
    applyEffect site effect kind unit
    return .again (← fetch)
  | some (.undef _) => return .stop false
  | some (.foreign value) => throw (.unknownRule value.shown table)

/-- The rules of a table are tried by selecting one of them and carrying it out. -/
theorem scan_eq_select (site : Site) (table : String) (unit : Nat) (rules : List Rule)
    (seen : Option Nat) :
    scan site table unit rules seen = selectBy lookahead unit rules seen >>=
      carryOut site table unit := by
  induction rules generalizing seen with
  | nil => simp only [scan, selectBy, pure_bind, carryOut]
  | cons rule rules ih =>
    simp only [scan, selectBy]
    by_cases ha : rule.accepts unit = true
    · rw [if_pos ha, if_pos ha]
      cases rule with
      | maskNext insn opcode mask value | memMod insn mode opcodes mask =>
        simp only [Rule.test?, bind_assoc, decide_eq_true_eq]
        refine bind_congr fun next => ?_
        split
        · rw [pure_bind]
          rfl
        · exact ih _
      | _ =>
        simp only [Rule.test?, pure_bind]
        rfl
    · rw [if_neg ha, if_neg ha]
      exact ih seen

/-- The rule that is selected is one of the table, and it accepts the unit. -/
theorem mem_of_selectBy {look : Option Nat → Decoder Nat} {rule : Rule}
    (h : selectBy look unit rules seen s = .ok (some rule) t) :
    rule ∈ rules ∧ rule.accepts unit = true := by
  induction rules generalizing seen s with
  | nil => cases h
  | cons first rules ih =>
    have hlater : ∀ {seen u}, selectBy look unit rules seen u = .ok (some rule) t →
        rule ∈ first :: rules ∧ rule.accepts unit = true :=
      fun h => ⟨List.mem_cons_of_mem _ (ih h).1, (ih h).2⟩
    rw [selectBy] at h
    by_cases ha : first.accepts unit = true
    · rw [if_pos ha] at h
      cases htest : first.test? with
      | none =>
        rw [htest] at h
        cases h
        exact ⟨List.mem_cons_self, ha⟩
      | some test =>
        rw [htest] at h
        obtain ⟨next, u, -, h⟩ := Action.bind_eq_ok h
        split at h
        · cases h
          exact ⟨List.mem_cons_self, ha⟩
        · exact hlater h
    · rw [if_neg ha] at h
      exact hlater h

/-- The walk does not go on behind an instruction. -/
theorem emit_stops {insn : Insn} {next : Next} (h : emit site insn unit s = .ok next t) :
    next = .stop true := by
  obtain ⟨-, u, -, h⟩ := Action.bind_eq_ok h
  obtain ⟨-, v, -, h⟩ := Action.bind_eq_ok h
  cases h
  rfl

/-- What the walk goes on with is fetched last. Before that, units are deferred or a prefix is
carried out, or the rule does nothing else. -/
theorem carryOut_cases {rule : Option Rule} {next : Next}
    (h : carryOut site table unit rule s = .ok next t) (hgo : next.goesOn = true) :
    ∃ v further, fetch v = .ok further t ∧
      ((∃ target opcode, rule = some (.sub target opcode) ∧ next = .goto target further ∧ v = s) ∨
        (∃ target opcode count, rule = some (.push target opcode count) ∧
          next = .goto target further ∧ deferFor target count s = .ok () v) ∨
        ∃ effect kind opcode, rule = some (.lead effect kind opcode) ∧ next = .again further ∧
          applyEffect site effect kind unit s = .ok () v) := by
  have hemit : ∀ {insn}, emit site insn unit s ≠ .ok next t := by
    intro insn hemit
    rw [emit_stops hemit] at hgo
    cases hgo
  cases rule with
  | none => cases h; cases hgo
  | some rule =>
    cases rule with
    | exact insn opcode => exact absurd h hemit
    | range insn low high => exact absurd h hemit
    | mask insn mask value => exact absurd h hemit
    | maskNext insn opcode mask value => exact absurd h hemit
    | memMod insn mode opcodes mask => exact absurd h hemit
    | sub target opcode =>
      obtain ⟨further, v, hfetch, h⟩ := Action.bind_eq_ok h
      cases h
      exact ⟨s, further, hfetch, .inl ⟨target, opcode, rfl, rfl, rfl⟩⟩
    | push target opcode count =>
      obtain ⟨_, v, hdefer, h⟩ := Action.bind_eq_ok h
      obtain ⟨further, w, hfetch, h⟩ := Action.bind_eq_ok h
      cases h
      exact ⟨v, further, hfetch, .inr (.inl ⟨target, opcode, count, rfl, rfl, hdefer⟩)⟩
    | lead effect kind opcode =>
      obtain ⟨_, v, heffect, h⟩ := Action.bind_eq_ok h
      obtain ⟨further, w, hfetch, h⟩ := Action.bind_eq_ok h
      cases h
      exact ⟨v, further, hfetch, .inr (.inr ⟨effect, kind, opcode, rfl, rfl, heffect⟩)⟩
    | undef opcode => cases h; cases hgo
    | foreign value => cases h

/-- What holds of everything that a rule can ask for holds of carrying it out, at any site. -/
theorem carryOut_induction {P : (Site → Decoder Next) → Prop} (rule : Option Rule)
    (hstop : P fun _ => pure (.stop false))
    (hemit : ∀ r insn, rule = some r → r.written? = some insn → P fun site => emit site insn unit)
    (hsub : ∀ target, P fun _ => do return .goto target (← fetch))
    (hpush : ∀ target count, P fun _ => do
      deferFor target count
      return .goto target (← fetch))
    (hlead : ∀ effect kind opcode, rule = some (.lead effect kind opcode) → P fun site => do
      applyEffect site effect kind unit
      return .again (← fetch))
    (hthrow : ∀ fault, P fun _ => throw fault) : P fun site => carryOut site table unit rule := by
  cases rule with
  | none => exact hstop
  | some rule =>
    cases rule with
    | exact insn opcode => exact hemit _ insn rfl rfl
    | range insn low high => exact hemit _ insn rfl rfl
    | mask insn mask value => exact hemit _ insn rfl rfl
    | maskNext insn opcode mask value => exact hemit _ insn rfl rfl
    | memMod insn mode opcodes mask => exact hemit _ insn rfl rfl
    | sub target opcode => exact hsub target
    | push target opcode count => exact hpush target count
    | lead effect kind opcode => exact hlead effect kind opcode rfl
    | undef opcode => exact hstop
    | foreign value => exact hthrow _

end

/-! ## Every move to a further unit reads some input -/

theorem forward_emit (site : Site) (insn : Insn) (unit : Nat) : Forward (emit site insn unit) :=
  forward_bind (forward_mnemonic _ _) fun _ =>
    forward_bind (Operand.forward_render _ _ _ _) fun _ => forward_pure _

theorem forward_defer (n : Nat) : Forward (defer n) := by
  induction n with
  | zero => exact forward_pure _
  | succ n ih => exact forward_bind forward_fetch fun _ => forward_bind (forward_push _) fun _ => ih

theorem forward_deferFor (target : String) (count : Int) : Forward (deferFor target count) :=
  forward_bind (forward_defer _) fun _ => forward_note _

theorem forward_applyEffect (site : Site) (effect : Operand) (kind : RefKind) (unit : Nat) :
    Forward (applyEffect site effect kind unit) :=
  forward_bind (forward_note _) fun _ => Operand.forward_render _ _ _ _

theorem forward_lookahead (seen : Option Nat) : Forward (lookahead seen) := by
  cases seen with
  | none => exact forward_peek
  | some _ => exact forward_pure _

theorem fetch_shortens {s t : Decoding} {unit : Nat} (h : fetch s = .ok unit t) :
    t.cursor.rest.length < s.cursor.rest.length := by
  obtain ⟨hle, -, rfl⟩ := fetch_reads h
  have hw : 0 < s.cursor.layout.width.size := by cases s.cursor.layout.width <;> decide
  simp only [Cursor.advance_rest_length]
  omega

/-- A fetch followed by anything shortens the input. -/
theorem fetch_bind_shortens {α : Type} {f : Nat → Decoder α} {s t : Decoding} {a : α}
    (hf : ∀ unit, Forward (f unit)) (h : (fetch >>= f) s = .ok a t) :
    t.cursor.rest.length < s.cursor.rest.length := by
  obtain ⟨unit, u, hu, h⟩ := Action.bind_eq_ok h
  exact Nat.lt_of_le_of_lt ((hf unit).le h) (fetch_shortens hu)

theorem forward_selectBy {look : Option Nat → Decoder Nat} (hlook : ∀ seen, Forward (look seen))
    (unit : Nat) (rules : List Rule) (seen : Option Nat) :
    Forward (selectBy look unit rules seen) := by
  induction rules generalizing seen with
  | nil => exact forward_pure _
  | cons rule rules ih =>
    rw [selectBy]
    split
    · split
      · exact forward_pure _
      · refine forward_bind (hlook seen) fun next => ?_
        split
        · exact forward_pure _
        · exact ih _
    · exact ih seen

theorem forward_carryOut (site : Site) (table : String) (unit : Nat) (rule : Option Rule) :
    Forward (carryOut site table unit rule) := by
  refine carryOut_induction (P := fun m => Forward (m site)) rule (forward_pure _)
    (fun _ _ _ _ => forward_emit _ _ _)
    (fun _ => forward_bind forward_fetch fun _ => forward_pure _) (fun _ _ => ?_)
      (fun _ _ _ _ => ?_) forward_throw
  · exact forward_bind (forward_deferFor _ _) fun _ => forward_bind forward_fetch fun _ =>
      forward_pure _
  · exact forward_bind (forward_applyEffect _ _ _ _) fun _ => forward_bind forward_fetch fun _ =>
      forward_pure _

theorem forward_scan (site : Site) (table : String) (unit : Nat) (rules : List Rule)
    (seen : Option Nat) : Forward (scan site table unit rules seen) := by
  rw [scan_eq_select]
  exact forward_bind (forward_selectBy forward_lookahead unit rules seen) fun _ =>
    forward_carryOut _ _ _ _

theorem carryOut_shortens {site : Site} {table : String} {unit : Nat} {rule : Option Rule}
    {s t : Decoding} {next : Next} (h : carryOut site table unit rule s = .ok next t)
    (hgo : next.goesOn = true) : t.cursor.rest.length < s.cursor.rest.length := by
  obtain ⟨v, further, hfetch, h⟩ := carryOut_cases h hgo
  have hlt := fetch_shortens hfetch
  rcases h with ⟨target, opcode, -, -, rfl⟩ | ⟨target, opcode, count, -, -, hv⟩
    | ⟨effect, kind, opcode, -, -, hv⟩
  · exact hlt
  · exact Nat.lt_of_lt_of_le hlt ((forward_deferFor target count).le hv)
  · exact Nat.lt_of_lt_of_le hlt ((forward_applyEffect site effect kind unit).le hv)

/-- The walk goes on only after reading some input. -/
theorem scan_shortens {site : Site} {table : String} {unit : Nat} {rules : List Rule}
    {seen : Option Nat} {s t : Decoding} {next : Next}
    (h : scan site table unit rules seen s = .ok next t) (hgo : next.goesOn = true) :
    t.cursor.rest.length < s.cursor.rest.length := by
  rw [scan_eq_select] at h
  obtain ⟨rule, u, hselect, hcarry⟩ := Action.bind_eq_ok h
  have hle := (forward_selectBy forward_lookahead unit rules seen).le hselect
  exact Nat.lt_of_lt_of_le (carryOut_shortens hcarry hgo) hle

/-- Follow the tables until the walk stops; whether it wrote an instruction. -/
def walk (arch : Architecture) (site : Site) (table : Table) (unit : Nat) : Decoder Bool := fun s =>
  match h : scan site table.name unit table.rules none s with
  | .error e t => .error e t
  | .ok (.stop found) t => .ok found t
  | .ok (.goto name further) t =>
    have := scan_shortens h rfl
    walk arch site (arch.table name) further t
  | .ok (.again further) t =>
    have := scan_shortens h rfl
    walk arch site table further t
termination_by s => s.cursor.rest.length

theorem forward_walk (arch : Architecture) (site : Site) (table : Table) (unit : Nat) :
    Forward (walk arch site table unit) := by
  intro s
  fun_induction walk arch site table unit s with
  | case1 table unit s e t h =>
    obtain ⟨a, ha, ea⟩ := forward_scan site table.name unit table.rules none s
    rw [h] at ea
    exact ⟨a, ha, ea⟩
  | case2 table unit s found t h =>
    obtain ⟨a, ha, ea⟩ := forward_scan site table.name unit table.rules none s
    rw [h] at ea
    exact ⟨a, ha, ea⟩
  | case3 table unit s name further t h hlt ih =>
    obtain ⟨a, ha, ea⟩ := forward_scan site table.name unit table.rules none s
    rw [h] at ea
    exact forward_trans ha ea ih
  | case4 table unit s further t h hlt ih =>
    obtain ⟨a, ha, ea⟩ := forward_scan site table.name unit table.rules none s
    rw [h] at ea
    exact forward_trans ha ea ih

end Walk

end Disassembler
