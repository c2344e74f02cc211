import Disassembler.Proofs.Decoder.References
import Disassembler.Proofs.Decoder.Selection

/-!
When references are made. An operand refers to an address after it has read and written that
address, so it makes one reference at most, and none if the input ends within it. Two operands in a
row keep to that if the first of them refers to nothing, or if the second neither refers to anything
nor reads. A machine keeps to it if all operands of its rules do.
-/

namespace Disassembler

/-- At most one reference has been appended, and it comes from `source`. -/
def SymbolTable.OneMore (source : Int) (before after : SymbolTable) : Prop :=
  after = before ∨ ∃ target kind, kind ≠ RefKind.none ∧ before.inRange target = true ∧
    after = before.append ⟨target, source, kind⟩

theorem SymbolTable.oneMore_record (t : SymbolTable) (target source : Int) (kind : RefKind) :
    t.OneMore source (t.record target source kind) := by
  by_cases hkind : kind = .none
  · exact .inl (record_eq_self (.inl hkind))
  cases hrange : t.inRange target with
  | false => exact .inl (record_eq_self (.inr hrange))
  | true => exact .inr ⟨target, kind, hkind, hrange, record_eq_append hkind hrange⟩

/-! ## Actions for which the input is long enough -/

namespace Action

variable {σ τ α β : Type}

def Fed (m : Action σ α) : Prop := ∀ s address t, m s ≠ .error (.endOfInput address) t

theorem fed_pure (a : α) : Fed (pure a : Action σ α) := fun s address t h => by cases h

theorem fed_modify (f : σ → σ) : Fed (modify f : Action σ PUnit) := fun s address t h => by cases h

theorem Fed.bind {m : Action σ α} {f : α → Action σ β} (hm : Fed m) (hf : ∀ a, Fed (f a)) :
    Fed (m >>= f) := by
  intro s address t h
  rcases bind_eq_error h with h | ⟨a, u, -, h⟩
  · exact hm s address t h
  · exact hf a u address t h

theorem Fed.on {get : σ → τ} {put : τ → σ → σ} {m : Action τ α} (hm : Fed m) :
    Fed (Action.on get put m) := by
  intro s address t h
  simp only [Action.on] at h
  cases hpart : m (get s) with
  | ok a u =>
    rw [hpart] at h
    cases h
  | error fault u =>
    rw [hpart] at h
    cases h
    exact hm _ _ _ hpart

/-- A failure that has been given another name is not the end of the input. -/
theorem fed_lift_mapError {ε : Type} {r : Except ε α} {f : ε → Fault}
    (hf : ∀ e address, f e ≠ .endOfInput address) : Fed (lift (r.mapError f) : Action σ α) := by
  intro s address t h
  cases r with
  | ok a => cases h
  | error e =>
    change EStateM.Result.error (f e) s = _ at h
    injection h with hfault
    exact hf e address hfault

end Action

namespace Output

open Disassembler.Action (Fed fed_pure fed_lift_mapError)

theorem fed_append (token : Token) : Fed (append token) := by
  refine Fed.bind ?_ fun _ => ?_
  · cases token with
    | mnemonic name width => exact fed_lift_mapError fun _ _ h => by cases h
    | separator | text | address => exact fed_pure ()
  · intro o address o' h
    unfold offer at h
    split at h
    · cases h
    · cases h

theorem fed_text (s : String) : Fed (text s) := by
  unfold text
  split
  · exact fed_pure ()
  · exact fed_append _

theorem fed_value (v : Value) : Fed (value v) := by
  cases v with
  | text s => exact fed_text s
  | _ =>
    intro o address o' h
    simp only [value] at h
    split at h
    · cases h
    · cases h

theorem fed_write (template : String) (args : List Value) : Fed (write template args) :=
  (fed_lift_mapError fun _ _ h => by cases h).bind fun s => fed_text s

end Output

/-! ## At most one reference, and that at the end -/

namespace Decoder

open Disassembler.Action (Fed fed_pure fed_modify)

variable {α β : Type} {site : Site} {kind : RefKind}

def Quiet (m : Decoder α) : Prop := Keeps (·.symbols) m

theorem Composed.quiet {m : Decoder α} (h : Composed site (RefKind.none = ·) m) : Quiet m := by
  intro s
  obtain ⟨ms, hms, hgrown⟩ := h.grows s
  have hnone : ms = [] := List.eq_nil_iff_forall_not_mem.mpr fun m hm =>
    (hms m hm).kind (hms m hm).known.symm
  rw [hnone] at hgrown
  exact hgrown

theorem quiet_onOutput (m : Action Output α) : Quiet (onOutput m) := by
  intro s
  simp only [onOutput, Action.on]
  split <;> rfl

/-- An outcome with at most one more reference from `source`, and with none if it is the end of the
input. -/
structure Spared (source : Int) (before : SymbolTable)
    (r : EStateM.Result Fault Decoding α) : Prop where
  once : before.OneMore source (Action.outcome r).2.symbols
  late : ∀ {address t}, r = .error (.endOfInput address) t → t.symbols = before

theorem Spared.error {source : Int} {before : SymbolTable} {fault : Fault} {t : Decoding}
    (h : Spared source before (.error fault t : EStateM.Result Fault Decoding α)) :
    Spared source before (.error fault t : EStateM.Result Fault Decoding β) :=
  ⟨h.once, fun {address u} hend => by cases hend; exact h.late rfl⟩

def Sparing (site : Site) (m : Decoder α) : Prop := ∀ s, Spared site.address s.symbols (m s)

theorem Quiet.sparing {m : Decoder α} (hm : Quiet m) : Sparing site m :=
  fun s => ⟨.inl (hm s), fun h => hm.of_error h⟩

theorem sparing_record (target : Int) : Sparing site (record site target kind) :=
  fun s => ⟨s.symbols.oneMore_record target site.address kind, fun h => by cases h⟩

/-- Whatever refers to nothing may come first. -/
theorem Sparing.after {m : Decoder α} {f : α → Decoder β} (hm : Quiet m)
    (hf : ∀ s a t, m s = .ok a t → Sparing site (f a)) : Sparing site (m >>= f) := by
  intro s
  cases h : m s with
  | error fault t =>
    rw [Action.bind_of_error _ h]
    exact (h ▸ hm.sparing s).error
  | ok a t =>
    rw [Action.bind_of_ok _ h, ← hm.of_ok h]
    exact hf s a t h t

theorem Sparing.bind {m : Decoder α} {f : α → Decoder β} (hm : Composed site (RefKind.none = ·) m)
    (hf : ∀ a, Sparing site (f a)) : Sparing site (m >>= f) :=
  .after hm.quiet fun _ a _ _ => hf a

/-- Whatever neither refers to anything nor reads may follow. -/
theorem Sparing.before {m : Decoder α} {f : α → Decoder β} (hm : Sparing site m)
    (hquiet : ∀ a, Quiet (f a)) (hfed : ∀ a, Fed (f a)) : Sparing site (m >>= f) := by
  intro s
  have hs := hm s
  cases h : m s with
  | error fault t =>
    rw [h] at hs
    rw [Action.bind_of_error _ h]
    exact hs.error
  | ok a t =>
    rw [h] at hs
    rw [Action.bind_of_ok _ h]
    have hsame : (Action.outcome (f a t)).2.symbols = t.symbols := hquiet a t
    refine ⟨?_, fun {address u} hend => absurd hend (hfed a t address u)⟩
    rw [hsame]
    exact hs.once

/-- What follows may read as well, as far as the number of references goes. -/
theorem Sparing.once_bind {m : Decoder α} {f : α → Decoder β} (hm : Sparing site m)
    (hquiet : ∀ a, Quiet (f a)) (s : Decoding) :
    s.symbols.OneMore site.address (Action.outcome ((m >>= f) s)).2.symbols := by
  have hs := (hm s).once
  cases h : m s with
  | error fault t =>
    rw [h] at hs
    rw [Action.bind_of_error _ h]
    exact hs
  | ok a t =>
    have hsame : (Action.outcome (f a t)).2.symbols = t.symbols := hquiet a t
    rw [h] at hs
    rw [Action.bind_of_ok _ h, hsame]
    exact hs

/-! ## Steps -/

theorem fed_onOutput {m : Action Output α} (hm : Fed m) : Fed (onOutput m) := hm.on

theorem fed_push (unit : Int) : Fed (push unit) := by
  refine Fed.on fun d address e h => ?_
  unfold Deferred.push at h
  split at h
  · cases h
  · cases h

theorem fed_pop : Fed pop := by
  refine Fed.on fun d address e h => ?_
  unfold Deferred.pop at h
  split at h
  · cases h
  · cases h

theorem fed_takeEffect (key : String) : Fed (takeEffect key) := fun s address t h => by cases h

theorem fed_separator (s : String) : Fed (separator s) := fed_onOutput (Output.fed_append _)

theorem fed_write (template : String) (args : List Value) : Fed (write template args) :=
  fed_onOutput (Output.fed_write _ _)

theorem fed_number (template : String) (value : Int) : Fed (number template value) := fed_write _ _

theorem fed_mnemonic (name : String) : Fed (mnemonic site name) :=
  (fed_takeEffect _).bind fun _ => (fed_onOutput (Output.fed_value _)).bind fun _ =>
    fed_onOutput (Output.fed_append _)

theorem quiet_mnemonic (name : String) : Quiet (mnemonic site name) :=
  (Composed.mnemonic name).quiet

theorem sparing_address (value : Int) (format wrap : String) :
    Sparing site (address site kind value format wrap) := by
  rw [address_eq_naming]
  exact .bind (.output _) fun _ => .bind (.lift _) fun _ => .bind (.naming _ _) fun _ =>
    .bind (.output _) fun _ => sparing_record value

end Decoder

/-! ## Operands -/

namespace ModRM

open Decoder

variable {site : Site} {kind : RefKind}

theorem sparing_absolute (wide : Bool) : Sparing site (absolute site kind wide) :=
  .bind .readWord fun _ => .bind .segment fun _ => sparing_address _ _ _

/-- A memory operand refers to an address only if its fields say that the address follows. -/
theorem quiet_effectiveAddress {wide : Bool} {mod rm : Nat} (h : ¬ (mod = 0 ∧ rm = 6)) :
    Quiet (effectiveAddress site kind wide mod rm) := by
  have hsame : effectiveAddress site kind wide mod rm =
      effectiveAddress site .none wide mod rm := by
    unfold effectiveAddress
    rw [if_neg h, if_neg h]
  rw [hsame]
  exact (Composed.effectiveAddress .none rfl wide mod rm).quiet

theorem sparing_effectiveAddress (wide : Bool) (mod rm : Nat) :
    Sparing site (effectiveAddress site kind wide mod rm) := by
  by_cases h : mod = 0 ∧ rm = 6
  · unfold effectiveAddress
    rw [if_neg (by omega), if_pos h]
    exact sparing_absolute wide
  · exact (quiet_effectiveAddress h).sparing

theorem sparing_operands (opcode : Nat) : Sparing site (operands site kind opcode) := by
  refine .bind .readByte fun modrm => ?_
  have hmemory : ∀ mod rm,
      Sparing site (effectiveAddress site kind (Form.ofOpcode opcode).wide mod rm) :=
    fun mod rm => sparing_effectiveAddress _ mod rm
  have hregister : ∀ n, Composed site (RefKind.none = ·) ((Form.ofOpcode opcode).register n) :=
    fun n => .write _ _
  split
  · exact hmemory _ _
  split
  · exact .bind (hregister _) fun _ => .bind (.output _) fun _ => hmemory _ _
  · refine (hmemory _ _).before (fun _ => ?_) fun _ => ?_
    · exact (Composed.bind (.output _) fun _ => hregister _).quiet
    · exact (fed_separator _).bind fun _ => fed_write _ _

end ModRM

namespace Operand

open Decoder
open Disassembler.Action (Fed fed_pure fed_modify)

variable {site : Site} {kind : RefKind} {selector : Nat} {o : Operand}

def refers : Operand → Bool
  | pair first _ second => first.refers || second.refers
  | abs8 _ _ => true
  | abs16 _ _ => true
  | rel8 _ _ => true
  | rel16 _ _ => true
  | refer => true
  | direct => true
  | modrm => true
  | _ => false

def reads : Operand → Bool
  | none => false
  | literal _ => false
  | pair first _ second => first.reads || second.reads
  | deferred _ => false
  | opcode _ => false
  | push => false
  | set _ _ => false
  | take _ _ => false
  | refer => false
  | field _ _ _ => false
  | indexedDeferred _ => false
  | _ => true

def quiet (kind : RefKind) (o : Operand) : Bool := kind = .none || !o.refers

/-- The operand makes one reference of a kind at most, and reads nothing after that. -/
def sparing (kind : RefKind) : Operand → Bool
  | pair first _ second =>
    first.quiet kind && second.sparing kind || first.sparing kind &&
      (second.quiet kind && !second.reads)
  | _ => true

theorem render_pair (first : Operand) (separator : String) (second : Operand) :
    (pair first separator second).render site kind selector = (do
      first.render site kind selector
      Decoder.separator separator
      second.render site kind selector) := rfl

/-- The kind of its references makes no difference to an operand that makes none. -/
theorem render_of_not_refers (h : o.refers = false) :
    o.render site kind selector = o.render site .none selector := by
  induction o with
  | pair first separator second ih₁ ih₂ =>
    obtain ⟨h₁, h₂⟩ := Bool.or_eq_false_iff.mp h
    rw [render_pair, render_pair, ih₁ h₁, ih₂ h₂]
  | abs8 | abs16 | rel8 | rel16 | refer | direct | modrm => cases h
  | _ => rfl

theorem quiet_render (h : o.quiet kind = true) : Quiet (o.render site kind selector) := by
  rcases Bool.or_eq_true_iff.mp h with hkind | hrefers
  · rw [of_decide_eq_true hkind]
    exact (Composed.render .none rfl selector o).quiet
  · rw [render_of_not_refers (by simpa using hrefers)]
    exact (Composed.render .none rfl selector o).quiet

theorem fed_offset (register : String) (displacement : Nat) :
    Fed (offset register displacement) := by
  unfold offset
  split
  · exact fed_write _ _
  · exact fed_write _ _

theorem fed_render (h : o.reads = false) : Fed (o.render site kind selector) := by
  induction o with
  | none => exact fed_pure ()
  | literal s => exact fed_onOutput (Output.fed_text s)
  | pair first separator second ih₁ ih₂ =>
    obtain ⟨h₁, h₂⟩ := Bool.or_eq_false_iff.mp h
    exact (ih₁ h₁).bind fun _ => (fed_separator _).bind fun _ => ih₂ h₂
  | deferred template => exact fed_pop.bind fun _ => fed_number _ _
  | opcode template => exact fed_number _ _
  | push => exact fed_push _
  | set key value => exact fed_modify _
  | take key fallback => exact (fed_takeEffect key).bind fun _ => fed_onOutput (Output.fed_value _)
  | refer => exact fed_modify _
  | field shift width names => exact fed_write _ _
  | indexedDeferred register => exact fed_pop.bind fun _ => fed_offset _ _
  | _ => cases h

theorem sparing_render (h : o.sparing kind = true) :
    Sparing site (o.render site kind selector) := by
  induction o with
  | pair first separator second ih₁ ih₂ =>
    rcases Bool.or_eq_true_iff.mp h with h | h
    · obtain ⟨h₁, h₂⟩ := Bool.and_eq_true_iff.mp h
      exact .after (quiet_render h₁) fun _ _ _ _ => .bind (.output _) fun _ => ih₂ h₂
    · obtain ⟨h₁, h₂⟩ := Bool.and_eq_true_iff.mp h
      obtain ⟨hquiet, hreads⟩ := Bool.and_eq_true_iff.mp h₂
      refine (ih₁ h₁).before (fun _ => ?_) fun _ => ?_
      · exact Keeps.bind (quiet_onOutput _) fun _ => quiet_render hquiet
      · exact (fed_separator _).bind fun _ => fed_render (by simpa using hreads)
  | abs8 format wrap => exact .bind .readByte fun _ => sparing_address _ _ _
  | abs16 format wrap => exact .bind .readWord fun _ => sparing_address _ _ _
  | rel8 format wrap => exact .bind .readByte fun _ => .bind .here fun _ => sparing_address _ _ _
  | rel16 format wrap => exact .bind .readWord fun _ => .bind .here fun _ => sparing_address _ _ _
  | refer => exact sparing_record _
  | direct => exact ModRM.sparing_absolute _
  | modrm => exact ModRM.sparing_operands _
  | _ => exact (quiet_render (Bool.or_eq_true_iff.mpr (.inr rfl))).sparing

end Operand

/-! ## Rules and tables -/

/-- The rule makes one reference at most, and reads nothing after that; if it sends the walk on, it
makes none. -/
def Rule.sparing : Rule → Bool
  | exact insn _ => insn.operand.sparing insn.kind
  | range insn _ _ => insn.operand.sparing insn.kind
  | mask insn _ _ => insn.operand.sparing insn.kind
  | maskNext insn _ _ _ => insn.operand.sparing insn.kind
  | memMod insn _ _ _ => insn.operand.sparing insn.kind
  | lead effect kind _ => effect.quiet kind
  | _ => true

theorem Rule.sparing_of_written? {rule : Rule} {insn : Insn} (h : rule.written? = some insn)
    (hsparing : rule.sparing = true) : insn.operand.sparing insn.kind = true := by
  cases rule <;> cases h <;> exact hsparing

def Architecture.sparing (arch : Architecture) : Bool :=
  (arch.root :: arch.pages).all (·.rules.all Rule.sparing)

namespace Walk

open Decoder
open Disassembler.Action (Fed fed_pure)

variable {arch : Architecture} {site : Site} {table : String} {unit : Nat} {rules : List Rule}
    {seen : Option Nat}
  {s t : Decoding}

theorem quiet_fetch : Quiet fetch := by
  intro s
  simp only [fetch, onCursor, Action.on]
  split <;> rfl

theorem quiet_deferFor (target : String) (count : Int) : Quiet (deferFor target count) :=
  Composed.quiet (.deferFor target count : Composed {} _ _)

theorem quiet_applyEffect {effect : Operand} {kind : RefKind} (h : effect.quiet kind = true) :
    Quiet (applyEffect site effect kind unit) :=
  Keeps.bind (fun _ => rfl) fun _ => Operand.quiet_render h

theorem quiet_select : Quiet (selectBy lookahead unit rules seen) :=
  keeps_select (fun _ _ => rfl) unit rules seen

theorem sparing_emit {insn : Insn} (h : insn.operand.sparing insn.kind = true) :
    Sparing site (emit site insn unit) :=
  .after (quiet_mnemonic _) fun _ _ _ _ =>
    (Operand.sparing_render h).before (fun _ => keeps_pure _) fun _ => fed_pure _

theorem sparing_carryOut {rule : Rule} (h : rule.sparing = true) :
    Sparing site (carryOut site table unit (some rule)) := by
  refine carryOut_induction (P := fun m => Sparing site (m site)) (some rule)
    (Quiet.sparing (keeps_pure _))
    (fun r insn hr hinsn => ?_)
      (fun target => Quiet.sparing (quiet_fetch.bind fun _ => keeps_pure _))
    (fun target count => ?_) (fun effect kind opcode hr => ?_) fun fault =>
      Quiet.sparing fun _ => rfl
  · cases hr
    exact sparing_emit (Rule.sparing_of_written? hinsn h)
  · exact Quiet.sparing ((quiet_deferFor target count).bind fun _ => quiet_fetch.bind fun _ =>
      keeps_pure _)
  · cases hr
    exact Quiet.sparing ((quiet_applyEffect h).bind fun _ => quiet_fetch.bind fun _ => keeps_pure _)

/-- Only the rules that accept the unit count. -/
theorem sparing_scan (h : ∀ rule ∈ rules, rule.accepts unit = true → rule.sparing = true) :
    Sparing site (scan site table unit rules seen) := by
  rw [scan_eq_select]
  refine .after quiet_select fun s rule t hselect => ?_
  cases rule with
  | none => exact Quiet.sparing (keeps_pure _)
  | some rule =>
    obtain ⟨hmem, haccepts⟩ := mem_of_selectBy hselect
    exact sparing_carryOut (h rule hmem haccepts)

/-- Nothing has been referred to where the walk goes on. -/
theorem symbols_of_goesOn {next : Next} (h : ∀ rule ∈ rules, rule.sparing = true)
    (hscan : scan site table unit rules seen s = .ok next t) (hgo : next.goesOn = true) :
    t.symbols = s.symbols := by
  rw [scan_eq_select] at hscan
  obtain ⟨rule, u, hselect, hcarry⟩ := Action.bind_eq_ok hscan
  cases rule with
  | none => cases hcarry; cases hgo
  | some rule =>
    refine (carryOut_keeps hcarry hgo quiet_fetch quiet_deferFor
      fun effect kind opcode hrule => ?_).trans
      (quiet_select.of_ok hselect)
    subst hrule
    exact quiet_applyEffect (h _ (mem_of_selectBy hselect).1)

theorem sparing_walk (h : ∀ table, arch.Reaches table → ∀ rule ∈ table.rules, rule.sparing = true)
    {table : Table} (htable : arch.Reaches table) : Sparing site (walk arch site table unit) := by
  have hscanned : ∀ {table unit s}, arch.Reaches table →
      Spared site.address s.symbols (scan site table.name unit table.rules none s) :=
    fun htable => sparing_scan (fun rule hr _ => h _ htable rule hr) _
  intro s
  revert htable
  fun_induction walk arch site table unit s with
  | case1 table unit s fault t hscan =>
    intro htable
    exact (hscan ▸ hscanned htable).error
  | case2 table unit s found t hscan =>
    intro htable
    exact ⟨(hscan ▸ hscanned htable).once, fun hend => by cases hend⟩
  | case3 table unit s name further t hscan _ ih =>
    intro htable
    obtain ⟨rule, hr, hname⟩ := scan_goto hscan
    rw [← symbols_of_goesOn (h table htable) hscan rfl]
    exact ih (.follow htable hr hname)
  | case4 table unit s further t hscan _ ih =>
    intro htable
    rw [← symbols_of_goesOn (h table htable) hscan rfl]
    exact ih htable

end Walk

/-! ## Instructions -/

namespace Decoder

open Disassembler.Action (Fed fed_pure)

variable {site : Site}

theorem quiet_closing (balance : Bool) (site : Site) (found : Bool) :
    Quiet (settle site found >>= fun _ => conclude balance site found) :=
  Keeps.bind (Composed.settle found).quiet fun _ s =>
    congrArg _ (conclude_state balance site found s)

theorem fed_closing (balance : Bool) (site : Site) (found : Bool) :
    Fed (settle site found >>= fun _ => conclude balance site found) := by
  refine Fed.bind ?_ fun _ => ?_
  · cases found with
    | true => exact fed_pure ()
    | false => exact (Action.fed_modify _).bind fun _ => fed_mnemonic _
  · intro s address t h
    unfold conclude at h
    split at h
    · cases h
    · cases h

/-- The references of an instruction, on a machine whose rules make one reference at most and that
at the end. -/
theorem sparing_instruction {arch : Architecture} (h : arch.sparing = true) (balance : Bool) :
    Sparing site (instruction arch balance site) := by
  have hrules : ∀ table, arch.Reaches table → ∀ rule ∈ table.rules, rule.sparing = true := by
    intro table htable rule hr
    rcases htable.mem with hmem | hnone
    · exact List.all_eq_true.mp (List.all_eq_true.mp h table hmem) rule hr
    · rw [hnone] at hr
      cases hr
  refine .after Walk.quiet_fetch fun _ unit _ _ => ?_
  exact (Walk.sparing_walk hrules .root).before (quiet_closing balance site)
    (fed_closing balance site)

end Decoder

end Disassembler
