import Disassembler.Decoder.Instruction

/-!
Every operand, and everything that the rules of a table do, is composed of a few elementary steps.
What the elementary steps keep, and what a sequence passes on, is therefore kept by the whole of
decoding.
-/

namespace Disassembler

def Cursor.reading {α : Type} (count : Layout → Nat) (value : Layout → List UInt8 → α) :
    Action Cursor α :=
  fun c => (value c.layout <$> take (count c.layout)) c

theorem Cursor.readSigned_eq_reading :
    readSigned = reading (fun _ => 1) fun layout bytes => signed (layout.order.value bytes) := by
  funext c
  simp only [readSigned, readByte, reading, Functor.map, EStateM.map]
  cases take 1 c <;> rfl

namespace Decoder

variable {α β : Type} {site : Site} {kinds : RefKind → Prop}

def naming (value : Int) (shown : String) : Decoder Unit := do
  onOutput (Output.append (.address value shown ((← get).symbols.label? value)))

/-- A look ahead is counted before it is made. -/
theorem peek_eq (s : Decoding) : peek s = onCursor Cursor.peek { s with peeks := s.peeks + 1 } :=
  rfl

theorem address_eq_naming (site : Site) (kind : RefKind) (value : Int) (format wrap : String) :
    address site kind value format wrap = (do
      text (String.ofList (Text.splitAtHole wrap.toList).1)
      let shown ← Action.lift ((Text.fill format [.number value]).mapError .template)
      naming value shown
      text (String.ofList (Text.splitAtHole wrap.toList).2)
      record site value kind) := by
  simp only [address, naming, bind_assoc]

/-- Actions made of elementary steps. Of the symbol table they see only the labels that they write,
and they change it only by recording references of the given kinds from the site. -/
inductive Composed (site : Site) (kinds : RefKind → Prop) : {α : Type} → Decoder α → Prop where
  | pure {α : Type} (a : α) : Composed site kinds (pure a : Decoder α)
  | throw {α : Type} (fault : Fault) : Composed site kinds (throw fault : Decoder α)
  /-- only the results that the first action can give have to be followed up -/
  | chain {α β : Type} {m : Decoder α} {f : α → Decoder β} :
      Composed site kinds m → (∀ s a t, m s = .ok a t → Composed site kinds (f a)) →
        Composed site kinds (m >>= f)
  | read {α : Type} (count : Layout → Nat) (value : Layout → List UInt8 → α) :
      Composed site kinds (onCursor (Cursor.reading count value))
  | peek : Composed site kinds peek
  | here : Composed site kinds here
  | stack {α : Type} (m : Action Deferred α) : Composed site kinds (onStack m)
  | output (m : Action Output Unit) : Composed site kinds (onOutput m)
  | setEffect (key : String) (value : Value) : Composed site kinds (setEffect key value)
  | takeEffect (key : String) : Composed site kinds (takeEffect key)
  | note (message : String) : Composed site kinds (note message)
  | naming (value : Int) (shown : String) : Composed site kinds (naming value shown)
  | record (target : Int) (kind : RefKind) : kinds kind →
    Composed site kinds (record site target kind)

namespace Composed

theorem bind {m : Decoder α} {f : α → Decoder β} (hm : Composed site kinds m)
    (hf : ∀ a, Composed site kinds (f a)) : Composed site kinds (m >>= f) :=
  .chain hm fun _ a _ _ => hf a

theorem lift (r : Except Fault α) : Composed site kinds (Action.lift r) := by
  cases r with
  | ok a => exact .pure a
  | error fault => exact .throw fault

/-! ## Steps -/

theorem fetch : Composed site kinds fetch := .read (·.width.size) (·.order.value)

theorem readByte : Composed site kinds readByte := .read (fun _ => 1) (·.order.value)

theorem readWord : Composed site kinds readWord := .read (fun _ => 2) (·.order.value)

theorem readSigned : Composed site kinds readSigned := by
  unfold Decoder.readSigned
  rw [Cursor.readSigned_eq_reading]
  exact .read _ _

theorem write (template : String) (args : List Value) :
    Composed site kinds (write template args) := .output _

theorem mnemonic (name : String) : Composed site kinds (mnemonic site name) :=
  .bind (.takeEffect _) fun _ => .bind (.output _) fun _ => .output _

theorem address (kind : RefKind) (hk : kinds kind) (value : Int) (format wrap : String) :
    Composed site kinds (address site kind value format wrap) := by
  rw [address_eq_naming]
  exact .bind (.output _) fun _ => .bind (.lift _) fun _ => .bind (.naming _ _) fun _ =>
    .bind (.output _) fun _ => .record value kind hk

/-! ## Operands -/

theorem segment : Composed site kinds ModRM.segment := by
  refine .bind (.takeEffect _) fun name => ?_
  cases name with
  | none => exact .pure _
  | some _ => exact .write _ _

theorem absolute (kind : RefKind) (hk : kinds kind) (wide : Bool) :
    Composed site kinds (ModRM.absolute site kind wide) :=
  .bind .readWord fun _ => .bind .segment fun _ => .address kind hk _ _ _

theorem effectiveAddress (kind : RefKind) (hk : kinds kind) (wide : Bool) (mod rm : Nat) :
    Composed site kinds (ModRM.effectiveAddress site kind wide mod rm) := by
  unfold ModRM.effectiveAddress
  split
  · exact .write _ _
  split
  · exact .absolute kind hk wide
  split
  · exact .bind .segment fun _ => .write _ _
  split
  · exact .bind .readByte fun _ => .bind .segment fun _ => .write _ _
  · exact .bind .readWord fun _ => .bind .segment fun _ => .write _ _

theorem modrm (kind : RefKind) (hk : kinds kind) (opcode : Nat) :
    Composed site kinds (ModRM.operands site kind opcode) := by
  refine .bind .readByte fun byte => ?_
  have memory : ∀ mod rm, Composed site kinds
      (ModRM.effectiveAddress site kind (ModRM.Form.ofOpcode opcode).wide mod rm) :=
    fun mod rm => effectiveAddress kind hk _ mod rm
  have register : ∀ n, Composed site kinds ((ModRM.Form.ofOpcode opcode).register n) :=
    fun n => .write _ _
  split
  · exact memory _ _
  split
  · exact .bind (register _) fun _ => .bind (.output _) fun _ => memory _ _
  · exact .bind (memory _ _) fun _ => .bind (.output _) fun _ => register _

theorem groupImmediate (opcode : Nat) : Composed site kinds (ModRM.immediate opcode) := by
  unfold ModRM.immediate
  split
  · exact .bind .readWord fun _ => .write _ _
  split
  · exact .bind .readSigned fun _ => .write _ _
  · exact .bind .readByte fun _ => .write _ _

theorem offset (register : String) (displacement : Nat) :
    Composed site kinds (Operand.offset register displacement) := by
  unfold Operand.offset
  split <;> exact .write _ _

theorem relative (kind : RefKind) (hk : kinds kind) (displacement bits : Nat)
    (format wrap : String) :
    Composed site kinds (Operand.relative site kind displacement bits format wrap) :=
  .bind .here fun _ => .address kind hk _ _ _

/-- An operand makes references of its own kind only. -/
theorem render (kind : RefKind) (hk : kinds kind) (selector : Nat) (o : Operand) :
    Composed site kinds (o.render site kind selector) := by
  induction o with
  | none => exact .pure _
  | literal s => exact .output _
  | pair first separator second hfirst hsecond =>
    exact .bind hfirst fun _ => .bind (.output _) fun _ => hsecond
  | imm8 template => exact .bind .readByte fun _ => .write _ _
  | imm16 template => exact .bind .readWord fun _ => .write _ _
  | abs8 format wrap => exact .bind .readByte fun _ => .address kind hk _ _ _
  | abs16 format wrap => exact .bind .readWord fun _ => .address kind hk _ _ _
  | rel8 format wrap => exact .bind .readByte fun _ => .relative kind hk _ _ _ _
  | rel16 format wrap => exact .bind .readWord fun _ => .relative kind hk _ _ _ _
  | deferred template => exact .bind (.stack _) fun _ => .write _ _
  | opcode template => exact .write _ _
  | unit template => exact .bind .fetch fun _ => .write _ _
  | peek template => exact .bind .peek fun _ => .write _ _
  | push => exact .stack _
  | set key value => exact .setEffect _ _
  | take key fallback => exact .bind (.takeEffect _) fun _ => .output _
  | refer => exact .record _ _ hk
  | field shift width names => exact .write _ _
  | indexed register => exact .bind .readByte fun _ => .offset _ _
  | indexedDeferred register => exact .bind (.stack _) fun _ => .offset _ _
  | skip => exact .bind .readByte fun _ => .pure _
  | direct => exact .absolute kind hk _
  | farPointer => exact .bind .readWord fun _ => .bind .readWord fun _ => .write _ _
  | modrm => exact .modrm kind hk _
  | groupImmediate => exact .groupImmediate _

end Composed

end Decoder

/-! ## Rules and tables -/

def Rule.kind? : Rule → Option RefKind
  | exact insn _ => some insn.kind
  | range insn _ _ => some insn.kind
  | mask insn _ _ => some insn.kind
  | maskNext insn _ _ _ => some insn.kind
  | memMod insn _ _ _ => some insn.kind
  | lead _ kind _ => some kind
  | _ => none

theorem Rule.kind?_of_written? {rule : Rule} {insn : Insn} (h : rule.written? = some insn) :
    rule.kind? = some insn.kind := by
  cases rule <;> cases h <;> rfl

namespace Architecture

inductive Reaches (arch : Architecture) : Table → Prop where
  | root : arch.Reaches arch.root
  | follow {table : Table} {rule : Rule} {name : String} :
      arch.Reaches table → rule ∈ table.rules → rule.target? = some name →
      arch.Reaches (arch.table name)

/-- A table that decoding can come to is one of the machine, or it has no rules. -/
theorem Reaches.mem {arch : Architecture} {table : Table} (h : arch.Reaches table) :
    table ∈ arch.root :: arch.pages ∨ table.rules = [] := by
  cases h with
  | root => exact .inl List.mem_cons_self
  | @follow _ _ name _ _ _ =>
    unfold Architecture.table
    cases hnamed : Table.named? (arch.root :: arch.pages) name with
    | none => exact .inr rfl
    | some t => exact .inl (List.mem_of_find?_eq_some hnamed)

/-- Some rule that decoding can come to makes references of a kind. -/
def Mentions (arch : Architecture) (kind : RefKind) : Prop :=
  ∃ table rule, arch.Reaches table ∧ rule ∈ table.rules ∧ rule.kind? = some kind

end Architecture

namespace Decoder.Composed

open Walk

variable {site : Site} {kinds : RefKind → Prop}

theorem emit (insn : Insn) (hk : kinds insn.kind) (unit : Nat) :
    Composed site kinds (emit site insn unit) :=
  .bind (.mnemonic _) fun _ => .bind (.render _ hk _ _) fun _ => .pure _

theorem defer (n : Nat) : Composed site kinds (defer n) := by
  induction n with
  | zero => exact .pure _
  | succ n ih => exact .bind .fetch fun _ => .bind (.stack _) fun _ => ih

theorem deferFor (target : String) (count : Int) : Composed site kinds (deferFor target count) :=
  .bind (.defer _) fun _ => .note _

theorem lookahead (seen : Option Nat) : Composed site kinds (lookahead seen) := by
  cases seen with
  | none => exact .peek
  | some _ => exact .pure _

theorem selectBy {look : Option Nat → Decoder Nat} (hlook : ∀ seen, Composed site kinds (look seen))
    (unit : Nat) (rules : List Rule) (seen : Option Nat) :
    Composed site kinds (selectBy look unit rules seen) := by
  induction rules generalizing seen with
  | nil => exact .pure _
  | cons rule rules ih =>
    rw [Walk.selectBy]
    split
    · split
      · exact .pure _
      · refine .bind (hlook seen) fun next => ?_
        split
        · exact .pure _
        · exact ih _
    · exact ih seen

/-- A rule makes references of its own kind only. -/
theorem carryOut (table : String) (unit : Nat) (rule : Option Rule)
    (hk : ∀ r kind, rule = some r → r.kind? = some kind → kinds kind) :
    Composed site kinds (carryOut site table unit rule) := by
  refine carryOut_induction (P := fun m => Composed site kinds (m site)) rule (.pure _)
    (fun r insn hr hinsn => ?_)
    (fun _ => .bind .fetch fun _ => .pure _) (fun _ _ => ?_)
      (fun effect kind opcode hr => ?_) .throw
  · exact .emit _ (hk r _ hr (Rule.kind?_of_written? hinsn)) _
  · exact .bind (.deferFor _ _) fun _ => .bind .fetch fun _ => .pure _
  · refine .bind ?_ fun _ => .bind .fetch fun _ => .pure _
    exact .bind (.note _) fun _ => .render _ (hk _ kind hr rfl) _ _

/-- The rules of a table make references of their own kinds only. -/
theorem scan (table : String) (unit : Nat) (rules : List Rule) (seen : Option Nat)
    (hk : ∀ rule ∈ rules, ∀ kind, rule.kind? = some kind → kinds kind) :
    Composed site kinds (scan site table unit rules seen) := by
  rw [scan_eq_select]
  refine .chain (.selectBy .lookahead unit rules seen) fun s rule t hselect => ?_
  refine .carryOut table unit rule fun r kind hr hkind => ?_
  subst hr
  exact hk r (mem_of_selectBy hselect).1 kind hkind

end Decoder.Composed

namespace Walk

variable {arch : Architecture} {site : Site}

/-- A table is entered through a rule that leads to it. -/
theorem scan_goto {table : String} {unit : Nat} {rules : List Rule} {seen : Option Nat}
    {s t : Decoding} {name : String} {further : Nat}
    (h : scan site table unit rules seen s = .ok (.goto name further) t) :
    ∃ rule ∈ rules, rule.target? = some name := by
  rw [scan_eq_select] at h
  obtain ⟨rule, u, hselect, hcarry⟩ := Action.bind_eq_ok h
  obtain ⟨v, fetched, -, h⟩ := carryOut_cases hcarry rfl
  rcases h with ⟨target, opcode, rfl, hnext, -⟩ | ⟨target, opcode, count, rfl, hnext, -⟩
    | ⟨_, _, _, -, hnext, -⟩
  · cases hnext
    exact ⟨_, (mem_of_selectBy hselect).1, rfl⟩
  · cases hnext
    exact ⟨_, (mem_of_selectBy hselect).1, rfl⟩
  · cases hnext

/-- The walk, given up after `n` units. It is composed of elementary steps for every `n`, and where
`n` is larger than what is left of the input it is the walk itself. -/
def walkUpTo (arch : Architecture) (site : Site) : Nat → Table → Nat → Decoder Bool
  | 0, _, _ => throw .noTables
  | n + 1, table, unit => do
    match ← scan site table.name unit table.rules none with
    | .stop found => return found
    | .goto name further => walkUpTo arch site n (arch.table name) further
    | .again further => walkUpTo arch site n table further

/-- One table of the walk, and then the rest of it. -/
theorem walk_eq_bind (table : Table) (unit : Nat) (s : Decoding) :
    walk arch site table unit s = (do
      match ← scan site table.name unit table.rules none with
      | .stop found => return found
      | .goto name further => walk arch site (arch.table name) further
      | .again further => walk arch site table further : Decoder Bool) s := by
  rw [walk]
  split
  · next e t h => rw [Action.bind_of_error _ h]
  · next found t h => rw [Action.bind_of_ok _ h]; rfl
  · next name further t h => rw [Action.bind_of_ok _ h]
  · next further t h => rw [Action.bind_of_ok _ h]

theorem walk_eq_walkUpTo (table : Table) (unit n : Nat) (s : Decoding)
    (hn : s.cursor.rest.length < n) :
    walk arch site table unit s = walkUpTo arch site n table unit s := by
  induction n generalizing table unit s with
  | zero => omega
  | succ n ih =>
    rw [walk_eq_bind, walkUpTo]
    cases h : scan site table.name unit table.rules none s with
    | error e t => rw [Action.bind_of_error _ h, Action.bind_of_error _ h]
    | ok next t =>
      rw [Action.bind_of_ok _ h, Action.bind_of_ok _ h]
      cases next with
      | stop found => rfl
      | goto name further =>
        have hlt := scan_shortens h rfl
        exact ih _ _ _ (by omega)
      | again further =>
        have hlt := scan_shortens h rfl
        exact ih _ _ _ (by omega)

theorem composed_walkUpTo (n : Nat) {table : Table} (ht : arch.Reaches table) (unit : Nat) :
    Decoder.Composed site arch.Mentions (walkUpTo arch site n table unit) := by
  induction n generalizing table unit with
  | zero => exact .throw _
  | succ n ih =>
    refine .chain (.scan _ _ _ _ fun rule hr kind hk => ⟨table, rule, ht, hr, hk⟩) fun s next t h =>
      ?_
    cases next with
    | stop found => exact .pure _
    | goto name further =>
      obtain ⟨rule, hr, hname⟩ := scan_goto h
      exact ih (.follow ht hr hname) further
    | again further => exact ih ht further

end Walk

/-! ## Instructions -/

namespace Decoder

variable {arch : Architecture} {site : Site} {kinds : RefKind → Prop}

theorem Composed.settle (found : Bool) : Composed site kinds (settle site found) := by
  cases found with
  | true => exact .pure _
  | false => exact .bind (.note _) fun _ => .mnemonic _

def bodyUpTo (arch : Architecture) (site : Site) (n : Nat) : Decoder Bool := do
  let unit ← fetch
  let found ← Walk.walkUpTo arch site n arch.root unit
  settle site found
  return found

theorem composed_bodyUpTo (arch : Architecture) (site : Site) (n : Nat) :
    Composed site arch.Mentions (bodyUpTo arch site n) :=
  .bind .fetch fun unit => .bind (Walk.composed_walkUpTo n .root unit) fun _ =>
    .bind (.settle _) fun _ => .pure _

theorem instruction_eq_bodyUpTo (balance : Bool) {n : Nat} {s : Decoding}
    (hn : s.cursor.rest.length < n) :
    instruction arch balance site s = (bodyUpTo arch site n >>= conclude balance site) s := by
  have hwalk : ∀ unit t, fetch s = .ok unit t →
      Walk.walk arch site arch.root unit t = Walk.walkUpTo arch site n arch.root unit t := by
    intro unit t h
    have hlt := Walk.fetch_shortens h
    exact Walk.walk_eq_walkUpTo _ _ _ _ (by omega)
  simp only [instruction, bodyUpTo, bind_assoc, pure_bind]
  cases hf : fetch s with
  | error e t => rw [Action.bind_of_error _ hf, Action.bind_of_error _ hf]
  | ok unit t =>
    rw [Action.bind_of_ok _ hf, Action.bind_of_ok _ hf]
    cases hw : Walk.walkUpTo arch site n arch.root unit t with
    | error e u => rw [Action.bind_of_error _ hw, Action.bind_of_error _ ((hwalk _ _ hf).trans hw)]
    | ok found u => rw [Action.bind_of_ok _ hw, Action.bind_of_ok _ ((hwalk _ _ hf).trans hw)]

theorem conclude_eq_ok {balance : Bool} {found : Bool} {s t : Decoding} {i : Instruction}
    (h : conclude balance site found s = .ok i t) :
    t = s ∧
    i = ⟨Text.trimEnd s.out.toString, site.address, s.cursor.addr, s.cursor.captured, found⟩ := by
  unfold conclude at h
  split at h
  · cases h
  · cases h
    exact ⟨rfl, rfl⟩

end Decoder

end Disassembler
