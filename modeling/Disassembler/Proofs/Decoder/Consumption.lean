import Disassembler.Proofs.Decoder.Passage
import Disassembler.Proofs.Decoder.Selection
import Mathlib.Algebra.Ring.Nat

/-!
What an instruction that no rule matches takes from the input. The walk has gone through some tables
before it gives up, and every rule that sent it on has a price in units: the unit that the walk goes
on with, and before that the units that are deferred. Looks ahead are free. If prefixes read
nothing, these prices and the first unit are all that is read; if they neither write nor refer to
anything, all that is left is the text in front of the mnemonic.
-/

namespace Disassembler

/-- The units that a rule reads when it sends the walk on. -/
def Rule.toll : Rule → Nat
  | sub _ _ => 1
  | push _ _ count => count.toNat + 1
  | lead _ _ _ => 1
  | _ => 0

def pendingText : Option Value → String
  | some (.text s) => s
  | _ => ""

def leadText (effects : List (String × Value)) : String := pendingText (effects.lookup "lead")

/-- All prefixes that decoding can come to are carried out by actions with a property. -/
def Architecture.Prefixes (arch : Architecture) (P : Decoder Unit → Prop) : Prop :=
  ∀ table effect kind opcode, arch.Reaches table → .lead effect kind opcode ∈ table.rules →
    ∀ (site : Site) (unit : Nat), (unit : Int) = opcode → P (effect.render site kind unit)

theorem Architecture.prefixes_of_forall {arch : Architecture} {P : Decoder Unit → Prop}
    (h : ∀ table ∈ arch.root :: arch.pages, ∀ effect kind opcode,
      .lead effect kind opcode ∈ table.rules → ∀ site unit, P (effect.render site kind unit)) :
    arch.Prefixes P := by
  intro table effect kind opcode hreaches hmem site unit _
  rcases hreaches.mem with htable | hnone
  · exact h table htable effect kind opcode hmem site unit
  · rw [hnone] at hmem
    cases hmem

namespace Decoder

variable {α : Type} {s t : Decoding}

def Silent (m : Decoder α) : Prop := Keeps (fun s => (s.out, s.symbols)) m

theorem silent_onCursor (m : Action Cursor α) : Silent (onCursor m) := by
  intro s
  simp only [onCursor, Action.on]
  split <;> rfl

theorem silent_onStack (m : Action Deferred α) : Silent (onStack m) := by
  intro s
  simp only [onStack, Action.on]
  split <;> rfl

theorem silent_note (message : String) : Silent (note message) := fun _ => rfl

end Decoder

/-! ## Rules on the way -/

namespace Walk

open Decoder

variable {arch : Architecture} {site : Site}

/-- Deferring reads as many units as are deferred. -/
theorem defer_reads {n : Nat} {s t : Decoding} (h : defer n s = .ok () t) :
    t.cursor = s.cursor.advance (n * s.cursor.layout.width.size) := by
  induction n generalizing s with
  | zero =>
    cases h
    rw [Nat.zero_mul, Cursor.advance_zero]
  | succ n ih =>
    obtain ⟨unit, u, hfetch, h⟩ := Action.bind_eq_ok h
    obtain ⟨_, v, hpush, h⟩ := Action.bind_eq_ok h
    have hu := (fetch_advances hfetch).2
    have hv : v.cursor = u.cursor := Keeps.of_ok (still_onStack _) hpush
    rw [ih h, hv, hu, Cursor.advance_advance, Nat.succ_mul, Nat.add_comm]
    rfl

theorem silent_defer (n : Nat) : Silent (defer n) := by
  induction n with
  | zero => exact keeps_pure ()
  | succ n ih => exact (silent_onCursor _).bind fun _ => (silent_onStack _).bind fun _ => ih

/-- A rule that sends the walk on reads its toll, if it is no prefix that reads on its own. -/
theorem carryOut_reads {table : String} {unit : Nat} {rule : Rule} {s t : Decoding} {next : Next}
    (h : carryOut site table unit (some rule) s = .ok next t) (hgo : next.goesOn = true)
    (hstill : ∀ effect kind opcode, rule = .lead effect kind opcode →
      Still (effect.render site kind unit)) :
    t.cursor = s.cursor.advance (rule.toll * s.cursor.layout.width.size) := by
  obtain ⟨v, further, hfetch, h⟩ := carryOut_cases h hgo
  have ht := (fetch_advances hfetch).2
  rcases h with ⟨target, opcode, hrule, -, rfl⟩ | ⟨target, opcode, count, hrule, -, hv⟩ |
    ⟨effect, kind, opcode, hrule, -, hv⟩
  · cases hrule
    rw [ht, Rule.toll, Nat.one_mul]
  · cases hrule
    obtain ⟨_, w, hdefer, hnote⟩ := Action.bind_eq_ok hv
    cases hnote
    have hw := defer_reads hdefer
    rw [ht]
    change (w.cursor).advance w.cursor.layout.width.size = _
    rw [hw, Cursor.advance_advance, Rule.toll, Nat.succ_mul]
    rfl
  · cases hrule
    have hv : v.cursor = s.cursor :=
      Keeps.of_ok (Keeps.bind (fun _ => rfl) fun _ => hstill effect kind opcode rfl) hv
    rw [ht, hv, Rule.toll, Nat.one_mul]

theorem carryOut_silent {table : String} {unit : Nat} {rule : Rule} {s t : Decoding} {next : Next}
    (h : carryOut site table unit (some rule) s = .ok next t) (hgo : next.goesOn = true)
    (hsilent : ∀ effect kind opcode, rule = .lead effect kind opcode →
      Silent (effect.render site kind unit)) :
    (t.out, t.symbols) = (s.out, s.symbols) := by
  refine carryOut_keeps h hgo (silent_onCursor _)
    (fun target count => ?_) fun effect kind opcode hrule => ?_
  · exact (silent_defer _).bind fun _ => silent_note _
  · exact (silent_note _).bind fun _ => hsilent effect kind opcode hrule

inductive Taken (arch : Architecture) (site : Site) (p : Position) (rule : Rule) :
    Position → Prop where
  | goto {name : String} {further : Nat} {u t : Decoding}
      (hselect : selectBy lookahead p.unit p.table.rules none p.state = .ok (some rule) u)
      (hcarry : carryOut site p.table.name p.unit (some rule) u = .ok (.goto name further) t) :
      Taken arch site p rule ⟨arch.table name, further, t⟩
  | again {further : Nat} {u t : Decoding}
      (hselect : selectBy lookahead p.unit p.table.rules none p.state = .ok (some rule) u)
      (hcarry : carryOut site p.table.name p.unit (some rule) u = .ok (.again further) t) :
      Taken arch site p rule ⟨p.table, further, t⟩

/-- `Trail arch site p rules q`: the walk comes from `p` to `q` by taking `rules` one after the
other. -/
inductive Trail (arch : Architecture) (site : Site) : Position → List Rule → Position → Prop where
  | here (p : Position) : Trail arch site p [] p
  | step {p q r : Position} {rule : Rule} {rules : List Rule} (first : Taken arch site p rule q)
      (rest : Trail arch site q rules r) : Trail arch site p (rule :: rules) r

/-- Every transition is made by a rule. -/
theorem Transition.taken {p q : Position} (h : Transition arch site p q) :
    ∃ rule, Taken arch site p rule q := by
  have hselected : ∀ {next t}, p.tried site = .ok next t → next.goesOn = true →
      ∃ rule u, selectBy lookahead p.unit p.table.rules none p.state = .ok (some rule) u ∧
        carryOut site p.table.name p.unit (some rule) u = .ok next t := by
    intro next t htried hgo
    rw [Position.tried, scan_eq_select] at htried
    obtain ⟨rule, u, hselect, hcarry⟩ := Action.bind_eq_ok htried
    cases rule with
    | none => cases hcarry; cases hgo
    | some rule => exact ⟨rule, u, hselect, hcarry⟩
  cases h with
  | goto h =>
    obtain ⟨rule, u, hselect, hcarry⟩ := hselected h rfl
    exact ⟨rule, .goto hselect hcarry⟩
  | again h =>
    obtain ⟨rule, u, hselect, hcarry⟩ := hselected h rfl
    exact ⟨rule, .again hselect hcarry⟩

theorem Course.trail {n : Nat} {p q : Position} (h : Course arch site n p q) :
    ∃ rules, Trail arch site p rules q := by
  induction h with
  | here p => exact ⟨[], .here p⟩
  | step first _ ih =>
    obtain ⟨rule, hrule⟩ := first.taken
    obtain ⟨rules, hrules⟩ := ih
    exact ⟨rule :: rules, .step hrule hrules⟩

/-- Tables that decoding can come to lead to such tables, and a prefix taken there is one of
theirs. -/
theorem Taken.reaches {p q : Position} {rule : Rule} (h : Taken arch site p rule q)
    (hp : arch.Reaches p.table) :
    arch.Reaches q.table ∧ ∀ P, arch.Prefixes P →
      ∀ effect kind opcode, rule = .lead effect kind opcode →
        P (effect.render site kind p.unit) := by
  have hprefix : ∀ {u}, selectBy lookahead p.unit p.table.rules none p.state = .ok (some rule) u →
      ∀ P, arch.Prefixes P →
        ∀ effect kind opcode, rule = .lead effect kind opcode →
          P (effect.render site kind p.unit) := by
    rintro u hselect P hP effect kind opcode rfl
    obtain ⟨hmem, haccepts⟩ := mem_of_selectBy hselect
    exact hP _ _ _ _ hp hmem _ _ (by simpa [Rule.accepts] using haccepts)
  cases h with
  | @goto name further u t hselect hcarry =>
    refine ⟨?_, hprefix hselect⟩
    obtain ⟨v, k, -, h⟩ := carryOut_cases hcarry rfl
    rcases h with ⟨target, opcode, hrule, hnext, -⟩ | ⟨target, opcode, count, hrule, hnext, -⟩
      | ⟨_, _, _, _, hnext, -⟩
    · cases hrule
      cases hnext
      exact .follow hp (mem_of_selectBy hselect).1 rfl
    · cases hrule
      cases hnext
      exact .follow hp (mem_of_selectBy hselect).1 rfl
    · cases hnext
  | again hselect hcarry => exact ⟨hp, hprefix hselect⟩

theorem Taken.carriedOut {p q : Position} {rule : Rule} (h : Taken arch site p rule q) :
    ∃ u next, selectBy lookahead p.unit p.table.rules none p.state = .ok (some rule) u ∧
      carryOut site p.table.name p.unit (some rule) u = .ok next q.state ∧ next.goesOn = true := by
  cases h with
  | goto hselect hcarry => exact ⟨_, _, hselect, hcarry, rfl⟩
  | again hselect hcarry => exact ⟨_, _, hselect, hcarry, rfl⟩

theorem Taken.reads (hstill : arch.Prefixes Still) {p q : Position} {rule : Rule}
    (h : Taken arch site p rule q) (hp : arch.Reaches p.table) :
    q.state.cursor = p.state.cursor.advance (rule.toll * p.size) := by
  obtain ⟨u, next, hselect, hcarry, hgo⟩ := h.carriedOut
  have hu : u.cursor = p.state.cursor := (keeps_select (fun _ _ => rfl) _ _ _).of_ok hselect
  rw [carryOut_reads hcarry hgo ((h.reaches hp).2 _ hstill), hu, Position.size]

theorem Taken.silent (hsilent : arch.Prefixes Silent) {p q : Position} {rule : Rule}
    (h : Taken arch site p rule q) (hp : arch.Reaches p.table) :
    (q.state.out, q.state.symbols) = (p.state.out, p.state.symbols) := by
  obtain ⟨u, next, hselect, hcarry, hgo⟩ := h.carriedOut
  have hquiet : Silent (selectBy lookahead p.unit p.table.rules none) :=
    keeps_select (fun _ _ => rfl) _ _ _
  exact (carryOut_silent hcarry hgo ((h.reaches hp).2 _ hsilent)).trans (hquiet.of_ok hselect)

/-- Along a trail the tolls add up. -/
theorem Trail.reads (hstill : arch.Prefixes Still) {p q : Position} {rules : List Rule}
    (h : Trail arch site p rules q) (hp : arch.Reaches p.table) :
    q.state.cursor = p.state.cursor.advance ((rules.map Rule.toll).sum * p.size) := by
  induction h with
  | here p => rw [List.map_nil, List.sum_nil, Nat.zero_mul, Cursor.advance_zero]
  | @step p q r rule rules first rest ih =>
    have hq := first.reads hstill hp
    have hsize : q.size = p.size := by rw [Position.size, hq, Cursor.advance, Position.size]
    rw [ih (first.reaches hp).1, hq, hsize, Cursor.advance_advance, ← Nat.add_mul, List.map_cons,
      List.sum_cons]

theorem Trail.silent (hsilent : arch.Prefixes Silent) {p q : Position} {rules : List Rule}
    (h : Trail arch site p rules q) (hp : arch.Reaches p.table) :
    (q.state.out, q.state.symbols) = (p.state.out, p.state.symbols) := by
  induction h with
  | here p => rfl
  | step first rest ih => exact (ih (first.reaches hp).1).trans (first.silent hsilent hp)

/-- Where a walk gives up, only looks ahead have been made. -/
theorem state_of_unmatched {p : Position} {t : Decoding} (h : p.tried site = .ok (.stop false) t) :
    t = { p.state with peeks := t.peeks } := by
  rw [Position.tried, scan_eq_select] at h
  obtain ⟨rule, u, hselect, hcarry⟩ := Action.bind_eq_ok h
  have hkeeps : Keeps (fun s => { s with peeks := 0 })
      (selectBy lookahead p.unit p.table.rules none) :=
    keeps_select (fun _ _ => rfl) _ _ _
  have hu : u = { p.state with peeks := u.peeks } :=
    congrArg (fun s : Decoding => { s with peeks := u.peeks }) (hkeeps.of_ok hselect)
  have hemit : ∀ {insn : Insn}, emit site insn p.unit u ≠ .ok (.stop false) t := fun h => by
    cases emit_stops h
  cases rule with
  | none => cases hcarry; exact hu
  | some rule =>
    cases rule with
    | exact insn opcode => exact absurd hcarry hemit
    | range insn low high => exact absurd hcarry hemit
    | mask insn mask value => exact absurd hcarry hemit
    | maskNext insn opcode mask value => exact absurd hcarry hemit
    | memMod insn mode opcodes mask => exact absurd hcarry hemit
    | sub target opcode =>
      obtain ⟨_, _, _, h⟩ := Action.bind_eq_ok hcarry
      cases h
    | push target opcode count =>
      obtain ⟨_, _, _, h⟩ := Action.bind_eq_ok hcarry
      obtain ⟨_, _, _, h⟩ := Action.bind_eq_ok h
      cases h
    | lead effect kind opcode =>
      obtain ⟨_, _, _, h⟩ := Action.bind_eq_ok hcarry
      obtain ⟨_, _, _, h⟩ := Action.bind_eq_ok h
      cases h
    | undef opcode => cases hcarry; exact hu
    | foreign value => cases hcarry

end Walk

/-! ## The instruction -/

namespace Output

/-- A value that is not text is written as nothing, or it cannot be written. -/
theorem adds_value (v : Option Value) :
    Adds (pendingText v).toList (value (v.getD .nothing)) := by
  cases v with
  | none => exact adds_pure
  | some v =>
    cases v with
    | text s => exact adds_text s
    | _ =>
      intro o o' a h
      simp only [Option.getD_some, value] at h
      split at h
      · exact adds_pure o o' a h
      · cases h

end Output

namespace Decoder

/-- The mnemonic stands behind the text that a prefix has left for it. -/
theorem mnemonic_eq_ok {site : Site} {name : String} {s t : Decoding} {a : Unit}
    (h : mnemonic site name s = .ok a t) :
    t.cursor = s.cursor ∧ t.symbols = s.symbols ∧
      t.out.toString.toList = s.out.toString.toList ++ ((leadText s.effects).toList ++
        name.toList.rightpad site.mnemonicWidth.toNat ' ') := by
  obtain ⟨lead, u, htake, h⟩ := Action.bind_eq_ok h
  cases htake
  obtain ⟨_, v, hvalue, h⟩ := Action.bind_eq_ok h
  obtain ⟨o₁, hlead, rfl⟩ := onOutput_eq_ok hvalue
  obtain ⟨o₂, hname, rfl⟩ := onOutput_eq_ok h
  refine ⟨rfl, rfl, ?_⟩
  have h₁ := Output.adds_value _ _ _ _ hlead
  have h₂ := Output.adds_append _ _ _ _ hname
  rw [h₂, h₁, List.append_assoc]
  simp [Token.toString, leadText]

theorem settle_unmatched {site : Site} {s t : Decoding} {a : Unit}
    (h : settle site false s = .ok a t) :
    t.cursor = s.cursor ∧ t.symbols = s.symbols ∧
      t.out.toString.toList = s.out.toString.toList ++ ((leadText s.effects).toList ++
        unknownMnemonic.toList.rightpad site.mnemonicWidth.toNat ' ') := by
  obtain ⟨_, u, hnote, hmnemonic⟩ := Action.bind_eq_ok h
  cases hnote
  exact (mnemonic_eq_ok hmnemonic :)

end Decoder

/-- An instruction comes from its first unit, the walk behind it and what is written if that finds
nothing. -/
theorem decode_steps {arch : Architecture} {balance : Bool} {cursor : Cursor}
    {symbols : SymbolTable} {i : Instruction}
    (h : (decode arch balance cursor symbols).result = .ok i) :
    ∃ unit s t u, Decoder.fetch (.start cursor symbols) = .ok unit s ∧
      Walk.walk arch (arch.site cursor) arch.root unit s = .ok i.found t ∧
      Decoder.settle (arch.site cursor) i.found t = .ok () u ∧
      (decode arch balance cursor symbols).cursor = u.cursor ∧
      (decode arch balance cursor symbols).symbols = u.symbols ∧
      i = ⟨Text.trimEnd u.out.toString, cursor.addr, u.cursor.addr, u.cursor.captured,
        i.found⟩ := by
  unfold decode at h ⊢
  cases hi : Decoder.instruction arch balance (arch.site cursor) (.start cursor symbols) with
  | error fault u => rw [hi] at h; cases h
  | ok j u =>
    rw [hi] at h
    cases h
    obtain ⟨unit, s, hfetch, hi⟩ := Action.bind_eq_ok hi
    obtain ⟨found, t, hwalk, hi⟩ := Action.bind_eq_ok hi
    obtain ⟨_, v, hsettle, hi⟩ := Action.bind_eq_ok hi
    obtain ⟨rfl, rfl⟩ := Decoder.conclude_eq_ok hi
    exact ⟨unit, s, t, u, hfetch, hwalk, hsettle, rfl, rfl, rfl⟩

/-- Blanks behind the mnemonic of an unrecognised instruction do not show. -/
theorem trimEnd_unknown {s lead : String} {width : Nat}
    (h : s.toList = lead.toList ++ unknownMnemonic.toList.rightpad width ' ') :
    Text.trimEnd s = lead ++ "???" := by
  have hshown : lead.toList ++ unknownMnemonic.toList = (lead.toList ++ ['?', '?']) ++ ['?'] := by
    rw [List.append_assoc]
    rfl
  rw [Text.trimEnd, h, List.rightpad, ← List.append_assoc,
    Text.dropEndBlanks_append_replicate, hshown,
    Text.dropEndBlanks_concat _ (by decide), ← hshown, ← String.toList_append, String.ofList_toList]
  rfl

/-- An unrecognised instruction, for a machine whose prefixes read nothing. The walk has come from
the first unit to a table that gives up, by some rules that sent it on; one unit and the tolls of
these rules are what has been read. If the prefixes neither write nor refer to anything either, the
text is what the last of them left for the mnemonic, followed by `???`, and no reference has been
recorded. -/
theorem decode_unrecognised (arch : Architecture) (balance : Bool) (cursor : Cursor)
    (symbols : SymbolTable) (i : Instruction) (hstill : arch.Prefixes Decoder.Still)
    (hresult : (decode arch balance cursor symbols).result = .ok i) (hfound : i.found = false) :
    ∃ unit s rules q t, Decoder.fetch (.start cursor symbols) = .ok unit s ∧
      Walk.Trail arch (arch.site cursor) ⟨arch.root, unit, s⟩ rules q ∧
      q.tried (arch.site cursor) = .ok (.stop false) t ∧
      (decode arch balance cursor symbols).cursor =
        cursor.beginInstruction.advance ((1 + (rules.map Rule.toll).sum) *
          cursor.layout.width.size) ∧
      i.length = (1 + (rules.map Rule.toll).sum) * cursor.layout.width.size ∧
      (arch.Prefixes Decoder.Silent →
        i.text = leadText q.state.effects ++ "???" ∧
        (decode arch balance cursor symbols).symbols = symbols) := by
  obtain ⟨unit, s, t, u, hfetch, hwalk, hsettle, hcursor, hsymbols, hi⟩ := decode_steps hresult
  obtain ⟨n, q, hcourse, hend⟩ := Walk.exists_course arch (arch.site cursor) ⟨arch.root, unit, s⟩
  obtain ⟨rules, htrail⟩ := hcourse.trail
  rw [hwalk, hfound] at hend
  cases hend with
  | unmatched htried =>
    rw [hfound] at hsettle
    obtain ⟨hu, hrefs, htext⟩ := Decoder.settle_unmatched hsettle
    have ht := Walk.state_of_unmatched htried
    have hread : u.cursor =
        cursor.beginInstruction.advance ((1 + (rules.map Rule.toll).sum) *
          cursor.layout.width.size) := by
      have hs : s.cursor = cursor.beginInstruction.advance cursor.layout.width.size :=
        (Decoder.fetch_advances hfetch).2
      have hq := htrail.reads hstill .root
      rw [hu, ht, hq, Walk.Position.size]
      simp only [hs, Cursor.advance_advance]
      rw [Nat.add_mul, Nat.one_mul]
      rfl
    refine ⟨unit, s, rules, q, t, hfetch, htrail, htried, hcursor.trans hread, ?_,
      fun hsilent => ?_⟩
    · rw [hi, Instruction.length, hread]
      simp only [Cursor.advance, Cursor.beginInstruction]
      push_cast
      omega
    · have hstart : (s.out, s.symbols) = (({} : Output), symbols) :=
        (Decoder.silent_onCursor _).of_ok hfetch
      obtain ⟨hout, hsame⟩ := Prod.mk.inj ((htrail.silent hsilent .root).trans hstart)
      refine ⟨?_, by rw [hsymbols, hrefs, ht, hsame]⟩
      rw [ht, hout] at htext
      rw [hi]
      exact trimEnd_unknown htext

/-- Behind a prefix, two deferred bytes and another table, a look ahead rules out the only
instruction there is. -/
theorem decode_unrecognised_paged :
    let arch : Architecture := ⟨⟨"toy", "Toy CPU", 8, 8, .little, 1⟩,
      ⟨"main", [.lead (.set "lead" (.text "REP ")) .none 0xF3, .push "page" 0x10 2]⟩,
      [⟨"page", [.push "last" 0x02 (-1)]⟩,
        ⟨"last", [.maskNext ⟨"OUT", .none, .none⟩ 0x77 0x0F 0x02, .undef 0x77]⟩]⟩
    let cursor := Cursor.start ⟨.byte, .little, 8⟩ [0xF3, 0x10, 0xAA, 0xBB, 0x02, 0x77, 0x01] 0x400
    arch.Prefixes Decoder.Still ∧ arch.Prefixes Decoder.Silent ∧
      ∃ i s rules q, (decode arch true cursor {}).result = .ok i ∧ i.found = false ∧
        Walk.Trail arch (arch.site cursor) ⟨arch.root, 0xF3, s⟩ rules q ∧
        (rules.map Rule.toll).sum = 5 ∧
        i.length = 6 ∧ i.text = "REP ???" ∧ (decode arch true cursor {}).symbols = {} := by
  intro arch cursor
  have hset : ∀ {P : Decoder Unit → Prop}, (∀ key value, P (Decoder.setEffect key value)) →
      arch.Prefixes P := by
    intro P hP
    refine Architecture.prefixes_of_forall fun table htable effect kind opcode hmem site unit => ?_
    simp only [arch, List.mem_cons, List.not_mem_nil, or_false] at htable
    rcases htable with rfl | rfl | rfl <;> simp at hmem
    obtain ⟨rfl, -, -⟩ := hmem
    exact hP _ _
  have hstill : arch.Prefixes Decoder.Still := hset fun _ _ _ => rfl
  have hsilent : arch.Prefixes Decoder.Silent := hset fun _ _ _ => rfl
  have hresult : (decode arch true cursor {}).result.toOption =
      some ⟨"REP ???", 0x400, 0x406, [0xF3, 0x10, 0xAA, 0xBB, 0x02, 0x77], false⟩ := by
        decide +kernel
  refine ⟨hstill, hsilent, ?_⟩
  cases hd : (decode arch true cursor {}).result with
  | error fault => rw [hd] at hresult; cases hresult
  | ok i =>
    rw [hd] at hresult
    cases hresult
    obtain ⟨unit, s, rules, q, t, hfetch, htrail, -, -, hlength, htext⟩ :=
      decode_unrecognised arch true cursor {} _ hstill hd rfl
    cases hfetch
    refine ⟨_, _, rules, q, rfl, rfl, htrail, ?_, rfl, rfl, (htext hsilent).2⟩
    have hsize : cursor.layout.width.size = 1 := rfl
    rw [hsize] at hlength
    change (6 : Int) = _ at hlength
    omega

end Disassembler
