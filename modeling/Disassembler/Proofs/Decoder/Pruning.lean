import Disassembler.Proofs.Decoder.Progress
import Disassembler.Proofs.Decoder.Within
import Mathlib.Algebra.Group.Nat.Defs
import Mathlib.Data.List.Forall2

/-!
Rules that no unit comes to can be taken out of the tables. A rule is dead if every unit that it
accepts is decided by a rule in front of it. Decoding with the tables that are left gives the same
instruction or fault and leaves the same cursor, symbols, looks ahead and log, however the tables
lead to each other.
-/

namespace Disassembler

def UnitWidth.values : UnitWidth → Nat
  | .byte => 256
  | .word => 65536

namespace Rule

/-- Whether the rule lets no unit that it accepts go on to the rules after it. A rule with a test on
the next unit may; something foreign is no rule. -/
def decides : Rule → Bool
  | exact .. => true
  | range .. => true
  | mask .. => true
  | maskNext .. => false
  | memMod .. => false
  | sub .. => true
  | push .. => true
  | lead .. => true
  | undef _ => true
  | foreign _ => false

/-- No unit below `bound` that the rule accepts gets past the rules in `kept`. -/
def Dead (bound : Nat) (kept : List Rule) (rule : Rule) : Prop :=
  ∀ unit < bound, rule.accepts unit = true → ∃ r ∈ kept, r.decides = true ∧ r.accepts unit = true

instance (bound : Nat) (kept : List Rule) (rule : Rule) : Decidable (rule.Dead bound kept) :=
  inferInstanceAs (Decidable (∀ unit < bound, rule.accepts unit = true →
    ∃ r ∈ kept, r.decides = true ∧ r.accepts unit = true))

/-- `Pruned bound kept rules rest`: behind the rules in `kept`, `rest` are `rules` without some dead
ones. -/
inductive Pruned (bound : Nat) : List Rule → List Rule → List Rule → Prop where
  | nil {kept : List Rule} : Pruned bound kept [] []
  | keep {kept rules rest : List Rule} (rule : Rule) (h : Pruned bound (rule :: kept) rules rest) :
      Pruned bound kept (rule :: rules) (rule :: rest)
  | drop {kept rules rest : List Rule} {rule : Rule} (hdead : rule.Dead bound kept)
      (h : Pruned bound kept rules rest) : Pruned bound kept (rule :: rules) rest

end Rule

/-- The same table without some dead rules. -/
structure Table.Pruned (bound : Nat) (table reduced : Table) : Prop where
  name : reduced.name = table.name
  rules : Rule.Pruned bound [] table.rules reduced.rules

structure Architecture.Pruned (width : UnitWidth) (arch reduced : Architecture) : Prop where
  profile : reduced.profile = arch.profile
  root : arch.root.Pruned width.values reduced.root
  pages : List.Forall₂ (Table.Pruned width.values) arch.pages reduced.pages

def Next.unit? : Next → Option Nat
  | stop _ => none
  | goto _ unit => some unit
  | again unit => some unit

/-! ## One table -/

namespace Walk

open Decoder

variable {site : Site}

/-- The unit that has not been decided by the rules in front does not notice the dead ones. -/
theorem scan_pruned {bound : Nat} {kept rules rest : List Rule}
    (h : Rule.Pruned bound kept rules rest) (table : String) {unit : Nat} (hunit : unit < bound)
    (hkept : ∀ r ∈ kept, r.decides = true → r.accepts unit = false) (seen : Option Nat) :
    scan site table unit rest seen = scan site table unit rules seen := by
  induction h generalizing seen with
  | nil => rfl
  | @keep kept rules rest rule _ ih =>
    have hpassed : (rule.decides = true → rule.accepts unit = false) →
        ∀ seen, scan site table unit rest seen = scan site table unit rules seen := by
      intro hrule
      apply ih
      intro r hr
      rcases List.mem_cons.mp hr with rfl | hr
      · exact hrule
      · exact hkept r hr
    simp only [scan]
    by_cases ha : rule.accepts unit = true
    · rw [if_pos ha, if_pos ha]
      cases rule with
      | maskNext insn opcode mask value =>
        simp only [hpassed fun hd => absurd hd Bool.false_ne_true]
      | memMod insn mode opcodes mask => simp only [hpassed fun hd => absurd hd Bool.false_ne_true]
      | _ => rfl
    · rw [if_neg ha, if_neg ha]
      exact hpassed (fun _ => Bool.eq_false_iff.mpr ha) seen
  | @drop kept rules rest rule hdead _ ih =>
    have ha : ¬ rule.accepts unit = true := by
      intro ha
      obtain ⟨r, hr, hdecides, haccepts⟩ := hdead unit hunit ha
      rw [hkept r hr hdecides] at haccepts
      cases haccepts
    rw [ih hkept seen]
    simp only [scan, if_neg ha]

theorem scan_table {bound : Nat} {table reduced : Table} (h : table.Pruned bound reduced)
    {unit : Nat} (hunit : unit < bound) :
    scan site reduced.name unit reduced.rules none =
      scan site table.name unit table.rules none := by
  rw [h.name]
  exact scan_pruned h.rules table.name hunit (fun _ hr => absurd hr List.not_mem_nil) none

/-! ## Units along the walk -/

theorem fetch_lt {s t : Decoding} {unit : Nat} (h : fetch s = .ok unit t) :
    unit < t.cursor.layout.width.values := by
  obtain ⟨hle, rfl, rfl⟩ := fetch_reads h
  have hlt := s.cursor.layout.order.value_lt (s.cursor.rest.take s.cursor.layout.width.size)
  rw [List.length_take, Nat.min_eq_left hle] at hlt
  cases hw : s.cursor.layout.width
    <;> simpa [hw, UnitWidth.size, UnitWidth.values, Cursor.advance] using hlt

theorem unit?_of_onward? {rule : Rule} {further : Nat} {next : Next}
    (h : rule.onward? further = some next) : next.unit? = some further := by
  cases rule <;> cases h <;> rfl

/-- The unit that the walk goes on with is the last that was fetched. -/
theorem scan_fetches {table : String} {unit : Nat} {rules : List Rule} {seen : Option Nat}
    {s t : Decoding} {next : Next} {further : Nat}
    (h : scan site table unit rules seen s = .ok next t) (hnext : next.unit? = some further) :
    ∃ u, fetch u = .ok further t := by
  have hgo : next.goesOn = true := by
    cases next with
    | stop found => cases hnext
    | goto | again => rfl
  obtain ⟨rule, -, -, n, u, fetched, -, -, hfetch, honward⟩ := scan_sentOn h hgo
  obtain rfl : fetched = further := Option.some.inj ((unit?_of_onward? honward).symm.trans hnext)
  exact ⟨u, hfetch⟩

theorem layout_of_forward {α : Type} {m : Decoder α} (hm : Forward m) {s t : Decoding} {a : α}
    (h : m s = .ok a t) : t.cursor.layout = s.cursor.layout := by
  obtain ⟨n, -, hn⟩ := hm s
  rw [h] at hn
  change t.cursor = s.cursor.advance n at hn
  rw [hn, Cursor.advance]

/-- The unit that the walk goes on with has a value that units can have. -/
theorem scan_unit_lt {table : String} {unit : Nat} {rules : List Rule} {seen : Option Nat}
    {s t : Decoding} {next : Next} {further : Nat}
    (h : scan site table unit rules seen s = .ok next t) (hnext : next.unit? = some further) :
    further < t.cursor.layout.width.values ∧ t.cursor.layout = s.cursor.layout := by
  obtain ⟨u, hu⟩ := scan_fetches h hnext
  exact ⟨fetch_lt hu, layout_of_forward (forward_scan _ _ _ _ _) h⟩

end Walk

/-! ## The graph of the tables -/

theorem Table.named?_pruned {bound : Nat} {tables reduced : List Table}
    (h : List.Forall₂ (Table.Pruned bound) tables reduced) (name : String) :
    Option.Rel (Table.Pruned bound) (named? tables name) (named? reduced name) := by
  induction h with
  | nil => exact .none
  | @cons t u ts us ht _ ih =>
    unfold named? at ih ⊢
    by_cases hname : t.name = name
    · simpa [ht.name, hname] using Option.Rel.some ht
    · simpa [ht.name, hname] using ih

/-- Every name stands for a table and for the same table without some dead rules. -/
theorem Architecture.Pruned.table {width : UnitWidth} {arch reduced : Architecture}
    (h : arch.Pruned width reduced) (name : String) :
    (arch.table name).Pruned width.values (reduced.table name) := by
  have hnamed := Table.named?_pruned (.cons h.root h.pages) name
  unfold Architecture.table
  generalize Table.named? (arch.root :: arch.pages) name = t at hnamed
  generalize Table.named? (reduced.root :: reduced.pages) name = u at hnamed
  cases hnamed with
  | none => exact ⟨rfl, .nil⟩
  | some ht => exact ht

namespace Walk

open Decoder

variable {arch reduced : Architecture}

/-- The two walks go through the tables side by side. -/
theorem walk_pruned {width : UnitWidth} (h : arch.Pruned width reduced) (site : Site)
    {table less : Table} {unit : Nat} {s : Decoding} (htable : table.Pruned width.values less)
    (hunit : unit < width.values) (hwidth : s.cursor.layout.width = width) :
    walk reduced site less unit s = walk arch site table unit s := by
  fun_induction walk arch site table unit s generalizing less with
  | case1 table unit s e t hscan =>
    rw [walk_eq_bind, Action.bind_of_error _ ((congrFun (scan_table htable hunit) s).trans hscan)]
  | case2 table unit s found t hscan =>
    rw [walk_eq_bind, Action.bind_of_ok _ ((congrFun (scan_table htable hunit) s).trans hscan)]
    rfl
  | case3 table unit s name further t hscan _ ih =>
    obtain ⟨hfurther, hlayout⟩ := scan_unit_lt hscan rfl
    rw [hlayout, hwidth] at hfurther
    rw [walk_eq_bind, Action.bind_of_ok _ ((congrFun (scan_table htable hunit) s).trans hscan)]
    exact ih (h.table name) hfurther (hlayout ▸ hwidth)
  | case4 table unit s further t hscan _ ih =>
    obtain ⟨hfurther, hlayout⟩ := scan_unit_lt hscan rfl
    rw [hlayout, hwidth] at hfurther
    rw [walk_eq_bind, Action.bind_of_ok _ ((congrFun (scan_table htable hunit) s).trans hscan)]
    exact ih htable hfurther (hlayout ▸ hwidth)

end Walk

theorem Decoder.instruction_pruned {width : UnitWidth} {arch reduced : Architecture}
    (h : arch.Pruned width reduced) (balance : Bool) (site : Site) {s : Decoding}
    (hwidth : s.cursor.layout.width = width) :
    instruction reduced balance site s = instruction arch balance site s := by
  cases hfetch : fetch s with
  | error fault t =>
    rw [instruction, instruction, Action.bind_of_error _ hfetch, Action.bind_of_error _ hfetch]
  | ok unit t =>
    have hlayout := Walk.layout_of_forward forward_fetch hfetch
    have hunit := Walk.fetch_lt hfetch
    rw [hlayout, hwidth] at hunit
    have hwalk := Walk.walk_pruned h site h.root hunit (hlayout ▸ hwidth)
    rw [instruction, instruction, Action.bind_of_ok _ hfetch, Action.bind_of_ok _ hfetch]
    exact Action.bind_congr _ hwalk

/-- Taking dead rules out of the tables of a machine changes nothing about decoding: at every
cursor, against every symbol table, the result or the fault, the cursor, the symbols, the number of
looks ahead and the log are the same. -/
theorem decode_pruned (arch reduced : Architecture) (balance : Bool) (cursor : Cursor)
    (symbols : SymbolTable) (h : arch.Pruned cursor.layout.width reduced) :
    decode reduced balance cursor symbols = decode arch balance cursor symbols := by
  have hsite : reduced.site cursor = arch.site cursor := by
    rw [Architecture.site, Architecture.site, h.profile]
  unfold decode
  rw [hsite, Decoder.instruction_pruned h balance (arch.site cursor) rfl]

/-- Two tables that lead into each other, each with a rule that would defer a unit or look ahead if
it were not dead. -/
theorem decode_pruned_cycle :
    let profile : Profile := ⟨"toy", "Toy CPU", 8, 8, .little, 1⟩
    let arch : Architecture := ⟨profile,
      ⟨"main", [.lead .none .none 0xF0, .sub "page" 0x10, .range ⟨"IN", .none, .none⟩ 0x20 0x2F,
        .maskNext ⟨"DEAD", .imm8 "%d", .none⟩ 0x10 0 0, .exact ⟨"DEAD", .none, .none⟩ 0x25]⟩,
      [⟨"page", [.mask ⟨"OUT", .none, .none⟩ 0x0F 0x01, .sub "main" 0x02, .push "page" 0x02 1]⟩]⟩
    let reduced : Architecture := ⟨profile,
      ⟨"main", [.lead .none .none 0xF0, .sub "page" 0x10, .range ⟨"IN", .none, .none⟩ 0x20 0x2F]⟩,
      [⟨"page", [.mask ⟨"OUT", .none, .none⟩ 0x0F 0x01, .sub "main" 0x02]⟩]⟩
    let cursor := Cursor.start ⟨.byte, .little, 8⟩ [0xF0, 0x10, 0x02, 0x10, 0x21] 0x400
    arch.Pruned .byte reduced ∧ decode reduced true cursor {} = decode arch true cursor {} ∧
      (decode reduced true cursor {}).result.toOption =
        some ⟨"OUT", 0x400, 0x405, [0xF0, 0x10, 0x02, 0x10, 0x21], true⟩ := by
  intro profile arch reduced cursor
  have hpruned : arch.Pruned .byte reduced := {
    profile := rfl
    root :=
      ⟨rfl,
        .keep _ (.keep _ (.keep _ (.drop (by decide +kernel) (.drop (by decide +kernel) .nil))))⟩
    pages := .cons ⟨rfl, .keep _ (.keep _ (.drop (by decide +kernel) .nil))⟩ .nil }
  exact ⟨hpruned, decode_pruned arch reduced true cursor {} hpruned, by decide +kernel⟩

end Disassembler
