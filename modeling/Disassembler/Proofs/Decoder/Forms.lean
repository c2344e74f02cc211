import Disassembler.Proofs.Decoder.Passage

/-!
The forms of the instructions of a machine. A form says which units lead to an instruction and how
its text is spelled. Every instruction that is found is read through a form, and whether no two
forms can be spelled alike can be computed. If so, the text of an instruction tells its form, and
with it all the bytes.
-/

namespace Disassembler

/-! ## Forms -/

/-- The units that lead to a table, where `none` stands for a deferred one, the unit that selects
the instruction there, its mnemonic, and the pieces of its operand. -/
structure Form where
  opening : List (Option Nat)
  unit : Nat
  mnemonic : String
  row : List Piece
  deriving DecidableEq, Repr

namespace Form

def of (opening : List (Option Nat)) (unit : Nat) : Insn → Option Form
  | ⟨name, operand, _⟩ =>
    match operand.pieces unit with
    | some row => some ⟨opening, unit, name, row⟩
    | none => none

theorem of_eq_some {opening : List (Option Nat)} {unit : Nat} {insn : Insn} {f : Form}
    (h : of opening unit insn = some f) :
    ∃ row, insn.operand.pieces unit = some row ∧ f = ⟨opening, unit, insn.mnemonic, row⟩ := by
  simp only [of] at h
  split at h
  · next row hrow =>
    cases h
    exact ⟨row, hrow, rfl⟩
  · cases h

def size (f : Form) : Nat := f.opening.length + 1 + (f.row.map Piece.size).sum

/-- A mnemonic stands alone or fills its column. -/
def columns (width : Nat) (name : List Char) : Text.Pattern → Text.Pattern
  | [] => .exactly name
  | cell :: cells => .exactly (name.rightpad width ' ') ++ cell :: cells

def cells (width : Nat) : Form → Text.Pattern
  | ⟨_, _, name, row⟩ => columns width name.toList (row.flatMap Piece.cells)

/-- Whether the text ends visibly and the operand uses up every deferred unit. -/
def sound (width : Nat) : Form → Bool
  | ⟨opening, _, name, row⟩ =>
    (columns width name.toList (row.flatMap Piece.cells)).closed && opening.count none ==
      (row.map Piece.units).sum

end Form

/-- The forms that a rule leads to; `none` stands for a rule that cannot be told. -/
def Rule.forms (enter : String → List (Option Nat) → List (Option Form))
    (opening : List (Option Nat)) : Rule → List (Option Form)
  | exact insn opcode => [Form.of opening opcode.toNat insn]
  | range insn low high =>
    ((List.range 256).filter (range insn low high).accepts).map (Form.of opening · insn)
  | mask insn bits value =>
    ((List.range 256).filter (mask insn bits value).accepts).map (Form.of opening · insn)
  | sub target opcode => enter target (opening ++ [some opcode.toNat])
  | push target opcode count =>
    enter target (opening ++ some opcode.toNat :: List.replicate count.toNat none)
  | undef _ => []
  | _ => [none]

/-- The forms that a table leads to, through no more than `n` tables. -/
def Table.forms (arch : Architecture) : Nat → List (Option Nat) → Table → List (Option Form)
  | 0, _, _ => [none]
  | n + 1, opening, table =>
    table.rules.flatMap
      (Rule.forms (fun name further => forms arch n further (arch.table name)) opening)

/-! ## Openings -/

def Opens (opening : List (Option Nat)) (bytes : List UInt8) : Prop :=
  List.Forall₂ (fun place b => ∀ unit ∈ place, unit = b.toNat) opening bytes

def deferredIn : List (Option Nat) → List UInt8 → List UInt8
  | none :: opening, b :: bytes => b :: deferredIn opening bytes
  | some _ :: opening, _ :: bytes => deferredIn opening bytes
  | _, _ => []

namespace Opens

variable {opening further : List (Option Nat)} {bytes bytes' : List UInt8}

theorem length (h : Opens opening bytes) : bytes.length = opening.length :=
  (List.Forall₂.length_eq h).symm

theorem deferredIn_append (h : Opens opening bytes) (further : List (Option Nat))
    (bytes' : List UInt8) :
    deferredIn (opening ++ further) (bytes ++ bytes') = deferredIn opening bytes ++
      deferredIn further bytes' := by
  induction h with
  | nil => rfl
  | @cons place b opening bytes first rest ih => cases place <;> simp [deferredIn, ih]

theorem length_deferredIn (h : Opens opening bytes) :
    (deferredIn opening bytes).length = opening.count none := by
  induction h with
  | nil => rfl
  | @cons place b opening bytes first rest ih => cases place <;> simp [deferredIn, ih]

/-- An opening and its deferred bytes tell all of its bytes. -/
theorem inj (h : Opens opening bytes) (h' : Opens opening bytes')
    (hdeferred : deferredIn opening bytes = deferredIn opening bytes') : bytes = bytes' := by
  induction h generalizing bytes' with
  | nil =>
    cases h'
    rfl
  | @cons place b opening bytes first rest ih =>
    cases h' with
    | @cons _ b' _ bytes' first' rest' =>
      cases place with
      | none =>
        obtain ⟨rfl, hrest⟩ := List.cons_eq_cons.mp hdeferred
        rw [ih rest' hrest]
      | some unit =>
        have hb : b = b' := UInt8.toNat_inj.mp ((first unit rfl).symm.trans (first' unit rfl))
        rw [hb, ih rest' hdeferred]

end Opens

theorem opens_replicate (bytes : List UInt8) : Opens (List.replicate bytes.length none) bytes := by
  induction bytes with
  | nil => exact .nil
  | cons b bytes ih => exact .cons (fun _ h => by cases h) ih

theorem deferredIn_replicate (bytes : List UInt8) :
    deferredIn (List.replicate bytes.length none) bytes = bytes := by
  induction bytes with
  | nil => rfl
  | cons b bytes ih => rw [List.length_cons, List.replicate_succ, deferredIn, ih]

/-! ## Deferred bytes -/

structure Deferral (bytes : List UInt8) (s t : Decoding) : Prop where
  cursor : Cursor.Moved bytes s.cursor t.cursor
  stack : t.stack.items = bytes.reverse.map (fun b => (b.toNat : Int)) ++ s.stack.items
  text : t.out.toString = s.out.toString
  labels : s.symbols.labels = [] → t.symbols.labels = []
  effects : t.effects = s.effects

namespace Deferral

variable {bytes bytes' : List UInt8} {s t u : Decoding}

theorem refl (s : Decoding) : Deferral [] s s := ⟨.refl _, rfl, rfl, id, rfl⟩

theorem trans (h : Deferral bytes s t) (h' : Deferral bytes' t u) :
    Deferral (bytes ++ bytes') s u where
  cursor := h.cursor.trans h'.cursor
  stack := by rw [h'.stack, h.stack, List.reverse_append, List.map_append, List.append_assoc]
  text := h'.text.trans h.text
  labels := fun hs => h'.labels (h.labels hs)
  effects := h'.effects.trans h.effects

theorem plain (h : Deferral bytes s t) (hs : Plain s) : Plain t where
  width := by rw [h.cursor.layout, hs.width]
  order := by rw [h.cursor.layout, hs.order]
  labels := h.labels hs.labels
  effects := h.effects.trans hs.effects
  stack := by
    intro unit hunit
    rw [h.stack] at hunit
    rcases List.mem_append.mp hunit with hunit | hunit
    · obtain ⟨b, -, rfl⟩ := List.mem_map.mp hunit
      exact ⟨b, rfl⟩
    · exact hs.stack unit hunit

end Deferral

namespace Walk

open Decoder

variable {arch : Architecture} {site : Site} {s t : Decoding}

/-- A byte that is read and pushed has been deferred. -/
theorem deferral_push {b : UInt8} {u : Decoding} {r : Unit} (hread : Passage [b] [] [] s u)
    (h : push b.toNat u = .ok r t) : Deferral [b] s t := by
  simp only [push, onStack, Action.on, Deferred.push] at h
  split at h
  · next hpushed =>
    split at hpushed
    · cases hpushed
      cases h
      refine ⟨hread.cursor, ?_, String.toList_inj.mp ?_, hread.labels, hread.effects⟩
      · simpa using hread.stack.symm
      · simpa using hread.text
    · cases hpushed
  · cases h

theorem deferral_defer {n : Nat} {r : Unit} (hs : s.cursor.layout.width = .byte)
    (h : defer n s = .ok r t) : ∃ bytes, bytes.length = n ∧ Deferral bytes s t := by
  induction n generalizing s with
  | zero =>
    cases h
    exact ⟨[], rfl, .refl _⟩
  | succ n ih =>
    obtain ⟨unit, u, hfetch, h₁⟩ := Action.bind_eq_ok h
    obtain ⟨_, v, hpush, h₂⟩ := Action.bind_eq_ok h₁
    obtain ⟨b, rfl, hread⟩ := fetch_eq_ok hs hfetch
    have hfirst := deferral_push hread hpush
    obtain ⟨bytes, hlength, hrest⟩ := ih (by rw [hfirst.cursor.layout, hs]) h₂
    exact ⟨b :: bytes, by rw [List.length_cons, hlength], hfirst.trans hrest⟩

theorem deferral_deferFor {target : String} {count : Int} {r : Unit}
    (hs : s.cursor.layout.width = .byte) (h : deferFor target count s = .ok r t) :
    ∃ bytes, bytes.length = count.toNat ∧ Deferral bytes s t := by
  obtain ⟨_, u, hdefer, hnote⟩ := Action.bind_eq_ok h
  obtain ⟨bytes, hlength, hdeferral⟩ := deferral_defer hs hdefer
  cases hnote
  exact ⟨bytes, hlength, { hdeferral with }⟩

end Walk

/-! ## Rules -/

namespace Rule

def insn? : Rule → Option Insn
  | exact insn _ => some insn
  | range insn _ _ => some insn
  | mask insn _ _ => some insn
  | _ => none

/-- The table that a rule leads to and the number of units that it defers. -/
def entry? : Rule → Option (String × Nat)
  | sub target _ => some (target, 0)
  | push target _ count => some (target, count.toNat)
  | _ => none

/-- Whether a rule looks at one unit only and leaves nothing for a later operand. -/
def told : Rule → Bool
  | undef _ => true
  | rule => rule.insn?.isSome || rule.entry?.isSome

variable {enter : String → List (Option Nat) → List (Option Form)} {opening : List (Option Nat)}
    {rule : Rule}

theorem told_of_forms (h : ∀ f ∈ rule.forms enter opening, f.isSome = true) : rule.told = true := by
  cases rule with
  | exact | range | mask | sub | push | undef => rfl
  | maskNext | memMod | lead | foreign =>
    exact absurd (h none List.mem_cons_self) Bool.false_ne_true

theorem form_mem_forms {insn : Insn} {unit : Nat} (hinsn : rule.insn? = some insn)
    (haccepts : rule.accepts unit = true) (hunit : unit < 256) :
    Form.of opening unit insn ∈ rule.forms enter opening := by
  have hmem : unit ∈ (List.range 256).filter rule.accepts :=
    List.mem_filter.mpr ⟨List.mem_range.mpr hunit, haccepts⟩
  cases rule with
  | exact insn opcode =>
    cases hinsn
    have hopcode : (unit : Int) = opcode := of_decide_eq_true haccepts
    rw [forms, ← hopcode, Int.toNat_natCast]
    exact List.mem_cons_self
  | range | mask =>
    cases hinsn
    exact List.mem_map_of_mem hmem
  | _ => cases hinsn

theorem forms_of_entry {target : String} {count unit : Nat}
    (hentry : rule.entry? = some (target, count)) (haccepts : rule.accepts unit = true) :
    rule.forms enter opening =
      enter target (opening ++ some unit :: List.replicate count none) := by
  cases rule with
  | sub table opcode =>
    cases hentry
    have hopcode : (unit : Int) = opcode := of_decide_eq_true haccepts
    rw [forms, ← hopcode, Int.toNat_natCast]
    rfl
  | push table opcode count =>
    cases hentry
    have hopcode : (unit : Int) = opcode := of_decide_eq_true haccepts
    rw [forms, ← hopcode, Int.toNat_natCast]
  | _ => cases hentry

end Rule

namespace Table

variable {arch : Architecture} {n : Nat} {opening : List (Option Nat)} {table : Table} {rule : Rule}

theorem forms_of_rule (hmem : rule ∈ table.rules) {f : Option Form}
    (hf : f ∈ rule.forms (fun name further => (arch.table name).forms arch n further) opening) :
    f ∈ table.forms arch (n + 1) opening :=
  List.mem_flatMap.mpr ⟨rule, hmem, hf⟩

theorem told_of_forms (h : ∀ f ∈ table.forms arch (n + 1) opening, f.isSome = true) :
    ∀ rule ∈ table.rules, rule.told = true :=
  fun _ hmem => Rule.told_of_forms fun f hf => h f (forms_of_rule hmem hf)

/-- A table that a rule leads to has its forms among those of the first table. -/
theorem forms_of_entry (hmem : rule ∈ table.rules) {target : String} {count unit : Nat}
    (hentry : rule.entry? = some (target, count)) (haccepts : rule.accepts unit = true)
    {f : Option Form}
    (hf : f ∈ (arch.table target).forms arch n
      (opening ++ some unit :: List.replicate count none)) :
    f ∈ table.forms arch (n + 1) opening :=
  forms_of_rule hmem (by rwa [Rule.forms_of_entry hentry haccepts])

end Table

namespace Walk

open Decoder

variable {arch : Architecture} {site : Site} {s t : Decoding}

inductive Acts (site : Site) (unit : Nat) (s : Decoding) : Rule → Next → Decoding → Prop where
  | writes {rule : Rule} {insn : Insn} {next : Next} {t : Decoding} (hinsn : rule.insn? = some insn)
      (h : emit site insn unit s = .ok next t) : Acts site unit s rule next t
  | enters {rule : Rule} {target : String} {bytes : List UInt8} {further : Nat} {u t : Decoding}
      (hentry : rule.entry? = some (target, bytes.length)) (hdeferral : Deferral bytes s u)
      (hfetch : fetch u = .ok further t) : Acts site unit s rule (.goto target further) t

/-- If no rule looks further than the unit, the walk stops without an instruction or does what one
of the rules says that accept the unit. -/
theorem scan_acts {table : String} {unit : Nat} {rules : List Rule} {seen : Option Nat}
    {next : Next} (hs : s.cursor.layout.width = .byte) (hrules : ∀ rule ∈ rules, rule.told = true)
    (h : scan site table unit rules seen s = .ok next t) (hnext : next ≠ .stop false) :
    ∃ rule ∈ rules, rule.accepts unit = true ∧ Acts site unit s rule next t := by
  induction rules with
  | nil =>
    cases h
    exact absurd rfl hnext
  | cons rule rules ih =>
    have htold := hrules rule List.mem_cons_self
    unfold scan at h
    by_cases haccepts : rule.accepts unit = true
    · refine ⟨rule, List.mem_cons_self, haccepts, ?_⟩
      rw [if_pos haccepts] at h
      cases rule with
      | exact | range | mask => exact .writes rfl h
      | sub target opcode =>
        obtain ⟨further, u, hfetch, hgoto⟩ := Action.bind_eq_ok h
        cases hgoto
        exact .enters rfl (.refl s) hfetch
      | push target opcode count =>
        obtain ⟨_, u, hdefer, h₁⟩ := Action.bind_eq_ok h
        obtain ⟨further, v, hfetch, hgoto⟩ := Action.bind_eq_ok h₁
        cases hgoto
        obtain ⟨bytes, hlength, hdeferral⟩ := deferral_deferFor hs hdefer
        exact .enters (by rw [hlength]; rfl) hdeferral hfetch
      | undef opcode =>
        cases h
        exact absurd rfl hnext
      | maskNext | memMod | lead | foreign => cases htold
    · rw [if_neg haccepts] at h
      obtain ⟨other, hmem, hother⟩ := ih (fun r hr => hrules r (List.mem_cons_of_mem _ hr)) h
      exact ⟨other, List.mem_cons_of_mem _ hmem, hother⟩

end Walk

end Disassembler
