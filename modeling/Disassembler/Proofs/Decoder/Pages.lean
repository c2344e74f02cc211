import Disassembler.Proofs.Decoder.Passage
import Disassembler.Proofs.Decoder.Pruning
import Disassembler.Proofs.Decoder.Selection
import Disassembler.Proofs.Decoder.Within

/-!
Units that are deferred on the way through several tables and shown at the end. The tables share one
stack: what the last of them deferred comes back first. Whether an operand shows as many units as
have been deferred, more of them or less, and whether the stack was deep enough, depends on nothing
but these numbers.
-/

namespace Disassembler

namespace Cursor

variable {c : Cursor}

def units (c : Cursor) : List Nat :=
  (List.range c.unitsAhead).map fun k =>
    c.layout.order.value ((c.rest.drop (k * c.layout.width.size)).take c.layout.width.size)

theorem units_of_le (h : c.layout.width.size ≤ c.rest.length) :
    c.units = c.layout.order.value (c.rest.take c.layout.width.size) ::
      (c.advance c.layout.width.size).units := by
  have hpos : 0 < c.layout.width.size := by cases c.layout.width <;> decide
  have hahead : c.unitsAhead = (c.advance c.layout.width.size).unitsAhead + 1 := by
    simp only [unitsAhead, advance_rest_length]
    exact Nat.div_eq_sub_div hpos h
  rw [units, hahead, List.range_succ_eq_map, List.map_cons, List.map_map, units]
  simp only [Nat.zero_mul, List.drop_zero, List.cons.injEq, true_and]
  refine List.map_congr_left fun k _ => ?_
  simp only [Function.comp, advance, List.drop_drop, Nat.succ_mul, Nat.add_comm]

theorem units_of_lt (h : c.rest.length < c.layout.width.size) : c.units = [] := by
  rw [units, unitsAhead, Nat.div_eq_of_lt h, List.range_zero, List.map_nil]

theorem units_lt {unit : Nat} (h : unit ∈ c.units) : unit < 65536 := by
  obtain ⟨k, -, rfl⟩ := List.mem_map.mp h
  have hsize : c.layout.width.size ≤ 2 := by cases c.layout.width <;> decide
  refine Nat.lt_of_lt_of_le (ByteOrder.value_lt _ _) ?_
  exact Nat.pow_le_pow_right (by decide) (Nat.le_trans (List.length_take_le _ _) hsize)

end Cursor

/-- The rule of a table that decides on a unit, where `next` is the unit behind it. -/
def Rule.pick (unit : Nat) (next : Option Nat) : List Rule → Option Rule
  | [] => none
  | rule :: rules =>
    if rule.accepts unit then
      match rule.test? with
      | none => some rule
      | some test => next.bind fun n => if test n then some rule else pick unit next rules
    else pick unit next rules

namespace Walk

open Decoder

variable {arch : Architecture} {site : Site} {insn : Insn} {s t u : Decoding}

theorem lookahead_of_units {next : Nat} {seen : Option Nat}
    (hnext : s.cursor.units.head? = some next) (hseen : ∀ k, seen = some k → k = next) :
    ∃ k, lookahead seen s = .ok next { s with peeks := k } := by
  cases seen with
  | some k => exact ⟨s.peeks, by rw [hseen k rfl]; rfl⟩
  | none =>
    by_cases hn : s.cursor.layout.width.size ≤ s.cursor.rest.length
    · rw [Cursor.units_of_le hn] at hnext
      cases hnext
      exact ⟨_, peek_of_le hn⟩
    · rw [Cursor.units_of_lt (Nat.lt_of_not_le hn)] at hnext
      cases hnext

theorem selectBy_of_pick {unit : Nat} {rules : List Rule} {rule : Rule} {seen : Option Nat}
    (hpick : Rule.pick unit s.cursor.units.head? rules = some rule)
    (hseen : ∀ k, seen = some k → s.cursor.units.head? = some k) :
    ∃ k, selectBy lookahead unit rules seen s = .ok (some rule) { s with peeks := k } := by
  induction rules generalizing seen s with
  | nil => cases hpick
  | cons first rules ih =>
    rw [Rule.pick] at hpick
    rw [selectBy]
    by_cases ha : first.accepts unit = true
    · rw [if_pos ha] at hpick ⊢
      cases htest : first.test? with
      | none =>
        rw [htest] at hpick
        cases hpick
        exact ⟨s.peeks, rfl⟩
      | some test =>
        rw [htest] at hpick
        obtain ⟨next, hnext, hpick⟩ := Option.bind_eq_some_iff.mp hpick
        obtain ⟨k, hlook⟩ :=
          lookahead_of_units hnext fun j hj => Option.some.inj ((hseen j hj).symm.trans hnext)
        dsimp only
        rw [Action.bind_of_ok _ hlook]
        by_cases htrue : test next = true
        · rw [if_pos htrue] at hpick ⊢
          cases hpick
          exact ⟨k, rfl⟩
        · rw [if_neg htrue] at hpick ⊢
          exact ih (s := { s with peeks := k }) hpick fun j hj => by cases hj; exact hnext
    · rw [if_neg ha] at hpick ⊢
      exact ih hpick hseen

/-- The rule that decides is selected. -/
theorem select_of_pick {unit : Nat} {rules : List Rule} {rule : Rule}
    (hpick : Rule.pick unit s.cursor.units.head? rules = some rule) :
    ∃ k, selectBy lookahead unit rules none s = .ok (some rule) { s with peeks := k } :=
  selectBy_of_pick hpick fun k hk => by cases hk

/-! ## Chains of pages -/

/-- `Chain arch insn table units pages deferred`: read from `table` on, the units lead through
`pages` rules that defer units, and in the end to a rule of one unit that writes `insn`. In all,
`deferred` is deferred. -/
inductive Chain (arch : Architecture) (insn : Insn) : Table → List Nat → Nat → List Nat → Prop where
  | last {table : Table} {unit : Nat} {further : List Nat} {opcode : Int}
      (hpick : Rule.pick unit further.head? table.rules = some (.exact insn opcode)) :
      Chain arch insn table (unit :: further) 0 []
  | push {table : Table} {unit : Nat} {name : String} {opcode count : Int} {held further : List Nat}
      {pages : Nat}
      {deferred : List Nat}
      (hpick : Rule.pick unit (held ++ further).head? table.rules = some (.push name opcode count))
      (hheld : held.length = count.toNat)
      (rest : Chain arch insn (arch.table name) further pages deferred) :
      Chain arch insn table (unit :: (held ++ further)) (pages + 1) (held ++ deferred)

theorem Chain.exists_cons {table : Table} {units deferred : List Nat} {pages : Nat}
    (h : Chain arch insn table units pages deferred) : ∃ unit further, units = unit :: further := by
  cases h with
  | last | push => exact ⟨_, _, rfl⟩

theorem Chain.mem {table : Table} {units deferred : List Nat} {pages : Nat}
    (h : Chain arch insn table units pages deferred) {unit : Nat} (hunit : unit ∈ deferred) :
    unit ∈ units := by
  induction h with
  | last => cases hunit
  | push _ _ _ ih =>
    refine List.mem_cons_of_mem _ (List.mem_append.mpr ?_)
    exact (List.mem_append.mp hunit).imp_right ih

/-- From `s` to `t`, `k` units have been read, and `deferred` of them have been deferred. -/
structure Collected (k : Nat) (deferred : List Nat) (s t : Decoding) : Prop where
  cursor : t.cursor = s.cursor.advance (k * s.cursor.layout.width.size)
  depth : t.stack.depth = s.stack.depth
  items : t.stack.items = deferred.reverse.map Int.ofNat ++ s.stack.items
  out : t.out = s.out
  effects : t.effects = s.effects

namespace Collected

/-- A look ahead reads nothing. -/
theorem looked (s : Decoding) (k : Nat) : Collected 0 [] s { s with peeks := k } where
  cursor := by rw [Nat.zero_mul, Cursor.advance_zero]
  depth := rfl
  items := rfl
  out := rfl
  effects := rfl

theorem trans {j k : Nat} {xs ys : List Nat} (h : Collected j xs s t) (h' : Collected k ys t u) :
    Collected (j + k) (xs ++ ys) s u where
  cursor := by
    rw [h'.cursor, h.cursor, Cursor.advance_advance, Nat.add_mul]
    rfl
  depth := h'.depth.trans h.depth
  items := by rw [h'.items, h.items, List.reverse_append, List.map_append, List.append_assoc]
  out := h'.out.trans h.out
  effects := h'.effects.trans h.effects

theorem length_items {k : Nat} {deferred : List Nat} (h : Collected k deferred s t) :
    t.stack.items.length = s.stack.items.length + deferred.length := by
  rw [h.items, List.length_append, List.length_map, List.length_reverse, Nat.add_comm]

end Collected

theorem fetch_of_units {unit : Nat} {further : List Nat} (h : s.cursor.units = unit :: further) :
    ∃ t, fetch s = .ok unit t ∧ t.cursor.units = further ∧ Collected 1 [] s t := by
  by_cases hn : s.cursor.layout.width.size ≤ s.cursor.rest.length
  · rw [Cursor.units_of_le hn, List.cons.injEq] at h
    obtain ⟨rfl, rfl⟩ := h
    have hfetch : onCursor (Cursor.reading (·.width.size) (·.order.value)) s = _ := reading_of_le hn
    exact ⟨_, hfetch, rfl, by rw [Nat.one_mul], rfl, rfl, rfl, rfl⟩
  · rw [Cursor.units_of_lt (Nat.lt_of_not_le hn)] at h
    cases h

theorem push_of_lt {unit : Nat} (h : s.stack.items.length < s.stack.depth) :
    ∃ t, push unit s = .ok () t ∧ t.cursor = s.cursor ∧ Collected 0 [unit] s t := by
  simp only [push, onStack, Action.on, Deferred.push, if_pos h]
  exact ⟨_, rfl, rfl, by rw [Nat.zero_mul, Cursor.advance_zero], rfl, rfl, rfl, rfl⟩

theorem push_of_le {unit : Int} (h : s.stack.depth ≤ s.stack.items.length) :
    push unit s = .error .stackOverflow s := by
  simp only [push, onStack, Action.on, Deferred.push, if_neg (Int.not_lt.mpr h)]

/-- Units are deferred as long as the stack is deep enough for them. -/
theorem defer_of_units {held further : List Nat} (hunits : s.cursor.units = held ++ further)
    (hdepth : s.stack.items.length ≤ s.stack.depth) :
    ((s.stack.items.length + held.length : Nat) ≤ s.stack.depth →
      ∃ t, defer held.length s = .ok () t ∧ t.cursor.units = further ∧
        Collected held.length held s t) ∧
    (s.stack.depth < (s.stack.items.length + held.length : Nat) →
      ∃ t, defer held.length s = .error .stackOverflow t) := by
  induction held generalizing s with
  | nil =>
    refine ⟨fun _ => ⟨s, rfl, hunits, .looked s s.peeks⟩, fun hlong => ?_⟩
    rw [List.length_nil, Nat.add_zero] at hlong
    omega
  | cons unit held ih =>
    obtain ⟨u, hfetch, hu, hfetched⟩ := fetch_of_units hunits
    have hheight := hfetched.length_items
    have hdeep := hfetched.depth
    rw [List.length_nil] at hheight
    rw [List.length_cons, defer, Action.bind_of_ok _ hfetch]
    by_cases hfull : u.stack.depth ≤ u.stack.items.length
    · refine ⟨fun hfits => by omega, fun _ => ?_⟩
      exact ⟨_, Action.bind_of_error _ (push_of_le hfull)⟩
    · obtain ⟨v, hpush, hv, hpushed⟩ := push_of_lt (Int.lt_of_not_ge hfull)
      have hnext := hfetched.trans hpushed
      have hlength := hnext.length_items
      have hdeep' := hnext.depth
      rw [List.nil_append, List.length_singleton] at hlength
      rw [Action.bind_of_ok _ hpush]
      obtain ⟨hfits, hlong⟩ := ih (hv ▸ hu) (by omega)
      refine ⟨fun h => ?_, fun h => hlong (by omega)⟩
      obtain ⟨t, hdefer, ht, hcollected⟩ := hfits (by omega)
      refine ⟨t, hdefer, ht, ?_⟩
      rw [Nat.add_comm]
      exact hnext.trans hcollected

theorem deferFor_of_units (name : String) {count : Int} {held further : List Nat}
    (hheld : held.length = count.toNat) (hunits : s.cursor.units = held ++ further)
    (hdepth : s.stack.items.length ≤ s.stack.depth) :
    ((s.stack.items.length + held.length : Nat) ≤ s.stack.depth →
      ∃ t, deferFor name count s = .ok () t ∧ t.cursor.units = further ∧
        Collected held.length held s t) ∧
    (s.stack.depth < (s.stack.items.length + held.length : Nat) →
      ∃ t, deferFor name count s = .error .stackOverflow t) := by
  obtain ⟨hfits, hlong⟩ := defer_of_units hunits hdepth
  rw [deferFor, ← hheld]
  refine ⟨fun h => ?_, fun h => ?_⟩
  · obtain ⟨t, hdefer, ht, hcollected⟩ := hfits h
    obtain ⟨hcursor, hdeep, hitems, hout, heffects⟩ := hcollected
    exact ⟨_, Action.bind_of_ok _ hdefer, ht, hcursor, hdeep, hitems, hout, heffects⟩
  · obtain ⟨t, hdefer⟩ := hlong h
    exact ⟨t, Action.bind_of_error _ hdefer⟩

/-- A chain is followed up to its instruction, if the stack is deep enough for all that is deferred
on the way. -/
theorem walk_of_chain {table : Table} {units deferred : List Nat} {pages : Nat}
    (h : Chain arch insn table units pages deferred) {unit : Nat}
    (hunits : units = unit :: s.cursor.units) (hdepth : s.stack.items.length ≤ s.stack.depth) :
    ((s.stack.items.length + deferred.length : Nat) ≤ s.stack.depth →
      ∃ last t, Collected (pages + deferred.length) deferred s t ∧
        walk arch site table unit s = (emit site insn last >>= fun _ => pure true) t) ∧
    (s.stack.depth < (s.stack.items.length + deferred.length : Nat) →
      ∃ t, walk arch site table unit s = .error .stackOverflow t) := by
  induction h generalizing unit s with
  | @last table first further opcode hpick =>
    obtain ⟨rfl, rfl⟩ := List.cons.inj hunits
    obtain ⟨k, hselect⟩ := select_of_pick hpick
    refine ⟨fun _ => ⟨first, _, .looked s k, ?_⟩, fun hlong => ?_⟩
    · rw [walk_eq_bind, scan_eq_select, bind_assoc, Action.bind_of_ok _ hselect]
      simp only [carryOut, emit, bind_assoc, pure_bind]
    · rw [List.length_nil, Nat.add_zero] at hlong
      omega
  | @push table first name opcode count held further pages deferred hpick hheld rest ih =>
    obtain ⟨rfl, hrest⟩ := List.cons.inj hunits
    rw [hrest] at hpick
    obtain ⟨k, hselect⟩ := select_of_pick hpick
    obtain ⟨hfits, hlong⟩ :=
      deferFor_of_units name hheld (s := { s with peeks := k }) hrest.symm hdepth
    rw [List.length_append, walk_eq_bind, scan_eq_select, bind_assoc, Action.bind_of_ok _ hselect]
    simp only [carryOut, bind_assoc, pure_bind]
    by_cases hheight : (s.stack.items.length + held.length : Nat) ≤ s.stack.depth
    · obtain ⟨u, hdefer, hunits, hcollected⟩ := hfits hheight
      obtain ⟨next, more, rfl⟩ := rest.exists_cons
      obtain ⟨v, hfetch, hmore, hfetched⟩ := fetch_of_units hunits
      have ht := (Collected.looked s k).trans (hcollected.trans hfetched)
      have hlength := ht.length_items
      have hdeep := ht.depth
      rw [List.nil_append, List.append_nil] at hlength ht
      rw [Action.bind_of_ok _ hdefer, Action.bind_of_ok _ hfetch]
      obtain ⟨hfits, hlong⟩ := ih (congrArg _ hmore.symm) (by omega)
      refine ⟨fun hall => ?_, fun hall => hlong (by omega)⟩
      obtain ⟨last, t, hend, hwalk⟩ := hfits (by omega)
      refine ⟨last, t, ?_, hwalk⟩
      have hpages : pages + 1 + (held.length + deferred.length) =
          0 + (held.length + 1) + (pages + deferred.length) := by omega
      rw [hpages]
      exact ht.trans hend
    · obtain ⟨t, ht⟩ := hlong (Int.lt_of_not_ge hheight)
      exact ⟨fun hall => by omega, fun _ => ⟨t, Action.bind_of_error _ ht⟩⟩

end Walk

/-! ## What is shown -/

namespace Text

def unit (value : Nat) : String := String.ofList (byteStyle.layout value)

theorem fill_unit (value : Nat) : fill "%02X" [.number value] = .ok (unit value) := by
  have htemplate : "%02X".toList = ['%', '0', '2', 'X'] := by decide
  rw [fill, if_neg (by simp), htemplate]
  simp [expand, convert, convert.number, Value.number?, Capacity.room, Capacity.maxCount,
    Except.map, unit, byteStyle]

theorem length_unit_le {value : Nat} (h : value < 65536) : (unit value).length ≤ 4 := by
  rw [unit, String.length_ofList]
  have hle :=
    length_layout_le (show 1 < byteStyle.base by decide) (Int.natCast_nonneg value)
      (show _ ≤ 65535 by omega)
  exact Nat.le_trans hle (by decide)

/-- A unit ends in a digit. -/
theorem unit_eq_concat {value : Nat} (h : value < 65536) :
    ∃ cs c, (unit value).toList = cs ++ [c] ∧ isBlank c = false := by
  have hvisible : ∀ c ∈ digits 16 true value, isBlank c = false := by
    intro c hc
    have hall : digitChars.all (fun c => !isBlank c) = true := by decide
    have hmem : c ∈ numeral 4 value := by
      rw [← leftpad_digits (by decide) (by omega)]
      exact List.mem_append_right _ hc
    simpa using List.all_eq_true.mp hall c (mem_digitChars_of_mem_numeral hmem)
  have hlayout : (unit value).toList =
      List.replicate (2 - (digits 16 true value).length) '0' ++ digits 16 true value := by
    have hnonneg : ¬ (value : Int) < 0 := by omega
    simp [unit, byteStyle, NumeralStyle.layout, hnonneg, List.leftpad]
  rcases List.eq_nil_or_concat (digits 16 true value) with hnil | ⟨cs, c, hdigits⟩
  · have hpos : 0 < (Nat.toDigits 16 value).length := Nat.length_toDigits_pos
    have hzero := congrArg List.length hnil
    rw [digits, List.length_map, List.length_nil] at hzero
    omega
  · rw [List.concat_eq_append] at hdigits
    refine ⟨List.replicate (2 - (cs ++ [c]).length) '0' ++ cs, c, ?_, hvisible c ?_⟩
    · rw [hlayout, hdigits, List.append_assoc]
    · rw [hdigits]
      exact List.mem_concat_self

/-- No blanks are lost at the end of a row of units. -/
theorem dropEndBlanks_units (separator : String) {units : List Nat} (hne : units ≠ [])
    (hsmall : ∀ u ∈ units, u < 65536) (cs : List Char) :
    dropEndBlanks (cs ++ (separator.intercalate (units.map unit)).toList) =
      cs ++ (separator.intercalate (units.map unit)).toList := by
  induction units generalizing cs with
  | nil => exact absurd rfl hne
  | cons u units ih =>
    cases units with
    | nil =>
      obtain ⟨ds, d, hunit, hd⟩ := unit_eq_concat (hsmall u List.mem_cons_self)
      simp only [List.map_cons, List.map_nil, String.intercalate_singleton, hunit,
        ← List.append_assoc]
      exact dropEndBlanks_concat _ hd
    | cons v units =>
      simp only [List.map_cons, String.intercalate_cons_cons, String.toList_append,
        ← List.append_assoc]
      exact ih (List.cons_ne_nil _ _) (fun w hw => hsmall w (List.mem_cons_of_mem _ hw)) _

end Text

namespace Output

structure Grown (k : Nat) (w : List Char) (o o' : Output) : Prop where
  limit : o'.limit = o.limit
  length : o'.length ≤ o.length + k
  text : o'.toString.toList = o.toString.toList ++ w

theorem Grown.trans {j k : Nat} {v w : List Char} {o o' o'' : Output} (h : Grown j v o o')
    (h' : Grown k w o' o'') : Grown (j + k) (v ++ w) o o'' where
  limit := h'.limit.trans h.limit
  length := by
    have hj := h.length
    have hk := h'.length
    omega
  text := by rw [h'.text, h.text, List.append_assoc]

end Output

namespace Decoder

variable {s : Decoding}

/-- Text for which there is room is written. -/
theorem onOutput_of_room {k : Nat} {w : List Char} {m : Action Output Unit}
    (hwrites : Output.Writes k m) (hadds : Output.Adds w m)
    (hroom : (s.out.length + k : Nat) ≤ s.out.limit) :
    ∃ o, onOutput m s = .ok () { s with out := o } ∧ Output.Grown k w s.out o := by
  simp only [onOutput, Action.on]
  cases hm : m s.out with
  | error fault o =>
    have hlong := (hwrites.refused hm).2
    omega
  | ok a o =>
    obtain ⟨hlimit, hlength⟩ := hwrites.written hm
    exact ⟨o, rfl, hlimit, hlength, hadds _ _ _ hm⟩

/-- A mnemonic that no prefix has left anything for is written alone. -/
theorem mnemonic_of_room {site : Site} {name : String} (heffects : s.effects = [])
    (hlow : Capacity.minCount ≤ site.mnemonicWidth) (hhigh : site.mnemonicWidth ≤ 64)
    (hname : name.length ≤ 64) (hroom : (s.out.length + 64 : Nat) ≤ s.out.limit) :
    ∃ o, mnemonic site name s = .ok () { s with out := o } ∧
      Output.Grown 64 (name.toList.rightpad site.mnemonicWidth.toNat ' ') s.out o := by
  have hcheck : (Token.mnemonic name site.mnemonicWidth).check = .ok () := by
    have hwide : site.mnemonicWidth ≤ Capacity.room := by
      have : (64 : Int) ≤ Capacity.room := by decide
      omega
    rw [Token.check, Capacity.checkWidth_of_le hlow hwide]
    rfl
  have hlength : (Token.mnemonic name site.mnemonicWidth).length ≤ 64 := by
    rw [Token.length]
    omega
  have hnothing : value ((none : Option Value).getD .nothing) s = .ok () s := rfl
  rw [mnemonic, Action.bind_of_ok _ (takeEffect_of_nil heffects), Action.bind_of_ok _ hnothing]
  have hadds := Output.adds_append (.mnemonic name site.mnemonicWidth)
  rw [Token.toString, String.toList_ofList] at hadds
  exact onOutput_of_room (Output.writes_append hcheck hlength) hadds hroom

theorem pop_of_cons {unit : Int} {items : List Int} (h : s.stack.items = unit :: items) :
    pop s = .ok unit { s with stack := { s.stack with items } } := by
  simp only [pop, onStack, Action.on, Deferred.pop, h]

theorem pop_of_nil (h : s.stack.items = []) : pop s = .error .stackUnderflow s := by
  simp only [pop, onStack, Action.on, Deferred.pop, h]

end Decoder

namespace Operand

variable (site : Site) (kind : RefKind) (selector : Nat) {s : Decoding}

theorem render_deferred_eq (template : String) :
    (deferred template).render site kind selector = Decoder.pop >>= fun unit =>
      Decoder.number template unit := rfl

/-- The unit on top of the stack is shown. -/
theorem render_deferred {unit : Nat} {items : List Nat}
    (hitems : s.stack.items = (unit :: items).map Int.ofNat)
    (hsmall : ∀ u ∈ unit :: items, u < 65536) (hroom : (s.out.length + 4 : Nat) ≤ s.out.limit) :
    ∃ o, (deferred "%02X").render site kind selector s =
        .ok () { s with stack := { s.stack with items := items.map Int.ofNat }, out := o } ∧
      Output.Grown 4 (Text.unit unit).toList s.out o := by
  have hlength := Text.length_unit_le (hsmall unit List.mem_cons_self)
  rw [render_deferred_eq, Action.bind_of_ok _ (Decoder.pop_of_cons hitems)]
  exact Decoder.onOutput_of_room
    (s := { s with stack := { s.stack with items := items.map Int.ofNat } })
    (Output.writes_write (Text.fill_unit unit) hlength)
      (Output.adds_write (Text.fill_unit unit)) hroom

theorem render_deferred_of_nil (hitems : s.stack.items = []) :
    (deferred "%02X").render site kind selector s = .error .stackUnderflow s := by
  rw [render_deferred_eq, Action.bind_of_error _ (Decoder.pop_of_nil hitems)]

/-- The first of several deferred units is shown with the separator behind it. -/
theorem render_seq_of_cons (separator : String) (m : Nat) {unit : Nat} {items : List Nat}
    (hitems : s.stack.items = (unit :: items).map Int.ofNat)
    (hsmall : ∀ u ∈ unit :: items, u < 65536)
    (hroom : (s.out.length + (4 + separator.length) : Nat) ≤ s.out.limit) :
    ∃ o,
      (seq separator (List.replicate (m + 1 + 1) (deferred "%02X"))).render site kind selector s =
        (seq separator (List.replicate (m + 1) (deferred "%02X"))).render site kind selector
          { s with stack := { s.stack with items := items.map Int.ofNat }, out := o } ∧
      Output.Grown (4 + separator.length) ((Text.unit unit).toList ++
        separator.toList) s.out o := by
  obtain ⟨o, hrender, hgrown⟩ := render_deferred site kind selector hitems hsmall (by omega)
  have hlength := hgrown.length
  have hlimit := hgrown.limit
  obtain ⟨o', hseparator, hgrown'⟩ := Decoder.onOutput_of_room
    (s := { s with stack := { s.stack with items := items.map Int.ofNat }, out := o })
    (Output.writes_append (k := separator.length) rfl (Nat.le_refl _))
      (Output.adds_append (.separator separator))
    (show (o.length + separator.length : Nat) ≤ o.limit by omega)
  refine ⟨o', ?_, hgrown.trans hgrown'⟩
  rw [List.replicate_succ]
  exact (Action.bind_of_ok _ hrender).trans (Action.bind_of_ok _ hseparator)

/-- A row of deferred units shows what is on the stack from its top on, as far as the stack
reaches. -/
theorem render_seq_deferred (separator : String) (m : Nat) {items : List Nat}
    (hitems : s.stack.items = items.map Int.ofNat) (hsmall : ∀ unit ∈ items, unit < 65536)
    (hroom : (s.out.length + items.length * (4 + separator.length) : Nat) ≤ s.out.limit) :
    (m + 1 ≤ items.length →
      ∃ o, (seq separator (List.replicate (m + 1) (deferred "%02X"))).render site kind selector s =
          .ok () { s with
            stack := { s.stack with items := (items.drop (m + 1)).map Int.ofNat }
            out := o } ∧
        o.toString.toList =
          s.out.toString.toList ++
            (separator.intercalate ((items.take (m + 1)).map Text.unit)).toList) ∧
    (items.length < m + 1 →
      ∃ t, (seq separator (List.replicate (m + 1) (deferred "%02X"))).render site kind selector s =
        .error .stackUnderflow t) := by
  induction m generalizing items s with
  | zero =>
    cases items with
    | nil =>
      refine ⟨fun h => absurd h (Nat.not_succ_le_zero _), fun _ => ⟨s, ?_⟩⟩
      exact render_deferred_of_nil site kind selector hitems
    | cons unit items =>
      rw [List.length_cons, Nat.succ_mul] at hroom
      obtain ⟨o, hrender, hgrown⟩ := render_deferred site kind selector hitems hsmall (by omega)
      refine ⟨fun _ => ⟨o, hrender, ?_⟩, fun h => by simp at h⟩
      simpa using hgrown.text
  | succ m ih =>
    cases items with
    | nil =>
      refine ⟨fun h => absurd h (Nat.not_succ_le_zero _), fun _ => ⟨s, ?_⟩⟩
      exact Action.bind_of_error _ (render_deferred_of_nil site kind selector hitems)
    | cons unit items =>
      rw [List.length_cons, Nat.succ_mul] at hroom
      obtain ⟨o, hrender, hgrown⟩ :=
        render_seq_of_cons site kind selector separator m hitems hsmall (by omega)
      have hlength := hgrown.length
      have hlimit := hgrown.limit
      obtain ⟨hfits, hshort⟩ :=
        ih (s := { s with stack := { s.stack with items := items.map Int.ofNat }, out := o })
        rfl (fun u hu => hsmall u (List.mem_cons_of_mem _ hu))
        (show (o.length + items.length * (4 + separator.length) : Nat) ≤ o.limit by omega)
      rw [hrender, List.length_cons, Nat.add_le_add_iff_right, Nat.add_lt_add_iff_right]
      refine ⟨fun h => ?_, hshort⟩
      obtain ⟨o', hrest, htext⟩ := hfits h
      refine ⟨o', hrest, ?_⟩
      obtain ⟨next, rest, rfl⟩ :=
        List.exists_cons_of_length_pos (Nat.lt_of_lt_of_le (Nat.succ_pos m) h)
      rw [htext, hgrown.text]
      simp [String.intercalate_cons_cons]

end Operand

/-! ## The instruction -/

namespace Walk

open Decoder

variable {insn : Insn} {separator : String} {m : Nat}

/-- What an instruction with a row of deferred units makes of a stack of units. -/
theorem emit_deferred (site : Site) {s : Decoding} {items : List Nat}
    (hoperand : insn.operand = .seq separator (List.replicate m (.deferred "%02X"))) (hm : 1 ≤ m)
    (hname : insn.mnemonic.length ≤ 64) (hseparator : separator.length ≤ 8)
    (hlow : Capacity.minCount ≤ site.mnemonicWidth) (hhigh : site.mnemonicWidth ≤ 64)
    (hout : s.out = {}) (heffects : s.effects = []) (hitems : s.stack.items = items.map Int.ofNat)
    (hsmall : ∀ u ∈ items, u < 65536) (hheight : items.length ≤ 16) (unit : Nat) :
    (m ≤ items.length →
      ∃ t, emit site insn unit s = .ok (.stop true) t ∧ t.cursor = s.cursor ∧
        t.stack.size = items.length - m ∧
        t.out.toString.toList = insn.mnemonic.toList.rightpad site.mnemonicWidth.toNat ' ' ++
          (separator.intercalate ((items.take m).map Text.unit)).toList) ∧
    (items.length < m → ∃ t, emit site insn unit s = .error .stackUnderflow t) := by
  have hlimit : s.out.limit = 256 := by rw [hout]
  have hlength : s.out.length = 0 := by rw [hout]
  obtain ⟨o, hmnemonic, hgrown⟩ := mnemonic_of_room heffects hlow hhigh hname (by omega)
  have hwritten := hgrown.length
  have hsame := hgrown.limit
  have hroom : items.length * (4 + separator.length) ≤ 16 * (4 + 8) :=
    Nat.mul_le_mul hheight (by omega)
  obtain ⟨k, rfl⟩ : ∃ k, m = k + 1 := ⟨m - 1, by omega⟩
  obtain ⟨hfits, hshort⟩ :=
    Operand.render_seq_deferred site insn.kind unit (s := { s with out := o }) separator k
    hitems hsmall (show (o.length + items.length * (4 + separator.length) : Nat) ≤ o.limit by omega)
  rw [emit, Action.bind_of_ok _ hmnemonic, hoperand]
  refine ⟨fun h => ?_, fun h => ?_⟩
  · obtain ⟨o', hrender, htext⟩ := hfits h
    refine ⟨_, Action.bind_of_ok _ hrender, rfl, ?_, ?_⟩
    · rw [Deferred.size, List.length_map, List.length_drop]
    · rw [htext, hgrown.text, hout]
      rfl
  · obtain ⟨t, hrender⟩ := hshort h
    exact ⟨t, Action.bind_of_error _ hrender⟩

end Walk

namespace Decoder

variable {arch : Architecture} {cursor : Cursor} {insn : Insn} {pages : Nat} {deferred : List Nat}
    {s : Decoding}

theorem conclude_of_left (site : Site) (h : s.stack.size ≠ 0) :
    conclude true site true s = .error (.unconsumed s.stack.size site.address) s := by
  unfold conclude
  rw [if_pos (by simpa using h)]

theorem conclude_of_allowed {balance : Bool} (site : Site)
    (h : s.stack.size = 0 ∨ balance = false) :
    conclude balance site true s =
      .ok ⟨Text.trimEnd s.out.toString, site.address, s.cursor.addr, s.cursor.captured,
        true⟩ s := by
  unfold conclude
  rw [if_neg]
  rcases h with h | h <;> simp [h]

/-- An instruction behind a chain is written from a state in which all that the chain defers is on
the stack. -/
theorem instruction_of_chain (balance : Bool) (site : Site) (symbols : SymbolTable)
    (hchain : Walk.Chain arch insn arch.root cursor.units pages deferred) :
    (16 < deferred.length →
      ∃ t, instruction arch balance site (.start cursor symbols) = .error .stackOverflow t) ∧
    (deferred.length ≤ 16 →
      ∃ last t, Walk.Collected (pages + deferred.length + 1) deferred (.start cursor symbols) t ∧
        instruction arch balance site (.start cursor symbols) =
          (Walk.emit site insn last >>= fun _ => conclude balance site true) t) := by
  obtain ⟨unit, further, hunits⟩ := hchain.exists_cons
  obtain ⟨s, hfetch, hfurther, hfetched⟩ := Walk.fetch_of_units (s := .start cursor symbols) hunits
  have hdepth : s.stack.depth = 16 := hfetched.depth
  have hitems : s.stack.items.length = 0 := hfetched.length_items
  obtain ⟨hfits, hlong⟩ :=
    Walk.walk_of_chain hchain (hunits.trans (congrArg _ hfurther.symm)) (by omega)
  rw [instruction, Action.bind_of_ok _ hfetch]
  refine ⟨fun h => ?_, fun h => ?_⟩
  · obtain ⟨t, hwalk⟩ := hlong (by omega)
    exact ⟨t, Action.bind_of_error _ hwalk⟩
  · obtain ⟨last, t, hcollected, hwalk⟩ := hfits (by omega)
    have hall := hfetched.trans hcollected
    rw [Nat.add_comm, List.nil_append] at hall
    refine ⟨last, t, hall, ?_⟩
    rw [Action.bind_congr _ hwalk, bind_assoc]
    rfl

end Decoder

theorem decode_of_error {arch : Architecture} {balance : Bool} {cursor : Cursor}
    {symbols : SymbolTable} {fault : Fault} {t : Decoding}
    (h : Decoder.instruction arch balance (arch.site cursor) (.start cursor symbols) =
      .error fault t) :
    decode arch balance cursor symbols = .of (.error fault) t := by
  rw [decode, h]

theorem decode_of_ok {arch : Architecture} {balance : Bool} {cursor : Cursor}
    {symbols : SymbolTable} {i : Instruction} {t : Decoding}
    (h : Decoder.instruction arch balance (arch.site cursor) (.start cursor symbols) = .ok i t) :
    decode arch balance cursor symbols = .of (.ok i) t := by
  rw [decode, h]

/-- Deferred units across pages. The units ahead lead through rules that defer units, and then to an
instruction that shows `m` deferred units. If more than 16 units are deferred, the stack overflows;
if the instruction shows more than that, it underflows; if it shows less, the others must not be
left over, unless that is not checked. Otherwise the instruction shows the units deferred last, the
last of them first, and has read one unit for each of the rules, the deferred units, and its own. -/
theorem decode_deferred (arch : Architecture) (balance : Bool) (cursor : Cursor)
    (symbols : SymbolTable) (insn : Insn) (separator : String) (m pages : Nat) (deferred : List Nat)
    (hchain : Walk.Chain arch insn arch.root cursor.units pages deferred)
    (hoperand : insn.operand = .seq separator (List.replicate m (.deferred "%02X"))) (hm : 1 ≤ m)
    (hname : insn.mnemonic.length ≤ 64) (hseparator : separator.length ≤ 8)
    (hlow : Capacity.minCount ≤ arch.profile.mnemonicWidth)
    (hhigh : arch.profile.mnemonicWidth ≤ 64) :
    (16 < deferred.length → (decode arch balance cursor symbols).result = .error .stackOverflow) ∧
    (deferred.length ≤ 16 → deferred.length < m →
      (decode arch balance cursor symbols).result = .error .stackUnderflow) ∧
    (deferred.length ≤ 16 → m < deferred.length → balance = true →
      (decode arch balance cursor symbols).result =
        .error (.unconsumed (deferred.length - m) cursor.addr)) ∧
    (deferred.length ≤ 16 → m = deferred.length ∨ m < deferred.length ∧ balance = false →
      ∃ i, (decode arch balance cursor symbols).result = .ok i ∧ i.found = true ∧
        i.text =
          String.ofList (insn.mnemonic.toList.rightpad arch.profile.mnemonicWidth.toNat ' ') ++
          separator.intercalate ((deferred.reverse.take m).map Text.unit) ∧
        i.length = (pages + deferred.length + 1) * cursor.layout.width.size ∧
        (decode arch balance cursor symbols).cursor =
          cursor.beginInstruction.advance ((pages + deferred.length + 1) *
            cursor.layout.width.size)) := by
  obtain ⟨hover, hwithin⟩ := Decoder.instruction_of_chain balance (arch.site cursor) symbols hchain
  refine ⟨fun h => ?_, ?_⟩
  · obtain ⟨t, ht⟩ := hover h
    rw [decode_of_error ht]
    rfl
  by_cases hheight : deferred.length ≤ 16
  · obtain ⟨last, t, hcollected, hrun⟩ := hwithin hheight
    have hitems : t.stack.items = deferred.reverse.map Int.ofNat :=
      hcollected.items.trans (List.append_nil _)
    have hsmall : ∀ u ∈ deferred.reverse, u < 65536 := fun u hu =>
      Cursor.units_lt (hchain.mem (List.mem_reverse.mp hu))
    obtain ⟨hfits, hshort⟩ :=
      Walk.emit_deferred (arch.site cursor) hoperand hm hname hseparator hlow hhigh
      hcollected.out hcollected.effects hitems hsmall
        (by rw [List.length_reverse]; exact hheight) last
    rw [List.length_reverse] at hfits hshort
    refine ⟨fun _ h => ?_, fun _ h hbalance => ?_, fun _ h => ?_⟩
    · obtain ⟨u, hemit⟩ := hshort h
      rw [decode_of_error (hrun.trans (Action.bind_of_error _ hemit))]
      rfl
    · subst hbalance
      obtain ⟨u, hemit, -, hleft, -⟩ := hfits (Nat.le_of_lt h)
      have hconclude := Decoder.conclude_of_left (arch.site cursor) (show u.stack.size ≠ 0 by omega)
      rw [decode_of_error (hrun.trans ((Action.bind_of_ok _ hemit).trans hconclude)), hleft]
      rfl
    · obtain ⟨u, hemit, hcursor, hleft, htext⟩ := hfits (by omega)
      have hallowed : u.stack.size = 0 ∨ balance = false := h.imp (fun h => by omega) And.right
      have hconclude := Decoder.conclude_of_allowed (arch.site cursor) hallowed
      have hread : u.cursor =
          cursor.beginInstruction.advance ((pages + deferred.length + 1) *
            cursor.layout.width.size) :=
        hcursor.trans hcollected.cursor
      rw [decode_of_ok (hrun.trans ((Action.bind_of_ok _ hemit).trans hconclude))]
      refine ⟨_, rfl, rfl, ?_, ?_, hread⟩
      · have hshown : deferred.reverse.take m ≠ [] := by
          refine List.ne_nil_of_length_pos ?_
          rw [List.length_take, List.length_reverse]
          omega
        have hkept := Text.dropEndBlanks_units separator hshown fun u hu =>
          hsmall u (List.mem_of_mem_take hu)
        rw [Text.trimEnd, htext, hkept, String.ofList_append, String.ofList_toList]
        rfl
      · rw [Instruction.length, hread]
        simp only [Cursor.advance, Cursor.beginInstruction, Architecture.site]
        push_cast
        omega
  · exact ⟨fun h => absurd h hheight, fun h => absurd h hheight, fun h => absurd h hheight⟩

/-- Three pages, of which the second asks for a negative number of units, and an instruction that
leaves one unit. -/
theorem decode_deferred_pages :
    let insn : Insn := ⟨"BIT", .seq ", " [.deferred "%02X", .deferred "%02X"], .none⟩
    let arch : Architecture :=
      ⟨⟨"toy", "Toy CPU", 8, 8, .little, 1⟩, ⟨"main", [.push "first" 0xCB 2]⟩,
      [⟨"first", [.push "second" 0x10 (-1)]⟩, ⟨"second", [.push "third" 0x20 1]⟩,
        ⟨"third", [.exact insn 0x46]⟩]⟩
    let cursor := Cursor.start ⟨.byte, .little, 8⟩ [0xCB, 0x11, 0x22, 0x10, 0x20, 0x33, 0x46] 0x400
    Walk.Chain arch insn arch.root cursor.units 3 [0x11, 0x22, 0x33] ∧
      (decode arch true cursor {}).result = .error (.unconsumed 1 0x400) ∧
      ∃ i, (decode arch false cursor {}).result = .ok i ∧ i.text = "BIT     33, 22" ∧
        i.length = 7 := by
  intro insn arch cursor
  have hunits : cursor.units = [0xCB, 0x11, 0x22, 0x10, 0x20, 0x33, 0x46] := by decide +kernel
  have hchain : Walk.Chain arch insn arch.root cursor.units 3 [0x11, 0x22, 0x33] := by
    rw [hunits]
    have hlast : Walk.Chain arch insn (arch.table "third") [0x46] 0 [] :=
      .last (show Rule.pick _ _ _ = some (.exact insn 0x46) by decide)
    have hthird : Walk.Chain arch insn (arch.table "second") (0x20 :: ([0x33] ++ [0x46])) 1
        ([0x33] ++ []) :=
      .push (show Rule.pick _ _ _ = some (.push "third" 0x20 1) by decide) rfl hlast
    have hsecond : Walk.Chain arch insn (arch.table "first") (0x10 :: ([] ++ [0x20, 0x33, 0x46])) 2
        ([] ++ [0x33]) :=
      .push (show Rule.pick _ _ _ = some (.push "second" 0x10 (-1)) by decide) rfl hthird
    have hfirst : Walk.Chain arch insn arch.root
        (0xCB :: ([0x11, 0x22] ++ [0x10, 0x20, 0x33, 0x46])) 3
        ([0x11, 0x22] ++ [0x33]) :=
      .push (show Rule.pick _ _ _ = some (.push "first" 0xCB 2) by decide) rfl hsecond
    exact hfirst
  obtain ⟨-, -, hleft, -⟩ :=
    decode_deferred arch true cursor {} insn ", " 2 3 [0x11, 0x22, 0x33] hchain rfl
    (by decide) (by decide) (by decide) (by decide) (by decide)
  obtain ⟨-, -, -, hshown⟩ :=
    decode_deferred arch false cursor {} insn ", " 2 3 [0x11, 0x22, 0x33] hchain rfl
    (by decide) (by decide) (by decide) (by decide) (by decide)
  obtain ⟨i, hi, -, htext, hlength, -⟩ := hshown (by decide) (.inr ⟨by decide, rfl⟩)
  exact ⟨hchain, hleft (by decide) (by decide) rfl, i, hi, htext.trans (by decide), hlength⟩

end Disassembler
