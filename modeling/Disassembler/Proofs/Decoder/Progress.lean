import Disassembler.Proofs.Decoder.Composed

/-!
Progress of the walk. The tables may lead to each other in any way, so nothing about them can bound
a walk: what gets less is the input. Every transition to a further unit reads at least that unit,
whatever else the rule does on the way, so a walk makes no more transitions than there are units
ahead, and it comes to an end.
-/

namespace Disassembler

def Cursor.unitsAhead (c : Cursor) : Nat := c.rest.length / c.layout.width.size

/-- What a rule that sends the walk on makes of the unit fetched for it. -/
def Rule.onward? (further : Nat) : Rule → Option Next
  | sub target _ => some (.goto target further)
  | push target _ _ => some (.goto target further)
  | lead _ _ _ => some (.again further)
  | _ => none

/-- A fetch reads one unit. -/
theorem Decoder.fetch_advances {s t : Decoding} {unit : Nat} (h : fetch s = .ok unit t) :
    s.cursor.layout.width.size ≤ s.cursor.rest.length ∧
      t.cursor = s.cursor.advance s.cursor.layout.width.size := by
  obtain ⟨hle, -, rfl⟩ := fetch_reads h
  exact ⟨hle, rfl⟩

namespace Walk

open Decoder

variable {arch : Architecture} {site : Site}

/-! ## One table -/

/-- How a rule sends the walk on: whatever it reads first, it fetches the unit that the walk goes on
with. -/
def SentOn (rule : Rule) (s : Decoding) (next : Next) (t : Decoding) : Prop :=
  ∃ n u further, n ≤ s.cursor.rest.length ∧ u.cursor = s.cursor.advance n ∧
    fetch u = .ok further t ∧
    rule.onward? further = some next

theorem SentOn.of_forward {rule : Rule} {s v t : Decoding} {next : Next} {n : Nat}
    (hn : n ≤ s.cursor.rest.length) (hv : v.cursor = s.cursor.advance n)
    (h : SentOn rule v next t) : SentOn rule s next t := by
  obtain ⟨k, u, further, hk, hu, hfetch, hnext⟩ := h
  rw [hv, Cursor.advance_rest_length] at hk
  rw [hv, Cursor.advance_advance] at hu
  exact ⟨n + k, u, further, by omega, hu, hfetch, hnext⟩

/-- The walk goes on only through a rule of the table that accepts the unit and sends it on. -/
theorem scan_sentOn {table : String} {unit : Nat} {rules : List Rule} {seen : Option Nat}
    {s t : Decoding} {next : Next} (h : scan site table unit rules seen s = .ok next t)
    (hgo : next.goesOn = true) :
    ∃ rule ∈ rules, rule.accepts unit = true ∧ SentOn rule s next t := by
  rw [scan_eq_select] at h
  obtain ⟨selected, u, hselect, hcarry⟩ := Action.bind_eq_ok h
  obtain ⟨v, further, hfetch, hcases⟩ := carryOut_cases hcarry hgo
  have hfound : ∀ {rule : Rule} {m : Decoder Unit}, selected = some rule →
      rule.onward? further = some next →
      Forward m → m u = .ok () v → ∃ rule ∈ rules, rule.accepts unit = true ∧
        SentOn rule s next t := by
    intro rule m hrule honward hm hv
    subst hrule
    obtain ⟨hmem, haccepts⟩ := mem_of_selectBy hselect
    obtain ⟨n, hn, hu⟩ := forward_selectBy forward_lookahead unit rules seen s
    obtain ⟨k, hk, hcursor⟩ := hm u
    rw [hselect] at hu
    rw [hv] at hcursor
    exact ⟨rule, hmem, haccepts, .of_forward hn hu ⟨k, v, further, hk, hcursor, hfetch, honward⟩⟩
  rcases hcases with ⟨target, opcode, hrule, rfl, rfl⟩ | ⟨target, opcode, count, hrule, rfl, hv⟩ |
    ⟨effect, kind, opcode, hrule, rfl, hv⟩
  · exact hfound hrule rfl (forward_pure ()) rfl
  · exact hfound hrule rfl (forward_deferFor target count) hv
  · exact hfound hrule rfl (forward_applyEffect site effect kind unit) hv

/-- To be sent on costs a unit at least. -/
theorem SentOn.reads {rule : Rule} {s t : Decoding} {next : Next} (h : SentOn rule s next t) :
    t.cursor.layout = s.cursor.layout ∧
      t.cursor.rest.length + s.cursor.layout.width.size ≤ s.cursor.rest.length := by
  obtain ⟨n, u, further, hn, hu, hfetch, -⟩ := h
  obtain ⟨hsize, ht⟩ := fetch_advances hfetch
  have hlayout : u.cursor.layout = s.cursor.layout := by rw [hu, Cursor.advance]
  have hlength : u.cursor.rest.length = s.cursor.rest.length - n := by
    rw [hu, Cursor.advance_rest_length]
  rw [hlayout] at hsize ht
  rw [ht, Cursor.advance_rest_length]
  exact ⟨hlayout, by omega⟩

/-! ## From table to table -/

/-- Where a walk stands: the table, the unit to be tried there, and the state of decoding. -/
structure Position where
  table : Table
  unit : Nat
  state : Decoding

namespace Position

def ahead (p : Position) : Nat := p.state.cursor.rest.length

def size (p : Position) : Nat := p.state.cursor.layout.width.size

def tried (site : Site) (p : Position) : EStateM.Result Fault Decoding Next :=
  scan site p.table.name p.unit p.table.rules none p.state

theorem size_pos (p : Position) : 0 < p.size := by
  unfold size
  cases p.state.cursor.layout.width <;> decide

end Position

/-- One transition of a walk, to another table or back to the start of the same one. -/
inductive Transition (arch : Architecture) (site : Site) (p : Position) : Position → Prop where
  | goto {name : String} {further : Nat} {t : Decoding}
      (h : p.tried site = .ok (.goto name further) t) :
      Transition arch site p ⟨arch.table name, further, t⟩
  | again {further : Nat} {t : Decoding} (h : p.tried site = .ok (.again further) t) :
      Transition arch site p ⟨p.table, further, t⟩

/-- `Course arch site n p q`: the walk comes from `p` to `q` in `n` transitions. -/
inductive Course (arch : Architecture) (site : Site) : Nat → Position → Position → Prop where
  | here (p : Position) : Course arch site 0 p p
  | step {n : Nat} {p q r : Position} (first : Transition arch site p q)
      (rest : Course arch site n q r) :
      Course arch site (n + 1) p r

inductive Ending (site : Site) (p : Position) : EStateM.Result Fault Decoding Bool → Prop where
  | matched {t : Decoding} (h : p.tried site = .ok (.stop true) t) : Ending site p (.ok true t)
  | unmatched {t : Decoding} (h : p.tried site = .ok (.stop false) t) : Ending site p (.ok false t)
  | fault {fault : Fault} {t : Decoding}
      (h : p.tried site = .error fault t) : Ending site p (.error fault t)

/-- A transition is made by a rule of the table that accepts the unit, and it reads at least one
unit. -/
theorem Transition.reads {p q : Position} (h : Transition arch site p q) :
    (∃ rule ∈ p.table.rules, rule.accepts p.unit = true ∧ (rule.onward? q.unit).isSome = true) ∧
      q.size = p.size ∧ q.ahead + p.size ≤ p.ahead := by
  have key : ∀ {next : Next} {further : Nat} {t : Decoding}, p.tried site = .ok next t →
    next.goesOn = true →
      (∀ rule : Rule, ∀ k, rule.onward? k = some next → k = further) →
      (∃ rule ∈ p.table.rules, rule.accepts p.unit = true ∧ (rule.onward? further).isSome = true) ∧
        t.cursor.layout.width.size = p.size ∧ t.cursor.rest.length + p.size ≤ p.ahead := by
    intro next further t htried hgo hunit
    obtain ⟨rule, hrule, haccepts, hsent⟩ := scan_sentOn htried hgo
    obtain ⟨hlayout, hreads⟩ := hsent.reads
    obtain ⟨-, -, k, -, -, -, hnext⟩ := hsent
    rw [hunit rule k hnext] at hnext
    exact ⟨⟨rule, hrule, haccepts, by rw [hnext]; rfl⟩, by rw [hlayout]; rfl, hreads⟩
  cases h with
  | goto h => exact key h rfl fun rule k hk => by cases rule <;> cases hk <;> rfl
  | again h => exact key h rfl fun rule k hk => by cases rule <;> cases hk; rfl

/-- A course reads at least one unit for each of its transitions. -/
theorem Course.reads {n : Nat} {p q : Position} (h : Course arch site n p q) :
    q.ahead + n * p.size ≤ p.ahead := by
  induction h with
  | here p => omega
  | @step n p q r first rest ih =>
    obtain ⟨-, hsize, hreads⟩ := first.reads
    rw [hsize] at ih
    rw [Nat.succ_mul]
    omega

theorem Course.le_unitsAhead {n : Nat} {p q : Position} (h : Course arch site n p q) :
    n ≤ p.state.cursor.unitsAhead :=
  (Nat.le_div_iff_mul_le p.size_pos).mpr (Nat.le_trans (Nat.le_add_left _ _) h.reads)

/-- The walk follows its transitions to where there is no further one. -/
theorem exists_course (arch : Architecture) (site : Site) (p : Position) :
    ∃ n q, Course arch site n p q ∧ Ending site q (walk arch site p.table p.unit p.state) := by
  -- the induction is the recursion of the walk itself, on the bytes ahead
  obtain ⟨table, unit, s⟩ := p
  fun_induction walk arch site table unit s with
  | case1 table unit s e t h => exact ⟨0, _, .here _, .fault h⟩
  | case2 table unit s found t h =>
    cases found with
    | true => exact ⟨0, _, .here _, .matched h⟩
    | false => exact ⟨0, _, .here _, .unmatched h⟩
  | case3 table unit s name further t h _ ih =>
    obtain ⟨n, q, hcourse, hend⟩ := ih
    exact ⟨n + 1, q, .step (.goto h) hcourse, hend⟩
  | case4 table unit s further t h _ ih =>
    obtain ⟨n, q, hcourse, hend⟩ := ih
    exact ⟨n + 1, q, .step (.again h) hcourse, hend⟩

end Walk

/-! ## One instruction -/

/-- What the walk behind the first unit comes to is what decoding comes to: an instruction says
whether the walk found it, and a fault of the walk is the fault of decoding. -/
theorem decode_of_walk (arch : Architecture) (balance : Bool) {cursor : Cursor}
    {symbols : SymbolTable} {unit : Nat} {s : Decoding}
    (hfetch : Decoder.fetch (.start cursor symbols) = .ok unit s) :
    (∀ i, (decode arch balance cursor symbols).result = .ok i →
      ∃ t, Walk.walk arch (arch.site cursor) arch.root unit s = .ok i.found t) ∧
    ∀ fault t, Walk.walk arch (arch.site cursor) arch.root unit s = .error fault t →
      (decode arch balance cursor symbols).result = .error fault := by
  unfold decode Decoder.instruction
  rw [Action.bind_of_ok _ hfetch]
  constructor
  · intro i hi
    split at hi
    · next j u h =>
      cases hi
      obtain ⟨found, v, hwalk, h⟩ := Action.bind_eq_ok h
      obtain ⟨-, w, -, h⟩ := Action.bind_eq_ok h
      obtain ⟨-, rfl⟩ := Decoder.conclude_eq_ok h
      exact ⟨v, hwalk⟩
    · cases hi
  · intro fault t hwalk
    rw [Action.bind_of_error _ hwalk]
    rfl

open Walk in
/-- Progress, for tables that lead to each other in any way. A transition of the walk is made by a
rule that goes to another table, defers units or is a prefix, and reads at least one unit; no walk
goes on for ever; wherever it stands, it comes to a place where it ends with an instruction, without
one, or with a fault. While one instruction is decoded, there are no more transitions than there are
units behind the first one. -/
theorem decode_progresses (arch : Architecture) (balance : Bool) (cursor : Cursor)
    (symbols : SymbolTable) :
    (∀ site p q, Transition arch site p q →
      (∃ rule ∈ p.table.rules, rule.accepts p.unit = true ∧ (rule.onward? q.unit).isSome = true) ∧
        q.ahead + p.size ≤ p.ahead) ∧
    (∀ site (f : Nat → Position), ∃ n, ¬ Transition arch site (f n) (f (n + 1))) ∧
    (∀ site p, ∃ n q, Course arch site n p q ∧
      Ending site q (walk arch site p.table p.unit p.state)) ∧
    ∀ unit s, Decoder.fetch (.start cursor symbols) = .ok unit s →
      (∀ n q, Course arch (arch.site cursor) n ⟨arch.root, unit, s⟩ q → n ≤ s.cursor.unitsAhead) ∧
      ∃ n q result, Course arch (arch.site cursor) n ⟨arch.root, unit, s⟩ q ∧
        Ending (arch.site cursor) q result ∧
        (∀ i, (decode arch balance cursor symbols).result = .ok i → ∃ t, result = .ok i.found t) ∧
        ∀ fault t, result = .error fault t → (decode arch balance cursor symbols).result =
          .error fault := by
  refine ⟨fun site p q h => ⟨h.reads.1, h.reads.2.2⟩, fun site f => ?_,
    fun site p => exists_course arch site p, ?_⟩
  · refine Classical.byContradiction fun hnone => ?_
    have hendless : ∀ n, Transition arch site (f n) (f (n + 1)) := fun n =>
      Classical.byContradiction fun hn => hnone ⟨n, hn⟩
    have hcourse : ∀ n k, Course arch site n (f k) (f (k + n)) := by
      intro n
      induction n with
      | zero => exact fun k => .here _
      | succ n ih =>
        intro k
        have hrest := ih (k + 1)
        rw [Nat.add_right_comm] at hrest
        exact .step (hendless k) hrest
    have hle := (hcourse ((f 0).state.cursor.unitsAhead + 1) 0).le_unitsAhead
    omega
  · intro unit s hfetch
    obtain ⟨n, q, hcourse, hend⟩ := exists_course arch (arch.site cursor) ⟨arch.root, unit, s⟩
    obtain ⟨hfound, hfault⟩ := decode_of_walk arch balance hfetch
    exact ⟨fun n q h => h.le_unitsAhead, n, q, _, hcourse, hend, hfound, hfault⟩

open Walk in
/-- Two tables that lead into each other, through a rule that defers a negative number of units, and
a prefix that reads a byte of its own. -/
theorem decode_progresses_cycle :
    let arch : Architecture := ⟨⟨"toy", "Toy CPU", 8, 8, .little, 1⟩,
      ⟨"main", [.lead .skip .none 0xF0, .push "page" 0x10 (-1)]⟩,
      [⟨"page", [.mask ⟨"OUT", .none, .none⟩ 0x0F 0x01, .sub "main" 0x02]⟩]⟩
    let cursor := Cursor.start ⟨.byte, .little, 8⟩ [0xF0, 0x99, 0x10, 0x02, 0x10, 0x21] 0x400
    ∃ s, Decoder.fetch (.start cursor {}) = .ok 0xF0 s ∧
      (∃ n q t, Course arch (arch.site cursor) n ⟨arch.root, 0xF0, s⟩ q ∧ n ≤ 5 ∧
        Ending (arch.site cursor) q (.ok true t)) ∧
      (decode arch true cursor {}).result.toOption =
        some ⟨"OUT", 0x400, 0x406, [0xF0, 0x99, 0x10, 0x02, 0x10, 0x21], true⟩ := by
  intro arch cursor
  have hresult : (decode arch true cursor {}).result.toOption =
      some ⟨"OUT", 0x400, 0x406, [0xF0, 0x99, 0x10, 0x02, 0x10, 0x21], true⟩ := by decide +kernel
  refine ⟨_, rfl, ?_, hresult⟩
  obtain ⟨-, -, -, hone⟩ := decode_progresses arch true cursor {}
  obtain ⟨hbound, n, q, result, hcourse, hend, hfound, -⟩ := hone 0xF0 _ rfl
  cases hd : (decode arch true cursor {}).result with
  | error fault => rw [hd] at hresult; cases hresult
  | ok i =>
    rw [hd] at hresult
    obtain ⟨t, rfl⟩ := hfound i hd
    have hi : i.found = true := by cases hresult; rfl
    rw [hi] at hend
    exact ⟨n, q, t, hcourse, Nat.le_trans (hbound n q hcourse) (by decide), hend⟩

end Disassembler
