import Disassembler.Proofs.Decoder.Selection

/-!
Looking ahead. While the rules of a table are tried, the next unit is looked at once and then
remembered. This does not show: a walk that looks again for every rule with a test comes to the same
end in the same state, up to the count of looks. How often the walk looks on its own behalf is told
by a walk that does not count its looks: what is counted there are the looks of operands.
-/

namespace Disassembler

namespace Decoder

variable {α β : Type}

/-- The next unit, by a look that is not counted. -/
def glance : Decoder Nat := onCursor Cursor.peek

theorem forward_glance : Forward glance :=
  forward_onCursor (moves_look (·.layout.order.value) (·.layout.width.size))

def Counted (k : Nat) (s t : Decoding) : Prop := t = { s with peeks := s.peeks + k }

def Recounted (s t : Decoding) : Prop := t = { s with peeks := t.peeks }

theorem Recounted.symm_trans {s t u : Decoding} (h₁ : Recounted s t) (h₂ : Recounted s u) :
    Recounted t u := by
  unfold Recounted at *
  rw [h₁, h₂]

theorem Counted.recounted {k : Nat} {s t : Decoding} (h : Counted k s t) : Recounted s t := by
  obtain rfl := h
  rfl

/-- Nothing that is composed of elementary steps depends on the count of looks. -/
theorem steady_counted (site : Site) (k : Nat) : Steady site (fun _ => True) (Counted k) where
  read count value := by
    rintro s _ rfl
    simp only [onCursor, Action.on]
    cases Cursor.reading count value s.cursor with
    | ok a c => exact .ok rfl
    | error fault c => exact .error rfl
  peek := by
    rintro s _ rfl
    simp only [peek_eq, onCursor, Action.on]
    cases Cursor.peek s.cursor with
    | ok unit c => exact .ok (by simp only [Counted, Nat.add_right_comm])
    | error fault c => exact .error (by simp only [Counted, Nat.add_right_comm])
  here := by
    rintro s _ rfl
    exact .ok rfl
  stack m := by
    rintro s _ rfl
    simp only [onStack, Action.on]
    cases m s.stack with
    | ok a d => exact .ok rfl
    | error fault d => exact .error rfl
  output m := by
    rintro s _ rfl
    simp only [onOutput, Action.on]
    cases m s.out with
    | ok a o => exact .ok rfl
    | error fault o => exact .error rfl
  setEffect key value := by
    rintro s _ rfl
    exact .ok rfl
  takeEffect key := by
    rintro s _ rfl
    exact .ok rfl
  note message := by
    rintro s _ rfl
    exact .ok rfl
  naming value shown := by
    rintro s _ rfl
    change Agree _ (onOutput _ s) (onOutput _ _)
    simp only [onOutput, Action.on]
    cases Output.append (.address value shown (s.symbols.label? value)) s.out with
    | ok a o => exact .ok rfl
    | error fault o => exact .error rfl
  record target kind _ := by
    rintro s _ rfl
    exact .ok rfl

/-- Outcomes that agree are followed up alike. -/
theorem Agree.bind {R : Decoding → Decoding → Prop} {m₁ m₂ : Decoder α} {f₁ f₂ : α → Decoder β}
    {s₁ s₂ : Decoding} (hm : Agree R (m₁ s₁) (m₂ s₂)) (hf : ∀ a, Matched R (f₁ a) (f₂ a)) :
    Agree R ((m₁ >>= f₁) s₁) ((m₂ >>= f₂) s₂) := by
  generalize h₁ : m₁ s₁ = r₁ at hm
  generalize h₂ : m₂ s₂ = r₂ at hm
  cases hm with
  | ok ht =>
    rw [Action.bind_of_ok _ h₁, Action.bind_of_ok _ h₂]
    exact hf _ _ _ ht
  | error ht =>
    rw [Action.bind_of_error _ h₁, Action.bind_of_error _ h₂]
    exact .error ht

/-- A look that is not counted leaves everything as it is. -/
theorem glance_cases (s : Decoding) : (∃ n, glance s = .ok n s) ∨
    ∃ fault, glance s = .error fault s := by
  simp only [glance, onCursor, Action.on, Cursor.peek, Functor.map, EStateM.map, Cursor.look]
  by_cases h : (s.cursor.rest.take s.cursor.layout.width.size).length = s.cursor.layout.width.size
  · rw [if_pos h]
    exact .inl ⟨_, rfl⟩
  · rw [if_neg h]
    exact .inr ⟨_, rfl⟩

/-- What is remembered of the next unit is what a look would give. -/
def Knows (seen : Option Nat) (s : Decoding) : Prop := ∀ n, seen = some n → glance s = .ok n s

/-- Looking in some way gives what is there, and costs as many looks as `price` says for what is
remembered. -/
def Honest (price : Option Nat → Nat) (look : Option Nat → Decoder Nat) : Prop :=
  ∀ seen s t j, Knows seen s → Counted j s t →
    Agree (Counted (j + price seen)) (glance s) (look seen t)

theorem honest_peek : Honest (fun _ => 1) fun _ => peek := by
  rintro seen s _ j - rfl
  change Agree _ (glance s) (peek _)
  rw [peek_eq]
  simp only [glance, onCursor, Action.on]
  cases Cursor.peek s.cursor with
  | ok n c => exact .ok rfl
  | error fault c => exact .error rfl

end Decoder

namespace Walk

open Decoder

/-- The walk pays for a look if it remembers nothing. -/
def lookPrice : Option Nat → Nat
  | none => 1
  | some _ => 0

theorem honest_lookahead : Honest lookPrice lookahead := by
  intro seen s t j hseen hst
  cases seen with
  | none => exact honest_peek none s t j hseen hst
  | some n =>
    rw [hseen n rfl]
    exact .ok hst

variable {arch : Architecture} {site : Site} {look : Option Nat → Decoder Nat}
    {price : Option Nat → Nat}

/-! ## One table -/

/-- Looking in another way selects the same rule. If nothing is paid for what is remembered, then
all the looks together cost no more than the first one. -/
theorem select_counted (hlook : Honest price look) (unit : Nat) (rules : List Rule)
    (held : Option Nat) {seen : Option Nat} {s t : Decoding} {j : Nat} (hseen : Knows seen s)
    (hst : Counted j s t) :
    ∃ k, ((∀ n, price (some n) = 0) → k ≤ price seen) ∧
      Agree (Counted (j + k)) (selectBy (fun _ => glance) unit rules held s)
        (selectBy look unit rules seen t) := by
  induction rules generalizing held seen t j with
  | nil => exact ⟨0, fun _ => Nat.zero_le _, .ok hst⟩
  | cons rule rules ih =>
    simp only [selectBy]
    by_cases ha : rule.accepts unit = true
    · rw [if_pos ha, if_pos ha]
      cases rule.test? with
      | none => exact ⟨0, fun _ => Nat.zero_le _, .ok hst⟩
      | some test =>
        dsimp only
        have hagree := hlook seen s t j hseen hst
        generalize hright : look seen t = r at hagree
        rcases glance_cases s with ⟨n, hn⟩ | ⟨fault, hfault⟩
        · rw [hn] at hagree
          cases hagree with
          | @ok _ _ t' ht =>
            simp only [Action.bind_of_ok _ hn, Action.bind_of_ok _ hright]
            by_cases htest : test n = true
            · rw [if_pos htest, if_pos htest]
              exact ⟨price seen, fun _ => Nat.le_refl _, .ok ht⟩
            · rw [if_neg htest, if_neg htest]
              -- from here on the unit is remembered
              have hknown : Knows (some n) s := fun m hm => Option.some.inj hm ▸ hn
              obtain ⟨k, hk, hrest⟩ := ih (some n) hknown ht
              refine ⟨price seen + k, fun hfree => ?_, by rwa [← Nat.add_assoc]⟩
              have hnone := hk hfree
              rw [hfree] at hnone
              omega
        · rw [hfault] at hagree
          cases hagree with
          | error ht =>
            rw [Action.bind_of_error _ hfault, Action.bind_of_error _ hright]
            exact ⟨price seen, fun _ => Nat.le_refl _, .error ht⟩
    · rw [if_neg ha, if_neg ha]
      exact ih held hseen hst

def scanBy (look : Option Nat → Decoder Nat) (site : Site) (table : Table) (unit : Nat) :
    Decoder Next :=
  selectBy look unit table.rules none >>= carryOut site table.name unit

theorem scan_eq_scanBy (site : Site) (table : Table) (unit : Nat) :
    scan site table.name unit table.rules none = scanBy lookahead site table unit :=
  scan_eq_select _ _ _ _ _

/-- The same of the rule that is carried out. -/
theorem scan_counted (hlook : Honest price look) (site : Site) (table : Table) (unit : Nat)
    {s t : Decoding} {j : Nat} (hst : Counted j s t) :
    ∃ k, ((∀ n, price (some n) = 0) → k ≤ price none) ∧
      Agree (Counted (j + k)) (scanBy (fun _ => glance) site table unit s)
        (scanBy look site table unit t) := by
  have hnothing : Knows none s := fun _ h => by cases h
  obtain ⟨k, hk, hselect⟩ := select_counted hlook unit table.rules none hnothing hst
  exact ⟨k, hk, hselect.bind fun rule => (Composed.carryOut _ _ _ fun _ _ _ _ => trivial).matched
    (steady_counted site (j + k))⟩

/-! ## Every way of looking makes a walk -/

theorem scanBy_shortens (hlook : ∀ seen, Forward (look seen)) {table : Table} {unit : Nat}
    {s t : Decoding} {next : Next} (h : scanBy look site table unit s = .ok next t)
    (hgo : next.goesOn = true) : t.cursor.rest.length < s.cursor.rest.length := by
  obtain ⟨rule, u, hselect, hcarry⟩ := Action.bind_eq_ok h
  have hle := (forward_selectBy hlook unit table.rules none).le hselect
  exact Nat.lt_of_lt_of_le (carryOut_shortens hcarry hgo) hle

def walkBy (look : Option Nat → Decoder Nat) (hlook : ∀ seen, Forward (look seen))
    (arch : Architecture) (site : Site) (table : Table) (unit : Nat) : Decoder Bool := fun s =>
  match h : scanBy look site table unit s with
  | .error e t => .error e t
  | .ok (.stop found) t => .ok found t
  | .ok (.goto name further) t =>
    have := scanBy_shortens hlook h rfl
    walkBy look hlook arch site (arch.table name) further t
  | .ok (.again further) t =>
    have := scanBy_shortens hlook h rfl
    walkBy look hlook arch site table further t
termination_by s => s.cursor.rest.length

/-- The walk that looks again for every rule with a test. -/
def walkAfresh (arch : Architecture) (site : Site) (table : Table) (unit : Nat) : Decoder Bool :=
  walkBy (fun _ => peek) (fun _ => forward_peek) arch site table unit

/-- The walk that does not count its own looks, only those of operands. -/
def walkUncounted (arch : Architecture) (site : Site) (table : Table) (unit : Nat) : Decoder Bool :=
  walkBy (fun _ => glance) (fun _ => forward_glance) arch site table unit

/-- One table of the walk, and then the rest of it. -/
theorem walkBy_eq_bind (hlook : ∀ seen, Forward (look seen)) (table : Table) (unit : Nat)
    (s : Decoding) :
    walkBy look hlook arch site table unit s = (do
      match ← scanBy look site table unit with
      | .stop found => return found
      | .goto name further => walkBy look hlook arch site (arch.table name) further
      | .again further => walkBy look hlook arch site table further : Decoder Bool) s := by
  rw [walkBy]
  split
  · next e t h => rw [Action.bind_of_error _ h]
  · next found t h => rw [Action.bind_of_ok _ h]; rfl
  · next name further t h => rw [Action.bind_of_ok _ h]
  · next further t h => rw [Action.bind_of_ok _ h]

/-- However it looks, a walk comes to the same end. -/
theorem walk_recounted (hlook : Honest price look) (hforward : ∀ seen, Forward (look seen))
    (table : Table) (unit : Nat) {s t : Decoding} {j : Nat} (hst : Counted j s t) :
    Agree Recounted (walkUncounted arch site table unit s)
      (walkBy look hforward arch site table unit t) := by
  -- on the input ahead of the second walk
  induction hlength : t.cursor.rest.length using Nat.strongRecOn generalizing table unit s t j with
  | _ length ih =>
    subst hlength
    obtain ⟨k, -, hagree⟩ := scan_counted hlook site table unit hst
    rw [walkUncounted, walkBy_eq_bind, walkBy_eq_bind]
    generalize hleft : scanBy (fun _ => glance) site table unit s = r₁ at hagree
    generalize hright : scanBy look site table unit t = r₂ at hagree
    cases hagree with
    | error hu =>
      rw [Action.bind_of_error _ hleft, Action.bind_of_error _ hright]
      exact .error hu.recounted
    | @ok next _ _ hu =>
      rw [Action.bind_of_ok _ hleft, Action.bind_of_ok _ hright]
      cases next with
      | stop found => exact .ok hu.recounted
      | goto name further =>
        exact ih _ (scanBy_shortens hforward hright rfl) (arch.table name) further hu rfl
      | again further => exact ih _ (scanBy_shortens hforward hright rfl) table further hu rfl

/-- Trying a unit counts at most one look more than the operands make. -/
theorem tried_counted (site : Site) (p : Position) {s : Decoding} {j : Nat}
    (hs : Counted j s p.state) :
    ∃ k ≤ 1, Agree (Counted (j + k)) (scanBy (fun _ => glance) site p.table p.unit s)
      (p.tried site) := by
  obtain ⟨k, hk, hagree⟩ := scan_counted honest_lookahead site p.table p.unit hs
  refine ⟨k, hk fun _ => rfl, ?_⟩
  rwa [Position.tried, scan_eq_scanBy]

/-- A walk counts at most one look for each unit that it tries, apart from those that the operands
make. -/
theorem walk_counted (arch : Architecture) (site : Site) (table : Table) (unit : Nat)
    {s t : Decoding} {j : Nat} (hst : Counted j s t) :
    ∃ n q, Course arch site n ⟨table, unit, t⟩ q ∧ Ending site q (walk arch site table unit t) ∧
      ∃ k ≤ n + 1, Agree (Counted (j + k)) (walkUncounted arch site table unit s)
        (walk arch site table unit t) := by
  induction hlength : t.cursor.rest.length using Nat.strongRecOn generalizing table unit s t j with
  | _ length ih =>
    subst hlength
    obtain ⟨k, hk, hagree⟩ := tried_counted site ⟨table, unit, t⟩ hst
    rw [walkUncounted, walkBy_eq_bind, walk_eq_bind]
    generalize hleft : scanBy (fun _ => glance) site table unit s = r₁ at hagree
    generalize hright : Position.tried site ⟨table, unit, t⟩ = r₂ at hagree
    cases hagree with
    | error hu =>
      rw [Action.bind_of_error _ hleft, Action.bind_of_error _ hright]
      exact ⟨0, _, .here _, .fault hright, k, hk, .error hu⟩
    | @ok next v u hu =>
      rw [Action.bind_of_ok _ hleft, Action.bind_of_ok _ hright]
      -- the looks of this table and those of the others
      have hlater : ∀ other further, Transition arch site ⟨table, unit, t⟩ ⟨other, further, u⟩ →
          u.cursor.rest.length < t.cursor.rest.length →
          ∃ n q, Course arch site n ⟨table, unit, t⟩ q ∧
            Ending site q (walk arch site other further u) ∧
            ∃ k ≤ n + 1, Agree (Counted (j + k)) (walkUncounted arch site other further v)
              (walk arch site other further u) := by
        intro other further hfirst hlt
        obtain ⟨n, q, hcourse, hend, k', hk', hrest⟩ := ih _ hlt other further hu rfl
        refine ⟨n + 1, q, .step hfirst hcourse, hend, k + k', by omega, ?_⟩
        rwa [← Nat.add_assoc]
      cases next with
      | stop found =>
        refine ⟨0, _, .here _, ?_, k, hk, .ok hu⟩
        cases found with
        | true => exact .matched hright
        | false => exact .unmatched hright
      | goto name further => exact hlater _ _ (.goto hright) (scan_shortens hright rfl)
      | again further => exact hlater _ _ (.again hright) (scan_shortens hright rfl)

/-- Remembering the next unit does not show. A walk that looks again for every rule whose test on
the unit itself holds gives the same result or fault and leaves the same state, the count of looks
apart. With what operands look at for themselves left out, a unit is tried with at most one look,
and a walk makes no more looks than it tries units. -/
theorem walk_looksOnce (arch : Architecture) (site : Site) (table : Table) (unit : Nat)
    (s : Decoding) :
    Agree Recounted (walk arch site table unit s) (walkAfresh arch site table unit s) ∧
    (∀ p : Position, ∃ k ≤ 1,
      Agree (Counted k) (scanBy (fun _ => glance) site p.table p.unit p.state) (p.tried site)) ∧
    ∃ n q, Course arch site n ⟨table, unit, s⟩ q ∧ Ending site q (walk arch site table unit s) ∧
      ∃ k ≤ n + 1, Agree (Counted k) (walkUncounted arch site table unit s)
        (walk arch site table unit s) := by
  have hsame : ∀ s, Counted 0 s s := fun _ => rfl
  obtain ⟨n, q, hcourse, hend, k, hk, hcached⟩ := walk_counted arch site table unit (hsame s)
  have hfresh : Agree Recounted (walkUncounted arch site table unit s)
      (walkAfresh arch site table unit s) :=
    walk_recounted honest_peek (fun _ => forward_peek) table unit (hsame s)
  rw [Nat.zero_add] at hcached
  refine ⟨?_, fun p => ?_, n, q, hcourse, hend, k, hk, hcached⟩
  · generalize walkUncounted arch site table unit s = r₀ at hcached hfresh
    generalize walk arch site table unit s = r₁ at hcached
    generalize walkAfresh arch site table unit s = r₂ at hfresh
    cases hcached with
    | ok h₁ => cases hfresh with
      | ok h₂ => exact .ok (h₁.recounted.symm_trans h₂)
    | error h₁ => cases hfresh with
      | error h₂ => exact .error (h₁.recounted.symm_trans h₂)
  · simpa only [Nat.zero_add] using tried_counted site p (hsame p.state)

/-- The third of three rules with a test: one look, three looks, and none that is counted. -/
example :
    let group (name : String) (value : Int) : Rule :=
      .maskNext ⟨name, .imm8 "%02X", .none⟩ 0xFF 0x38 value
    let table : Table := ⟨"main", [group "PUSH" 0x30, group "CALL" 0x10, group "INC" 0x00]⟩
    let arch : Architecture := ⟨⟨"toy", "Toy CPU", 8, 8, .little, 1⟩, table, []⟩
    let s : Decoding := { cursor := Cursor.start ⟨.byte, .little, 8⟩ [0x06], symbols := {} }
    [walk arch {} table 0xFF, walkAfresh arch {} table 0xFF, walkUncounted arch {} table 0xFF].map
      (fun m => (Action.outcome (m s)).2.peeks) = [1, 3, 0] := by
  decide +kernel

end Walk

end Disassembler
