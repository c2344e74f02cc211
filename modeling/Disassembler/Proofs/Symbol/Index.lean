import Disassembler.Proofs.Search
import Disassembler.Proofs.Symbol.Run
import Mathlib.Data.List.Basic

/-!
The symbol table as it is kept. The entries stand in a map under their addresses. Beside the map
there is a list of the addresses in ascending order: an address gets into it when its entry is made,
at a place that is searched for by halves, and the entries from an address on are looked up one by
one along the list.

The map and the list stay in step through every operation, also through those that fail. What they
hold together is the table whose entries stand in order, and every operation does to it what it does
to that table. The templates by which addresses are laid out are any text; one with a conversion
that `Text.convert` does not know fails.
-/

namespace Disassembler

/-! ## The map -/

/-- Entries under addresses. No address stands in the map twice. -/
structure EntryMap where
  pairs : List (Int × Entry) := []
  distinct : (pairs.map (·.1)).Nodup := by simp

namespace EntryMap

variable {m : EntryMap} {a : Int} {e : Entry}

def keys (m : EntryMap) : List Int := m.pairs.map (·.1)

def get? (m : EntryMap) (a : Int) : Option Entry := m.pairs.lookup a

theorem lookup_cons (p : Int × Entry) (pairs : List (Int × Entry)) (a : Int) :
    (p :: pairs).lookup a = if a = p.1 then some p.2 else pairs.lookup a := by
  rw [List.lookup_cons]
  by_cases h : a = p.1
  · rw [if_pos h, beq_iff_eq.mpr h]
  · rw [if_neg h, beq_eq_false_iff_ne.mpr h]

theorem get?_eq_none_iff : m.get? a = none ↔ a ∉ m.keys := by
  rw [get?, List.lookup_eq_none_iff, keys, List.mem_map]
  constructor
  · rintro h ⟨p, hp, rfl⟩
    simpa using h p hp
  · intro h p hp
    refine bne_iff_ne.mpr fun heq => ?_
    exact h ⟨p, hp, heq.symm⟩

theorem mem_keys_of_get? (h : m.get? a = some e) : a ∈ m.keys := by
  refine Decidable.byContradiction fun hmem => ?_
  rw [get?_eq_none_iff.mpr hmem] at h
  cases h

theorem exists_get? (h : a ∈ m.keys) : ∃ e, m.get? a = some e :=
  Option.ne_none_iff_exists'.mp fun hnone => get?_eq_none_iff.mp hnone h

/-- Put a new entry under an address that has none. -/
def add (m : EntryMap) (a : Int) (e : Entry) (h : m.get? a = none) : EntryMap where
  pairs := m.pairs ++ [(a, e)]
  distinct := by
    rw [List.map_append, List.nodup_append]
    refine ⟨m.distinct, by simp, fun b hb c hc => ?_⟩
    rw [List.mem_singleton.mp hc]
    rintro rfl
    exact get?_eq_none_iff.mp h hb

def modify (m : EntryMap) (a : Int) (f : Entry → Entry) : EntryMap where
  pairs := m.pairs.map fun p => (p.1, if p.1 = a then f p.2 else p.2)
  distinct := by
    rw [List.map_map]
    exact m.distinct

theorem keys_add (h : m.get? a = none) : (m.add a e h).keys = m.keys ++ [a] := by
  rw [keys, add, List.map_append]
  rfl

theorem get?_add (h : m.get? a = none) (b : Int) :
    (m.add a e h).get? b = if b = a then some e else m.get? b := by
  rw [get?, add, List.lookup_append, lookup_cons, List.lookup_nil]
  by_cases hb : b = a
  · subst hb
    rw [show m.pairs.lookup b = none from h, Option.none_or, if_pos rfl, if_pos rfl]
  · rw [if_neg hb, if_neg hb, Option.or_none]
    rfl

theorem keys_modify (f : Entry → Entry) : (m.modify a f).keys = m.keys := by
  rw [keys, modify, List.map_map]
  rfl

theorem get?_modify (f : Entry → Entry) (b : Int) :
    (m.modify a f).get? b = if b = a then (m.get? a).map f else m.get? b := by
  have hlookup (pairs : List (Int × Entry)) :
      (pairs.map fun p => (p.1, if p.1 = a then f p.2 else p.2)).lookup b =
        if b = a then (pairs.lookup a).map f else pairs.lookup b := by
    induction pairs with
    | nil => simp
    | cons p pairs ih =>
      rw [List.map_cons, lookup_cons, lookup_cons, lookup_cons, ih]
      by_cases hb : b = a
      · subst hb
        by_cases hp : b = p.1
        · simp [hp]
        · simp [hp]
      · by_cases hp : b = p.1
        · simp [hp, show p.1 ≠ a from fun h => hb (hp.trans h)]
        · simp [hb, hp]
  exact hlookup m.pairs

end EntryMap

/-! ## The list of addresses -/

/-- Put an address behind those that are not greater. -/
def insort (a : Int) (order : List Int) : List Int :=
  order.insertIdx (partitionPoint (a < ·) order 0 order.length) a

/-- The place of the first address that is not less. -/
def bisectLeft (a : Int) (order : List Int) : Nat := partitionPoint (a ≤ ·) order 0 order.length

section

variable {a : Int} {order : List Int}

theorem parted_lt (h : order.Pairwise (· < ·)) (a : Int) :
    let k := partitionPoint (a < ·) order 0 order.length
    Parted (a < ·) order k k := by
  refine (parted_all _ order).partitionPoint (h.imp fun {x y} hxy => ?_)
  simp only [decide_eq_true_eq]
  omega

theorem drop_bisectLeft (h : order.Pairwise (· < ·)) (a : Int) :
    order.drop (bisectLeft a order) = order.filter (a ≤ ·) := by
  refine ((parted_all _ order).partitionPoint (h.imp fun {x y} hxy => ?_)).drop_eq_filter
  simp only [decide_eq_true_eq]
  omega

theorem insort_perm (h : order.Pairwise (· < ·)) (a : Int) : (insort a order).Perm (a :: order) :=
  List.perm_insertIdx a order (parted_lt h a).inside

theorem pairwise_insertIdx {k : Nat} (hk : Parted (a < ·) order k k) (h : order.Pairwise (· < ·))
    (ha : a ∉ order) : (order.insertIdx k a).Pairwise (· < ·) := by
  induction order generalizing k with
  | nil =>
    have hzero : k = 0 := Nat.le_zero.mp hk.inside
    subst hzero
    exact List.pairwise_singleton _ _
  | cons b order ih =>
    obtain ⟨hb, horder⟩ := List.pairwise_cons.mp h
    obtain ⟨hne, hrest⟩ := not_or.mp (mt List.mem_cons.mpr ha)
    cases k with
    | zero =>
      have hlt : a < b := of_decide_eq_true (hk.after 0 b (Nat.le_refl 0) rfl)
      refine List.pairwise_cons.mpr ⟨fun c hc => ?_, h⟩
      rcases List.mem_cons.mp hc with rfl | hc
      · exact hlt
      · exact Int.lt_trans hlt (hb c hc)
    | succ k =>
      have hle : ¬ a < b := of_decide_eq_false (hk.before 0 b (Nat.succ_pos k) rfl)
      rw [List.insertIdx_succ_cons]
      refine List.pairwise_cons.mpr ⟨fun c hc => ?_, ih hk.tail horder hrest⟩
      rcases (List.mem_insertIdx (Nat.le_of_succ_le_succ hk.inside)).mp hc with rfl | hc
      · omega
      · exact hb c hc

theorem insort_ascending (h : order.Pairwise (· < ·)) (ha : a ∉ order) :
    (insort a order).Pairwise (· < ·) :=
  pairwise_insertIdx (parted_lt h a) h ha

end

/-! ## The index -/

/-- A symbol table as it is kept: the map, and beside it the list of its addresses. -/
structure SymbolIndex where
  low : Option Int := none
  high : Option Int := none
  entries : EntryMap := {}
  order : List Int := []

namespace SymbolIndex

open SymbolTable (Operation)

def inRange (x : SymbolIndex) (a : Int) : Bool := x.low.all (· ≤ a) && x.high.all (a ≤ ·)

/-- See to it that an address has an entry. -/
def ensure (x : SymbolIndex) (a : Int) : SymbolIndex :=
  match h : x.entries.get? a with
  | some _ => x
  | none => { x with entries := x.entries.add a { address := a } h, order := insort a x.order }

def modify (x : SymbolIndex) (a : Int) (f : Entry → Entry) : SymbolIndex :=
  { x with entries := x.entries.modify a f }

/-- The entry is made before its label is looked at. -/
def bind (a : Int) (name : String) (auto : Bool) : Action SymbolIndex Unit := fun x =>
  if x.inRange a then
    match (x.ensure a).entries.get? a with
    | some { label := some existing, auto := false, .. } =>
      .error (.duplicateLabel a existing name) (x.ensure a)
    | _ => .ok () ((x.ensure a).modify a (Entry.bind name (auto || isAutoName name)))
  else .ok () x

def label? (x : SymbolIndex) (a : Int) : Option String := (x.entries.get? a).bind (·.label)

def autoLabel (a : Int) : Action SymbolIndex (Option String) := fun x =>
  match x.label? a with
  | some existing => .ok (some existing) x
  | none =>
    if x.inRange a then (do bind a (autoName a) true; return some (autoName a)) x else .ok none x

/-- The entry of the target is made before the kind is looked at. -/
def record (target source code : Int) : Action SymbolIndex Unit := fun x =>
  if code = RefKind.none.code ∨ x.inRange target = false then .ok () x
  else
    match RefKind.ofCode? code with
    | none => .error (.referenceKind code) (x.ensure target)
    | some kind => .ok () ((x.ensure target).modify target (Entry.addReference ⟨source, kind⟩))

def perform : Operation → Action SymbolIndex (Option String)
  | .bind a name auto => do bind a name auto; return none
  | .autoLabel a => autoLabel a
  | .record target source kind => do record target source kind.code; return none
  | .recordCode target source code => do record target source code; return none
  | .setRange low high => fun x => .ok none { x with low, high }
  | .lookup a => fun x => .ok (x.label? a) x
  | .format a template => fun x =>
    match x.label? a with
    | some label => .ok (some label) x
    | none => (some <$> Action.lift ((Text.fill template [.number a]).mapError .template)) x

def run (ops : List Operation) (x : SymbolIndex) : SymbolIndex :=
  ops.foldl (fun x op => (Action.outcome (perform op x)).2) x

/-- The entries from an address on, or all of them, looked up along the list. There are none to give
if one of its addresses is not in the map. -/
def targets (x : SymbolIndex) (start : Option Int := none) : Option (List Entry) :=
  (x.order.drop (start.elim 0 (bisectLeft · x.order))).mapM x.entries.get?

def labels (x : SymbolIndex) : Option (List (Int × String)) :=
  x.targets.map (·.filterMap fun e => e.label.map (e.address, ·))

/-- The table that the map and the list hold together. -/
def table (x : SymbolIndex) : SymbolTable := ⟨x.low, x.high, x.order.filterMap x.entries.get?⟩

/-- The map and the list are in step: the list is in ascending order and holds the addresses of the
map, under each of which stands its own entry. -/
structure InStep (x : SymbolIndex) : Prop where
  ascending : x.order.Pairwise (· < ·)
  keys : x.order.Perm x.entries.keys
  address : ∀ a e, x.entries.get? a = some e → e.address = a

/-! ## Map and list in step -/

variable {x : SymbolIndex} {a : Int} {f : Entry → Entry}

theorem ensure_of_some {e : Entry} (h : x.entries.get? a = some e) : x.ensure a = x := by
  unfold ensure
  split
  · rfl
  · next hnone => cases h.symm.trans hnone

theorem ensure_of_none (h : x.entries.get? a = none) :
    x.ensure a =
      { x with entries := x.entries.add a { address := a } h, order := insort a x.order } := by
  unfold ensure
  split
  · next hsome => cases h.symm.trans hsome
  · rfl

theorem low_ensure (x : SymbolIndex) (a : Int) : (x.ensure a).low = x.low := by
  unfold ensure
  split <;> rfl

theorem high_ensure (x : SymbolIndex) (a : Int) : (x.ensure a).high = x.high := by
  unfold ensure
  split <;> rfl

theorem get?_ensure (x : SymbolIndex) (a b : Int) :
    (x.ensure a).entries.get? b =
      if b = a then some ((x.entries.get? a).getD { address := a }) else x.entries.get? b := by
  cases h : x.entries.get? a with
  | some e =>
    rw [ensure_of_some h]
    split
    · next hb => rw [hb, h, Option.getD_some]
    · rfl
  | none =>
    rw [ensure_of_none h]
    exact EntryMap.get?_add h b

theorem InStep.ensure (h : x.InStep) (a : Int) : (x.ensure a).InStep := by
  refine ⟨?_, ?_, fun b e he => ?_⟩
  · cases hget : x.entries.get? a with
    | some e => rw [ensure_of_some hget]; exact h.ascending
    | none =>
      rw [ensure_of_none hget]
      refine insort_ascending h.ascending fun hmem => ?_
      exact EntryMap.get?_eq_none_iff.mp hget (h.keys.mem_iff.mp hmem)
  · cases hget : x.entries.get? a with
    | some e => rw [ensure_of_some hget]; exact h.keys
    | none =>
      rw [ensure_of_none hget, EntryMap.keys_add]
      exact (insort_perm h.ascending a).trans
        ((h.keys.cons a).trans (List.perm_append_singleton a _).symm)
  · rw [get?_ensure] at he
    split at he
    · next hb =>
      cases he
      cases hget : x.entries.get? a with
      | some e => rw [Option.getD_some, h.address a e hget, hb]
      | none => rw [Option.getD_none, hb]
    · exact h.address b e he

theorem InStep.modify (h : x.InStep) (a : Int) (hf : ∀ e, (f e).address = e.address) :
    (x.modify a f).InStep := by
  refine ⟨h.ascending, ?_, fun b e he => ?_⟩
  · rw [SymbolIndex.modify, EntryMap.keys_modify]
    exact h.keys
  · rw [SymbolIndex.modify, EntryMap.get?_modify] at he
    split at he
    · next hb =>
      obtain ⟨d, hd, rfl⟩ := Option.map_eq_some_iff.mp he
      rw [hf, h.address a d hd, hb]
    · exact h.address b e he

/-! ## The table in the index -/

theorem InStep.exists_get? (h : x.InStep) (ha : a ∈ x.order) :
    ∃ e, x.entries.get? a = some e ∧ e.address = a := by
  obtain ⟨e, he⟩ := EntryMap.exists_get? (h.keys.mem_iff.mp ha)
  exact ⟨e, he, h.address a e he⟩

theorem mem_order_of_get? (h : x.InStep) {e : Entry} (he : x.entries.get? a = some e) :
    a ∈ x.order :=
  h.keys.mem_iff.mpr (EntryMap.mem_keys_of_get? he)

theorem InStep.ordered (h : x.InStep) : x.table.Ordered := by
  refine List.pairwise_filterMap.mpr (h.ascending.imp fun {a b} hab d hd e he => ?_)
  rw [h.address a d hd, h.address b e he]
  exact hab

theorem InStep.mem_entries (h : x.InStep) {e : Entry} :
    e ∈ x.table.entries ↔ x.entries.get? e.address = some e := by
  rw [table, List.mem_filterMap]
  constructor
  · rintro ⟨a, -, he⟩
    rwa [h.address a e he]
  · intro he
    exact ⟨e.address, mem_order_of_get? h he, he⟩

/-- Under an address the table has what the map has. -/
theorem InStep.get?_table (h : x.InStep) (a : Int) : x.table.get? a = x.entries.get? a := by
  cases he : x.entries.get? a with
  | some e =>
    have haddress := h.address a e he
    rw [← haddress] at he ⊢
    exact (SymbolTable.mem_entries h.ordered).mp (h.mem_entries.mpr he)
  | none =>
    refine Option.eq_none_iff_forall_ne_some.mpr fun e hget => ?_
    have hmem := h.mem_entries.mp (SymbolTable.mem_of_get? hget)
    rw [SymbolTable.address_of_get? hget, he] at hmem
    cases hmem

theorem InStep.label?_table (h : x.InStep) (a : Int) : x.table.label? a = x.label? a := by
  rw [SymbolTable.label?, h.get?_table, label?]

end SymbolIndex

/-- Tables in order are the same if they have the same range and under each address the same
entry. -/
theorem SymbolTable.eq_of_get? {t u : SymbolTable} (ht : t.Ordered) (hu : u.Ordered)
    (hlow : t.low = u.low) (hhigh : t.high = u.high) (h : ∀ a, t.get? a = u.get? a) : t = u := by
  have hmem (e : Entry) : e ∈ t.entries ↔ e ∈ u.entries := by
    rw [mem_entries ht, mem_entries hu, h]
  have hnodup {v : SymbolTable} (hv : v.Ordered) : v.entries.Nodup := by
    refine List.Pairwise.imp (fun {d e} hlt => ?_) hv
    rintro rfl
    exact Int.lt_irrefl _ hlt
  have hperm := (List.perm_ext_iff_of_nodup (hnodup ht) (hnodup hu)).mpr hmem
  have hentries : t.entries = u.entries := by
    refine hperm.eq_of_pairwise (fun d e _ _ hde hed => ?_) ht hu
    exact absurd hde (Int.lt_asymm hed)
  cases t
  cases u
  simp_all

namespace SymbolIndex

open SymbolTable (Operation)

variable {x : SymbolIndex} {a : Int} {f : Entry → Entry}

theorem InStep.table_ensure (h : x.InStep) (a : Int) :
    (x.ensure a).table = x.table.update a id := by
  have hid (e : Entry) : (id e).address = e.address := rfl
  refine SymbolTable.eq_of_get? (h.ensure a).ordered (SymbolTable.ordered_update h.ordered a hid)
    (low_ensure x a)
    (high_ensure x a) fun b => ?_
  rw [(h.ensure a).get?_table, SymbolTable.get?_update h.ordered hid, get?_ensure, h.get?_table,
    SymbolTable.entryAt, h.get?_table]
  rfl

/-- To change an entry that has been seen to is what an update of the table does. -/
theorem InStep.table_modify (h : x.InStep) (a : Int) (hf : ∀ e, (f e).address = e.address) :
    ((x.ensure a).modify a f).table = x.table.update a f := by
  have hstep := (h.ensure a).modify a hf
  refine SymbolTable.eq_of_get? hstep.ordered (SymbolTable.ordered_update h.ordered a hf)
    (low_ensure x a)
    (high_ensure x a) fun b => ?_
  rw [hstep.get?_table, SymbolTable.get?_update h.ordered hf, SymbolIndex.modify,
    EntryMap.get?_modify, get?_ensure, get?_ensure, h.get?_table, SymbolTable.entryAt, h.get?_table]
  split <;> simp

/-! ## One operation -/

/-- One outcome on the index and one on its table: the answers are the same, and so are the tables
that are left. The index is left in step. -/
structure Follows {α : Type} (left : EStateM.Result Fault SymbolIndex α)
    (shown : EStateM.Result Fault SymbolTable α) : Prop where
  inStep : (Action.outcome left).2.InStep
  answer : (Action.outcome left).1 = (Action.outcome shown).1
  table : (Action.outcome left).2.table = (Action.outcome shown).2

theorem InStep.entryAt_table (h : x.InStep) (a : Int) :
    x.table.entryAt a = (x.entries.get? a).getD { address := a } := by
  rw [SymbolTable.entryAt, h.get?_table]

theorem bind_of_own {e : Entry} {existing : String} (hrange : x.inRange a = true)
    (he : x.entries.get? a = some e) (hlabel : e.label = some existing) (hauto : e.auto = false)
    (name : String) (auto : Bool) :
    bind a name auto x = .error (.duplicateLabel a existing name) x := by
  obtain ⟨address, label, mark, refs⟩ := e
  cases hlabel
  cases hauto
  simp only [bind, hrange, if_true, ensure_of_some he, he]

theorem bind_of_free (hrange : x.inRange a = true)
    (hfree : ((x.entries.get? a).getD { address := a }).label = none ∨
      ((x.entries.get? a).getD { address := a }).auto = true) (name : String) (auto : Bool) :
    bind a name auto x =
      .ok () ((x.ensure a).modify a (Entry.bind name (auto || isAutoName name))) := by
  simp only [bind, hrange, if_true, get?_ensure]
  generalize (x.entries.get? a).getD { address := a } = e at hfree ⊢
  obtain ⟨address, label, mark, refs⟩ := e
  cases label with
  | none => rfl
  | some existing =>
    rcases hfree with hnone | hmark
    · cases hnone
    · cases hmark
      rfl

theorem InStep.bind_follows (h : x.InStep) (a : Int) (name : String) (auto : Bool) :
    Follows (perform (.bind a name auto) x) (Operation.perform (.bind a name auto) x.table) := by
  simp only [Operation.perform]
  rcases SymbolTable.bind_cases x.table a name auto with ⟨existing, hrange, hown, hb⟩
    | ⟨hfree, hrange, hb⟩ | ⟨hrange, hb⟩
  · obtain ⟨e, he, hlabel, hauto⟩ := hown
    rw [h.get?_table] at he
    rw [hb, perform, Action.bind_of_error _ (bind_of_own hrange he hlabel hauto name auto)]
    exact ⟨h, rfl, rfl⟩
  · rw [h.entryAt_table] at hfree
    rw [hb, perform, Action.bind_of_ok _ (bind_of_free hrange hfree name auto)]
    exact ⟨(h.ensure a).modify a fun _ => rfl, rfl, h.table_modify a fun _ => rfl⟩
  · have hindex : x.inRange a = false := hrange
    have hout : bind a name auto x = .ok () x := by
      rw [bind, if_neg (Bool.eq_false_iff.mp hindex)]
    rw [hb, perform, Action.bind_of_ok _ hout]
    exact ⟨h, rfl, rfl⟩

theorem InStep.autoLabel_follows (h : x.InStep) (a : Int) :
    Follows (perform (.autoLabel a) x) (Operation.perform (.autoLabel a) x.table) := by
  simp only [Operation.perform, perform, autoLabel, SymbolTable.autoLabel, h.label?_table]
  cases hlabel : x.label? a with
  | some existing => exact ⟨h, rfl, rfl⟩
  | none =>
    cases hrange : x.inRange a with
    | false =>
      have htable : x.table.inRange a = false := hrange
      simp only [htable, Bool.false_eq_true, if_false]
      exact ⟨h, rfl, rfl⟩
    | true =>
      have htable : x.table.inRange a = true := hrange
      have hfree : ((x.entries.get? a).getD { address := a }).label = none := by
        rw [← h.entryAt_table, ← SymbolTable.label?_eq_entryAt, h.label?_table, hlabel]
      simp only [htable, if_true]
      rw [Action.bind_of_ok _ (bind_of_free hrange (.inl hfree) (autoName a) true)]
      exact ⟨(h.ensure a).modify a fun _ => rfl, rfl, h.table_modify a fun _ => rfl⟩

end SymbolIndex

theorem RefKind.ofCode?_code (kind : RefKind) : ofCode? kind.code = some kind := by
  cases kind <;> rfl

theorem RefKind.code_of_ofCode? {code : Int} {kind : RefKind} (h : ofCode? code = some kind) :
    kind.code = code := by
  have hcode := List.find?_some h
  exact of_decide_eq_true hcode

namespace SymbolIndex

open SymbolTable (Operation)

variable {x : SymbolIndex} {a : Int}

theorem InStep.recordCode_follows (h : x.InStep) (target source code : Int) :
    Follows (perform (.recordCode target source code) x)
      (Operation.perform (.recordCode target source code) x.table) := by
  have hsame : x.table.inRange target = x.inRange target := rfl
  by_cases hskip : code = RefKind.none.code ∨ x.inRange target = false
  · -- nothing is recorded, for want of a kind or of a target in range
    have hindex : record target source code x = .ok () x := if_pos hskip
    have htable : x.table.recordCode target source code = (.ok (), x.table) := by
      unfold SymbolTable.recordCode
      cases hkind : RefKind.ofCode? code with
      | some kind =>
        have hnone : kind = .none ∨ x.table.inRange target = false := by
          refine hskip.imp (fun hcode => ?_) id
          rw [hcode, RefKind.ofCode?_code] at hkind
          exact (Option.some.inj hkind).symm
        simp only [SymbolTable.record_eq_self hnone]
      | none =>
        rcases hskip with hcode | hrange
        · rw [hcode, RefKind.ofCode?_code] at hkind
          cases hkind
        · simp only [hsame, hrange, Bool.false_eq_true, if_false]
    simp only [Operation.perform, htable]
    rw [perform, Action.bind_of_ok _ hindex]
    exact ⟨h, rfl, rfl⟩
  · obtain ⟨hcode, hrange⟩ := not_or.mp hskip
    rw [Bool.not_eq_false] at hrange
    cases hkind : RefKind.ofCode? code with
    | some kind =>
      have hindex : record target source code x =
          .ok () ((x.ensure target).modify target (Entry.addReference ⟨source, kind⟩)) := by
        rw [record, if_neg hskip]
        simp only [hkind]
      have hsome : ¬ (kind = .none ∨ x.table.inRange target = false) := by
        rintro (rfl | hout)
        · exact hcode (RefKind.code_of_ofCode? hkind).symm
        · rw [hsame, hrange] at hout
          cases hout
      have htable : x.table.recordCode target source code =
          (.ok (), x.table.update target (Entry.addReference ⟨source, kind⟩)) := by
        simp only [SymbolTable.recordCode, hkind, SymbolTable.record, if_neg hsome]
      simp only [Operation.perform, htable]
      rw [perform, Action.bind_of_ok _ hindex]
      exact ⟨(h.ensure target).modify target fun _ => rfl, rfl, h.table_modify target fun _ => rfl⟩
    | none =>
      have hindex : record target source code x =
          .error (.referenceKind code) (x.ensure target) := by
        rw [record, if_neg hskip]
        simp only [hkind]
      have htable : x.table.recordCode target source code =
          (.error (.referenceKind code), x.table.update target id) := by
        simp only [SymbolTable.recordCode, hkind, hsame, hrange, if_true]
      simp only [Operation.perform, htable]
      rw [perform, Action.bind_of_error _ hindex]
      exact ⟨h.ensure target, rfl, h.table_ensure target⟩

/-- Every operation does to the index what it does to its table, and leaves the index in step. -/
theorem InStep.follows (h : x.InStep) (op : Operation) :
    Follows (perform op x) (op.perform x.table) := by
  cases op with
  | bind a name auto => exact h.bind_follows a name auto
  | autoLabel a => exact h.autoLabel_follows a
  | record target source kind =>
    have hcode := h.recordCode_follows target source kind.code
    simp only [Operation.perform, SymbolTable.recordCode, RefKind.ofCode?_code] at hcode
    exact hcode
  | recordCode target source code => exact h.recordCode_follows target source code
  | setRange low high => exact ⟨⟨h.ascending, h.keys, h.address⟩, rfl, rfl⟩
  | lookup a =>
    simp only [perform, Operation.perform, h.label?_table]
    exact ⟨h, rfl, rfl⟩
  | format a template =>
    simp only [perform, Operation.perform, SymbolTable.format, h.label?_table]
    cases x.label? a with
    | some label => exact ⟨h, rfl, rfl⟩
    | none =>
      cases (Text.fill template [.number a]).mapError Fault.template with
      | error fault => exact ⟨h, rfl, rfl⟩
      | ok text => exact ⟨h, rfl, rfl⟩

/-! ## Runs -/

theorem inStep_new (low high : Option Int) : InStep { low, high } :=
  ⟨List.Pairwise.nil, List.Perm.nil, fun _ _ he => by cases he⟩

theorem InStep.run (h : x.InStep) (ops : List Operation) :
    (run ops x).InStep ∧ (run ops x).table = SymbolTable.run ops x.table := by
  induction ops generalizing x with
  | nil => exact ⟨h, rfl⟩
  | cons op ops ih =>
    have hop := h.follows op
    obtain ⟨hstep, htable⟩ := ih hop.inStep
    refine ⟨hstep, htable.trans ?_⟩
    rw [hop.table]
    rfl

/-! ## Looking up along the list -/

theorem mapM_get? {m : EntryMap} {order : List Int} (h : ∀ a ∈ order, ∃ e, m.get? a = some e) :
    order.mapM m.get? = some (order.filterMap m.get?) := by
  induction order with
  | nil => rfl
  | cons a order ih =>
    obtain ⟨e, he⟩ := h a List.mem_cons_self
    rw [List.mapM_cons, he, ih fun b hb => h b (List.mem_cons_of_mem _ hb),
      List.filterMap_cons_some he]
    rfl

/-- Along the list every address is found, and the entries are those of the table. -/
theorem InStep.targets_eq (h : x.InStep) (start : Option Int) :
    x.targets start = some (x.table.targets start) := by
  have hdrop : x.order.drop (start.elim 0 (bisectLeft · x.order)) = x.order.filter fun a =>
      start.all (· ≤ a) := by
    cases start with
    | none => exact (List.filter_eq_self.mpr fun _ _ => rfl).symm
    | some s => exact drop_bisectLeft h.ascending s
  rw [targets, hdrop, mapM_get? fun a ha => ?_, SymbolTable.targets, table, List.filterMap_filter,
    List.filter_filterMap]
  · refine congrArg some (List.filterMap_congr fun a ha => ?_)
    obtain ⟨e, he, rfl⟩ := h.exists_get? ha
    rw [he, Option.filter_some]
  · obtain ⟨e, he, -⟩ := h.exists_get? (List.mem_filter.mp ha).1
    exact ⟨e, he⟩

theorem InStep.labels_eq (h : x.InStep) : x.labels = some x.table.labels := by
  have hall : x.table.targets = x.table.entries := List.filter_eq_self.mpr fun _ _ => rfl
  rw [labels, h.targets_eq, hall]
  rfl

/-- After any run of operations on a new index, failing ones included: the list of addresses is
strictly ascending and holds just those of the map, under each of which stands its own entry, and
every entry is sound. What the index holds is the table after the same run, and a further operation
gives the same answer on both. The entries from an address on are found along the list, each once
and in ascending order, and so are the labels. If no operation changes the range then every address
lies in it. -/
theorem run_wellFormed (low high : Option Int) (ops : List Operation) :
    let x := run ops { low, high }
    let t := SymbolTable.run ops { low, high }
    x.InStep ∧ (∀ a e, x.entries.get? a = some e → e.Sound) ∧
    x.table = t ∧ (∀ op, Follows (perform op x) (op.perform t)) ∧
    (∀ start, ∃ es, x.targets start = some es ∧ es = t.targets start ∧
      es.Pairwise (·.address < ·.address) ∧
      ∀ e, e ∈ es ↔ ∃ a, x.entries.get? a = some e ∧ ∀ b ∈ start, b ≤ a) ∧
    (∃ named, x.labels = some named ∧ named = t.labels ∧ named.Pairwise (·.1 < ·.1) ∧
      ∀ a name, (a, name) ∈ named ↔ x.label? a = some name) ∧
    ((∀ op ∈ ops, op.keepsRange = true) → ∀ a ∈ x.order, (∀ b ∈ low, b ≤ a) ∧
      ∀ b ∈ high, a ≤ b) := by
  intro x t
  have hnew := SymbolTable.built_new low high
  obtain ⟨hstep, htable⟩ : x.InStep ∧ x.table = t := (inStep_new low high).run ops
  have hordered : t.Ordered := htable ▸ hstep.ordered
  have hget (a : Int) : t.get? a = x.entries.get? a := htable ▸ hstep.get?_table a
  have hsound := SymbolTable.sound_run ops hnew fun _ he => absurd he List.not_mem_nil
  refine ⟨hstep, fun a e he => ?_, htable, fun op => htable ▸ hstep.follows op, fun start => ?_, ?_,
    fun hops a ha => ?_⟩
  · exact hsound e (SymbolTable.mem_of_get? ((hget a).trans he))
  · refine ⟨_, hstep.targets_eq start, by rw [htable], htable ▸ List.Pairwise.filter _ hordered,
      fun e => ?_⟩
    rw [htable, SymbolTable.mem_targets hordered, hget]
    constructor
    · rintro ⟨he, hstart⟩
      exact ⟨e.address, he, hstart⟩
    · rintro ⟨a, he, hstart⟩
      rw [hstep.address a e he]
      exact ⟨he, hstart⟩
  · refine ⟨_, hstep.labels_eq, by rw [htable], htable ▸ SymbolTable.labels_ascend hordered,
      fun a name => ?_⟩
    rw [htable, SymbolTable.mem_labels_iff hordered, ← htable, hstep.label?_table]
  · obtain ⟨e, he, rfl⟩ := hstep.exists_get? ha
    have hmem := SymbolTable.mem_of_get? ((hget e.address).trans he)
    have hin := SymbolTable.inRange_run hops hnew (fun _ he => absurd he List.not_mem_nil) e hmem
    simpa [SymbolTable.inRange, Option.all_eq_true] using hin

/-- A run with a label that clashes, a reference of no known kind, and references outside the
range. -/
theorem run_wellFormed_refused :
    let ops : List Operation :=
      [.bind 0x20 "___0020" false, .bind 0x10 "START" false, .bind 0x10 "AGAIN" false,
        .recordCode 0x18 0x100 77, .record 0x15 0x100 .jump, .record 0x40 0x100 .call,
        .autoLabel 0x15]
    let x := run ops { low := some 0x10, high := some 0x30 }
    x.entries.keys = [0x20, 0x10, 0x18, 0x15] ∧ x.order = [0x10, 0x15, 0x18, 0x20] ∧
      x.labels = some [(0x10, "START"), (0x15, "___0015"), (0x20, "___0020")] ∧
      (x.targets (some 0x15)).map (·.map fun e => (e.address, e.refs)) =
        some [(0x15, [⟨0x100, .jump⟩]), (0x18, []), (0x20, [])] ∧
      (Action.outcome (perform (.bind 0x10 "AGAIN" false) x)).1 =
        .error (.duplicateLabel 0x10 "START" "AGAIN") ∧
      x.InStep ∧ ∀ a ∈ x.order, 0x10 ≤ a ∧ a ≤ 0x30 := by
  intro ops x
  obtain ⟨hstep, -, -, -, -, -, hrange⟩ := run_wellFormed (some 0x10) (some 0x30) ops
  refine ⟨by decide +kernel, by decide +kernel, by decide +kernel, by decide +kernel, rfl, hstep,
    fun a ha => ?_⟩
  have hin := hrange (by decide) a ha
  exact ⟨hin.1 _ rfl, hin.2 _ rfl⟩

end SymbolIndex

end Disassembler
