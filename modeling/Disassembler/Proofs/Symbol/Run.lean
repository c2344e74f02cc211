import Disassembler.Action
import Disassembler.Proofs.Symbol.Append

/-!
Runs of operations on a symbol table, those that fail included. An operation changes one entry in
range at most, and there are three ways to change an entry. From this follows what holds of a table
after every run: the entries stand in order, marks and labels agree, and as long as the range is not
changed no entry lies outside it.
-/

namespace Disassembler

namespace SymbolTable

/-! ## Operations -/

inductive Operation where
  | bind (address : Int) (name : String) (auto : Bool)
  | autoLabel (address : Int)
  | record (target source : Int) (kind : RefKind)
  /-- a reference whose kind is given by its number, which may stand for none -/
  | recordCode (target source code : Int)
  | setRange (low high : Option Int)
  | lookup (address : Int)
  | format (address : Int) (template : String)
  deriving DecidableEq, Repr

namespace Operation

/-- Carry out an operation. It answers with a label or a text if it has one to give. -/
def perform : Operation → Action SymbolTable (Option String)
  | bind address name auto => fun t =>
    match t.bind address name auto with
    | .ok u => .ok none u
    | .error fault => .error fault t
  | autoLabel address => fun t => .ok (t.autoLabel address).1 (t.autoLabel address).2
  | record target source kind => fun t => .ok none (t.record target source kind)
  | recordCode target source code => fun t =>
    match t.recordCode target source code with
    | (.ok _, u) => .ok none u
    | (.error fault, u) => .error fault u
  | setRange low high => fun t => .ok none (t.setRange low high)
  | lookup address => fun t => .ok (t.label? address) t
  | format address template => fun t =>
    match t.format address template with
    | .ok text => .ok (some text) t
    | .error fault => .error fault t

def after (op : Operation) (t : SymbolTable) : SymbolTable := (Action.outcome (op.perform t)).2

def keepsRange : Operation → Bool
  | setRange _ _ => false
  | _ => true

end Operation

def run (ops : List Operation) (t : SymbolTable) : SymbolTable :=
  ops.foldl (fun t op => op.after t) t

variable {t u : SymbolTable}

theorem Operation.built_after (op : Operation) (h : Built t) : Built (op.after t) := by
  cases op with
  | bind address name auto =>
    simp only [after, perform]
    cases hb : t.bind address name auto with
    | error fault => exact h
    | ok u => exact .bind h hb
  | autoLabel address => exact .autoLabel address h
  | record target source kind => exact .record target source kind h
  | recordCode target source code =>
    have hbuilt := Built.recordCode target source code h
    simp only [after, perform]
    split
    · next heq => rwa [heq] at hbuilt
    · next heq => rwa [heq] at hbuilt
  | setRange low high => exact .setRange low high h
  | lookup address => exact h
  | format address template =>
    simp only [after, perform]
    split <;> exact h

theorem built_run (ops : List Operation) (h : Built t) : Built (run ops t) := by
  induction ops generalizing t with
  | nil => exact h
  | cons op ops ih => exact ih (op.built_after h)

/-- A table is new when it has a range and nothing else. -/
theorem built_new (low high : Option Int) : Built { low, high } := .setRange low high .empty

/-! ## What an operation can do -/

end SymbolTable

/-- The ways in which an operation changes an entry. A label is given only where there is none or a
generated one, and a reserved name is always marked. -/
inductive Entry.Change (old : Entry) : Entry → Prop where
  | keep : Change old old
  | bind (name : String) (auto : Bool) (hfree : old.label = none ∨ old.auto = true)
      (hmark : isAutoName name = true → auto = true) : Change old (old.bind name auto)
  | refer (ref : Reference) (hkind : ref.kind ≠ .none) : Change old (old.addReference ref)

namespace SymbolTable

/-- The entry of an address, which is empty if the table has none. -/
def entryAt (t : SymbolTable) (address : Int) : Entry := (t.get? address).getD { address }

/-- All that an operation can do to a table. -/
inductive Step (t : SymbolTable) : Operation → SymbolTable → Prop where
  | same {op : Operation} : Step t op t
  | range (low high : Option Int) : Step t (.setRange low high) (t.setRange low high)
  | change {op : Operation} {address : Int} {f : Entry → Entry} (hrange : t.inRange address = true)
      (hf : ∀ e, (f e).address = e.address) (hchange : (t.entryAt address).Change
        (f (t.entryAt address))) :
      Step t op (t.update address f)

variable {t u : SymbolTable}

/-- An address has a label of its own: one that was not generated. -/
def HasOwnLabel (t : SymbolTable) (address : Int) (label : String) : Prop :=
  ∃ e, t.get? address = some e ∧ e.label = some label ∧ e.auto = false

theorem label?_eq_entryAt (t : SymbolTable) (address : Int) :
    t.label? address = (t.entryAt address).label := by
  unfold label? entryAt
  cases t.get? address <;> rfl

/-- Binding is refused where there is a label that was not generated. -/
theorem bind_cases (t : SymbolTable) (address : Int) (name : String) (auto : Bool) :
    (∃ existing, t.inRange address = true ∧ t.HasOwnLabel address existing ∧
      t.bind address name auto = .error (.duplicateLabel address existing name)) ∨
    ((t.entryAt address).label = none ∨ (t.entryAt address).auto = true) ∧
    t.inRange address = true ∧
      t.bind address name auto =
        .ok (t.update address (Entry.bind name (auto || isAutoName name))) ∨
    t.inRange address = false ∧ t.bind address name auto = .ok t := by
  unfold bind
  cases hrange : t.inRange address with
  | false => exact .inr (.inr ⟨rfl, rfl⟩)
  | true =>
    simp only [if_true, entryAt]
    cases he : t.get? address with
    | none => exact .inr (.inl ⟨.inl rfl, trivial, rfl⟩)
    | some e =>
      obtain ⟨a, label, mark, refs⟩ := e
      cases label with
      | none => exact .inr (.inl ⟨.inl rfl, trivial, rfl⟩)
      | some existing =>
        cases mark with
        | true => exact .inr (.inl ⟨.inr rfl, trivial, rfl⟩)
        | false => exact .inl ⟨existing, trivial, ⟨_, he, rfl, rfl⟩, rfl⟩

theorem step_record (t : SymbolTable) (op : Operation) (target source : Int) (kind : RefKind) :
    Step t op (t.record target source kind) := by
  unfold record
  split
  · exact .same
  · next h =>
    rw [not_or, Bool.not_eq_false] at h
    exact .change h.2 (fun _ => rfl) (.refer _ h.1)

theorem Operation.step_after (op : Operation) (t : SymbolTable) : Step t op (op.after t) := by
  cases op with
  | bind address name auto =>
    simp only [after, perform]
    rcases bind_cases t address name auto with ⟨_, _, _, hb⟩ | ⟨hfree, hrange, hb⟩ | ⟨_, hb⟩
    · rw [hb]
      exact .same
    · rw [hb]
      refine .change hrange (fun _ => rfl) (.bind name _ hfree fun hname => ?_)
      rw [hname, Bool.or_true]
    · rw [hb]
      exact .same
  | autoLabel address =>
    simp only [after, perform, SymbolTable.autoLabel]
    split
    · exact .same
    · next hlabel =>
      rw [label?_eq_entryAt] at hlabel
      split
      · next hrange => exact .change hrange (fun _ => rfl) (.bind _ _ (.inl hlabel) fun _ => rfl)
      · exact .same
  | record target source kind => exact step_record t _ target source kind
  | recordCode target source code =>
    simp only [after, perform, SymbolTable.recordCode]
    cases RefKind.ofCode? code with
    | some kind => exact step_record t _ target source kind
    | none =>
      cases hrange : t.inRange target with
      | true => exact .change hrange (fun _ => rfl) .keep
      | false => exact .same
  | setRange low high => exact .range low high
  | lookup address => exact .same
  | format address template =>
    simp only [after, perform]
    split <;> exact .same

/-- What every step of a run keeps is kept by the run. -/
theorem run_keeps {P : SymbolTable → Prop} {ops : List Operation} (hbuilt : Built t)
    (hstep : ∀ op ∈ ops, ∀ t u, t.Ordered → Step t op u → P t → P u) (h : P t) : P (run ops t) := by
  induction ops generalizing t with
  | nil => exact h
  | cons op ops ih =>
    have hop := hstep op List.mem_cons_self t (op.after t) hbuilt.ordered (op.step_after t) h
    exact ih (op.built_after hbuilt) (fun o ho => hstep o (List.mem_cons_of_mem _ ho)) hop

theorem get?_update (h : t.Ordered) {address : Int} {f : Entry → Entry}
    (hf : ∀ e, (f e).address = e.address) (a : Int) :
    (t.update address f).get? a = if a = address then some (f (t.entryAt address)) else t.get? a :=
  Entry.find?_update hf h a

end SymbolTable

/-! ## Entries and where they are found -/

/-- In entries that stand in order, each is the one that is found under its address. -/
theorem Entry.find?_of_mem {es : List Entry} {e : Entry} (h : Ascending es) (he : e ∈ es) :
    es.find? (fun d => d.address = e.address) = some e := by
  induction es with
  | nil => cases he
  | cons d ds ih =>
    obtain ⟨hd, hds⟩ := List.pairwise_cons.mp h
    rcases List.mem_cons.mp he with rfl | he
    · simp
    · have hlt := hd e he
      have hne : ¬ d.address = e.address := by omega
      rw [List.find?_cons_of_neg (by simpa using hne)]
      exact ih hds he

namespace SymbolTable

variable {t : SymbolTable}

theorem address_of_get? {a : Int} {e : Entry} (h : t.get? a = some e) : e.address = a := by
  have ha := List.find?_some h
  exact of_decide_eq_true ha

theorem mem_of_get? {a : Int} {e : Entry} (h : t.get? a = some e) : e ∈ t.entries :=
  List.mem_of_find?_eq_some h

theorem mem_entries (h : t.Ordered) {e : Entry} : e ∈ t.entries ↔ t.get? e.address = some e :=
  ⟨Entry.find?_of_mem h, mem_of_get?⟩

theorem mem_targets (h : t.Ordered) {start : Option Int} {e : Entry} :
    e ∈ t.targets start ↔ t.get? e.address = some e ∧ ∀ a ∈ start, a ≤ e.address := by
  rw [targets, List.mem_filter, mem_entries h, Option.all_eq_true]
  simp

theorem mem_labels_iff (h : t.Ordered) {a : Int} {name : String} :
    (a, name) ∈ t.labels ↔ t.label? a = some name := by
  refine ⟨fun hmem => ?_, mem_labels_of_label?⟩
  obtain ⟨e, he, rfl, hlabel⟩ := mem_labels.mp hmem
  rw [label?, (mem_entries h).mp he]
  exact hlabel

theorem labels_ascend (h : t.Ordered) : t.labels.Pairwise (·.1 < ·.1) := by
  refine List.pairwise_filterMap.mpr (List.Pairwise.imp ?_ h)
  intro d e hlt p hp q hq
  obtain ⟨_, _, rfl⟩ := Option.map_eq_some_iff.mp hp
  obtain ⟨_, _, rfl⟩ := Option.map_eq_some_iff.mp hq
  exact hlt

end SymbolTable

/-! ## What holds after every run -/

/-- An entry by itself: its references have kinds, a mark stands beside a label, and a reserved name
is marked. -/
structure Entry.Sound (e : Entry) : Prop where
  kinds : ∀ r ∈ e.refs, r.kind ≠ .none
  marked : e.auto = true → e.label.isSome = true
  reserved : ∀ name, e.label = some name → isAutoName name = true → e.auto = true

theorem Entry.sound_empty (address : Int) : Sound { address } :=
  ⟨fun _ hr => (nomatch hr), fun h => (nomatch h), fun _ h => (nomatch h)⟩

theorem Entry.Change.sound {old new : Entry} (h : old.Change new) (hold : old.Sound) :
    new.Sound := by
  cases h with
  | keep => exact hold
  | bind name auto hfree hmark =>
    refine ⟨hold.kinds, fun _ => rfl, fun other hother hreserved => ?_⟩
    cases hother
    exact hmark hreserved
  | refer ref hkind =>
    refine ⟨fun r hr => ?_, hold.marked, hold.reserved⟩
    rcases List.mem_append.mp hr with hr | hr
    · exact hold.kinds r hr
    · rw [List.mem_singleton.mp hr]
      exact hkind

namespace SymbolTable

variable {t u : SymbolTable} {op : Operation}

def All (P : Entry → Prop) (t : SymbolTable) : Prop := ∀ e ∈ t.entries, P e

/-- A property of entries that changes keep, and that new entries in range have, is kept by every
step. -/
theorem Step.all {P : Entry → Prop} (hordered : t.Ordered) (h : Step t op u)
    (hnew : ∀ address, t.inRange address = true → P { address })
    (hchange : ∀ old new, old.address = new.address → old.Change new → P old → P new)
    (hall : All P t) : All P u := by
  cases h with
  | same => exact hall
  | range low high => exact hall
  | @change _ address f hrange hf hc =>
    have hat : P (t.entryAt address) := by
      unfold entryAt
      cases he : t.get? address with
      | none => exact hnew address hrange
      | some e => exact hall e (mem_of_get? he)
    intro e he
    rw [mem_entries (ordered_update hordered address hf), get?_update hordered hf] at he
    split at he
    · cases he
      exact hchange _ _ (hf _).symm hc hat
    · exact hall e (mem_of_get? he)

theorem sound_run (ops : List Operation) (hbuilt : Built t) (hall : All Entry.Sound t) :
    All Entry.Sound (run ops t) := by
  refine run_keeps hbuilt (fun op _ t u ht hstep => ?_) hall
  exact hstep.all ht (fun address _ => Entry.sound_empty address) fun _ _ _ hc => hc.sound

/-- Entries are made in range only. -/
theorem Step.inRange (hordered : t.Ordered) (h : Step t op u) (hop : op.keepsRange = true)
    (hall : All (t.inRange ·.address = true) t) :
    u.inRange = t.inRange ∧ All (t.inRange ·.address = true) u := by
  refine ⟨?_, h.all hordered (fun _ hr => hr) (fun old new ha _ hold => ha ▸ hold) hall⟩
  cases h with
  | same => rfl
  | range low high => cases hop
  | change => rfl

theorem inRange_run {ops : List Operation} (hops : ∀ op ∈ ops, op.keepsRange = true)
    (hbuilt : Built t) (hall : All (t.inRange ·.address = true) t) :
    All (t.inRange ·.address = true) (run ops t) := by
  have hkept : (run ops t).inRange = t.inRange ∧ All (t.inRange ·.address = true) (run ops t) := by
    refine run_keeps (P := fun u => u.inRange = t.inRange ∧
      All (t.inRange ·.address = true) u) hbuilt ?_ ⟨rfl, hall⟩
    rintro op hop v w hv hstep ⟨hrange, hin⟩
    rw [← hrange] at hin ⊢
    exact hstep.inRange hv (hops op hop) hin
  exact hkept.2

end SymbolTable

end Disassembler
