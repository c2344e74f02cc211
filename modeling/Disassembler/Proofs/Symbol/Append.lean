import Disassembler.Symbol.Table

/-!
Appending references to a symbol table. In a table whose entries stand in order, what is found under
an address afterwards is what was found there before with the new references behind the old ones.
Every table that the operations can build is in order.
-/

namespace Disassembler

/-! ## Entries in order -/

namespace Entry

/-- Strictly ascending addresses, so that each address has one entry at most. -/
def Ascending (es : List Entry) : Prop := es.Pairwise (·.address < ·.address)

variable {address : Int} {f : Entry → Entry} {es : List Entry}

/-- An entry after an update was there before, or is the change of one that was, or of a new one. -/
theorem mem_update {e : Entry} (he : e ∈ update address f es) :
    e = f { address } ∨ (∃ d ∈ es, address = d.address ∧ e = f d) ∨ e ∈ es := by
  induction es with
  | nil => exact .inl (List.mem_singleton.mp he)
  | cons d ds ih =>
    unfold update at he
    split at he
    · rcases List.mem_cons.mp he with rfl | he
      · exact .inl rfl
      · exact .inr (.inr he)
    split at he
    · next ha =>
      rcases List.mem_cons.mp he with rfl | he
      · exact .inr (.inl ⟨d, List.mem_cons_self, ha, rfl⟩)
      · exact .inr (.inr (List.mem_cons_of_mem _ he))
    · rcases List.mem_cons.mp he with rfl | he
      · exact .inr (.inr List.mem_cons_self)
      · rcases ih he with h | ⟨c, hc, ha, h⟩ | h
        · exact .inl h
        · exact .inr (.inl ⟨c, List.mem_cons_of_mem _ hc, ha, h⟩)
        · exact .inr (.inr (List.mem_cons_of_mem _ h))

theorem ascending_update (hf : ∀ e, (f e).address = e.address) (h : Ascending es) :
    Ascending (update address f es) := by
  induction es with
  | nil => exact List.pairwise_singleton _ _
  | cons d ds ih =>
    obtain ⟨hd, hds⟩ := List.pairwise_cons.mp h
    unfold update
    split
    · next hlt =>
      refine List.pairwise_cons.mpr ⟨fun e he => ?_, h⟩
      rw [hf]
      rcases List.mem_cons.mp he with rfl | he
      · exact hlt
      · exact Int.lt_trans hlt (hd e he)
    split
    · refine List.pairwise_cons.mpr ⟨fun e he => ?_, hds⟩
      rw [hf]
      exact hd e he
    · refine List.pairwise_cons.mpr ⟨fun e he => ?_, ih hds⟩
      rcases mem_update he with rfl | ⟨c, hc, _, rfl⟩ | h
      · rw [hf]
        show d.address < address
        omega
      · rw [hf]
        exact hd c hc
      · exact hd e h

/-- An entry before all others is the only one with its address. -/
theorem find?_eq_none_of_lt {a : Int} (h : ∀ e ∈ es, a < e.address) :
    es.find? (fun e => e.address = a) = none := by
  refine List.find?_eq_none.mpr fun e he => ?_
  have := h e he
  simp only [decide_eq_true_eq]
  omega

/-- The entry under the address of an update is the changed one; all others stay as they are. -/
theorem find?_update (hf : ∀ e, (f e).address = e.address) (h : Ascending es) (a : Int) :
    (update address f es).find? (fun e => e.address = a) =
      if a = address then some (f ((es.find? fun e => e.address = address).getD { address }))
      else es.find? fun e => e.address = a := by
  induction es with
  | nil =>
    by_cases ha : a = address
    · simp [update, hf, ha]
    · simp [update, hf, ha, Ne.symm ha]
  | cons d ds ih =>
    obtain ⟨hd, hds⟩ := List.pairwise_cons.mp h
    unfold update
    split
    · next hlt =>
      have hnone : (d :: ds).find? (fun e => e.address = address) = none := by
        refine find?_eq_none_of_lt fun e he => ?_
        rcases List.mem_cons.mp he with rfl | he
        · exact hlt
        · exact Int.lt_trans hlt (hd e he)
      rw [hnone, List.find?_cons]
      by_cases ha : a = address
      · simp [hf, ha]
      · simp [hf, ha, Ne.symm ha]
    split
    · next heq =>
      by_cases ha : a = address
      · simp [hf, ha, heq]
      · have : d.address ≠ a := by omega
        simp [hf, ha, this]
    · next hne =>
      have hda : d.address ≠ address := Ne.symm hne
      by_cases ha : d.address = a
      · have : a ≠ address := by omega
        simp [ha, this]
      · simp [ha, hda, ih hds]

end Entry

/-! ## References -/

/-- A reference together with the address that it refers to. -/
structure Mention where
  target : Int
  ref : Reference
  deriving DecidableEq, Repr

/-- An entry, if there is one, with further references behind those it has. A reference to an
address without an entry makes one, which has no label. -/
def Entry.extended (a : Int) (new : List Reference) : Option Entry → Option Entry
  | some e => some { e with refs := e.refs ++ new }
  | none => if new = [] then none else some { address := a, refs := new }

def Mention.refsTo (a : Int) (ms : List Mention) : List Reference :=
  (ms.filter fun m => m.target = a).map (·.ref)

namespace SymbolTable

/-- Each address has one entry at most, and the entries stand in order. -/
def Ordered (t : SymbolTable) : Prop := Entry.Ascending t.entries

instance (t : SymbolTable) : Decidable t.Ordered := inferInstanceAs (Decidable (List.Pairwise _ _))

def append (t : SymbolTable) (m : Mention) : SymbolTable :=
  t.update m.target (Entry.addReference m.ref)

def appendAll (t : SymbolTable) (ms : List Mention) : SymbolTable := ms.foldl append t

variable {t : SymbolTable}

theorem record_eq_self {target source : Int} {kind : RefKind}
    (h : kind = .none ∨ t.inRange target = false) :
    t.record target source kind = t := if_pos h

theorem record_eq_append {target source : Int} {kind : RefKind} (hk : kind ≠ .none)
    (hr : t.inRange target = true) :
    t.record target source kind = t.append ⟨target, source, kind⟩ := by
  refine if_neg ?_
  rintro (h | h)
  · exact hk h
  · rw [hr] at h
    cases h

theorem inRange_appendAll (ms : List Mention) (a : Int) :
    (t.appendAll ms).inRange a = t.inRange a := by
  induction ms generalizing t with
  | nil => rfl
  | cons m ms ih => exact ih

theorem low_appendAll (ms : List Mention) : (t.appendAll ms).low = t.low := by
  induction ms generalizing t with
  | nil => rfl
  | cons m ms ih => exact ih

theorem high_appendAll (ms : List Mention) : (t.appendAll ms).high = t.high := by
  induction ms generalizing t with
  | nil => rfl
  | cons m ms ih => exact ih

theorem ordered_update (h : t.Ordered) (address : Int) {f : Entry → Entry}
    (hf : ∀ e, (f e).address = e.address) : (t.update address f).Ordered :=
  Entry.ascending_update hf h

theorem ordered_append (h : t.Ordered) (m : Mention) : (t.append m).Ordered :=
  ordered_update h _ fun _ => rfl

theorem ordered_appendAll (h : t.Ordered) (ms : List Mention) : (t.appendAll ms).Ordered := by
  induction ms generalizing t with
  | nil => exact h
  | cons m ms ih => exact ih (ordered_append h m)

/-- The tables that a row of operations can make out of an empty one. -/
inductive Built : SymbolTable → Prop
  | empty : Built {}
  | setRange {t : SymbolTable} (low high : Option Int) : Built t → Built (t.setRange low high)
  | bind {t u : SymbolTable} {address : Int} {name : String} {auto : Bool} :
      Built t → t.bind address name auto = .ok u → Built u
  | autoLabel {t : SymbolTable} (address : Int) : Built t → Built (t.autoLabel address).2
  | record {t : SymbolTable} (target source : Int) (kind : RefKind) : Built t →
    Built (t.record target source kind)
  | recordCode {t : SymbolTable} (target source code : Int) : Built t →
    Built (t.recordCode target source code).2

theorem ordered_record (h : t.Ordered) (target source : Int) (kind : RefKind) :
    (t.record target source kind).Ordered := by
  unfold record
  split
  · exact h
  · exact ordered_update h _ fun _ => rfl

theorem Built.ordered (h : Built t) : t.Ordered := by
  induction h with
  | empty => exact List.Pairwise.nil
  | setRange low high _ ih => exact ih
  | @bind t u address name auto _ hbind ih =>
    unfold SymbolTable.bind at hbind
    split at hbind
    · split at hbind
      · cases hbind
      · cases hbind
        exact ordered_update ih _ fun _ => rfl
    · cases hbind
      exact ih
  | autoLabel address _ ih =>
    unfold SymbolTable.autoLabel
    split
    · exact ih
    split
    · exact ordered_update ih _ fun _ => rfl
    · exact ih
  | record target source kind _ ih => exact ordered_record ih target source kind
  | recordCode target source code _ ih =>
    unfold SymbolTable.recordCode
    split
    · exact ordered_record ih target source _
    split
    · exact ordered_update ih _ fun _ => rfl
    · exact ih

theorem get?_append (h : t.Ordered) (m : Mention) (a : Int) :
    (t.append m).get? a =
      if a = m.target then
        some (Entry.addReference m.ref ((t.get? m.target).getD { address := m.target }))
      else t.get? a :=
  Entry.find?_update (f := Entry.addReference m.ref) (fun _ => rfl) h a

/-- Appending changes what is known of an address only by the references to it. -/
theorem get?_appendAll (h : t.Ordered) (ms : List Mention) (a : Int) :
    (t.appendAll ms).get? a = Entry.extended a (Mention.refsTo a ms) (t.get? a) := by
  induction ms generalizing t with
  | nil => cases he : t.get? a <;> simp [appendAll, Mention.refsTo, Entry.extended, he]
  | cons m ms ih =>
    have hcons : (t.appendAll (m :: ms)).get? a = ((t.append m).appendAll ms).get? a := rfl
    rw [hcons, ih (ordered_append h m), get?_append h]
    by_cases ha : a = m.target
    · have hrefs : Mention.refsTo a (m :: ms) = m.ref :: Mention.refsTo a ms := by
        simp [Mention.refsTo, ha]
      rw [if_pos ha, hrefs, ← ha]
      cases t.get? a with
      | none => simp [Entry.extended, Entry.addReference]
      | some e => simp [Entry.extended, Entry.addReference]
    · have hrefs : Mention.refsTo a (m :: ms) = Mention.refsTo a ms := by
        simp [Mention.refsTo, Ne.symm ha]
      rw [if_neg ha, hrefs]

theorem references_appendAll (h : t.Ordered) (ms : List Mention) (a : Int) :
    (t.appendAll ms).references a = t.references a ++ Mention.refsTo a ms := by
  unfold references
  rw [get?_appendAll h]
  cases t.get? a with
  | none => by_cases hn : Mention.refsTo a ms = [] <;> simp [Entry.extended, hn]
  | some e => rfl

theorem label?_appendAll (h : t.Ordered) (ms : List Mention) (a : Int) :
    (t.appendAll ms).label? a = t.label? a := by
  unfold label?
  rw [get?_appendAll h]
  cases t.get? a with
  | none => by_cases hn : Mention.refsTo a ms = [] <;> simp [Entry.extended, hn]
  | some e => rfl

/-! ## Labels -/

theorem mem_labels {a : Int} {name : String} :
    (a, name) ∈ t.labels ↔ ∃ e ∈ t.entries, e.address = a ∧ e.label = some name := by
  simp only [labels, List.mem_filterMap, Option.map_eq_some_iff, Prod.mk.injEq]
  constructor
  · rintro ⟨e, he, _, hl, ha, rfl⟩
    exact ⟨e, he, ha, hl⟩
  · rintro ⟨e, he, ha, hl⟩
    exact ⟨e, he, name, hl, ha, rfl⟩

theorem mem_labels_of_label? {a : Int} {name : String} (h : t.label? a = some name) :
    (a, name) ∈ t.labels := by
  obtain ⟨e, he, hl⟩ := Option.bind_eq_some_iff.mp h
  have ha := List.find?_some he
  exact mem_labels.mpr ⟨e, List.mem_of_find?_eq_some he, of_decide_eq_true ha, hl⟩

/-- A reference makes no label. -/
theorem labels_record {target source : Int} {kind : RefKind} {p : Int × String}
    (h : p ∈ (t.record target source kind).labels) : p ∈ t.labels := by
  obtain ⟨a, name⟩ := p
  unfold record at h
  split at h
  · exact h
  obtain ⟨e, he, ha, hl⟩ := mem_labels.mp h
  rcases Entry.mem_update he with rfl | ⟨d, hd, _, rfl⟩ | he
  · cases hl
  · exact mem_labels.mpr ⟨d, hd, ha, hl⟩
  · exact mem_labels.mpr ⟨e, he, ha, hl⟩

end SymbolTable

end Disassembler
