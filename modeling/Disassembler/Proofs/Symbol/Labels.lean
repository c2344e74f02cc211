import Disassembler.Proofs.Symbol.Run

/-!
The life of a label. An address that has a label keeps having one, and a label that was not
generated stays for good; binding another one is refused and leaves the table as it is. Generating a
label never fails and never takes one away.
-/

namespace Disassembler.SymbolTable

variable {t u : SymbolTable} {op : Operation}

/-! ## Labels over a run -/

theorem label?_update (h : t.Ordered) {address : Int} {f : Entry → Entry}
    (hf : ∀ e, (f e).address = e.address) (a : Int) :
    (t.update address f).label? a = if a = address then (f (t.entryAt address)).label
      else t.label? a := by
  rw [label?, get?_update h hf]
  by_cases ha : a = address
  · simp [ha]
  · simp [ha, label?]

theorem Step.label (hordered : t.Ordered) (h : Step t op u) {a : Int}
    (ha : (t.label? a).isSome = true) : (u.label? a).isSome = true := by
  cases h with
  | same => exact ha
  | range low high => exact ha
  | @change _ address f hrange hf hchange =>
    rw [label?_update hordered hf]
    split
    · next heq =>
      rw [heq, label?_eq_entryAt] at ha
      generalize f (t.entryAt address) = new at hchange
      cases hchange with
      | keep => exact ha
      | bind name auto => rfl
      | refer ref => exact ha
    · exact ha

/-- The entry with a label of its own is changed by references only. -/
theorem Step.ownLabel (hordered : t.Ordered) (h : Step t op u) {a : Int} {label : String}
    (ha : t.HasOwnLabel a label) : u.HasOwnLabel a label := by
  cases h with
  | same => exact ha
  | range low high => exact ha
  | @change _ address f hrange hf hchange =>
    obtain ⟨e, he, hlabel, hauto⟩ := ha
    by_cases heq : a = address
    · subst heq
      have hentry : t.entryAt a = e := by simp [entryAt, he]
      refine ⟨f e, by rw [get?_update hordered hf, if_pos rfl, hentry], ?_⟩
      rw [hentry] at hchange
      generalize f e = new at hchange
      cases hchange with
      | keep => exact ⟨hlabel, hauto⟩
      | refer ref => exact ⟨hlabel, hauto⟩
      | bind name auto hfree =>
        rcases hfree with hnone | hmark
        · rw [hlabel] at hnone
          cases hnone
        · rw [hauto] at hmark
          cases hmark
    · exact ⟨e, by rw [get?_update hordered hf, if_neg heq, he], hlabel, hauto⟩

theorem label_run (ops : List Operation) (hbuilt : Built t) {a : Int}
    (ha : (t.label? a).isSome = true) : ((run ops t).label? a).isSome = true :=
  run_keeps (P := fun t => (t.label? a).isSome = true) hbuilt
    (fun _ _ _ _ ht hstep => hstep.label ht) ha

theorem ownLabel_run (ops : List Operation) (hbuilt : Built t) {a : Int} {label : String}
    (ha : t.HasOwnLabel a label) : (run ops t).HasOwnLabel a label :=
  run_keeps (P := fun t => t.HasOwnLabel a label) hbuilt
    (fun _ _ _ _ ht hstep => hstep.ownLabel ht) ha

/-! ## Binding and generating -/

theorem HasOwnLabel.entryAt {a : Int} {label : String} (h : t.HasOwnLabel a label) :
    (t.entryAt a).label = some label ∧ (t.entryAt a).auto = false := by
  obtain ⟨e, he, hlabel, hauto⟩ := h
  simp [SymbolTable.entryAt, he, hlabel, hauto]

theorem bind_eq_error_iff {a : Int} {name : String} {auto : Bool} {fault : Fault} :
    t.bind a name auto = .error fault ↔
      ∃ existing, t.inRange a = true ∧ t.HasOwnLabel a existing ∧
        fault = .duplicateLabel a existing name := by
  rcases bind_cases t a name auto with ⟨existing, hrange, hown, hb⟩ | ⟨hfree, hrange, hb⟩
    | ⟨hrange, hb⟩
  · rw [hb]
    constructor
    · intro h
      cases h
      exact ⟨existing, hrange, hown, rfl⟩
    · rintro ⟨other, -, hother, rfl⟩
      have heq : some existing = some other := hown.entryAt.1.symm.trans hother.entryAt.1
      rw [Option.some.inj heq]
  · rw [hb]
    refine ⟨fun h => (nomatch h), ?_⟩
    rintro ⟨other, -, hother, -⟩
    obtain ⟨hlabel, hauto⟩ := hother.entryAt
    simp [hlabel, hauto] at hfree
  · rw [hb]
    refine ⟨fun h => (nomatch h), ?_⟩
    rintro ⟨_, hin, -, -⟩
    rw [hrange] at hin
    cases hin

/-- Generating a label binds it where there is none, and leaves the table alone everywhere else. -/
theorem autoLabel_cases (hordered : t.Ordered) (a : Int) :
    (∃ existing, t.label? a = some existing ∧ t.autoLabel a = (some existing, t)) ∨
    (∃ u, t.label? a = none ∧ t.inRange a = true ∧ t.autoLabel a = (some (autoName a), u) ∧
      t.bind a (autoName a) true = .ok u ∧
      ∀ b, u.label? b = if b = a then some (autoName a) else t.label? b) ∨
    t.label? a = none ∧ t.inRange a = false ∧ t.autoLabel a = (none, t) := by
  unfold autoLabel
  cases hlabel : t.label? a with
  | some existing => exact .inl ⟨existing, rfl, rfl⟩
  | none =>
    cases hrange : t.inRange a with
    | false => exact .inr (.inr ⟨rfl, rfl, rfl⟩)
    | true =>
      refine .inr (.inl ⟨_, rfl, rfl, rfl, ?_, label?_update hordered fun _ => rfl⟩)
      rcases bind_cases t a (autoName a) true with ⟨existing, -, hown, -⟩ | ⟨-, -, hb⟩ | ⟨hout, -⟩
      · rw [label?_eq_entryAt, hown.entryAt.1] at hlabel
        cases hlabel
      · rw [hb, Bool.true_or]
      · rw [hrange] at hout
        cases hout

/-- The life of the label of an address, from any table that operations lead to. In whatever
operations follow it is not lost, and if it was not generated it is not changed. Binding a name
fails exactly where there is such a label in range, and leaves the table as it was. Generating a
label does not fail and changes no label; it answers what a look-up answers afterwards, which is
nothing only outside the range. -/
theorem label_lifeCycle (low high : Option Int) (before : List Operation) (a : Int) :
    let t := run before { low, high }
    (∀ ops, (t.label? a).isSome = true → ((run ops t).label? a).isSome = true) ∧
    (∀ ops label, t.HasOwnLabel a label → (run ops t).HasOwnLabel a label) ∧
    (∀ name auto fault u, (Operation.bind a name auto).perform t = .error fault u ↔
      (∃ existing, t.inRange a = true ∧ t.HasOwnLabel a existing ∧
        fault = .duplicateLabel a existing name) ∧ u = t) ∧
    (∃ answer u, (Operation.autoLabel a).perform t = .ok answer u ∧
      (Operation.lookup a).perform u = .ok answer u ∧
      (∀ b label, t.label? b = some label → u.label? b = some label) ∧
      (answer = none ↔ t.label? a = none ∧ t.inRange a = false) ∧
      (t.label? a = none → t.inRange a = true →
        (Operation.bind a (autoName a) true).perform t = .ok none u)) := by
  intro t
  have hbuilt : Built t := built_run before (built_new low high)
  refine ⟨fun ops => label_run ops hbuilt, fun ops label => ownLabel_run ops hbuilt,
    fun name auto fault u => ?_, ?_⟩
  · rw [← @bind_eq_error_iff t a name auto fault]
    simp only [Operation.perform]
    cases t.bind a name auto with
    | ok v => simp
    | error cause => simp [eq_comm]
  · simp only [Operation.perform]
    rcases autoLabel_cases hbuilt.ordered a with
      ⟨existing, hlabel, h⟩ | ⟨u, hlabel, hrange, h, hb, hu⟩ | ⟨hlabel, hrange, h⟩
    · rw [h]
      exact ⟨_, _, rfl, by rw [hlabel], fun _ _ hb => hb, by simp [hlabel], fun hnone => by
        simp [hlabel] at hnone⟩
    · rw [h]
      refine ⟨_, _, rfl, by rw [hu, if_pos rfl], fun b label hlb => ?_, by simp [hrange],
        fun _ _ => by rw [hb]⟩
      have hne : b ≠ a := by
        rintro rfl
        rw [hlabel] at hlb
        cases hlb
      rw [hu, if_neg hne, hlb]
    · rw [h]
      exact ⟨_, _, rfl, by rw [hlabel], fun _ _ hb => hb, by simp [hlabel, hrange],
        fun _ hin => by simp [hrange] at hin⟩

/-- A given label takes the place of a reserved one, and then outlasts names in and outside the
range. -/
theorem label_lifeCycle_start :
    let t := run [.bind 0x10 "___0010" false, .bind 0x10 "START" false] {}
    let later : List Operation :=
      [.setRange (some 0x100) none, .bind 0x10 "AWAY" false, .setRange none none,
      .bind 0x10 "AGAIN" true, .record 0x10 0x100 .call, .autoLabel 0x10]
    t.HasOwnLabel 0x10 "START" ∧ (run later t).HasOwnLabel 0x10 "START" ∧
      (Operation.bind 0x10 "AGAIN" true).perform t =
        .error (.duplicateLabel 0x10 "START" "AGAIN") t := by
  intro t later
  have hown : t.HasOwnLabel 0x10 "START" := ⟨⟨0x10, some "START", false, []⟩, by decide, rfl, rfl⟩
  obtain ⟨-, hkept, hbind, -⟩ :=
    label_lifeCycle none none [.bind 0x10 "___0010" false, .bind 0x10 "START" false] 0x10
  exact ⟨hown, hkept later "START" hown,
    (hbind "AGAIN" true _ t).mpr ⟨⟨"START", rfl, hown, rfl⟩, rfl⟩⟩

end Disassembler.SymbolTable
