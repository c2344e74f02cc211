import Disassembler.Proofs.Symbol.Labels

/-!
Requests for labels in any order. A request asks for a label at an address, one with a name or a
generated one. It looks at the entry of its address and changes no other. At one address a name wins
over a generated label, whichever comes first, and two names clash. So two requests may be
exchanged, whatever the table: both orders are refused, or both give the same table.
-/

namespace Disassembler

/-! ## Changes of entries in any order -/

namespace Entry

variable {a b : Int} {f g : Entry → Entry}

theorem address_bind (name : String) (auto : Bool) (e : Entry) :
    (e.bind name auto).address = e.address := rfl

theorem update_update (hf : ∀ e, (f e).address = e.address) (es : List Entry) :
    update a g (update a f es) = update a (g ∘ f) es := by
  induction es with
  | nil => simp [update, hf]
  | cons e es ih =>
    by_cases hlt : a < e.address
    · simp [update, hlt, hf]
    · by_cases heq : a = e.address
      · simp [update, heq, hf]
      · simp [update, hlt, heq, ih]

theorem update_comm (hf : ∀ e, (f e).address = e.address) (hg : ∀ e, (g e).address = e.address)
    (hne : a ≠ b) (es : List Entry) : update a f (update b g es) = update b g (update a f es) := by
  induction es with
  | nil => grind [update]
  | cons e es ih => grind [update]

theorem find?_update_of_ne (hf : ∀ e, (f e).address = e.address) (hne : b ≠ a) (es : List Entry) :
    (update a f es).find? (fun e => e.address = b) = es.find? fun e => e.address = b := by
  induction es with
  | nil => grind [update]
  | cons e es ih => grind [update]

theorem find?_update_self (hf : ∀ e, (f e).address = e.address) (es : List Entry) :
    ∃ e, (update a f es).find? (fun e => e.address = a) = some (f e) := by
  induction es with
  | nil => exact ⟨{ address := a }, by simp [update, hf]⟩
  | cons e es ih =>
    by_cases hlt : a < e.address
    · exact ⟨{ address := a }, by simp [update, hlt, hf]⟩
    · by_cases heq : a = e.address
      · exact ⟨e, by simp [update, heq, hf]⟩
      · obtain ⟨d, hd⟩ := ih
        exact ⟨d, by simp [update, hlt, heq, Ne.symm heq, hd]⟩

end Entry

namespace SymbolTable

variable {t u : SymbolTable} {a b : Int} {f g : Entry → Entry} {x y : String}

theorem update_update (hf : ∀ e, (f e).address = e.address) :
    (t.update a f).update a g = t.update a (g ∘ f) := by
  simp only [update, Entry.update_update hf]

theorem update_comm (hf : ∀ e, (f e).address = e.address) (hg : ∀ e, (g e).address = e.address)
    (hne : a ≠ b) : (t.update b g).update a f = (t.update a f).update b g := by
  simp only [update, Entry.update_comm hf hg hne]

/-- A change of one entry leaves the others as they are, also in a table out of order. -/
theorem get?_update_of_ne (hf : ∀ e, (f e).address = e.address) (hne : b ≠ a) :
    (t.update a f).get? b = t.get? b :=
  Entry.find?_update_of_ne hf hne t.entries

/-- A label that is bound is there afterwards. -/
theorem get?_update_bind (t : SymbolTable) (a : Int) (x : String) (auto : Bool) :
    ∃ e, (t.update a (Entry.bind x auto)).get? a = some e ∧ e.label = some x ∧ e.auto = auto := by
  obtain ⟨e, he⟩ : ∃ e, (t.update a (Entry.bind x auto)).get? a = some (Entry.bind x auto e) :=
    Entry.find?_update_self (Entry.address_bind x auto) t.entries
  exact ⟨_, he, rfl, rfl⟩

/-! ## Requests -/

/-- Ask for a label at an address; without a name it is generated. Nothing is given where the name
is refused. -/
def request (t : SymbolTable) (address : Int) : Option String → Option SymbolTable
  | none => some (t.autoLabel address).2
  | some name => (t.bind address name).toOption

theorem request_cases (t : SymbolTable) (a : Int) (name : Option String) :
    t.request a name = none ∨ t.request a name = some t ∨
      ∃ f : Entry → Entry, (∀ e, (f e).address = e.address) ∧
        t.request a name = some (t.update a f) := by
  cases name with
  | none =>
    simp only [request, autoLabel]
    split
    · exact .inr (.inl rfl)
    · split
      · exact .inr (.inr ⟨_, Entry.address_bind _ _, rfl⟩)
      · exact .inr (.inl rfl)
  | some x =>
    simp only [request]
    rcases bind_cases t a x false with ⟨existing, -, -, hb⟩ | ⟨-, -, hb⟩ | ⟨-, hb⟩
    · exact .inl (by rw [hb]; rfl)
    · exact .inr (.inr ⟨_, Entry.address_bind _ _, by rw [hb]; rfl⟩)
    · exact .inr (.inl (by rw [hb]; rfl))

theorem inRange_of_request {name : Option String} (h : t.request a name = some u) :
    u.inRange = t.inRange := by
  rcases request_cases t a name with hnone | hsame | ⟨f, -, hchange⟩
  · rw [hnone] at h
    cases h
  · rw [hsame] at h
    cases h
    rfl
  · rw [hchange] at h
    cases h
    rfl

/-- A request does not see changes of other entries. -/
theorem request_update_of_ne (hf : ∀ e, (f e).address = e.address) (hne : b ≠ a)
    (name : Option String) :
    (t.update a f).request b name = (t.request b name).map (·.update a f) := by
  have hget : (t.update a f).get? b = t.get? b := get?_update_of_ne hf hne
  have hrange : (t.update a f).inRange b = t.inRange b := rfl
  cases name with
  | none =>
    have hlabel : (t.update a f).label? b = t.label? b := by rw [label?, hget, label?]
    simp only [request, autoLabel, hlabel, hrange]
    split
    · rfl
    · split
      · rw [update_comm (Entry.address_bind _ _) hf hne]
        rfl
      · rfl
  | some x =>
    simp only [request, bind, hget, hrange]
    split
    · split
      · rfl
      · rw [update_comm (Entry.address_bind _ _) hf hne]
        rfl
    · rfl

/-! ## Requests for one address -/

theorem bind_of_free (hrange : t.inRange a = true)
    (hfree : (t.entryAt a).label = none ∨ (t.entryAt a).auto = true) :
    t.bind a x = .ok (t.update a (Entry.bind x (isAutoName x))) := by
  rcases bind_cases t a x false with ⟨existing, -, hown, -⟩ | ⟨-, -, hb⟩ | ⟨hout, -⟩
  · obtain ⟨hlabel, hauto⟩ := hown.entryAt
    simp [hlabel, hauto] at hfree
  · exact hb
  · rw [hrange] at hout
    cases hout

/-- A name is not hindered by a label generated before it, and takes its place. -/
theorem bind_autoLabel (t : SymbolTable) (a : Int) (x : String) :
    (t.autoLabel a).2.bind a x = t.bind a x := by
  unfold autoLabel
  split
  · rfl
  · next hlabel =>
    split
    · next hrange =>
      rw [label?_eq_entryAt] at hlabel
      obtain ⟨e, he, -, hauto⟩ := get?_update_bind t a (autoName a) true
      have hmarked : ((t.update a (Entry.bind (autoName a) true)).entryAt a).auto = true := by
        rw [entryAt, he]
        exact hauto
      -- A second label overwrites the first one and its mark, so one change is left.
      have hchanges : Entry.bind x (isAutoName x) ∘ Entry.bind (autoName a) true =
          Entry.bind x (isAutoName x) := rfl
      have hafter : (t.update a (Entry.bind (autoName a) true)).bind a x =
          .ok ((t.update a (Entry.bind (autoName a) true)).update a
            (Entry.bind x (isAutoName x))) :=
        bind_of_free hrange (.inr hmarked)
      rw [hafter, update_update (Entry.address_bind _ _), hchanges,
        bind_of_free hrange (.inl hlabel)]
    · rfl

/-- No label is generated after a name. -/
theorem autoLabel_of_bind (h : t.bind a x = .ok u) : (u.autoLabel a).2 = u := by
  rcases bind_cases t a x false with ⟨existing, -, -, hb⟩ | ⟨-, -, hb⟩ | ⟨hrange, hb⟩
  · rw [hb] at h
    cases h
  · rw [hb] at h
    cases h
    obtain ⟨e, he, hlabel, -⟩ := get?_update_bind t a x (false || isAutoName x)
    rw [autoLabel, label?, he, Option.bind_some, hlabel]
  · rw [hb] at h
    cases h
    unfold autoLabel
    split
    · rfl
    · rw [hrange]
      rfl

/-- Two names clash in range. -/
theorem bind_of_bind (h : t.bind a x = .ok u) (hrange : t.inRange a = true)
    (hx : isAutoName x = false) (y : String) : ∃ fault, u.bind a y = .error fault := by
  rcases bind_cases t a x false with ⟨existing, -, -, hb⟩ | ⟨-, -, hb⟩ | ⟨hout, -⟩
  · rw [hb] at h
    cases h
  · rw [hb, hx] at h
    cases h
    exact ⟨_, bind_eq_error_iff.mpr ⟨x, hrange, get?_update_bind t a x false, rfl⟩⟩
  · rw [hrange] at hout
    cases hout

/-! ## Two requests -/

def IsGiven (name : Option String) : Prop := ∀ x ∈ name, isAutoName x = false

instance : DecidablePred IsGiven :=
  fun name => inferInstanceAs (Decidable (∀ x ∈ name, isAutoName x = false))

theorem request_comm_of_ne (t : SymbolTable) (hne : a ≠ b) (name other : Option String) :
    (t.request a name).bind (·.request b other) = (t.request b other).bind (·.request a name) := by
  rcases request_cases t a name with h | h | ⟨f, hf, h⟩
  · rcases request_cases t b other with k | k | ⟨g, hg, k⟩
    · rw [h, k, Option.bind_none, Option.bind_none]
    · rw [h, k, Option.bind_some, h, Option.bind_none]
    · rw [h, k, Option.bind_some, request_update_of_ne hg hne, h, Option.bind_none, Option.map_none]
  · rcases request_cases t b other with k | k | ⟨g, hg, k⟩
    · rw [h, k, Option.bind_some, k, Option.bind_none]
    · rw [h, k, Option.bind_some, Option.bind_some, h, k]
    · rw [h, k, Option.bind_some, Option.bind_some, request_update_of_ne hg hne, h, k,
        Option.map_some]
  · rw [h, Option.bind_some, request_update_of_ne hf hne.symm]
    rcases request_cases t b other with k | k | ⟨g, hg, k⟩
    · rw [k, Option.map_none, Option.bind_none]
    · rw [k, Option.map_some, Option.bind_some, h]
    · rw [k, Option.map_some, Option.bind_some, request_update_of_ne hg hne, h, Option.map_some,
        update_comm hf hg hne]

/-- A name wins over a generated label in either order. -/
theorem request_comm_generated (t : SymbolTable) (a : Int) (x : String) :
    (t.request a none).bind (·.request a (some x)) =
      (t.request a (some x)).bind (·.request a none) := by
  simp only [request, Option.bind_some, bind_autoLabel]
  cases hb : t.bind a x with
  | error fault => rfl
  | ok u => exact congrArg some (autoLabel_of_bind hb).symm

theorem request_two_names (t : SymbolTable) (a : Int) {x : String} (hx : isAutoName x = false)
    (y : String) :
    (t.request a (some x)).bind (·.request a (some y)) =
      if t.inRange a = true then none else some t := by
  simp only [request]
  split
  · next hrange =>
    cases hb : t.bind a x with
    | error fault => rfl
    | ok u =>
      obtain ⟨fault, hfault⟩ := bind_of_bind hb hrange hx y
      change (u.bind a y).toOption = none
      rw [hfault]
      rfl
  · next hrange =>
    have hout : ∀ z, t.bind a z = .ok t := fun z => by rw [bind, if_neg hrange]
    rw [hout x]
    change (t.bind a y).toOption = some t
    rw [hout y]
    rfl

/-- Two requests may be exchanged. -/
theorem request_comm (t : SymbolTable) (a b : Int) {name other : Option String}
    (hname : IsGiven name) (hother : IsGiven other) :
    (t.request a name).bind (·.request b other) = (t.request b other).bind (·.request a name) := by
  by_cases hne : a = b
  · subst hne
    cases name with
    | none =>
      cases other with
      | none => rfl
      | some y => exact request_comm_generated t a y
    | some x =>
      cases other with
      | none => exact (request_comm_generated t a x).symm
      | some y => rw [request_two_names t a (hname x rfl) y, request_two_names t a (hother y rfl) x]
  · exact request_comm_of_ne t hne name other

end SymbolTable

end Disassembler
