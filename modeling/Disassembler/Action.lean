import Disassembler.Fault

/-!
Actions: computations on a state that may fail. A failing action leaves a state as well.
-/

namespace Disassembler

abbrev Action (σ α : Type) := EStateM Fault σ α

namespace Action

variable {σ τ α : Type}

/-- What an action gives, and the state that it leaves. -/
def outcome : EStateM.Result Fault σ α → Except Fault α × σ
  | .ok a s => (.ok a, s)
  | .error e s => (.error e, s)

/-- Run an action on one part of a larger state. -/
def on (get : σ → τ) (put : τ → σ → σ) (m : Action τ α) : Action σ α := fun s =>
  match m (get s) with
  | .ok a t => .ok a (put t s)
  | .error e t => .error e (put t s)

/-- Lift a computation that depends on no state. -/
def lift (result : Except Fault α) : Action σ α := fun s =>
  match result with
  | .ok a => .ok a s
  | .error e => .error e s

theorem bind_of_ok {β : Type} {m : Action σ α} (f : α → Action σ β) {s t : σ} {a : α}
    (h : m s = .ok a t) : (m >>= f) s = f a t := by
  change EStateM.bind m f s = _
  simp only [EStateM.bind, h]

theorem bind_of_error {β : Type} {m : Action σ α} (f : α → Action σ β) {s t : σ} {fault : Fault}
    (h : m s = .error fault t) : (m >>= f) s = .error fault t := by
  change EStateM.bind m f s = _
  simp only [EStateM.bind, h]

/-- What follows an action sees its outcome only. -/
theorem bind_congr {β : Type} {m n : Action σ α} (f : α → Action σ β) {s t : σ} (h : m s = n t) :
    (m >>= f) s = (n >>= f) t := by
  change EStateM.bind m f s = EStateM.bind n f t
  simp only [EStateM.bind, h]

/-- A sequence that succeeds has succeeded in both of its parts. -/
theorem bind_eq_ok {β : Type} {m : Action σ α} {f : α → Action σ β} {s t : σ} {b : β}
    (h : (m >>= f) s = .ok b t) : ∃ a u, m s = .ok a u ∧ f a u = .ok b t := by
  change EStateM.bind m f s = _ at h
  unfold EStateM.bind at h
  cases hm : m s with
  | error e u => rw [hm] at h; cases h
  | ok a u => rw [hm] at h; exact ⟨a, u, rfl, h⟩

/-- A sequence fails in its first part or in its second. -/
theorem bind_eq_error {β : Type} {m : Action σ α} {f : α → Action σ β} {s t : σ} {fault : Fault}
    (h : (m >>= f) s = .error fault t) :
    m s = .error fault t ∨ ∃ a u, m s = .ok a u ∧ f a u = .error fault t := by
  cases hm : m s with
  | error e u => rw [bind_of_error _ hm] at h; cases h; exact .inl rfl
  | ok a u => rw [bind_of_ok _ hm] at h; exact .inr ⟨a, u, rfl, h⟩

/-- A function of a result does not change the state. -/
theorem map_eq_ok {β : Type} {m : Action σ α} {f : α → β} {s t : σ} {b : β}
    (h : (f <$> m) s = .ok b t) : ∃ a, m s = .ok a t ∧ f a = b := by
  change EStateM.map f m s = _ at h
  unfold EStateM.map at h
  cases hm : m s with
  | error e u => rw [hm] at h; cases h
  | ok a u => rw [hm] at h; cases h; exact ⟨a, rfl, rfl⟩

theorem state_of_lift {r : Except Fault α} {s t : σ} {a : α} (h : lift r s = .ok a t) : t = s := by
  cases r <;> cases h
  rfl

end Action

end Disassembler
