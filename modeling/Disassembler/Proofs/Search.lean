import Disassembler.Fault

/-!
Searching by halves. In a list whose elements behind some place all have a property and those in
front of it do not, the place is found by putting half of the list aside again and again.
-/

namespace Disassembler

variable {α : Type} {behind : α → Bool} {xs : List α} {lo hi k : Nat}

/-- The place from which on elements are `behind`, looked for from `lo` up to `hi`. -/
def partitionPoint (behind : α → Bool) (xs : List α) (lo hi : Nat) : Nat :=
  if lo < hi then
    if xs[(lo + hi) / 2]?.any behind then partitionPoint behind xs lo ((lo + hi) / 2)
    else partitionPoint behind xs ((lo + hi) / 2 + 1) hi
  else lo
termination_by hi - lo

/-- What is left to search: no element in front of `lo` is behind the place, and all from `hi` on
are. -/
structure Parted (behind : α → Bool) (xs : List α) (lo hi : Nat) : Prop where
  le : lo ≤ hi
  inside : hi ≤ xs.length
  before : ∀ i x, i < lo → xs[i]? = some x → behind x = false
  after : ∀ i x, hi ≤ i → xs[i]? = some x → behind x = true

/-- Once an element is behind the place, so are all after it. -/
def StaysBehind (behind : α → Bool) (xs : List α) : Prop :=
  xs.Pairwise fun x y => behind x = true → behind y = true

theorem StaysBehind.of_le (h : StaysBehind behind xs) {i j : Nat} {x y : α} (hij : i ≤ j)
    (hx : xs[i]? = some x) (hy : xs[j]? = some y) (hbehind : behind x = true) :
    behind y = true := by
  obtain ⟨hi, rfl⟩ := List.getElem?_eq_some_iff.mp hx
  obtain ⟨hj, rfl⟩ := List.getElem?_eq_some_iff.mp hy
  rcases Nat.eq_or_lt_of_le hij with rfl | hlt
  · exact hbehind
  · exact List.pairwise_iff_getElem.mp h i j hi hj hlt hbehind

/-- Each half that is put aside holds only elements on one side of the place. -/
theorem Parted.partitionPoint (hxs : StaysBehind behind xs) (h : Parted behind xs lo hi) :
    Parted behind xs (partitionPoint behind xs lo hi) (partitionPoint behind xs lo hi) := by
  fun_induction Disassembler.partitionPoint behind xs lo hi with
  | case1 lo hi hlt hmiddle ih =>
    have hinside := h.inside
    obtain ⟨x, hx⟩ : ∃ x, xs[(lo + hi) / 2]? = some x := ⟨_, List.getElem?_eq_getElem (by omega)⟩
    have hbehind : behind x = true := by simpa [hx] using hmiddle
    refine ih ⟨by omega, by omega, h.before, fun i y hi hy => ?_⟩
    exact hxs.of_le hi hx hy hbehind
  | case2 lo hi hlt hmiddle ih =>
    have hinside := h.inside
    obtain ⟨x, hx⟩ : ∃ x, xs[(lo + hi) / 2]? = some x := ⟨_, List.getElem?_eq_getElem (by omega)⟩
    have hbefore : behind x = false := by simpa [hx] using hmiddle
    refine ih ⟨by omega, by omega, fun i y hi hy => ?_, h.after⟩
    refine Bool.eq_false_iff.mpr fun hy' => ?_
    exact Bool.false_ne_true (hbefore.symm.trans (hxs.of_le (Nat.le_of_lt_succ hi) hy hx hy'))
  | case3 lo hi hdone =>
    have heq : lo = hi := Nat.le_antisymm h.le (Nat.le_of_not_lt hdone)
    subst heq
    exact h

/-- At first all of the list is left to search. -/
theorem parted_all (behind : α → Bool) (xs : List α) : Parted behind xs 0 xs.length := by
  refine ⟨Nat.zero_le _, Nat.le_refl _, fun i x hi => absurd hi (Nat.not_lt_zero i),
    fun i x hi hx => ?_⟩
  rw [List.getElem?_eq_none hi] at hx
  cases hx

theorem Parted.tail {x : α} (h : Parted behind (x :: xs) (k + 1) (k + 1)) :
    Parted behind xs k k := by
  refine ⟨Nat.le_refl k, Nat.le_of_succ_le_succ h.inside, fun i y hi hy => ?_, fun i y hi hy => ?_⟩
  · exact h.before (i + 1) y (Nat.succ_lt_succ hi) hy
  · exact h.after (i + 1) y (Nat.succ_le_succ hi) hy

/-- The elements from the place on are those that are behind it. -/
theorem Parted.drop_eq_filter (h : Parted behind xs k k) : xs.drop k = xs.filter behind := by
  induction xs generalizing k with
  | nil => rw [List.drop_nil, List.filter_nil]
  | cons x xs ih =>
    cases k with
    | zero =>
      refine (List.filter_eq_self.mpr fun y hy => ?_).symm
      obtain ⟨i, hi⟩ := List.mem_iff_getElem?.mp hy
      exact h.after i y (Nat.zero_le i) hi
    | succ k =>
      have hx := h.before 0 x (Nat.succ_pos k) rfl
      rw [List.drop_succ_cons, List.filter_cons_of_neg (by simp [hx]), ih h.tail]

end Disassembler
