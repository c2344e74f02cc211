import Disassembler.Proofs.Text.Numeral
import Disassembler.Text.Blank
import Mathlib.Data.List.Forall2
import Mathlib.Data.List.Perm.Basic
import Mathlib.Data.List.Pairwise

/-!
Patterns of text, cell by cell. Two patterns are apart if no text fits both. Whether the patterns in
a list are apart, each from each, is decided by their first cells: those that begin alike are taken
together and told apart by what follows.
-/

namespace Disassembler.Text

/-- What can stand in one place of a text. -/
inductive Cell where
  | char (c : Char)
  | digit
  | sign
  deriving DecidableEq, Repr

namespace Cell

def Holds : Cell → Char → Prop
  | char c, d => d = c
  | digit, d => d ∈ digitChars
  | sign, d => d = '+' ∨ d = '-'

def same : Cell → Cell → Bool
  | char c, char d => c.toNat == d.toNat
  | digit, digit => true
  | sign, sign => true
  | _, _ => false

/-- Whether it is clear that no character can stand in both. -/
def disjoint : Cell → Cell → Bool
  | char c, char d => c.toNat != d.toNat
  | char c, digit => !digitChars.contains c
  | digit, char c => !digitChars.contains c
  | _, _ => false

def visible : Cell → Bool
  | char c => !isBlank c
  | _ => true

theorem eq_of_same {a b : Cell} (h : a.same b = true) : a = b := by
  cases a with
  | char c =>
    cases b with
    | char d => rw [Char.toNat_inj.mp (beq_iff_eq.mp h)]
    | digit => cases h
    | sign => cases h
  | digit =>
    cases b with
    | digit => rfl
    | char d => cases h
    | sign => cases h
  | sign =>
    cases b with
    | sign => rfl
    | char d => cases h
    | digit => cases h

theorem not_holds_of_disjoint {a b : Cell} (h : a.disjoint b = true) {c : Char} (ha : a.Holds c) :
    ¬ b.Holds c := by
  intro hb
  cases a with
  | char x =>
    obtain rfl : c = x := ha
    cases b with
    | char y =>
      obtain rfl : c = y := hb
      exact bne_iff_ne.mp h rfl
    | digit =>
      have hc : c ∉ digitChars := by simpa [disjoint] using h
      exact hc hb
    | sign => cases h
  | digit =>
    cases b with
    | char y =>
      obtain rfl : c = y := hb
      have hc : c ∉ digitChars := by simpa [disjoint] using h
      exact hc ha
    | digit => cases h
    | sign => cases h
  | sign => cases b <;> cases h

theorem not_isBlank_of_visible {a : Cell} (h : a.visible = true) {c : Char} (hc : a.Holds c) :
    isBlank c = false := by
  cases a with
  | char d =>
    cases hc
    simpa [visible] using h
  | digit =>
    have hall : digitChars.all (fun c => !isBlank c) = true := by decide
    simpa using List.all_eq_true.mp hall c hc
  | sign => rcases hc with rfl | rfl <;> decide

end Cell

theorem dropEndBlanks_append_replicate (cs : List Char) (n : Nat) :
    dropEndBlanks (cs ++ List.replicate n ' ') = dropEndBlanks cs := by
  have hblank : ∀ c ∈ List.replicate n ' ', isBlank c = true := by
    intro c hc
    rw [List.eq_of_mem_replicate hc]
    decide
  rw [dropEndBlanks, List.reverse_append, List.reverse_replicate,
    List.dropWhile_append_of_pos hblank, dropEndBlanks]

/-- Text that ends in a visible character keeps its end. -/
theorem dropEndBlanks_concat (cs : List Char) {c : Char} (hc : isBlank c = false) :
    dropEndBlanks (cs ++ [c]) = cs ++ [c] := by
  rw [dropEndBlanks, List.reverse_concat,
    List.dropWhile_cons_of_neg (by rw [hc]; exact Bool.false_ne_true),
    List.reverse_cons, List.reverse_reverse]

abbrev Pattern := List Cell

namespace Pattern

def Fits (p : Pattern) (text : List Char) : Prop := List.Forall₂ Cell.Holds p text

def exactly (text : List Char) : Pattern := text.map .char

/-- No text fits both. -/
def Apart (p q : Pattern) : Prop := ∀ text, p.Fits text → ¬ q.Fits text

/-- Whether a text that fits cannot end with a blank. -/
def closed (p : Pattern) : Bool := (p.getLast?.map Cell.visible).getD true

section

variable {p q : Pattern} {s t : List Char}

theorem fits_exactly (text : List Char) : (exactly text).Fits text := by
  induction text with
  | nil => exact .nil
  | cons c text ih => exact .cons rfl ih

theorem Fits.append (hp : p.Fits s) (hq : q.Fits t) : (p ++ q).Fits (s ++ t) :=
  List.rel_append hp hq

theorem Fits.length (h : p.Fits s) : s.length = p.length := (List.Forall₂.length_eq h).symm

theorem fits_numeral (width v : Nat) : Fits (List.replicate width .digit) (numeral width v) := by
  have hall : ∀ cs : List Char, (∀ c ∈ cs, c ∈ digitChars) →
      Fits (List.replicate cs.length .digit) cs := by
    intro cs
    induction cs with
    | nil => exact fun _ => .nil
    | cons c cs ih =>
      intro hcs
      exact .cons (hcs c List.mem_cons_self) (ih fun d hd => hcs d (List.mem_cons_of_mem _ hd))
  have hfits := hall (numeral width v) fun c hc => mem_digitChars_of_mem_numeral hc
  rwa [length_numeral] at hfits

/-- A text that fits a closed pattern has no blanks at its end. -/
theorem Fits.dropEndBlanks (h : p.Fits s) (hclosed : p.closed = true) : dropEndBlanks s = s := by
  have hrev : List.Forall₂ Cell.Holds p.reverse s.reverse := List.forall₂_reverse_iff.mpr h
  rw [closed, List.getLast?_eq_head?_reverse] at hclosed
  have hkeep : s.reverse.dropWhile isBlank = s.reverse := by
    generalize p.reverse = cells at hrev hclosed
    generalize s.reverse = text at hrev
    cases hrev with
    | nil => rfl
    | cons hc _ =>
      exact List.dropWhile_cons_of_neg (by simp [Cell.not_isBlank_of_visible hclosed hc])
  rw [Text.dropEndBlanks, hkeep, List.reverse_reverse]

theorem Apart.symm (h : p.Apart q) : q.Apart p := fun text hq hp => h text hp hq

theorem apart_of_disjoint {a b : Cell} (h : a.disjoint b = true) : Apart (a :: p) (b :: q) := by
  intro text hp hq
  cases hp with
  | cons ha _ =>
    cases hq with
    | cons hb _ => exact Cell.not_holds_of_disjoint h ha hb

theorem Apart.cons (h : p.Apart q) (a : Cell) : Apart (a :: p) (a :: q) := by
  intro text hp hq
  cases hp with
  | cons _ hp =>
    cases hq with
    | cons _ hq => exact h _ hp hq

theorem apart_nil_cons (a : Cell) : Apart [] (a :: p) := by
  intro text hp hq
  cases hp
  cases hq

end

/-! ## Patterns apart -/

section

variable {α : Type} {ok : α → α → Bool}

/-- The patterns that begin with a cell, less that cell, and the others. -/
def branch (cell : Cell) : List (Pattern × α) → List (Pattern × α) × List (Pattern × α)
  | [] => ([], [])
  | ([], a) :: items =>
    match branch cell items with
    | (alike, others) => (alike, ([], a) :: others)
  | (b :: p, a) :: items =>
    match cell.same b, branch cell items with
    | true, (alike, others) => ((p, a) :: alike, others)
    | false, (alike, others) => (alike, (b :: p, a) :: others)

def beginsOff (cell : Cell) : Pattern × α → Bool
  | ([], _) => true
  | (b :: _, _) => cell.disjoint b

/-- Whether the patterns are apart, each from each, except where `ok` allows two to be alike. `n`
bounds the number of times that the list is divided. -/
def separated (ok : α → α → Bool) : Nat → List (Pattern × α) → Bool
  | 0, _ => false
  | _ + 1, [] => true
  | _ + 1, [_] => true
  | n + 1, ([], a) :: items => items.all (fun x => !x.1.isEmpty || ok a x.2) && separated ok n items
  | n + 1, (cell :: p, a) :: items =>
    match branch cell items with
    | (alike, others) =>
      others.all (beginsOff cell) && separated ok n ((p, a) :: alike) && separated ok n others

def putFirst (cell : Cell) (x : Pattern × α) : Pattern × α := (cell :: x.1, x.2)

/-- No pattern gets lost. -/
theorem branch_perm (cell : Cell) (items : List (Pattern × α)) :
    List.Perm ((branch cell items).1.map (putFirst cell) ++ (branch cell items).2) items := by
  fun_induction branch cell items with
  | case1 => exact .refl _
  | case2 a items alike others hbranch ih =>
    rw [hbranch] at ih
    exact List.perm_middle.trans (ih.cons _)
  | case3 b p a items alike others hbranch hsame ih =>
    rw [hbranch] at ih
    rw [← Cell.eq_of_same hsame]
    exact ih.cons _
  | case4 b p a items alike others hbranch hsame ih =>
    rw [hbranch] at ih
    exact List.perm_middle.trans (ih.cons _)

theorem apart_of_beginsOff {cell : Cell} {p : Pattern} {x : Pattern × α}
    (h : beginsOff cell x = true) : Apart (cell :: p) x.1 := by
  obtain ⟨_ | ⟨b, q⟩, a⟩ := x
  · exact (apart_nil_cons cell).symm
  · exact apart_of_disjoint h

/-- What is found to be separated is apart, each from each. -/
theorem pairwise_of_separated (hok : ∀ a b, ok a b = true → ok b a = true) {n : Nat}
    {items : List (Pattern × α)} (h : separated ok n items = true) :
    items.Pairwise fun x y => x.1.Apart y.1 ∨ ok x.2 y.2 = true := by
  have hsymm : ∀ {x y : Pattern × α}, x.1.Apart y.1 ∨ ok x.2 y.2 = true → y.1.Apart x.1 ∨
      ok y.2 x.2 = true := by
    intro x y hxy
    exact hxy.imp Apart.symm (hok x.2 y.2)
  fun_induction separated ok n items with
  | case1 => cases h
  | case2 => exact .nil
  | case3 => exact List.pairwise_singleton _ _
  | case4 n a items hmore ih =>
    obtain ⟨hfirst, hrest⟩ := Bool.and_eq_true_iff.mp h
    refine List.pairwise_cons.mpr ⟨?_, ih hrest⟩
    rintro ⟨_ | ⟨cell, p⟩, b⟩ hx
    · right
      simpa using List.all_eq_true.mp hfirst _ hx
    · exact .inl (apart_nil_cons cell)
  | case5 n cell p a items hmore alike others hbranch ih₁ ih₂ =>
    obtain ⟨h, hothers⟩ := Bool.and_eq_true_iff.mp h
    obtain ⟨hoff, halike⟩ := Bool.and_eq_true_iff.mp h
    -- those that begin alike come first and the others behind them, and no one of the others begins
    -- so
    have hperm := branch_perm cell items
    rw [hbranch] at hperm
    refine ((hperm.cons (cell :: p, a)).pairwise_iff hsymm).mp ?_
    change List.Pairwise _ (((p, a) :: alike).map (putFirst cell) ++ others)
    refine List.pairwise_append.mpr ⟨List.pairwise_map.mpr ((ih₁ halike).imp ?_), ih₂ hothers, ?_⟩
    · intro x y hxy
      exact hxy.imp (Apart.cons · cell) id
    · intro x hx y hy
      obtain ⟨z, -, rfl⟩ := List.mem_map.mp hx
      exact .inl (apart_of_beginsOff (List.all_eq_true.mp hoff y hy))

theorem apart_or_ok_of_separated (hok : ∀ a b, ok a b = true → ok b a = true) {n : Nat}
    {items : List (Pattern × α)} (h : separated ok n items = true) {x y : Pattern × α}
    (hx : x ∈ items) (hy : y ∈ items) (hne : x ≠ y) : x.1.Apart y.1 ∨ ok x.2 y.2 = true := by
  have hsymm : Std.Symm fun x y : Pattern × α => x.1.Apart y.1 ∨ ok x.2 y.2 = true :=
    ⟨fun x y hxy => hxy.imp Apart.symm (hok x.2 y.2)⟩
  exact (pairwise_of_separated hok h).forall hx hy hne

end

end Pattern

end Disassembler.Text
