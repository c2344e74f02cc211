import Disassembler.Plan.Directive
import Mathlib.Data.Nat.Digits.Defs

/-!
The grammar of command lines. Terminals are regular languages; a command has one of eight forms,
each a row of terminals and optional parts. No sentence has two derivations, and in every derivation
each terminal is matched by the longest lexeme that there is at its place.
-/

namespace Disassembler.Grammar

/-! ## Terminals -/

inductive Terminal where
  /-- a fixed letter or sign -/
  | letter (c : Char)
  | segment
  | address
  | text
  | gap
  deriving DecidableEq, Repr

def segmentLetters : List Char := "abcepsvw".toList

def hexDigits : List Char := "0123456789ABCDEFabcdef".toList

def gapSigns : List Char := [' ', '\t']

def Terminal.Matches : Terminal → List Char → Prop
  | letter c, cs => cs = [c]
  | segment, cs => ∃ c ∈ segmentLetters, cs = [c]
  | address, cs => cs ≠ [] ∧ ∀ c ∈ cs, c ∈ hexDigits
  | text, cs =>
    (∃ c, cs.head? = some c ∧ Text.isBlank c = false) ∧
    (∃ c, cs.getLast? = some c ∧ Text.isBlank c = false) ∧
      '\n' ∉ cs
  | gap, cs => cs ≠ [] ∧ ∀ c ∈ cs, c ∈ gapSigns

instance : ∀ t cs, Decidable (Terminal.Matches t cs)
  | .letter c, cs => inferInstanceAs (Decidable (cs = [c]))
  | .segment, cs =>
    decidable_of_iff (segmentLetters.any (cs = [·]) = true) (by simp [Terminal.Matches])
  | .address, cs =>
    decidable_of_iff (cs ≠ [] ∧ cs.all hexDigits.contains = true) (by simp [Terminal.Matches])
  | .text, cs =>
    decidable_of_iff (cs.head?.any (!Text.isBlank ·) = true ∧
      cs.getLast?.any (!Text.isBlank ·) = true ∧ '\n' ∉ cs)
      (by simp [Terminal.Matches, Option.any_eq_true])
  | .gap, cs =>
    decidable_of_iff (cs ≠ [] ∧ cs.all gapSigns.contains = true) (by simp [Terminal.Matches])

/-- A lexeme at its place in a derivation. -/
structure Leaf where
  terminal : Terminal
  lexeme : List Char
  deriving DecidableEq, Repr

def sentence (leaves : List Leaf) : List Char := leaves.flatMap (·.lexeme)

/-! ## Forms -/

/-- A part of a form: a terminal, or some terminals that may be left out together. -/
inductive Item where
  | one (t : Terminal)
  | optional (ts : List Terminal)
  deriving DecidableEq, Repr

inductive Form where
  | segment
  | label
  | comment
  | note
  | range
  | terminator
  | inputFile
  | embed
  deriving DecidableEq, Repr

def addressed : List Item := [.optional [.gap], .one .address, .optional [.gap, .text]]

def Form.items : Form → List Item
  | segment => .one .segment :: addressed
  | label => .one (.letter 'l') :: addressed
  | comment => .one (.letter 'k') :: addressed
  | note => .one (.letter 'n') :: addressed
  | range =>
    [.one (.letter 'r'), .optional [.gap], .one .address, .optional [.gap], .one (.letter ','),
      .optional [.gap], .one .address]
  | terminator => [.one (.letter 't'), .optional [.gap], .one .address]
  | inputFile => [.one (.letter 'f'), .optional [.gap], .one .text]
  | embed => [.one (.letter 'i'), .optional [.gap], .one .text]

/-- `Derives items taken leaves`: the leaves spell out the items, where `taken` says of each
optional part whether it is there. -/
inductive Derives : List Item → List Bool → List Leaf → Prop where
  | nil : Derives [] [] []
  | leaf {t : Terminal} {cs : List Char} {items : List Item} {taken : List Bool}
      {leaves : List Leaf}
      (hmatch : t.Matches cs) (hrest : Derives items taken leaves) :
      Derives (.one t :: items) taken (⟨t, cs⟩ :: leaves)
  | skip {ts : List Terminal} {items : List Item} {taken : List Bool} {leaves : List Leaf}
      (hrest : Derives items taken leaves) : Derives (.optional ts :: items) (false :: taken) leaves
  | take {ts : List Terminal} {items : List Item} {taken : List Bool} {leaves : List Leaf}
      (hrest : Derives (ts.map .one ++ items) taken leaves) :
      Derives (.optional ts :: items) (true :: taken) leaves

/-- A derivation of a command. -/
@[ext] structure Derivation where
  form : Form
  taken : List Bool
  leaves : List Leaf
  derives : Derives form.items taken leaves

/-- Every lexeme is the longest one that there is at its place. -/
def Greedy : List Leaf → Prop
  | [] => True
  | leaf :: rest =>
    (∀ lexeme, leaf.terminal.Matches lexeme → lexeme <+: leaf.lexeme ++ sentence rest →
      lexeme.length ≤ leaf.lexeme.length) ∧ Greedy rest

/-! ## What a derivation denotes -/

def digit (c : Char) : Nat := "0123456789abcdef".toList.idxOf c.toLower

def numeral (cs : List Char) : Nat := Nat.ofDigits 16 (cs.map digit).reverse

def Leaf.number? (leaf : Leaf) : Option Nat :=
  if leaf.terminal = .address then some (numeral leaf.lexeme) else none

def Leaf.text? (leaf : Leaf) : Option String :=
  if leaf.terminal = .text then some (String.ofList leaf.lexeme) else none

def numbers (leaves : List Leaf) : List Nat := leaves.filterMap Leaf.number?

def texts (leaves : List Leaf) : List String := leaves.filterMap Leaf.text?

namespace Derivation

def sentence (t : Derivation) : List Char := Grammar.sentence t.leaves

/-- The directive has the letter that the derivation begins with, the numbers of its addresses and
its text. -/
structure Denotes (t : Derivation) (d : Directive) : Prop where
  command : t.leaves.head?.map (·.lexeme) = some [d.command]
  address : d.address? = (numbers t.leaves)[0]?
  last : d.end? = (numbers t.leaves)[1]?
  text : d.text? = (texts t.leaves).head?

end Derivation

/-! ## Telling forms apart from left to right -/

theorem Terminal.ne_nil_of_matches {t : Terminal} {cs : List Char} (h : t.Matches cs) :
    cs ≠ [] := by
  rintro rfl
  cases t with
  | letter c => cases h
  | segment => obtain ⟨c, -, hc⟩ := h; cases hc
  | address => exact h.1 rfl
  | text => obtain ⟨⟨c, hc, -⟩, -⟩ := h; cases hc
  | gap => exact h.1 rfl

/-- No lexeme of the terminal begins with one of some characters. -/
def Terminal.Avoids (chars : List Char) (t : Terminal) : Prop :=
  ∀ c cs, t.Matches (c :: cs) → c ∉ chars

/-- The characters of a terminal whose lexemes are runs of any length. -/
def Terminal.run? : Terminal → Option (List Char)
  | address => some hexDigits
  | gap => some gapSigns
  | _ => none

/-- Nothing that the items derive begins with one of some characters. -/
def Avoids (chars : List Char) : List Item → Prop
  | [] => True
  | .one t :: _ => t.Avoids chars
  | .optional ts :: items => (∀ t ∈ ts.head?, t.Avoids chars) ∧ ts ≠ [] ∧ Avoids chars items

/-- Items that one look ahead tells apart: a run is followed by something else, a text by nothing,
and an optional part begins with a gap where nothing after it does. -/
inductive Clear : List Item → Prop where
  | nil : Clear []
  | one {t : Terminal} {items : List Item} (hrun : ∀ chars ∈ t.run?, Avoids chars items)
      (htext : t = .text → items = []) (hrest : Clear items) : Clear (.one t :: items)
  | optional {ts : List Terminal} {items : List Item} (havoid : Avoids gapSigns items)
      (hskip : Clear items)
      (htake : Clear ((.gap :: ts).map .one ++ items)) : Clear (.optional (.gap :: ts) :: items)

theorem sentence_cons (leaf : Leaf) (leaves : List Leaf) :
    sentence (leaf :: leaves) = leaf.lexeme ++ sentence leaves := List.flatMap_cons

theorem Derives.head_notMem {chars : List Char} {items : List Item} {taken : List Bool}
    {leaves : List Leaf} (h : Derives items taken leaves) (havoid : Avoids chars items) :
    ∀ c ∈ (sentence leaves).head?, c ∉ chars := by
  induction h with
  | nil => intro c hc; cases hc
  | @leaf t cs items taken leaves hmatch _ _ =>
    intro c hc
    cases cs with
    | nil => exact absurd rfl (Terminal.ne_nil_of_matches hmatch)
    | cons d ds =>
      cases hc
      exact havoid _ ds hmatch
  | skip _ ih => exact ih havoid.2.2
  | @take ts items taken leaves _ ih =>
    obtain ⟨hfirst, hne, -⟩ := havoid
    cases ts with
    | nil => exact absurd rfl hne
    | cons t ts => exact ih (hfirst t rfl)

/-- A run that is not followed by more of the same is what `takeWhile` takes. -/
theorem run_eq_takeWhile {chars cs rest : List Char} (hcs : ∀ c ∈ cs, c ∈ chars)
    (hrest : ∀ c ∈ rest.head?, c ∉ chars) :
    (cs ++ rest).takeWhile (chars.contains ·) = cs ∧
    (cs ++ rest).dropWhile (chars.contains ·) = rest := by
  have hstop : rest.takeWhile (chars.contains ·) = [] ∧
      rest.dropWhile (chars.contains ·) = rest := by
    cases rest with
    | nil => exact ⟨rfl, rfl⟩
    | cons c rest =>
      have hc : ¬ chars.contains c = true := by simpa using hrest c rfl
      exact ⟨List.takeWhile_cons_of_neg hc, List.dropWhile_cons_of_neg hc⟩
  have hall : ∀ c ∈ cs, chars.contains c = true := fun c hc => List.contains_iff_mem.mpr (hcs c hc)
  rw [List.takeWhile_append_of_pos hall, List.dropWhile_append_of_pos hall, hstop.1, hstop.2,
    List.append_nil]
  exact ⟨rfl, rfl⟩

theorem Terminal.mem_of_run {t : Terminal} {chars cs : List Char} (hrun : t.run? = some chars)
    (h : t.Matches cs) : ∀ c ∈ cs, c ∈ chars := by
  cases t <;> cases hrun <;> exact h.2

/-- The lexeme of a terminal without runs and texts is one character. -/
theorem Terminal.length_of_run_eq_none {t : Terminal} {cs : List Char} (hrun : t.run? = none)
    (htext : t ≠ .text) (h : t.Matches cs) : cs.length = 1 := by
  cases t with
  | letter c => rw [show cs = [c] from h]; rfl
  | segment => obtain ⟨c, -, rfl⟩ := h; rfl
  | address => cases hrun
  | text => exact absurd rfl htext
  | gap => cases hrun

section

variable {t : Terminal} {cs rest : List Char}

/-- A lexeme is fixed by the characters that begin with it, where what follows it can be told from
it. -/
theorem Terminal.lexeme_unique {cs' rest' : List Char} (h : t.Matches cs) (h' : t.Matches cs')
    (hrun : ∀ chars ∈ t.run?, (∀ c ∈ rest.head?, c ∉ chars) ∧ ∀ c ∈ rest'.head?, c ∉ chars)
    (htext : t = .text → rest = [] ∧ rest' = []) (heq : cs ++ rest = cs' ++ rest') :
    cs = cs' ∧ rest = rest' := by
  cases hr : t.run? with
  | some chars =>
    obtain ⟨hrest, hrest'⟩ := hrun chars hr
    obtain ⟨htake, hdrop⟩ := run_eq_takeWhile (t.mem_of_run hr h) hrest
    obtain ⟨htake', hdrop'⟩ := run_eq_takeWhile (t.mem_of_run hr h') hrest'
    rw [← heq] at htake' hdrop'
    exact ⟨htake.symm.trans htake', hdrop.symm.trans hdrop'⟩
  | none =>
    by_cases ht : t = .text
    · obtain ⟨rfl, rfl⟩ := htext ht
      simpa using heq
    · have hlength := t.length_of_run_eq_none hr ht h
      have hlength' := t.length_of_run_eq_none hr ht h'
      exact List.append_inj heq (hlength.trans hlength'.symm)

/-- A lexeme is the longest at its place, where what follows it can be told from it. -/
theorem Terminal.lexeme_longest {lexeme : List Char} (h : t.Matches cs)
    (hrun : ∀ chars ∈ t.run?, ∀ c ∈ rest.head?, c ∉ chars) (htext : t = .text → rest = [])
    (hlexeme : t.Matches lexeme) (hextends : lexeme <+: cs ++ rest) :
    lexeme.length ≤ cs.length := by
  cases hr : t.run? with
  | some chars =>
    obtain ⟨more, hmore⟩ := hextends
    have hall : ∀ c ∈ lexeme, chars.contains c = true :=
      fun c hc => List.contains_iff_mem.mpr (t.mem_of_run hr hlexeme c hc)
    have htake := (run_eq_takeWhile (t.mem_of_run hr h) (hrun chars hr)).1
    rw [← hmore, List.takeWhile_append_of_pos hall] at htake
    rw [← htake, List.length_append]
    exact Nat.le_add_right _ _
  | none =>
    by_cases ht : t = .text
    · rw [htext ht, List.append_nil] at hextends
      exact hextends.length_le
    · rw [t.length_of_run_eq_none hr ht h, t.length_of_run_eq_none hr ht hlexeme]

end

section

variable {items : List Item} {taken : List Bool} {leaves : List Leaf}

theorem Derives.eq_nil (h : Derives [] taken leaves) : leaves = [] := by
  cases h
  rfl

/-- What comes after a terminal can be told from it. -/
theorem Clear.follow {t : Terminal} (hclear : Clear (.one t :: items))
    (h : Derives items taken leaves) :
    (∀ chars ∈ t.run?, ∀ c ∈ (sentence leaves).head?, c ∉ chars) ∧
    (t = .text → sentence leaves = []) := by
  cases hclear with
  | one hrun htext _ =>
    refine ⟨fun chars hchars => h.head_notMem (hrun chars hchars), fun ht => ?_⟩
    have hnil := htext ht
    subst hnil
    rw [h.eq_nil]
    rfl

/-- What begins with a gap is not derived by items that begin with none. -/
theorem sentence_ne_of_gap {others : List Item} {taken' : List Bool} {leaves' : List Leaf}
    (h : Derives (.one .gap :: items) taken leaves) (h' : Derives others taken' leaves')
    (havoid : Avoids gapSigns others) : sentence leaves ≠ sentence leaves' := by
  intro heq
  cases h with
  | @leaf _ cs _ _ leaves hmatch _ =>
    cases cs with
    | nil => exact hmatch.1 rfl
    | cons c cs =>
      have hc : c ∉ gapSigns := h'.head_notMem havoid c (by rw [← heq]; rfl)
      exact hc (hmatch.2 c List.mem_cons_self)

/-- Clear items derive no sentence in two ways. -/
theorem Derives.unique {taken' : List Bool} {leaves' : List Leaf} (h : Derives items taken leaves)
    (h' : Derives items taken' leaves') (hclear : Clear items)
    (heq : sentence leaves = sentence leaves') : taken = taken' ∧ leaves = leaves' := by
  induction h generalizing taken' leaves' with
  | nil =>
    cases h'
    exact ⟨rfl, rfl⟩
  | @leaf t cs items taken leaves hmatch hrest ih =>
    cases h' with
    | @leaf _ cs' _ _ leaves' hmatch' hrest' =>
      obtain ⟨hrun, htext⟩ := hclear.follow hrest
      obtain ⟨hrun', htext'⟩ := hclear.follow hrest'
      rw [sentence_cons, sentence_cons] at heq
      obtain ⟨rfl, hsame⟩ := Terminal.lexeme_unique hmatch hmatch'
        (fun chars hchars => ⟨hrun chars hchars, hrun' chars hchars⟩)
          (fun ht => ⟨htext ht, htext' ht⟩) heq
      cases hclear with
      | one _ _ hclear =>
        obtain ⟨rfl, rfl⟩ := ih hrest' hclear hsame
        exact ⟨rfl, rfl⟩
  | skip hrest ih =>
    cases hclear with
    | optional havoid hskip htake =>
      cases h' with
      | skip hrest' =>
        obtain ⟨rfl, rfl⟩ := ih hrest' hskip heq
        exact ⟨rfl, rfl⟩
      | take hrest' => exact absurd heq (sentence_ne_of_gap hrest' hrest havoid).symm
  | take hrest ih =>
    cases hclear with
    | optional havoid hskip htake =>
      cases h' with
      | skip hrest' => exact absurd heq (sentence_ne_of_gap hrest hrest' havoid)
      | take hrest' =>
        obtain ⟨rfl, rfl⟩ := ih hrest' htake heq
        exact ⟨rfl, rfl⟩

/-- In a sentence of clear items every lexeme is the longest at its place. -/
theorem Derives.greedy (h : Derives items taken leaves) (hclear : Clear items) : Greedy leaves := by
  induction h with
  | nil => trivial
  | leaf hmatch hrest ih =>
    obtain ⟨hrun, htext⟩ := hclear.follow hrest
    cases hclear with
    | one _ _ hclear =>
      exact ⟨fun lexeme hlexeme => Terminal.lexeme_longest hmatch hrun htext hlexeme, ih hclear⟩
  | skip _ ih =>
    cases hclear with
    | optional _ hskip _ => exact ih hskip
  | take _ ih =>
    cases hclear with
    | optional _ _ htake => exact ih htake

end

/-! ## The forms of commands are clear -/

theorem avoids_letter {chars : List Char} {c : Char} (h : c ∉ chars) :
    (Terminal.letter c).Avoids chars := by
  intro d ds hmatch
  cases hmatch
  exact h

theorem notMem_hexDigits_of_gap {c : Char} (h : c ∈ gapSigns) : c ∉ hexDigits := by
  have hall : gapSigns.all (fun d => !hexDigits.contains d) = true := by decide
  simpa using List.all_eq_true.mp hall c h

theorem address_avoids_gap : Terminal.address.Avoids gapSigns := by
  intro c cs hmatch hgap
  exact notMem_hexDigits_of_gap hgap (hmatch.2 c List.mem_cons_self)

theorem gap_avoids_hexDigits : Terminal.gap.Avoids hexDigits := by
  intro c cs hmatch
  exact notMem_hexDigits_of_gap (hmatch.2 c List.mem_cons_self)

theorem text_avoids_gap : Terminal.text.Avoids gapSigns := by
  intro c cs hmatch hgap
  have hblank : gapSigns.all Text.isBlank = true := by decide
  obtain ⟨⟨d, hd, hfalse⟩, -⟩ := hmatch
  cases hd
  rw [List.all_eq_true.mp hblank c hgap] at hfalse
  cases hfalse

section

variable {items : List Item}

theorem clear_letter (c : Char) (hclear : Clear items) : Clear (.one (.letter c) :: items) :=
  .one (fun _ h => absurd h (by simp [Terminal.run?])) (fun h => absurd h (by simp)) hclear

theorem clear_address (havoid : Avoids hexDigits items) (hclear : Clear items) :
    Clear (.one .address :: items) :=
  .one (fun _ h => by cases h; exact havoid) (fun h => absurd h (by simp)) hclear

theorem clear_gap (havoid : Avoids gapSigns items) (hclear : Clear items) :
    Clear (.one .gap :: items) :=
  .one (fun _ h => by cases h; exact havoid) (fun h => absurd h (by simp)) hclear

theorem clear_optional_gap (havoid : Avoids gapSigns items) (hclear : Clear items) :
    Clear (.optional [.gap] :: items) :=
  .optional havoid hclear (clear_gap havoid hclear)

theorem clear_text : Clear [.one .text] :=
  .one (fun _ h => absurd h (by simp [Terminal.run?])) (fun _ => rfl) .nil

end

theorem avoids_optionalText : Avoids hexDigits [.optional [.gap, .text]] :=
  ⟨fun _ h => by cases h; exact gap_avoids_hexDigits, by simp, trivial⟩

theorem clear_addressed : Clear addressed := by
  refine clear_optional_gap address_avoids_gap (clear_address avoids_optionalText ?_)
  exact .optional trivial .nil (clear_gap text_avoids_gap clear_text)

theorem avoids_comma :
    Avoids hexDigits [.optional [.gap], .one (.letter ','), .optional [.gap], .one .address] :=
  ⟨fun _ h => by cases h; exact gap_avoids_hexDigits, by simp, avoids_letter (by decide)⟩

theorem clear_number : Clear [.optional [.gap], .one .address] :=
  clear_optional_gap address_avoids_gap (clear_address trivial .nil)

theorem Form.clear_items (f : Form) : Clear f.items := by
  cases f with
  | segment =>
    exact .one (fun _ h => absurd h (by simp [Terminal.run?]))
      (fun h => absurd h (by simp)) clear_addressed
  | label => exact clear_letter _ clear_addressed
  | comment => exact clear_letter _ clear_addressed
  | note => exact clear_letter _ clear_addressed
  | range =>
    refine clear_letter _ (clear_optional_gap address_avoids_gap (clear_address avoids_comma ?_))
    exact clear_optional_gap (avoids_letter (by decide)) (clear_letter _ clear_number)
  | terminator => exact clear_letter _ clear_number
  | inputFile => exact clear_letter _ (clear_optional_gap text_avoids_gap clear_text)
  | embed => exact clear_letter _ (clear_optional_gap text_avoids_gap clear_text)

def Form.letters : Form → List Char
  | segment => segmentLetters
  | label => ['l']
  | comment => ['k']
  | note => ['n']
  | range => ['r']
  | terminator => ['t']
  | inputFile => ['f']
  | embed => ['i']

theorem Form.eq_of_letter {f g : Form} {c : Char} (hf : c ∈ f.letters)
    (hg : c ∈ g.letters) : f = g := by
  have hall : f.letters.all (fun d => !g.letters.contains d || f == g) = true := by
    cases f <;> cases g <;> decide
  have hc := List.all_eq_true.mp hall c hf
  rw [List.contains_iff_mem.mpr hg] at hc
  simpa using hc

namespace Derivation

/-- A derivation begins with a letter of its form. -/
theorem begins (t : Derivation) : ∃ c ∈ t.form.letters, ∃ cs, t.sentence = c :: cs := by
  obtain ⟨form, taken, leaves, h⟩ := t
  cases form with
  | segment =>
    cases h with
    | leaf hmatch _ =>
      obtain ⟨c, hc, rfl⟩ := hmatch
      exact ⟨c, hc, _, rfl⟩
  | _ =>
    cases h with
    | leaf hmatch _ =>
      cases hmatch
      exact ⟨_, List.mem_singleton_self _, _, rfl⟩

/-- No sentence has two derivations. -/
theorem eq_of_sentence_eq {t u : Derivation} (h : t.sentence = u.sentence) : t = u := by
  have hform : t.form = u.form := by
    obtain ⟨c, hc, cs, ht⟩ := t.begins
    obtain ⟨d, hd, ds, hu⟩ := u.begins
    rw [ht, hu] at h
    obtain ⟨rfl, -⟩ := List.cons.inj h
    exact Form.eq_of_letter hc hd
  have hu : Derives t.form.items u.taken u.leaves := hform ▸ u.derives
  obtain ⟨htaken, hleaves⟩ := t.derives.unique hu t.form.clear_items h
  exact Derivation.ext hform htaken hleaves

theorem greedy (t : Derivation) : Greedy t.leaves := t.derives.greedy t.form.clear_items

end Derivation

end Disassembler.Grammar
