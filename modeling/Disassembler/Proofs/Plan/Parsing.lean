import Disassembler.Proofs.Plan.Grammar

/-!
Reading a command line accepts the sentences of its grammar, and of these all. The directive that is
read has the letter, the numbers and the text of the one derivation that the line has.
-/

namespace Disassembler

open Grammar

namespace Directive

/-! ## Characters and numerals -/

theorem isGap_eq : isGap = (gapSigns.contains ·) := by
  funext c
  simp [isGap, gapSigns, Bool.decide_or]

theorem isHexDigit_eq : isHexDigit = (hexDigits.contains ·) := by
  funext c
  by_cases h : c.toNat < 128
  · have hall : ∀ n < 128, isHexDigit (Char.ofNat n) = hexDigits.contains (Char.ofNat n) := by
      decide +kernel
    have hc := hall c.toNat h
    rwa [Char.ofNat_toNat] at hc
  · have hlarge : ∀ d : Char, d.toNat < 128 → ¬ c ≤ d := by
      intro d hd hle
      have hle : c.toNat ≤ d.toNat := UInt32.le_iff_toNat_le.mp hle
      omega
    have hhex : isHexDigit c = false := by
      simp [isHexDigit, hlarge '9' (by decide), hlarge 'F' (by decide), hlarge 'f' (by decide)]
    have hmem : c ∉ hexDigits := by
      intro hmem
      have hsmall : hexDigits.all (fun d => decide (d.toNat < 128)) = true := by decide
      exact h (of_decide_eq_true (List.all_eq_true.mp hsmall c hmem))
    rw [hhex]
    simpa using hmem

theorem hexValue_eq_numeral {cs : List Char} (h : ∀ c ∈ cs, c ∈ hexDigits) :
    hexValue cs = numeral cs := by
  have hall : hexDigits.all (fun c => digit c == hexDigitValue c) = true := by decide +kernel
  have hmap : cs.map digit = cs.map hexDigitValue :=
    List.map_congr_left fun c hc => beq_iff_eq.mp (List.all_eq_true.mp hall c (h c hc))
  rw [numeral, hmap, Nat.ofDigits_eq_foldr, List.foldr_reverse, List.foldl_map, hexValue]
  congr 1
  funext n c
  simp [Nat.add_comm]

end Directive

def Grammar.Derivable (items : List Item) (cs : List Char) : Prop :=
  ∃ taken leaves, Derives items taken leaves ∧ sentence leaves = cs

namespace Directive

variable {items : List Item} {cs : List Char}

/-! ## What is read can be derived -/

theorem mem_of_mem_takeWhile {chars : List Char} {c : Char}
    (h : c ∈ cs.takeWhile (chars.contains ·)) : c ∈ chars :=
  List.contains_iff_mem.mp (List.all_eq_true.mp List.all_takeWhile c h)

theorem derivable_nil : Derivable [] [] := ⟨_, _, .nil, rfl⟩

theorem derivable_take {ts : List Terminal} (h : Derivable (ts.map .one ++ items) cs) :
    Derivable (.optional ts :: items) cs := by
  obtain ⟨taken, leaves, hderives, hsentence⟩ := h
  exact ⟨_, _, .take hderives, hsentence⟩

theorem derivable_leaf {t : Terminal} {lexeme : List Char} (hmatch : t.Matches lexeme)
    (h : Derivable items cs) : Derivable (.one t :: items) (lexeme ++ cs) := by
  obtain ⟨taken, leaves, hderives, rfl⟩ := h
  exact ⟨taken, _, .leaf hmatch hderives, sentence_cons _ _⟩

theorem derivable_letter (c : Char) (h : Derivable items cs) :
    Derivable (.one (.letter c) :: items) (c :: cs) := by
  have hmatch : (Terminal.letter c).Matches [c] := rfl
  exact derivable_leaf hmatch h

/-- A gap may stand in front, or nothing. -/
theorem derivable_gap {gap : List Char} (hgap : ∀ c ∈ gap, c ∈ gapSigns) (h : Derivable items cs) :
    Derivable (.optional [.gap] :: items) (gap ++ cs) := by
  cases gap with
  | nil =>
    obtain ⟨taken, leaves, hderives, rfl⟩ := h
    exact ⟨_, _, .skip hderives, rfl⟩
  | cons c gap =>
    have hmatch : Terminal.gap.Matches (c :: gap) := ⟨List.cons_ne_nil _ _, hgap⟩
    exact derivable_take (derivable_leaf hmatch h)

theorem derivable_dropWhile (h : Derivable items (cs.dropWhile isGap)) :
    Derivable (.optional [.gap] :: items) cs := by
  rw [← List.takeWhile_append_dropWhile (p := isGap) (l := cs)]
  refine derivable_gap (fun c hc => ?_) h
  rw [isGap_eq] at hc
  exact mem_of_mem_takeWhile hc

theorem derivable_number {n : Nat} {rest : List Char} (h : number? cs = some (n, rest))
    (hrest : Derivable items rest) : Derivable (.optional [.gap] :: .one .address :: items) cs := by
  apply derivable_dropWhile
  simp only [number?] at h
  split at h
  · cases h
  · next hne =>
    cases h
    rw [← List.takeWhile_append_dropWhile (p := isHexDigit) (l := cs.dropWhile isGap)]
    refine derivable_leaf ⟨hne, fun c hc => ?_⟩ hrest
    rw [isHexDigit_eq] at hc
    exact mem_of_mem_takeWhile hc

theorem isText_iff : isText cs = true ↔ Terminal.text.Matches cs := by
  simp only [isText, Terminal.Matches, Bool.and_eq_true, Option.any_eq_true,
    Bool.not_eq_true', and_assoc]
  simp

theorem derivable_text {text : String} (h : wholeText? cs = some text) :
    Derivable [.one .text] (cs.dropWhile isGap) := by
  simp only [wholeText?] at h
  split at h
  · next htext =>
    have hleaf := derivable_leaf (isText_iff.mp htext) derivable_nil
    rwa [List.append_nil] at hleaf
  · cases h

theorem derivable_optionalText {text : Option String} (h : optionalText? cs = some text) :
    Derivable [.optional [.gap, .text]] cs := by
  cases cs with
  | nil => exact ⟨_, _, .skip .nil, rfl⟩
  | cons c cs =>
    simp only [optionalText?] at h
    split at h
    · next hc =>
      obtain ⟨shown, hshown, -⟩ := Option.map_eq_some_iff.mp h
      have hgap : Terminal.gap.Matches (c :: cs.takeWhile isGap) := by
        rw [isGap_eq] at hc ⊢
        refine ⟨List.cons_ne_nil _ _, fun d hd => ?_⟩
        rcases List.mem_cons.mp hd with rfl | hd
        · exact List.contains_iff_mem.mp hc
        · exact mem_of_mem_takeWhile hd
      apply derivable_take
      have hleaf := derivable_leaf hgap (derivable_text hshown)
      rwa [List.cons_append, List.takeWhile_append_dropWhile] at hleaf
    · cases h

theorem derivable_addressed {build : Nat → Option String → Directive} {d : Directive}
    (h : addressed? build cs = some d) : Derivable addressed cs := by
  obtain ⟨⟨address, rest⟩, hnumber, h⟩ := Option.bind_eq_some_iff.mp h
  obtain ⟨text, htext, -⟩ := Option.bind_eq_some_iff.mp h
  exact derivable_number hnumber (derivable_optionalText htext)

theorem derivable_terminator {d : Directive} (h : terminator? cs = some d) :
    Derivable [.optional [.gap], .one .address] cs := by
  obtain ⟨⟨value, rest⟩, hnumber, h⟩ := Option.bind_eq_some_iff.mp h
  simp only at h
  split at h
  · next hrest =>
    subst hrest
    exact derivable_number hnumber derivable_nil
  · cases h

theorem derivable_range {d : Directive} (h : range? cs = some d) :
    Derivable [.optional [.gap], .one .address, .optional [.gap], .one (.letter ','),
      .optional [.gap],
      .one .address] cs := by
  obtain ⟨⟨low, rest⟩, hlow, h⟩ := Option.bind_eq_some_iff.mp h
  refine derivable_number hlow (derivable_dropWhile ?_)
  simp only at h
  split at h
  · next further hcomma =>
    obtain ⟨⟨high, last⟩, hhigh, h⟩ := Option.bind_eq_some_iff.mp h
    simp only at h
    split at h
    · next hlast =>
      subst hlast
      rw [hcomma]
      exact derivable_letter ',' (derivable_number hhigh derivable_nil)
    · cases h
  · cases h

theorem letter_of_ofLetter? {c : Char} {mode : SegmentMode}
    (h : SegmentMode.ofLetter? c = some mode) : mode.letter = c := by
  simpa using List.find?_some h

theorem letter_mem_segmentLetters (mode : SegmentMode) : mode.letter ∈ segmentLetters := by
  cases mode <;> decide

/-- A line that is read has a derivation. -/
theorem exists_derivation {d : Directive} (h : ofChars? cs = some d) :
    ∃ t : Derivation, t.sentence = cs := by
  have hform : ∃ form : Form, Derivable form.items cs := by
    cases cs with
    | nil => cases h
    | cons c cs =>
      simp only [ofChars?] at h
      split at h
      · next mode hmode =>
        have hmatch : Terminal.segment.Matches [c] :=
          ⟨c, letter_of_ofLetter? hmode ▸ letter_mem_segmentLetters mode, rfl⟩
        exact ⟨.segment, derivable_leaf hmatch (derivable_addressed h)⟩
      · split at h
        · exact ⟨.label, derivable_letter 'l' (derivable_addressed h)⟩
        · exact ⟨.comment, derivable_letter 'k' (derivable_addressed h)⟩
        · exact ⟨.note, derivable_letter 'n' (derivable_addressed h)⟩
        · exact ⟨.range, derivable_letter 'r' (derivable_range h)⟩
        · exact ⟨.terminator, derivable_letter 't' (derivable_terminator h)⟩
        · obtain ⟨text, htext, -⟩ := Option.map_eq_some_iff.mp h
          exact ⟨.inputFile, derivable_letter 'f' (derivable_dropWhile (derivable_text htext))⟩
        · obtain ⟨text, htext, -⟩ := Option.map_eq_some_iff.mp h
          exact ⟨.embed, derivable_letter 'i' (derivable_dropWhile (derivable_text htext))⟩
        · cases h
  obtain ⟨form, taken, leaves, hderives, hsentence⟩ := hform
  exact ⟨⟨form, taken, leaves, hderives⟩, hsentence⟩

/-! ## What can be derived is read -/

section

variable {taken : List Bool} {leaves : List Leaf}

theorem numbers_cons (leaf : Leaf) (leaves : List Leaf) :
    numbers (leaf :: leaves) = leaf.number?.toList ++ numbers leaves := by
  unfold numbers
  cases h : leaf.number? <;> simp [h]

theorem texts_cons (leaf : Leaf) (leaves : List Leaf) :
    texts (leaf :: leaves) = leaf.text?.toList ++ texts leaves := by
  unfold texts
  cases h : leaf.text? <;> simp [h]

/-- Nothing is read of a gap. -/
theorem derives_gap (h : Derives (.optional [.gap] :: items) taken leaves)
    (havoid : Avoids gapSigns items) :
    ∃ taken' rest, Derives items taken' rest ∧ (sentence leaves).dropWhile isGap = sentence rest ∧
      numbers leaves = numbers rest ∧ texts leaves = texts rest := by
  cases h with
  | @skip _ _ taken' _ hrest =>
    refine ⟨taken', leaves, hrest, ?_, rfl, rfl⟩
    have hempty : ∀ c ∈ ([] : List Char), c ∈ gapSigns := by simp
    rw [isGap_eq]
    exact (run_eq_takeWhile hempty (hrest.head_notMem havoid)).2
  | take htake =>
    cases htake with
    | @leaf _ gap _ _ rest hmatch hrest =>
      refine ⟨_, rest, hrest, ?_, numbers_cons _ _, texts_cons _ _⟩
      rw [isGap_eq, sentence_cons]
      exact (run_eq_takeWhile hmatch.2 (hrest.head_notMem havoid)).2

theorem derives_number (h : Derives (.optional [.gap] :: .one .address :: items) taken leaves)
    (havoid : Avoids hexDigits items) :
    ∃ n taken' rest, Derives items taken' rest ∧
      number? (sentence leaves) = some (n, sentence rest) ∧
      numbers leaves = n :: numbers rest ∧ texts leaves = texts rest := by
  obtain ⟨_, middle, hmiddle, hdrop, hnumbers, htexts⟩ := derives_gap h address_avoids_gap
  cases hmiddle with
  | @leaf _ digits _ _ rest hmatch hrest =>
    obtain ⟨htake, hleft⟩ := run_eq_takeWhile hmatch.2 (hrest.head_notMem havoid)
    rw [sentence_cons] at hdrop
    refine ⟨numeral digits, _, rest, hrest, ?_, hnumbers.trans (numbers_cons _ _),
      htexts.trans (texts_cons _ _)⟩
    simp only [number?, hdrop, isHexDigit_eq, htake, hleft, if_neg hmatch.1,
      hexValue_eq_numeral hmatch.2]

theorem derives_text (h : Derives [.one .text] taken leaves) :
    isText (sentence leaves) = true ∧ numbers leaves = [] ∧
    texts leaves = [String.ofList (sentence leaves)] := by
  cases h with
  | @leaf _ cs _ _ rest hmatch hrest =>
    cases hrest
    rw [sentence_cons, numbers_cons, texts_cons]
    refine ⟨?_, rfl, ?_⟩
    · simpa [sentence] using isText_iff.mpr hmatch
    · simp [sentence, Leaf.text?, texts]

theorem derives_wholeText (h : Derives [.optional [.gap], .one .text] taken leaves) :
    ∃ text, wholeText? (sentence leaves) = some text ∧ numbers leaves = [] ∧
      texts leaves = [text] := by
  obtain ⟨taken', rest, hrest, hdrop, hnumbers, htexts⟩ := derives_gap h text_avoids_gap
  obtain ⟨htext, hnone, hone⟩ := derives_text hrest
  refine ⟨String.ofList (sentence rest), ?_, hnumbers.trans hnone, htexts.trans hone⟩
  simp only [wholeText?, hdrop, htext, if_true]

theorem derives_optionalText (h : Derives [.optional [.gap, .text]] taken leaves) :
    ∃ text, optionalText? (sentence leaves) = some text ∧ numbers leaves = [] ∧
      texts leaves = text.toList := by
  cases h with
  | skip hrest =>
    cases hrest
    exact ⟨none, rfl, rfl, rfl⟩
  | take htake =>
    cases htake with
    | @leaf _ gap _ _ rest hmatch hrest =>
      obtain ⟨htext, hnone, hone⟩ := derives_text hrest
      refine ⟨some (String.ofList (sentence rest)), ?_, (numbers_cons _ _).trans hnone,
        (texts_cons _ _).trans hone⟩
      cases gap with
      | nil => exact absurd rfl hmatch.1
      | cons c gap =>
        have hc : isGap c = true := by
          rw [isGap_eq]
          exact List.contains_iff_mem.mpr (hmatch.2 c List.mem_cons_self)
        have hgap : ∀ d ∈ gap, d ∈ gapSigns := fun d hd => hmatch.2 d (List.mem_cons_of_mem _ hd)
        have hdrop : (gap ++ sentence rest).dropWhile isGap = sentence rest := by
          rw [isGap_eq]
          exact (run_eq_takeWhile hgap (hrest.head_notMem text_avoids_gap)).2
        rw [sentence_cons]
        simp only [List.cons_append, optionalText?, hc, if_true, wholeText?, hdrop, htext,
          Option.map_some]

theorem derives_addressed (h : Derives addressed taken leaves) :
    ∃ address text, (∀ build, addressed? build (sentence leaves) = some (build address text)) ∧
      numbers leaves = [address] ∧ texts leaves = text.toList := by
  obtain ⟨address, _, rest, hrest, hnumber, hnumbers, htexts⟩ :=
    derives_number h avoids_optionalText
  obtain ⟨text, htext, hnone, hsome⟩ := derives_optionalText hrest
  refine ⟨address, text, fun build => ?_, by rw [hnumbers, hnone], htexts.trans hsome⟩
  simp [addressed?, hnumber, htext]

theorem derives_terminator (h : Derives [.optional [.gap], .one .address] taken leaves) :
    ∃ value, number? (sentence leaves) = some (value, []) ∧ numbers leaves = [value] ∧
      texts leaves = [] := by
  obtain ⟨value, _, rest, hrest, hnumber, hnumbers, htexts⟩ := derives_number h trivial
  cases hrest
  exact ⟨value, hnumber, hnumbers, htexts⟩

theorem derives_range
    (h : Derives [.optional [.gap], .one .address, .optional [.gap], .one (.letter ','),
      .optional [.gap],
      .one .address] taken leaves) :
    ∃ low high, range? (sentence leaves) = some (range low high) ∧ numbers leaves = [low, high] ∧
      texts leaves = [] := by
  obtain ⟨low, _, rest, hrest, hlow, hnumbers, htexts⟩ := derives_number h avoids_comma
  obtain ⟨_, middle, hmiddle, hdrop, hnumbers', htexts'⟩ :=
    derives_gap hrest (avoids_letter (by decide))
  cases hmiddle with
  | @leaf _ comma _ _ last hmatch hlast =>
    cases hmatch
    obtain ⟨high, hhigh, hone, hnone⟩ := derives_terminator hlast
    refine ⟨low, high, ?_, ?_, ?_⟩
    · rw [sentence_cons] at hdrop
      simp [range?, hlow, hdrop, hhigh]
    · rw [hnumbers, hnumbers', numbers_cons, hone]
      rfl
    · rw [htexts, htexts', texts_cons, hnone]
      rfl

end

/-! ## Directives and derivations -/

theorem denotes_of_rest {t : Derivation} {terminal : Terminal} {c : Char} {rest : List Leaf}
    {d : Directive} (hleaves : t.leaves = ⟨terminal, [c]⟩ :: rest)
    (hterminal : terminal ≠ .address ∧ terminal ≠ .text) (hcommand : d.command = c)
    (haddress : d.address? = (numbers rest)[0]?) (hlast : d.end? = (numbers rest)[1]?)
    (htext : d.text? = (texts rest).head?) : t.Denotes d := by
  have hnumbers : numbers t.leaves = numbers rest := by
    rw [hleaves, numbers_cons, Leaf.number?, if_neg hterminal.1]
    rfl
  have htexts : texts t.leaves = texts rest := by
    rw [hleaves, texts_cons, Leaf.text?, if_neg hterminal.2]
    rfl
  refine ⟨?_, by rw [hnumbers, haddress], by rw [hnumbers, hlast], by rw [htexts, htext]⟩
  rw [hleaves, hcommand]
  rfl

section

variable {t : Derivation} {terminal : Terminal} {c : Char} {taken : List Bool} {rest : List Leaf}

theorem sentence_of_leaves (hleaves : t.leaves = ⟨terminal, [c]⟩ :: rest) :
    t.sentence = c :: sentence rest := by
  rw [Derivation.sentence, hleaves, sentence_cons]
  rfl

theorem exists_denoted_addressed (hleaves : t.leaves = ⟨terminal, [c]⟩ :: rest)
    (hterminal : terminal ≠ .address ∧ terminal ≠ .text) (h : Derives addressed taken rest)
    {build : Nat → Option String → Directive}
    (hread : ∀ cs, ofChars? (c :: cs) = addressed? build cs)
    (hbuild : ∀ a o, (build a o).command = c ∧ (build a o).address? = some a ∧
      (build a o).end? = none ∧
      (build a o).text? = o) : ∃ d, ofChars? t.sentence = some d ∧ t.Denotes d := by
  obtain ⟨address, text, hparsed, hnumbers, htexts⟩ := derives_addressed h
  obtain ⟨hcommand, haddress, hlast, htext⟩ := hbuild address text
  refine ⟨build address text, ?_, denotes_of_rest hleaves hterminal hcommand ?_ ?_ ?_⟩
  · rw [sentence_of_leaves hleaves, hread, hparsed]
  · rw [haddress, hnumbers]
    rfl
  · rw [hlast, hnumbers]
    rfl
  · rw [htext, htexts]
    cases text <;> rfl

theorem exists_denoted_text (hleaves : t.leaves = ⟨terminal, [c]⟩ :: rest)
    (hterminal : terminal ≠ .address ∧ terminal ≠ .text)
    (h : Derives [.optional [.gap], .one .text] taken rest) {build : String → Directive}
    (hread : ∀ cs, ofChars? (c :: cs) = (wholeText? cs).map build)
    (hbuild : ∀ s, (build s).command = c ∧ (build s).address? = none ∧ (build s).end? = none ∧
      (build s).text? = some s) : ∃ d, ofChars? t.sentence = some d ∧ t.Denotes d := by
  obtain ⟨text, hparsed, hnumbers, htexts⟩ := derives_wholeText h
  obtain ⟨hcommand, haddress, hlast, htext⟩ := hbuild text
  refine ⟨build text, ?_, denotes_of_rest hleaves hterminal hcommand ?_ ?_ ?_⟩
  · rw [sentence_of_leaves hleaves, hread, hparsed]
    rfl
  · rw [haddress, hnumbers]
    rfl
  · rw [hlast, hnumbers]
    rfl
  · rw [htext, htexts]
    rfl

end

/-- A derivation gives a line that is read, as the directive that the derivation denotes. -/
theorem exists_denoted (t : Derivation) : ∃ d, ofChars? t.sentence = some d ∧ t.Denotes d := by
  have hletter : ∀ c, Terminal.letter c ≠ .address ∧ Terminal.letter c ≠ .text := by simp
  obtain ⟨form, taken, leaves, h⟩ := t
  cases form with
  | segment =>
    cases h with
    | leaf hmatch hrest =>
      obtain ⟨c, hc, rfl⟩ := hmatch
      have hmodes : segmentLetters.all (fun d => (SegmentMode.ofLetter? d).isSome) = true := by
        decide
      obtain ⟨mode, hmode⟩ := Option.isSome_iff_exists.mp (List.all_eq_true.mp hmodes c hc)
      have hread : ∀ cs, ofChars? (c :: cs) = addressed? (segment mode) cs := by
        intro cs
        simp only [ofChars?, hmode]
      refine exists_denoted_addressed rfl (by simp) hrest hread fun a o => ⟨?_, rfl, rfl, rfl⟩
      exact letter_of_ofLetter? hmode
  | label =>
    cases h with
    | leaf hmatch hrest =>
      cases hmatch
      exact exists_denoted_addressed rfl (hletter 'l') hrest (fun _ => rfl) fun _ _ =>
        ⟨rfl, rfl, rfl, rfl⟩
  | comment =>
    cases h with
    | leaf hmatch hrest =>
      cases hmatch
      exact exists_denoted_addressed rfl (hletter 'k') hrest (fun _ => rfl) fun _ _ =>
        ⟨rfl, rfl, rfl, rfl⟩
  | note =>
    cases h with
    | leaf hmatch hrest =>
      cases hmatch
      exact exists_denoted_addressed rfl (hletter 'n') hrest (fun _ => rfl) fun _ _ =>
        ⟨rfl, rfl, rfl, rfl⟩
  | range =>
    cases h with
    | leaf hmatch hrest =>
      cases hmatch
      obtain ⟨low, high, hparsed, hnumbers, htexts⟩ := derives_range hrest
      refine ⟨range low high, ?_, denotes_of_rest rfl (hletter 'r') rfl ?_ ?_ ?_⟩
      · exact hparsed
      · rw [hnumbers]; rfl
      · rw [hnumbers]; rfl
      · rw [htexts]; rfl
  | terminator =>
    cases h with
    | leaf hmatch hrest =>
      cases hmatch
      obtain ⟨value, hparsed, hnumbers, htexts⟩ := derives_terminator hrest
      refine ⟨terminator value, ?_, denotes_of_rest rfl (hletter 't') rfl ?_ ?_ ?_⟩
      · change terminator? (sentence _) = _
        rw [terminator?, hparsed]
        rfl
      · rw [hnumbers]; rfl
      · rw [hnumbers]; rfl
      · rw [htexts]; rfl
  | inputFile =>
    cases h with
    | leaf hmatch hrest =>
      cases hmatch
      exact exists_denoted_text rfl (hletter 'f') hrest (fun _ => rfl) fun _ => ⟨rfl, rfl, rfl, rfl⟩
  | embed =>
    cases h with
    | leaf hmatch hrest =>
      cases hmatch
      exact exists_denoted_text rfl (hletter 'i') hrest (fun _ => rfl) fun _ => ⟨rfl, rfl, rfl, rfl⟩

def form : Directive → Form
  | segment .. => .segment
  | label .. => .label
  | comment .. => .comment
  | note .. => .note
  | range .. => .range
  | terminator _ => .terminator
  | inputFile _ => .inputFile
  | embed _ => .embed

theorem command_mem_letters (d : Directive) : d.command ∈ d.form.letters := by
  cases d with
  | segment mode address name => exact letter_mem_segmentLetters mode
  | _ => exact List.mem_singleton_self _

theorem letter_injective {m n : SegmentMode} (h : m.letter = n.letter) : m = n := by
  cases m <;> cases n <;> first | rfl | cases h

/-- A directive is its letter, its numbers and its text. -/
theorem eq_of_parts {d e : Directive} (hcommand : d.command = e.command)
    (haddress : d.address? = e.address?) (hlast : d.end? = e.end?)
    (htext : d.text? = e.text?) : d = e := by
  have hform : d.form = e.form :=
    Form.eq_of_letter d.command_mem_letters (hcommand ▸ e.command_mem_letters)
  cases d <;> cases e <;> cases hform <;> cases haddress <;> cases hlast <;> cases htext
  all_goals first | rfl | rw [letter_injective hcommand]

theorem eq_of_denotes {t : Derivation} {d e : Directive} (hd : t.Denotes d)
    (he : t.Denotes e) : d = e := by
  have hcommand : [d.command] = [e.command] := Option.some.inj (hd.command.symm.trans he.command)
  exact eq_of_parts (List.cons.inj hcommand).1 (hd.address.trans he.address.symm)
    (hd.last.trans he.last.symm)
    (hd.text.trans he.text.symm)

/-- A line is read exactly if the grammar derives it. Then it has one derivation, in which every
terminal is matched by the longest lexeme at its place, and what is read is the directive that this
derivation denotes: its letter, the values of its hexadecimal numerals and its text. -/
theorem ofString?_exact (line : String) :
    ((∃ d, ofString? line = some d) ↔ ∃ t : Derivation, t.sentence = line.toList) ∧
    ∀ t : Derivation, t.sentence = line.toList →
      (∀ u : Derivation, u.sentence = line.toList → u = t) ∧ Greedy t.leaves ∧
      ∀ d, ofString? line = some d ↔ t.Denotes d := by
  refine ⟨⟨?_, ?_⟩, ?_⟩
  · rintro ⟨d, hd⟩
    exact exists_derivation hd
  · rintro ⟨t, ht⟩
    obtain ⟨d, hd, -⟩ := exists_denoted t
    exact ⟨d, by rw [ofString?, ← ht, hd]⟩
  · intro t ht
    obtain ⟨e, he, hdenotes⟩ := exists_denoted t
    rw [ht] at he
    refine ⟨fun u hu => Derivation.eq_of_sentence_eq (hu.trans ht.symm), t.greedy, fun d => ?_⟩
    constructor <;> intro hd
    · rw [ofString?, he] at hd
      cases hd
      exact hdenotes
    · rw [ofString?, he, eq_of_denotes hdenotes hd]

/-- Letters that are also digits, and a text that looks like a number, leave one way to read the
line. -/
theorem ofString?_exact_babe :
    ∃ t : Derivation, t.form = .segment ∧
      t.leaves.map (·.lexeme) = ["b".toList, "abe".toList, " ".toList, "face 10".toList] ∧
      (∀ u : Derivation, u.sentence = "babe face 10".toList → u = t) ∧ Greedy t.leaves ∧
      t.Denotes (.segment .bytes 0xabe (some "face 10")) := by
  have hderives : Derives Form.segment.items [false, true]
      [⟨.segment, "b".toList⟩, ⟨.address, "abe".toList⟩, ⟨.gap, " ".toList⟩,
        ⟨.text, "face 10".toList⟩] :=
    .leaf (by decide)
      (.skip (.leaf (by decide) (.take (.leaf (by decide) (.leaf (by decide) .nil)))))
  let t : Derivation := ⟨.segment, _, _, hderives⟩
  obtain ⟨hunique, hgreedy, hdenotes⟩ := (ofString?_exact "babe face 10").2 t rfl
  exact ⟨t, rfl, rfl, hunique, hgreedy, (hdenotes _).mp rfl⟩

end Directive

end Disassembler
