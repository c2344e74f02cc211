import Disassembler.Proofs.Decoder.Agreement
import Disassembler.Proofs.Decoder.Spelling
import Disassembler.Proofs.Symbol.Append

/-!
What decoding reads and what it writes. Where no label is known and no prefix has left anything, an
operand that is a row of pieces reads just the bytes that its text shows, and writes that text.
-/

namespace Disassembler

structure Cursor.Moved (bytes : List UInt8) (c d : Cursor) : Prop where
  rest : c.rest = bytes ++ d.rest
  eq_advance : d = c.advance bytes.length

namespace Cursor.Moved

variable {bytes bytes' : List UInt8} {c d e : Cursor}

theorem refl (c : Cursor) : Moved [] c c := ⟨rfl, c.advance_zero.symm⟩

theorem trans (h : Moved bytes c d) (h' : Moved bytes' d e) : Moved (bytes ++ bytes') c e where
  rest := by rw [h.rest, h'.rest, List.append_assoc]
  eq_advance := by rw [h'.eq_advance, h.eq_advance, advance_advance, List.length_append]

theorem addr (h : Moved bytes c d) : d.addr = c.addr + bytes.length := by rw [h.eq_advance, advance]

theorem layout (h : Moved bytes c d) : d.layout = c.layout := by rw [h.eq_advance, advance]

end Cursor.Moved

/-! ## Output -/

namespace Output

def Adds (w : List Char) (m : Action Output Unit) : Prop :=
  ∀ (o o' : Output) (a : Unit), m o = .ok a o' → o'.toString.toList = o.toString.toList ++ w

theorem adds_pure : Adds [] (pure ()) := by
  intro o o' a h
  cases h
  exact (List.append_nil _).symm

theorem adds_append (token : Token) : Adds token.toString.toList (append token) := by
  intro o o' a h
  obtain ⟨_, u, hcheck, h⟩ := Action.bind_eq_ok h
  rw [Action.state_of_lift hcheck, offer] at h
  split at h
  · cases h
    simp [toString, Token.join, String.toList_join]
  · cases h

theorem adds_text (s : String) : Adds s.toList (text s) := by
  unfold text
  split
  · next hs =>
    rw [hs]
    exact adds_pure
  · exact adds_append (.text s)

theorem adds_write {template s : String} {args : List Value} (h : Text.fill template args = .ok s) :
    Adds s.toList (write template args) := by
  have htext : write template args = text s := by
    unfold write
    rw [h]
    rfl
  rw [htext]
  exact adds_text s

end Output

/-! ## Passages -/

/-- A state in which nothing stands in the way of plain text: units are bytes, no address has a
label, no prefix has left an effect, and bytes have been deferred if anything has. -/
structure Plain (s : Decoding) : Prop where
  width : s.cursor.layout.width = .byte
  order : s.cursor.layout.order = .little
  labels : s.symbols.labels = []
  effects : s.effects = []
  stack : ∀ unit ∈ s.stack.items, ∃ b : UInt8, unit = b.toNat

/-- From `s` to `t` the bytes `bytes` have been read, the deferred units `held` used up and `w`
written. -/
structure Passage (bytes held : List UInt8) (w : List Char) (s t : Decoding) : Prop where
  cursor : Cursor.Moved bytes s.cursor t.cursor
  stack : s.stack.items = held.map (fun b => (b.toNat : Int)) ++ t.stack.items
  text : t.out.toString.toList = s.out.toString.toList ++ w
  labels : s.symbols.labels = [] → t.symbols.labels = []
  effects : t.effects = s.effects

namespace Passage

variable {bytes bytes' held held' : List UInt8} {w w' : List Char} {s t u : Decoding}

theorem refl (s : Decoding) : Passage [] [] [] s s where
  cursor := .refl _
  stack := rfl
  text := (List.append_nil _).symm
  labels := id
  effects := rfl

theorem trans (h : Passage bytes held w s t) (h' : Passage bytes' held' w' t u) :
    Passage (bytes ++ bytes') (held ++ held') (w ++ w') s u where
  cursor := h.cursor.trans h'.cursor
  stack := by rw [h.stack, h'.stack, List.map_append, List.append_assoc]
  text := by rw [h'.text, h.text, List.append_assoc]
  labels := fun hs => h'.labels (h.labels hs)
  effects := h'.effects.trans h.effects

theorem plain (h : Passage bytes held w s t) (hs : Plain s) : Plain t where
  width := by rw [h.cursor.layout, hs.width]
  order := by rw [h.cursor.layout, hs.order]
  labels := h.labels hs.labels
  effects := h.effects.trans hs.effects
  stack := fun unit hunit => hs.stack unit (by rw [h.stack]; exact List.mem_append_right _ hunit)

end Passage

namespace Decoder

variable {site : Site} {kind : RefKind} {s t : Decoding} {w : List Char}

/-- Everything but the text stays when something is written. -/
theorem onOutput_eq_ok {α : Type} {m : Action Output α} {a : α} (h : onOutput m s = .ok a t) :
    ∃ o, m s.out = .ok a o ∧ t = { s with out := o } := by
  simp only [onOutput, Action.on] at h
  cases hm : m s.out with
  | error fault o =>
    rw [hm] at h
    cases h
  | ok b o =>
    rw [hm] at h
    cases h
    exact ⟨o, rfl, rfl⟩

theorem passage_onOutput {m : Action Output Unit} (hm : Output.Adds w m) {a : Unit}
    (h : onOutput m s = .ok a t) : Passage [] [] w s t := by
  obtain ⟨o, hout, rfl⟩ := onOutput_eq_ok h
  exact { Passage.refl s with text := hm _ _ _ hout }

theorem reading_eq_ok {α : Type} {count : Layout → Nat} {value : Layout → List UInt8 → α} {a : α}
    (h : onCursor (Cursor.reading count value) s = .ok a t) :
    ∃ bytes, bytes.length = count s.cursor.layout ∧ a = value s.cursor.layout bytes ∧
      Passage bytes [] [] s t := by
  by_cases hn : count s.cursor.layout ≤ s.cursor.rest.length
  · rw [reading_of_le hn] at h
    cases h
    have hlength : (s.cursor.rest.take (count s.cursor.layout)).length = count s.cursor.layout :=
      List.length_take_of_le hn
    refine ⟨_, hlength, rfl, { Passage.refl s with cursor := ⟨?_, ?_⟩ }⟩
    · exact (List.take_append_drop _ _).symm
    · rw [hlength]
  · rw [reading_of_lt (Nat.lt_of_not_le hn)] at h
    cases h

theorem value_singleton (order : ByteOrder) (b : UInt8) : order.value [b] = b.toNat := by
  cases order <;> simp [ByteOrder.value]

theorem readByte_eq_ok {v : Nat} (h : readByte s = .ok v t) :
    ∃ b : UInt8, v = b.toNat ∧ Passage [b] [] [] s t := by
  obtain ⟨bytes, hlength, hv, hpassage⟩ :=
    reading_eq_ok (show onCursor (Cursor.reading (fun _ => 1) (·.order.value)) s = _ from h)
  obtain ⟨b, rfl⟩ := List.length_eq_one_iff.mp hlength
  exact ⟨b, by rw [hv, value_singleton], hpassage⟩

theorem readWord_eq_ok {v : Nat} (hs : s.cursor.layout.order = .little) (h : readWord s = .ok v t) :
    ∃ low high : UInt8, v = high.toNat * 256 + low.toNat ∧ Passage [low, high] [] [] s t := by
  obtain ⟨bytes, hlength, hv, hpassage⟩ :=
    reading_eq_ok (show onCursor (Cursor.reading (fun _ => 2) (·.order.value)) s = _ from h)
  obtain ⟨low, high, rfl⟩ := List.length_eq_two.mp hlength
  refine ⟨low, high, ?_, hpassage⟩
  rw [hv, hs]
  simp [ByteOrder.value]

theorem fetch_eq_ok {unit : Nat} (hs : s.cursor.layout.width = .byte) (h : fetch s = .ok unit t) :
    ∃ b : UInt8, unit = b.toNat ∧ Passage [b] [] [] s t := by
  obtain ⟨bytes, hlength, hv, hpassage⟩ :=
    reading_eq_ok (show onCursor (Cursor.reading (·.width.size) (·.order.value)) s = _ from h)
  rw [hs] at hlength
  obtain ⟨b, rfl⟩ := List.length_eq_one_iff.mp hlength
  exact ⟨b, by rw [hv, value_singleton], hpassage⟩

theorem pop_eq_ok {unit : Int} (hs : Plain s) (h : pop s = .ok unit t) :
    ∃ b : UInt8, unit = b.toNat ∧ Passage [] [b] [] s t := by
  simp only [pop, onStack, Action.on, Deferred.pop] at h
  cases hitems : s.stack.items with
  | nil =>
    rw [hitems] at h
    cases h
  | cons first items =>
    rw [hitems] at h
    cases h
    obtain ⟨b, rfl⟩ := hs.stack unit (by rw [hitems]; exact List.mem_cons_self)
    exact ⟨b, rfl, { Passage.refl s with stack := hitems }⟩

theorem passage_record {target : Int} {a : Unit} (h : record site target kind s = .ok a t) :
    Passage [] [] [] s t := by
  cases h
  refine { Passage.refl s with labels := fun hs => ?_ }
  refine List.eq_nil_iff_forall_not_mem.mpr fun p hp => ?_
  have hmem := SymbolTable.labels_record hp
  rw [hs] at hmem
  cases hmem

theorem passage_naming {value : Int} {shown : String} {a : Unit} (hs : s.symbols.labels = [])
    (h : naming value shown s = .ok a t) : Passage [] [] shown.toList s t := by
  have hlabel : s.symbols.label? value = none := by
    refine Option.eq_none_iff_forall_ne_some.mpr fun name hname => ?_
    have hmem := SymbolTable.mem_labels_of_label? hname
    rw [hs] at hmem
    cases hmem
  change onOutput (Output.append (.address value shown (s.symbols.label? value))) s = _ at h
  rw [hlabel] at h
  exact passage_onOutput (Output.adds_append (.address value shown none)) h

/-- An address without a label is shown as it is laid out. -/
theorem passage_address {value : Int} {format wrap shown : String} {a : Unit}
    (hs : s.symbols.labels = []) (hfill : Text.fill format [.number value] = .ok shown)
    (h : address site kind value format wrap s = .ok a t) :
    Passage [] [] ((Text.splitAtHole wrap.toList).1 ++ shown.toList ++
      (Text.splitAtHole wrap.toList).2) s t := by
  rw [address_eq_naming, hfill] at h
  obtain ⟨_, s₁, hbefore, h⟩ := Action.bind_eq_ok h
  obtain ⟨_, s₂, hlift, h⟩ := Action.bind_eq_ok h
  cases hlift
  obtain ⟨_, s₃, hnaming, h⟩ := Action.bind_eq_ok h
  obtain ⟨_, s₄, hafter, hrecord⟩ := Action.bind_eq_ok h
  have p₁ := passage_onOutput (Output.adds_text _) hbefore
  have p₂ := passage_naming (p₁.labels hs) hnaming
  have p₃ := passage_onOutput (Output.adds_text _) hafter
  simpa using ((p₁.trans p₂).trans p₃).trans (passage_record hrecord)

theorem takeEffect_of_nil {key : String} (hs : s.effects = []) : takeEffect key s = .ok none s := by
  change EStateM.Result.ok (s.effects.lookup key)
    { s with effects := s.effects.filter (·.1 ≠ key) } = _
  simp only [hs, List.filter_nil, List.lookup_nil]
  rw [← hs]

/-- What a prefix left would stand before the mnemonic; here there is nothing. -/
theorem passage_mnemonic {name : String} {a : Unit} (hs : s.effects = [])
    (h : mnemonic site name s = .ok a t) :
    Passage [] [] (name.toList.rightpad site.mnemonicWidth.toNat ' ') s t := by
  rw [mnemonic, Action.bind_of_ok _ (takeEffect_of_nil hs)] at h
  have hvalue : value ((none : Option Value).getD .nothing) s = .ok () s := rfl
  rw [Action.bind_of_ok _ hvalue] at h
  simpa [Token.toString]
    using passage_onOutput (Output.adds_append (.mnemonic name site.mnemonicWidth)) h

end Decoder

/-! ## Operands -/

namespace Text

theorem expand_hole (register : String) (cs : List Char) (args : List Value) :
    expand none ('%' :: 's' :: cs) (.text register :: args) =
      (expand none cs args).map (register.toList ++ ·) := by
  have hroom : ¬ Capacity.room < 0 := by decide
  simp [expand, convert, hroom, Value.plain, List.leftpad]

theorem fill_hole (s : String) : fill "%s" [.text s] = .ok s := by
  rw [fill, if_neg (by simp), show "%s".toList = ['%', 's'] by decide, expand_hole]
  simp [expand, Except.map]

/-- A template with a parenthesis, a hole and a byte. -/
theorem fill_hole_numeral {template : String} (register : String) {cs before after : List Char}
    {v : Nat} (hv : v < 256) (htemplate : template.toList = '(' :: '%' :: 's' :: cs)
    (hcs : splitAtNumeral 2 cs = some (before, after)) :
    fill template [.text register, .number v] =
      .ok (String.ofList ('(' :: register.toList ++ (before ++ numeral 2 v ++ after))) := by
  rw [fill, if_neg (by simp), htemplate, expand, if_neg (by decide), expand_hole,
    expand_of_splitAtNumeral (by decide) (by decide) hv hcs]
  rfl

end Text

namespace Operand

variable {site : Site} {kind : RefKind} {s t : Decoding} {ps : List Piece}

theorem framed_eq_some {width : Nat} {template : String} {p : Piece}
    (h : framed width template p = some ps) :
    ∃ before after, Text.splitAtNumeral width template.toList = some (before, after) ∧
      ps = [.text before, p, .text after] := by
  unfold framed at h
  split at h
  · next before after hsplit =>
    cases h
    exact ⟨before, after, hsplit, rfl⟩
  · cases h

theorem wrapped_eq_some {wrap : String} {row : Option (List Piece)}
    (h : wrapped wrap row = some ps) :
    ∃ qs, row = some qs ∧
      ps = .text (Text.splitAtHole wrap.toList).1 ::
        (qs ++ [.text (Text.splitAtHole wrap.toList).2]) := by
  unfold wrapped at h
  split at h
  · next qs before after hsplit =>
    cases h
    rw [hsplit]
    exact ⟨qs, rfl, rfl⟩
  · cases h

/-- A piece between two texts. -/
theorem spelling_between {a : Int} {bytes held : List UInt8} {w : List Char}
    (before after : List Char) (h : Spelling a ps bytes held w) :
    Spelling a (.text before :: (ps ++ [.text after])) bytes held (before ++ w ++ after) := by
  have hrow := (h.append (.single (.text after))).text_cons before
  simpa using hrow

theorem fill_framed {width v : Nat} (hpos : 0 < width) (hlt : width < 10) (hv : v < 16 ^ width)
    {template : String} {p : Piece} (hps : framed width template p = some ps) {a : Int}
    {bytes held : List UInt8} (hp : p.Spells a bytes held (Text.numeral width v)) :
    ∃ shown, Text.fill template [.number v] = .ok shown ∧
      Spelling a ps bytes held shown.toList := by
  obtain ⟨before, after, hsplit, rfl⟩ := framed_eq_some hps
  refine ⟨_, Text.fill_of_splitAtNumeral hpos hlt hv hsplit, ?_⟩
  rw [String.toList_ofList]
  exact spelling_between before after (.single hp)

theorem address_spelling {width v : Nat} (hpos : 0 < width) (hlt : width < 10) (hv : v < 16 ^ width)
    {format wrap : String} {p : Piece} (hps : wrapped wrap (framed width format p) = some ps)
    {a : Int} {bytes held : List UInt8} (hp : p.Spells a bytes held (Text.numeral width v))
    (hs : s.symbols.labels = []) {r : Unit}
    (h : Decoder.address site kind v format wrap s = .ok r t) :
    ∃ w, Passage [] [] w s t ∧ Spelling a ps bytes held w := by
  obtain ⟨qs, hframed, rfl⟩ := wrapped_eq_some hps
  obtain ⟨shown, hfill, hspelling⟩ := fill_framed hpos hlt hv hframed hp
  exact ⟨_, Decoder.passage_address hs hfill h, spelling_between _ _ hspelling⟩

theorem passage_offset {register : String} {b : UInt8} {r : Unit}
    (h : offset register b.toNat s = .ok r t) :
    Passage [] [] ('(' :: register.toList ++ (Displacement.spelled b.toNat ++ [')'])) s t := by
  have hb := b.toNat_lt
  unfold offset at h
  unfold Displacement.spelled
  split at h
  · next hlow =>
    have hfill := Text.fill_hole_numeral register hb
      (show "(%s+$%02X)".toList = '(' :: '%' :: 's' ::
        ['+', '$', '%', '0', '2', 'X', ')'] by decide)
      (show Text.splitAtNumeral 2 _ = some (['+', '$'], [')']) by decide)
    rw [if_pos hlow]
    simpa using Decoder.passage_onOutput (Output.adds_write hfill) h
  · next hhigh =>
    have hcast : (256 - (b.toNat : Int)) = ((256 - b.toNat : Nat) : Int) := by omega
    rw [hcast] at h
    have hfill := Text.fill_hole_numeral register (show 256 - b.toNat < 256 by omega)
      (show "(%s-$%02X)".toList = '(' :: '%' :: 's' ::
        ['-', '$', '%', '0', '2', 'X', ')'] by decide)
      (show Text.splitAtNumeral 2 _ = some (['-', '$'], [')']) by decide)
    rw [if_neg hhigh]
    simpa using Decoder.passage_onOutput (Output.adds_write hfill) h

theorem offset_spelling {register : String} {p : Piece} {a : Int}
    {bytes held : List UInt8} {b : UInt8}
    (hp : p.Spells a bytes held (Displacement.spelled b.toNat)) :
    Spelling a [.text ('(' :: register.toList), p, .text [')']] bytes held
      ('(' :: register.toList ++ (Displacement.spelled b.toNat ++ [')'])) := by
  simpa using spelling_between ('(' :: register.toList) [')'] (.single hp)

/-- An operand that is a row of pieces spells out what it reads. -/
theorem render_spelling {o : Operand} {selector : Nat} (hps : o.pieces selector = some ps)
    (hs : Plain s) {r : Unit} (h : o.render site kind selector s = .ok r t) :
    ∃ bytes held w, Passage bytes held w s t ∧ Spelling s.cursor.addr ps bytes held w := by
  induction o generalizing ps s t with
  | none =>
    cases hps
    cases h
    exact ⟨[], [], [], .refl s, .nil _⟩
  | literal text =>
    cases hps
    exact ⟨[], [], _, Decoder.passage_onOutput (Output.adds_text text) h, .single (.text _)⟩
  | pair first separator second ih₁ ih₂ =>
    unfold pieces at hps
    split at hps
    · next ps₁ ps₂ hps₁ hps₂ =>
      cases hps
      obtain ⟨_, s₁, hfirst, h⟩ := Action.bind_eq_ok h
      obtain ⟨_, s₂, hseparator, hsecond⟩ := Action.bind_eq_ok h
      obtain ⟨bytes₁, held₁, w₁, p₁, spelling₁⟩ := ih₁ hps₁ hs hfirst
      have p₂ := Decoder.passage_onOutput (Output.adds_append (.separator separator)) hseparator
      have hs₂ := p₂.plain (p₁.plain hs)
      obtain ⟨bytes₂, held₂, w₂, p₃, spelling₂⟩ := ih₂ hps₂ hs₂ hsecond
      have haddr : s₂.cursor.addr = s.cursor.addr + bytes₁.length := by
        simpa using (p₁.trans p₂).cursor.addr
      rw [haddr] at spelling₂
      refine ⟨bytes₁ ++ bytes₂, held₁ ++ held₂, w₁ ++ (separator.toList ++ w₂), ?_, ?_⟩
      · simpa [Token.toString] using (p₁.trans p₂).trans p₃
      · exact spelling₁.append (spelling₂.text_cons separator.toList)
    · cases hps
  | imm8 template =>
    obtain ⟨_, s₁, hread, h⟩ := Action.bind_eq_ok h
    obtain ⟨b, rfl, p₁⟩ := Decoder.readByte_eq_ok hread
    obtain ⟨shown, hfill, hspelling⟩ := fill_framed (by decide) (by decide) b.toNat_lt hps (.byte b)
    exact ⟨[b], [], _, p₁.trans (Decoder.passage_onOutput (Output.adds_write hfill) h), hspelling⟩
  | abs8 format wrap =>
    obtain ⟨_, s₁, hread, h⟩ := Action.bind_eq_ok h
    obtain ⟨b, rfl, p₁⟩ := Decoder.readByte_eq_ok hread
    obtain ⟨w, p₂, hspelling⟩ :=
      address_spelling (by decide) (by decide) b.toNat_lt hps (.byte b) (p₁.labels hs.labels) h
    exact ⟨[b], [], w, p₁.trans p₂, hspelling⟩
  | abs16 format wrap =>
    obtain ⟨_, s₁, hread, h⟩ := Action.bind_eq_ok h
    obtain ⟨low, high, rfl, p₁⟩ := Decoder.readWord_eq_ok hs.order hread
    have hlow := low.toNat_lt
    have hhigh := high.toNat_lt
    obtain ⟨w, p₂, hspelling⟩ :=
      address_spelling (by decide) (by decide) (by omega) hps (.word low high)
        (p₁.labels hs.labels) h
    exact ⟨[low, high], [], w, p₁.trans p₂, hspelling⟩
  | rel8 format wrap =>
    obtain ⟨_, s₁, hread, h⟩ := Action.bind_eq_ok h
    obtain ⟨b, rfl, p₁⟩ := Decoder.readByte_eq_ok hread
    obtain ⟨_, s₂, hhere, h⟩ := Action.bind_eq_ok h
    cases hhere
    rw [p₁.cursor.addr, ← Int.toNat_of_nonneg (Displacement.target_nonneg _ b)] at h
    obtain ⟨w, p₂, hspelling⟩ :=
      address_spelling (by decide) (by decide) (Displacement.toNat_target_lt _ b) hps
      (.target b) (p₁.labels hs.labels) h
    exact ⟨[b], [], w, p₁.trans p₂, hspelling⟩
  | field shift width names =>
    cases hps
    have hfill := Text.fill_hole (names.getD (selector / 2 ^ shift % 2 ^ width) "")
    exact ⟨[], [], _, Decoder.passage_onOutput (Output.adds_write hfill) h, .single (.text _)⟩
  | indexed register =>
    cases hps
    obtain ⟨_, s₁, hread, h⟩ := Action.bind_eq_ok h
    obtain ⟨b, rfl, p₁⟩ := Decoder.readByte_eq_ok hread
    exact ⟨[b], [], _, p₁.trans (passage_offset h), offset_spelling (.offset b)⟩
  | indexedDeferred register =>
    cases hps
    obtain ⟨_, s₁, hpop, h⟩ := Action.bind_eq_ok h
    obtain ⟨b, rfl, p₁⟩ := Decoder.pop_eq_ok hs hpop
    have hunit : ((b.toNat : Int) % 256).toNat = b.toNat := by
      have := b.toNat_lt
      omega
    rw [hunit] at h
    exact ⟨[], [b], _, p₁.trans (passage_offset h), offset_spelling (.deferred b)⟩
  | _ => cases hps

end Operand

end Disassembler
