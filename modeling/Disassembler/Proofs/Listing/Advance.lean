import Disassembler.Proofs.Decoder.References
import Disassembler.Proofs.Listing.Rows

/-!
What reading rows leaves. Whether or not a row can be read, the cursor moves forward on the image
and references are appended to the symbols. Their sources lie between the two places and never go
back: an instruction refers from its own address, and a word from where it stands.
-/

namespace Disassembler

/-- From a place at one offset of an image to a place at a later one, where some mentions have been
appended to the symbols. -/
structure Spot.Advances (image : List UInt8) (load : Int) (layout : Layout) (s : Spot)
    (offset : Nat) (ms : List Mention) (t : Spot) (last : Nat) : Prop where
  forward : offset ≤ last
  cursor : t.cursor.At image load layout last
  symbols : t.symbols = s.symbols.appendAll ms
  between : ∀ m ∈ ms, load + offset ≤ m.ref.source ∧ m.ref.source ≤ load + last
  ascending : ms.Pairwise fun m n => m.ref.source ≤ n.ref.source

/-- The mention of a word: it leads from the address of the word to its value. The word is one of
those that follow each other from an offset of an image on. -/
def Mention.OfWord (image : List UInt8) (load : Int) (layout : Layout) (offset : Nat)
    (m : Mention) : Prop :=
  ∃ k, offset + 2 * k + 2 ≤ image.length ∧ m.ref = ⟨load + (offset + 2 * k : Nat), .table⟩ ∧
    m.target = layout.order.value ((image.drop (offset + 2 * k)).take 2)

/-- The mentions that a row of a sort may record if it begins at an offset of an image. -/
def RowKind.Records (image : List UInt8) (load : Int) (layout : Layout) (offset : Nat)
    (m : Mention) : RowKind → Prop
  | .code => m.ref.source = load + offset
  | .words => m.OfWord image load layout offset
  | .vectors => m.OfWord image load layout offset
  | .bytes => False
  | .strings => False
  | .chars => False

section

variable {l : Listing} {image : List UInt8} {load : Int} {layout : Layout}
    {offset middle last : Nat} {s t u : Spot}
  {ms ns : List Mention}

namespace Spot.Advances

/-- Moving on without a look at the symbols. -/
theorem of_cursor (hforward : offset ≤ last) (hcursor : t.cursor.At image load layout last)
    (hsymbols : t.symbols = s.symbols) : s.Advances image load layout offset [] t last :=
  ⟨hforward, hcursor, hsymbols, by simp, .nil⟩

theorem refl (hs : s.cursor.At image load layout offset) :
    s.Advances image load layout offset [] s offset :=
  of_cursor (Nat.le_refl offset) hs rfl

theorem trans (hst : s.Advances image load layout offset ms t middle)
    (htu : t.Advances image load layout middle ns u last) :
    s.Advances image load layout offset (ms ++ ns) u last := by
  have hfirst := hst.forward
  have hsecond := htu.forward
  refine ⟨Nat.le_trans hfirst hsecond, htu.cursor, ?_, ?_, ?_⟩
  · rw [htu.symbols, hst.symbols]
    simp [SymbolTable.appendAll]
  · intro m hm
    rcases List.mem_append.mp hm with hm | hm
    · have hbetween := hst.between m hm
      omega
    · have hbetween := htu.between m hm
      omega
  · refine List.pairwise_append.mpr ⟨hst.ascending, htu.ascending, fun m hm n hn => ?_⟩
    have hbefore := (hst.between m hm).2
    have hafter := (htu.between n hn).1
    omega

end Spot.Advances

/-- A word further on is one of those that follow each other from here. -/
theorem Mention.OfWord.earlier {m : Mention} (h : m.OfWord image load layout (offset + 2)) :
    m.OfWord image load layout offset := by
  obtain ⟨k, hinside, href, htarget⟩ := h
  have hplace : offset + 2 + 2 * k = offset + 2 * (k + 1) := by omega
  rw [hplace] at hinside href htarget
  exact ⟨k + 1, hinside, href, htarget⟩

/-! ## Instructions -/

/-- Decoding moves the cursor forward on the image, also when it fails. -/
theorem decode_forward (arch : Architecture) (balance : Bool) (symbols : SymbolTable)
    {cursor : Cursor} (hat : cursor.At image load layout offset) :
    ∃ last, offset ≤ last ∧
      (decode arch balance cursor symbols).cursor.At image load layout last := by
  have hforward : Decoder.Forward (Decoder.instruction arch balance (arch.site cursor)) :=
    Decoder.forward_bind Decoder.forward_fetch fun _ =>
      Decoder.forward_bind (Walk.forward_walk _ _ _ _) fun _ =>
      Decoder.forward_bind (Decoder.forward_settle _ _) fun _ => Decoder.forward_conclude _ _ _
  obtain ⟨n, hn, hcursor⟩ := hforward (.start cursor symbols)
  have hbegun : (Decoding.start cursor symbols).cursor.At image load layout offset :=
    ⟨hat.layout, hat.rest, hat.addr, hat.inside⟩
  have hlast : (decode arch balance cursor symbols).cursor =
      (Decoding.start cursor symbols).cursor.advance n := by
    rw [← hcursor, decode]
    cases Decoder.instruction arch balance (arch.site cursor) (.start cursor symbols) <;> rfl
  exact ⟨offset + n, Nat.le_add_right _ _, hlast ▸ hbegun.advance hn⟩

namespace Listing

theorem codeRow_advances (hs : s.cursor.At image load layout offset) :
    ∃ ms last, s.Advances image load layout offset ms (l.codeRow s).spot last ∧
      ∀ m ∈ ms, m.ref.source = load + offset := by
  obtain ⟨last, hforward, hlast⟩ := decode_forward l.arch l.balance s.symbols hs
  obtain ⟨ms, hadmits, hsymbols⟩ := decode_grows l.arch l.balance s.cursor s.symbols
  have hsource : ∀ m ∈ ms, m.ref.source = load + offset :=
    fun m hm => (hadmits m hm).source.trans hs.addr
  refine ⟨ms, last, ⟨hforward, hlast, hsymbols, fun m hm => ?_, ?_⟩, hsource⟩
  · rw [hsource m hm]
    omega
  · refine List.pairwise_of_forall_mem_list fun m hm n hn => ?_
    exact Int.le_of_eq ((hsource m hm).trans (hsource n hn).symm)

/-! ## Words -/

theorem readWord_error {fault : Fault} (h : Spot.readWord s = .error fault t) : t = s := by
  simp only [Spot.readWord, Cursor.readWord, Functor.map, EStateM.map] at h
  rcases Nat.lt_or_ge s.cursor.rest.length 2 with hlt | hle
  · rw [Cursor.take_of_lt hlt] at h
    cases h
    rfl
  · rw [Cursor.take_of_le hle] at h
    cases h

theorem readWord_symbols {value : Nat} (h : Spot.readWord s = .ok value t) :
    t.symbols = s.symbols.record value s.cursor.addr .table := by
  rw [(Spot.readWord_eq_ok h).2.2]

/-- A word that has been read refers from its place to its value, if that is in range. -/
theorem readWord_advances {value : Nat} (hs : s.cursor.At image load layout offset)
    (h : Spot.readWord s = .ok value t) :
    ∃ ms, s.Advances image load layout offset ms t (offset + 2) ∧
      ∀ m ∈ ms, m.OfWord image load layout offset := by
  obtain ⟨ht, hpair, hvalue⟩ := readWord_at hs h
  have hsymbols := readWord_symbols h
  cases hrange : s.symbols.inRange value with
  | false =>
    rw [SymbolTable.record_eq_self (.inr hrange)] at hsymbols
    exact ⟨[], .of_cursor (Nat.le_add_right _ _) ht hsymbols, by simp⟩
  | true =>
    rw [SymbolTable.record_eq_append (by decide) hrange, hs.addr] at hsymbols
    refine ⟨[⟨value, load + offset, .table⟩],
      ⟨Nat.le_add_right _ _, ht, hsymbols, ?_, List.pairwise_singleton _ _⟩, ?_⟩
    · intro m hm
      rw [List.mem_singleton.mp hm]
      simp only
      omega
    · intro m hm
      rw [List.mem_singleton.mp hm]
      exact ⟨0, ht.inside, rfl, congrArg Int.ofNat hvalue⟩

theorem readWords_advances {stop : Option Int} {n : Nat}
    (hs : s.cursor.At image load layout offset) :
    ∃ ms last, s.Advances image load layout offset ms
      (Action.outcome (Spot.readWords stop n s)).2 last ∧
      ∀ m ∈ ms, m.OfWord image load layout offset := by
  unfold Spot.readWords
  induction n generalizing s offset with
  | zero => exact ⟨[], offset, .refl hs, by simp⟩
  | succ n ih =>
    by_cases hm : s.more stop = true
    · rw [readUpTo_of_more hm]
      cases hw : Spot.readWord s with
      | error fault t =>
        rw [Action.bind_of_error _ hw, readWord_error hw]
        exact ⟨[], offset, .refl hs, by simp⟩
      | ok value t =>
        obtain ⟨ms, hfirst, hword⟩ := readWord_advances hs hw
        obtain ⟨ns, last, hrest, hwords⟩ := ih hfirst.cursor
        let further := Spot.readUpTo stop Spot.readWord n
        have hstate : (Action.outcome ((do return value :: (← further) : Action Spot _) t)).2 =
            (Action.outcome (further t)).2 := by
          cases hws : further t with
          | error fault u => rw [Action.bind_of_error _ hws]
          | ok values u => rw [Action.bind_of_ok _ hws]; rfl
        rw [Action.bind_of_ok _ hw, hstate]
        refine ⟨ms ++ ns, last, hfirst.trans hrest, fun m hm => ?_⟩
        rcases List.mem_append.mp hm with hm | hm
        · exact hword m hm
        · exact (hwords m hm).earlier
    · rw [readUpTo_of_more_eq_false (Bool.eq_false_iff.mpr hm)]
      exact ⟨[], offset, .refl hs, by simp⟩

theorem spot_bodyRow (read : Action Spot RowBody) :
    (bodyRow s read).spot = (Action.outcome (read s)).2 := by
  unfold bodyRow
  cases read s <;> rfl

theorem wordsBody_advances (stop : Option Int) (hs : s.cursor.At image load layout offset) :
    ∃ ms last, s.Advances image load layout offset ms (Action.outcome (wordsBody stop s)).2 last ∧
      ∀ m ∈ ms, m.OfWord image load layout offset := by
  have hstate : (Action.outcome (wordsBody stop s)).2 =
      (Action.outcome (Spot.readWords stop Row.itemsPerRow s)).2 := by
    simp only [wordsBody, Functor.map, EStateM.map]
    cases Spot.readWords stop Row.itemsPerRow s <;> rfl
  rw [hstate]
  exact readWords_advances hs

theorem vectorBody_advances (hs : s.cursor.At image load layout offset) :
    ∃ ms last, s.Advances image load layout offset ms (Action.outcome (vectorBody s)).2 last ∧
      ∀ m ∈ ms, m.OfWord image load layout offset := by
  cases hw : Spot.readWord s with
  | error fault t =>
    have hbody : vectorBody s = .error fault t := Action.bind_of_error _ hw
    rw [hbody, readWord_error hw]
    exact ⟨[], offset, .refl hs, by simp⟩
  | ok value t =>
    obtain ⟨ms, hread, hword⟩ := readWord_advances hs hw
    have hbody : vectorBody s =
        (RowBody.vector <$> Action.lift (t.symbols.format value) : Action Spot _) t :=
      Action.bind_of_ok _ hw
    have hstate : (Action.outcome (vectorBody s)).2 = t := by
      simp only [hbody, Functor.map, EStateM.map, Action.lift]
      cases t.symbols.format value <;> rfl
    exact ⟨ms, offset + 2, hstate.symm ▸ hread, hword⟩

/-! ## Rows -/

theorem dataRow_advances {n : Nat} {body : RowBody} (hs : s.cursor.At image load layout offset)
    (hn : n ≤ s.cursor.rest.length) :
    s.Advances image load layout offset [] (dataRow s n body).spot (offset + n) :=
  .of_cursor (Nat.le_add_right _ _) (hs.advance hn) rfl

/-- One step of a listing, whether or not it fails: the cursor moves forward, and what is recorded
is fit for the sort of the row. -/
theorem nextRow_advances (kind : RowKind) (stop : Option Int)
    (hs : s.cursor.At image load layout offset) :
    ∃ ms last, s.Advances image load layout offset ms (l.nextRow kind stop s).spot last ∧
      ∀ m ∈ ms, kind.Records image load layout offset m := by
  have hle := length_before_le s.cursor stop
  cases kind with
  | code => exact codeRow_advances hs
  | bytes =>
    rw [nextRow_bytes]
    exact ⟨[], _, dataRow_advances hs (by omega), by simp⟩
  | strings =>
    rw [nextRow_strings]
    exact ⟨[], _, dataRow_advances hs (by omega), by simp⟩
  | words =>
    simp only [nextRow, spot_bodyRow]
    exact wordsBody_advances stop hs
  | vectors =>
    simp only [nextRow, spot_bodyRow]
    exact vectorBody_advances hs
  | chars =>
    rw [nextRow_chars]
    exact ⟨[], _, dataRow_advances hs (by omega), by simp⟩

/-! ## Listings -/

theorem scan_advances (kind : RowKind) (stop : Option Int)
    (hs : s.cursor.At image load layout offset) :
    ∃ ms last, s.Advances image load layout offset ms (l.scan kind stop s).spot last := by
  fun_induction Listing.scan l kind stop s generalizing offset with
  | case1 s hm r fault =>
    obtain ⟨ms, last, hrow, -⟩ := nextRow_advances (l := l) kind stop hs
    exact ⟨ms, last, hrow⟩
  | case2 s hm r row h _ =>
    rename_i ih
    obtain ⟨ms, middle, hrow, -⟩ := nextRow_advances (l := l) kind stop hs
    obtain ⟨ns, last, hrest⟩ := ih hrow.cursor
    exact ⟨ms ++ ns, last, hrow.trans hrest⟩
  | case3 s hm => exact ⟨[], offset, .refl hs⟩

theorem pass_advances (segments : List Segment) (hs : s.cursor.At image load layout offset) :
    ∃ ms last, s.Advances image load layout offset ms (l.pass segments s).spot last := by
  induction segments generalizing s offset with
  | nil => exact ⟨[], offset, .refl hs⟩
  | cons segment rest ih =>
    cases hkind : segment.mode.rowKind? with
    | none =>
      rw [pass_of_stop hkind]
      exact ⟨[], offset, .refl hs⟩
    | some kind =>
      obtain ⟨ms, middle, hscan⟩ := scan_advances (l := l) kind (rest.head?.map (·.address)) hs
      cases hfault : (l.scan kind (rest.head?.map (·.address)) s).fault with
      | some fault =>
        simp only [pass, hkind, hfault]
        exact ⟨ms, middle, hscan⟩
      | none =>
        obtain ⟨ns, last, hrest⟩ := ih hscan.cursor
        simp only [pass, hkind, hfault]
        exact ⟨ms ++ ns, last, hscan.trans hrest⟩

end Listing

end

end Disassembler
