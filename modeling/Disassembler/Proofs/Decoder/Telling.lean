import Disassembler.Proofs.Decoder.Forms

/-!
Instructions and their forms. Every instruction that is found has been read through a form of its
machine, and its text fits the pattern of that form. So where the forms are told apart by their
patterns, the text tells the form, and the form and the text together tell the bytes.
-/

namespace Disassembler

/-- What was read for an instruction: the bytes before the unit that selects it, the unit, the bytes
behind it, and the text that its operand has from them. -/
structure Reading where
  opened : List UInt8
  unit : UInt8
  behind : List UInt8
  operand : List Char

def Reading.bytes (r : Reading) : List UInt8 := r.opened ++ r.unit :: r.behind

/-- The instruction that was read at the address `a` has the form `f`. -/
structure Form.Reads (f : Form) (a : Int) (r : Reading) : Prop where
  opens : Opens f.opening r.opened
  unit : r.unit.toNat = f.unit
  spelling : ∃ held, held <+: (deferredIn f.opening r.opened).reverse ∧
    Spelling (a + r.opened.length + 1) f.row r.behind held r.operand

abbrev Profile.column (p : Profile) : Nat := p.mnemonicWidth.toNat

/-! ## The walk -/

/-- Where a walk stands that began at `c`: the bytes `opened` have led to the table, and `b` is to
be tried there. -/
structure Arrived (c : Cursor) (opening : List (Option Nat)) (opened : List UInt8) (b : UInt8)
    (s : Decoding) : Prop where
  plain : Plain s
  opens : Opens opening opened
  cursor : Cursor.Moved (opened ++ [b]) c s.cursor
  stack : s.stack.items = (deferredIn opening opened).reverse.map (fun b => (b.toNat : Int))
  text : s.out.toString.toList = []

namespace Arrived

variable {c : Cursor} {opening : List (Option Nat)} {opened bytes : List UInt8} {b d : UInt8}
    {s t u : Decoding}

/-- The unit leads on: some bytes are deferred and the next one is to be tried. -/
theorem onward (h : Arrived c opening opened b s) (hdeferral : Deferral bytes s u)
    (hread : Passage [d] [] [] u t) :
    Arrived c (opening ++ some b.toNat :: List.replicate bytes.length none)
      (opened ++ b :: bytes) d t where
  plain := hread.plain (hdeferral.plain h.plain)
  opens :=
    List.rel_append h.opens (.cons (fun _ hunit => (Option.mem_some.mp hunit).symm)
      (opens_replicate bytes))
  cursor := by simpa using (h.cursor.trans hdeferral.cursor).trans hread.cursor
  stack := by
    have hstack := hread.stack
    rw [hdeferral.stack, h.stack] at hstack
    rw [h.opens.deferredIn_append, deferredIn, deferredIn_replicate, List.reverse_append,
      List.map_append]
    exact hstack.symm
  text := by rw [hread.text, hdeferral.text, h.text]; rfl

end Arrived

namespace Walk

open Decoder

variable {arch : Architecture} {site : Site} {c : Cursor} {opening : List (Option Nat)}
    {opened : List UInt8}
  {b : UInt8} {s t : Decoding}

structure Found (site : Site) (c : Cursor) (f : Form) (r : Reading) (t : Decoding) : Prop where
  reads : f.Reads c.addr r
  cursor : Cursor.Moved r.bytes c t.cursor
  text : t.out.toString.toList = f.mnemonic.toList.rightpad site.mnemonicWidth.toNat ' ' ++
    r.operand

/-- An instruction that is written is read through its form. -/
theorem found_emit {insn : Insn} {f : Form} {next : Next} (ha : Arrived c opening opened b s)
    (hf : Form.of opening b.toNat insn = some f) (h : emit site insn b.toNat s = .ok next t) :
    ∃ r, Found site c f r t := by
  obtain ⟨_, u, hmnemonic, h₁⟩ := Action.bind_eq_ok h
  obtain ⟨_, v, hrender, hpure⟩ := Action.bind_eq_ok h₁
  cases hpure
  have p₁ := passage_mnemonic ha.plain.effects hmnemonic
  obtain ⟨row, hrow, rfl⟩ := Form.of_eq_some hf
  obtain ⟨bytes, held, w, p₂, hspelling⟩ := Operand.render_spelling hrow (p₁.plain ha.plain) hrender
  have haddr : u.cursor.addr = c.addr + opened.length + 1 := by
    rw [p₁.cursor.addr, ha.cursor.addr, List.length_append]
    simp [Int.add_assoc]
  have hstack : (deferredIn opening opened).reverse.map (fun b => (b.toNat : Int)) =
      held.map (fun b => (b.toNat : Int)) ++ t.stack.items :=
        ha.stack.symm.trans (p₁.trans p₂).stack
  have hheld : held <+: (deferredIn opening opened).reverse := by
    obtain ⟨front, back, hsplit, hfront, -⟩ := List.map_eq_append_iff.mp hstack
    have hinj : Function.Injective fun b : UInt8 => (b.toNat : Int) :=
      fun x y hxy => UInt8.toNat_inj.mp (Int.ofNat_inj.mp hxy)
    rw [hsplit, ← List.map_injective_iff.mpr hinj hfront]
    exact List.prefix_append _ _
  rw [haddr] at hspelling
  refine ⟨⟨opened, b, bytes, w⟩, ⟨ha.opens, rfl, held, hheld, hspelling⟩, ?_, ?_⟩
  · simpa [Reading.bytes] using (ha.cursor.trans p₁.cursor).trans p₂.cursor
  · rw [p₂.text, p₁.text, ha.text]
    rfl

/-- A walk that finds an instruction has read it through a form of the table that it began in. -/
theorem found_walk {n : Nat} {table : Table}
    (hforms : ∀ f ∈ table.forms arch n opening, f.isSome = true) (ha : Arrived c opening opened b s)
    (h : walk arch site table b.toNat s = .ok true t) :
    ∃ f r, some f ∈ table.forms arch n opening ∧ Found site c f r t := by
  induction n generalizing table opening opened b s with
  | zero => exact absurd (hforms none List.mem_cons_self) Bool.false_ne_true
  | succ n ih =>
    rw [walk_eq_bind] at h
    obtain ⟨next, u, hscan, h₁⟩ := Action.bind_eq_ok h
    have hnext : next ≠ .stop false := by
      rintro rfl
      cases h₁
    obtain ⟨rule, hmem, haccepts, hacts⟩ :=
      scan_acts ha.plain.width (Table.told_of_forms hforms) hscan hnext
    cases hacts with
    | writes hinsn hemit =>
      cases emit_stops hemit
      cases h₁
      have hform : Form.of opening b.toNat _ ∈ table.forms arch (n + 1) opening :=
        Table.forms_of_rule hmem (Rule.form_mem_forms hinsn haccepts b.toNat_lt)
      obtain ⟨f, hf⟩ := Option.isSome_iff_exists.mp (hforms _ hform)
      obtain ⟨r, hfound⟩ := found_emit ha hf hemit
      exact ⟨f, r, hf ▸ hform, hfound⟩
    | enters hentry hdeferral hfetch =>
      obtain ⟨d, rfl, hread⟩ := fetch_eq_ok (hdeferral.plain ha.plain).width hfetch
      obtain ⟨f, r, hform, hfound⟩ :=
        ih (fun f hf => hforms f (Table.forms_of_entry hmem hentry haccepts hf))
          (ha.onward hdeferral hread) h₁
      exact ⟨f, r, Table.forms_of_entry hmem hentry haccepts hform, hfound⟩

end Walk

/-! ## Instructions -/

/-- How an instruction shows its form: where it ends, the bytes that are kept of it, and its
text. -/
structure Form.Shows (f : Form) (p : Profile) (i : Instruction) (r : Reading) : Prop where
  reads : f.Reads i.address r
  length : i.length = r.bytes.length
  raw : i.raw = r.bytes.take p.maxLength.toNat
  text : i.text.toList = Text.dropEndBlanks (f.mnemonic.toList.rightpad p.column ' ' ++ r.operand)

theorem Arrived.start {cursor : Cursor} {symbols : SymbolTable} {b : UInt8} {s : Decoding}
    (hwidth : cursor.layout.width = .byte) (horder : cursor.layout.order = .little)
    (hlabels : symbols.labels = []) (hread : Passage [b] [] [] (.start cursor symbols) s) :
    Arrived cursor.beginInstruction [] [] b s where
  plain := hread.plain ⟨hwidth, horder, hlabels, rfl, fun _ h => by cases h⟩
  opens := .nil
  cursor := hread.cursor
  stack := hread.stack.symm
  text := by rw [hread.text]; rfl

/-- An instruction that is found shows a form of its machine. -/
theorem decode_shows {arch : Architecture} {n : Nat} {balance : Bool} {cursor : Cursor}
    {symbols : SymbolTable} {i : Instruction}
    (hforms : ∀ f ∈ arch.root.forms arch n [], f.isSome = true)
    (hlayout : cursor.layout = ⟨.byte, .little, arch.profile.maxLength⟩)
    (hlabels : symbols.labels = []) (h : (decode arch balance cursor symbols).result = .ok i)
    (hfound : i.found = true) :
    i.address = cursor.addr ∧ ∃ f r, some f ∈ arch.root.forms arch n [] ∧
    f.Shows arch.profile i r := by
  unfold decode at h
  split at h
  · next j t hinstruction =>
    cases h
    obtain ⟨unit, s, hfetch, h₁⟩ := Action.bind_eq_ok hinstruction
    obtain ⟨found, u, hwalk, h₂⟩ := Action.bind_eq_ok h₁
    obtain ⟨_, v, hsettle, hconclude⟩ := Action.bind_eq_ok h₂
    obtain ⟨rfl, rfl⟩ := Decoder.conclude_eq_ok hconclude
    cases hfound
    cases hsettle
    have hwidth : cursor.layout.width = .byte := by rw [hlayout]
    obtain ⟨b, rfl, hread⟩ := Decoder.fetch_eq_ok hwidth hfetch
    obtain ⟨f, r, hform, hreads, hmoved, htext⟩ :=
      Walk.found_walk hforms (.start hwidth (by rw [hlayout]) hlabels hread) hwalk
    refine ⟨rfl, f, r, hform, hreads, ?_, ?_, ?_⟩
    · have haddr : t.cursor.addr = cursor.addr + r.bytes.length := hmoved.addr
      change t.cursor.addr - cursor.addr = _
      omega
    · have hrest : cursor.rest = r.bytes ++ t.cursor.rest := hmoved.rest
      rw [hmoved.eq_advance]
      simp only [Cursor.advance, Cursor.beginInstruction, Cursor.room, hrest, hlayout,
        List.take_left]
      simp
    · rw [Text.trimEnd, String.toList_ofList, htext]
      rfl
  · cases h

/-! ## Telling forms apart -/

namespace Form

variable {f g : Form} {width : Nat}

theorem sound_iff : f.sound width = true ↔
    (f.cells width).closed = true ∧ f.opening.count none = (f.row.map Piece.units).sum := by
  simp [sound, cells]

/-- Where an operand follows, the blanks of the mnemonic's column stay. -/
theorem dropEndBlanks_of_cons {name w : List Char} {cell : Text.Cell} {rest : Text.Pattern}
    (hclosed : (columns width name (cell :: rest)).closed = true)
    (hw : Text.Pattern.Fits (cell :: rest) w) :
    Text.dropEndBlanks (name.rightpad width ' ' ++ w) = name.rightpad width ' ' ++ w :=
  ((Text.Pattern.fits_exactly _).append hw).dropEndBlanks hclosed

/-- Without an operand they go. -/
theorem dropEndBlanks_of_nil {name : List Char} (hclosed : (columns width name []).closed = true) :
    Text.dropEndBlanks (name.rightpad width ' ' ++ []) = name := by
  rw [List.append_nil, List.rightpad, Text.dropEndBlanks_append_replicate]
  exact (Text.Pattern.fits_exactly name).dropEndBlanks hclosed

theorem fits_columns {name w : List Char} {row : Text.Pattern}
    (hclosed : (columns width name row).closed = true) (hw : row.Fits w) :
    (columns width name row).Fits (Text.dropEndBlanks (name.rightpad width ' ' ++ w)) := by
  cases row with
  | nil =>
    cases hw
    rw [dropEndBlanks_of_nil hclosed]
    exact Text.Pattern.fits_exactly name
  | cons cell rest =>
    rw [dropEndBlanks_of_cons hclosed hw]
    exact (Text.Pattern.fits_exactly _).append hw

/-- A text tells the operand in it. -/
theorem operand_inj {name w w' : List Char} {row : Text.Pattern}
    (hclosed : (columns width name row).closed = true) (hw : row.Fits w) (hw' : row.Fits w')
    (h : Text.dropEndBlanks (name.rightpad width ' ' ++ w) =
      Text.dropEndBlanks (name.rightpad width ' ' ++ w')) :
    w = w' := by
  cases row with
  | nil =>
    cases hw
    cases hw'
    rfl
  | cons cell rest =>
    rw [dropEndBlanks_of_cons hclosed hw, dropEndBlanks_of_cons hclosed hw'] at h
    exact List.append_cancel_left h

theorem Reads.fits {a : Int} {r : Reading} (h : f.Reads a r) :
    Text.Pattern.Fits (f.row.flatMap Piece.cells) r.operand := by
  obtain ⟨held, -, hspelling⟩ := h.spelling
  exact hspelling.fits

theorem Reads.length {a : Int} {r : Reading} (h : f.Reads a r) : r.bytes.length = f.size := by
  obtain ⟨held, -, hspelling⟩ := h.spelling
  rw [Reading.bytes, List.length_append, List.length_cons, h.opens.length,
    hspelling.length_bytes, size]
  omega

/-- The operand tells the bytes behind the unit, and those before it with what was deferred. -/
theorem Reads.inj {a : Int} {r r' : Reading} (hf : f.Reads a r) (hg : g.Reads a r')
    (hopening : g.opening = f.opening) (hrow : g.row = f.row)
    (hunits : f.opening.count none = (f.row.map Piece.units).sum)
    (hoperand : r'.operand = r.operand) : r'.opened = r.opened ∧ r'.behind = r.behind := by
  obtain ⟨held, hheld, hspelling⟩ := hf.spelling
  obtain ⟨held', hheld', hspelling'⟩ := hg.spelling
  have hopens' := hg.opens
  rw [hopening] at hopens' hheld'
  rw [hrow, hoperand, hopens'.length, ← hf.opens.length] at hspelling'
  obtain ⟨hbehind, rfl⟩ := hspelling'.inj hspelling
  -- no deferred byte is left over, so that the operand shows all of them
  have hall : ∀ {opened}, Opens f.opening opened → held' <+: (deferredIn f.opening opened).reverse →
      held' = (deferredIn f.opening opened).reverse := by
    intro opened hopens hprefix
    refine hprefix.eq_of_length ?_
    rw [List.length_reverse, hopens.length_deferredIn, hspelling.length_held, hunits]
  have hdeferred := (hall hopens' hheld').symm.trans (hall hf.opens hheld)
  exact ⟨hopens'.inj hf.opens (List.reverse_inj.mp hdeferred), hbehind⟩

namespace Shows

variable {p : Profile} {i j : Instruction} {r r' : Reading}

theorem fits (h : f.Shows p i r) (hsound : f.sound p.column = true) :
    (f.cells p.column).Fits i.text.toList := by
  rw [h.text]
  exact fits_columns (sound_iff.mp hsound).1 h.reads.fits

/-- Where an operand follows, the mnemonic fills its column. -/
theorem text_eq (h : f.Shows p i r) (hsound : f.sound p.column = true)
    (hrow : f.row.flatMap Piece.cells ≠ []) :
    i.text.toList = f.mnemonic.toList.rightpad p.column ' ' ++ r.operand := by
  obtain ⟨cell, rest, hcells⟩ := List.exists_cons_of_ne_nil hrow
  have hclosed := (sound_iff.mp hsound).1
  have hfits := h.reads.fits
  rw [hcells] at hfits
  simp only [cells, hcells] at hclosed
  rw [h.text, dropEndBlanks_of_cons hclosed hfits]

theorem length_eq_size (h : f.Shows p i r) : i.length = f.size := by rw [h.length, h.reads.length]

/-- Instructions with the same text, whose forms are the same but for the unit that selects them,
were read from the same bytes but for that unit. -/
theorem inj (hf : f.Shows p i r) (hg : g.Shows p j r') (hsound : f.sound p.column = true)
    (haddress : j.address = i.address) (htext : j.text = i.text) (hopening : g.opening = f.opening)
    (hname : g.mnemonic = f.mnemonic) (hrow : g.row = f.row) :
    r'.opened = r.opened ∧ r'.behind = r.behind := by
  obtain ⟨hclosed, hunits⟩ := sound_iff.mp hsound
  have hfits' := hg.reads.fits
  have hshown : j.text.toList = i.text.toList := by rw [htext]
  rw [hf.text, hg.text, hname] at hshown
  rw [hrow] at hfits'
  have hoperand := operand_inj hclosed hfits' hf.reads.fits hshown
  have hreads' := hg.reads
  rw [haddress] at hreads'
  exact hf.reads.inj hreads' hopening hrow hunits hoperand

/-- The same form and the same text: the same bytes. -/
theorem bytes_eq (hf : f.Shows p i r) (hg : f.Shows p j r') (hsound : f.sound p.column = true)
    (haddress : j.address = i.address) (htext : j.text = i.text) : r'.bytes = r.bytes := by
  obtain ⟨hopened, hbehind⟩ := hf.inj hg hsound haddress htext rfl rfl rfl
  have hunit : r'.unit = r.unit := UInt8.toNat_inj.mp (hg.reads.unit.trans hf.reads.unit.symm)
  rw [Reading.bytes, Reading.bytes, hopened, hunit, hbehind]

end Shows

end Form

namespace Architecture

/-- Whether all forms are known and sound, and no two of them are spelled alike except where `ok`
allows it. -/
def tells (ok : Form → Form → Bool) (n : Nat) (arch : Architecture) : Bool :=
  let width := arch.profile.column
  let forms := arch.root.forms arch n []
  forms.all (fun f => f.any (Form.sound width)) &&
    Text.Pattern.separated ok 1000 (forms.filterMap fun f => f.map fun g => (g.cells width, g))

variable {arch : Architecture} {ok : Form → Form → Bool} {n : Nat}

theorem sound_of_tells (h : arch.tells ok n = true) {f : Option Form}
    (hf : f ∈ arch.root.forms arch n []) :
    ∃ g, f = some g ∧ g.sound arch.profile.column = true := by
  have hall := List.all_eq_true.mp (Bool.and_eq_true_iff.mp h).1 f hf
  cases f with
  | none => cases hall
  | some g => exact ⟨g, rfl, hall⟩

theorem eq_or_ok_of_tells (hok : ∀ f g, ok f g = true → ok g f = true) (h : arch.tells ok n = true)
    {f g : Form} (hf : some f ∈ arch.root.forms arch n []) (hg : some g ∈ arch.root.forms arch n [])
    {text : List Char} (hfits : (f.cells arch.profile.column).Fits text)
    (hfits' : (g.cells arch.profile.column).Fits text) : f = g ∨ ok f g = true := by
  have hmem : ∀ {f}, some f ∈ arch.root.forms arch n [] → (f.cells arch.profile.column, f) ∈
      (arch.root.forms arch n []).filterMap fun f =>
        f.map fun g => (g.cells arch.profile.column, g) :=
    fun hf => List.mem_filterMap.mpr ⟨_, hf, rfl⟩
  by_cases heq : f = g
  · exact .inl heq
  · have hseparated := (Bool.and_eq_true_iff.mp h).2
    have hne : (f.cells arch.profile.column, f) ≠ (g.cells arch.profile.column, g) :=
      fun hpair => heq (congrArg Prod.snd hpair)
    rcases Text.Pattern.apart_or_ok_of_separated hok hseparated (hmem hf) (hmem hg) hne with
      hapart | halike
    · exact absurd hfits' (hapart text hfits)
    · exact .inr halike

end Architecture

/-- Where the forms are told apart, two instructions with the same text at the same address show the
same form or forms that may be alike. -/
theorem decode_tells {arch : Architecture} {ok : Form → Form → Bool} {n : Nat}
    (hok : ∀ f g, ok f g = true → ok g f = true) (htells : arch.tells ok n = true)
    {balance₁ balance₂ : Bool} {c₁ c₂ : Cursor} {T₁ T₂ : SymbolTable} {i₁ i₂ : Instruction}
    (haddr : c₂.addr = c₁.addr) (hlayout₁ : c₁.layout = ⟨.byte, .little, arch.profile.maxLength⟩)
    (hlayout₂ : c₂.layout = ⟨.byte, .little, arch.profile.maxLength⟩)
    (hlabels₁ : T₁.labels = []) (hlabels₂ : T₂.labels = [])
    (h₁ : (decode arch balance₁ c₁ T₁).result = .ok i₁)
    (h₂ : (decode arch balance₂ c₂ T₂).result = .ok i₂) (hfound₁ : i₁.found = true)
    (hfound₂ : i₂.found = true) (htext : i₂.text = i₁.text) :
    i₂.address = i₁.address ∧ ∃ f g r r', f.sound arch.profile.column = true ∧
    Form.Shows f arch.profile i₁ r ∧
      Form.Shows g arch.profile i₂ r' ∧ (f = g ∨ ok f g = true) := by
  have hforms : ∀ f ∈ arch.root.forms arch n [], f.isSome = true := by
    intro f hf
    obtain ⟨g, rfl, -⟩ := arch.sound_of_tells htells hf
    rfl
  have hsound : ∀ {f}, some f ∈ arch.root.forms arch n [] → f.sound arch.profile.column = true := by
    intro f hf
    obtain ⟨g, hg, hsound⟩ := arch.sound_of_tells htells hf
    cases hg
    exact hsound
  obtain ⟨haddress₁, f, r, hf, hshows₁⟩ := decode_shows hforms hlayout₁ hlabels₁ h₁ hfound₁
  obtain ⟨haddress₂, g, r', hg, hshows₂⟩ := decode_shows hforms hlayout₂ hlabels₂ h₂ hfound₂
  have hfits₂ := hshows₂.fits (hsound hg)
  rw [htext] at hfits₂
  exact ⟨by rw [haddress₁, haddress₂, haddr], f, g, r, r', hsound hf, hshows₁, hshows₂,
    arch.eq_or_ok_of_tells hok htells hf hg (hshows₁.fits (hsound hf)) hfits₂⟩

end Disassembler
