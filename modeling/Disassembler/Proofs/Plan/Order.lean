import Disassembler.Proofs.Plan.Drafts
import Disassembler.Proofs.Plan.Inlining
import Mathlib.Data.List.Nodup

/-!
Directives in any order. What the directives for labels, line comments and segments place can be
said apart from the loading: each part on its own, and nothing where a label or a comment clashes.
Two placings may be exchanged, so the lines of a file may be put into any order.
-/

namespace Disassembler

/-! ## Sorted rows -/

theorem Segment.insert_comm {s t : Segment} (h : s = t ∨ s.address ≠ t.address)
    (segments : List Segment) : s.insert (t.insert segments) = t.insert (s.insert segments) := by
  rcases h with rfl | hne
  · rfl
  · induction segments with
    | nil => grind [insert]
    | cons u segments ih => grind [insert]

namespace Comments

variable {a b : Int} {text other : String}

theorem insert_comm (hne : a ≠ b) (comments : Comments) :
    (comments.insert b other).insert a text = (comments.insert a text).insert b other := by
  induction comments with
  | nil => grind [insert]
  | cons c comments ih => grind [insert]

theorem at?_insert (comments : Comments) (h : comments.at? a = none) :
    (comments.insert a text).at? b = if b = a then some text else comments.at? b := by
  induction comments with
  | nil => grind [insert, at?]
  | cons c comments ih => grind [insert, at?]

theorem request_comm (inRange : Int → Bool) (comments : Comments) (a b : Int)
    (text other : String) :
    (request inRange comments a text).bind (request inRange · b other) =
      (request inRange comments b other).bind (request inRange · a text) := by
  cases ha : inRange a with
  | false => simp [request, ha]
  | true =>
    cases hb : inRange b with
    | false => simp [request, hb]
    | true =>
      by_cases hne : a = b
      · subst hne
        simp only [request, ha, if_true]
        cases hat : comments.at? a with
        | some _ => rfl
        | none => simp [at?_insert comments hat]
      · simp only [request, ha, hb, if_true]
        cases hat : comments.at? a with
        | some _ =>
          cases hbt : comments.at? b with
          | some _ => rfl
          | none => simp [at?_insert comments hbt, hne, hat]
        | none =>
          cases hbt : comments.at? b with
          | some _ => simp [at?_insert comments hat, Ne.symm hne, hbt]
          | none =>
            simp [at?_insert comments hat, at?_insert comments hbt, hne, Ne.symm hne, hat, hbt,
              insert_comm hne comments]

end Comments

/-! ## Placing -/

namespace Directive

def label? : Directive → Option (Int × Option String)
  | .segment mode address name => if name = none ∧ mode ≠ .procs then none else some (address, name)
  | .label address name => some (address, name)
  | _ => none

def comment? : Directive → Option (Int × String)
  | .comment address text => text.map (address, ·)
  | _ => none

def segment? : Directive → Option Segment
  | .segment mode address name => some ⟨address, mode, name⟩
  | _ => none

def namesImage : Directive → Bool
  | .inputFile _ => true
  | _ => false

/-- A directive for a segment, a label, a line comment or the image, with a name that is not
reserved. -/
def IsPlacing : Directive → Prop
  | .segment _ _ name => SymbolTable.IsGiven name
  | .label _ name => SymbolTable.IsGiven name
  | .comment .. => True
  | .inputFile _ => True
  | _ => False

instance : DecidablePred IsPlacing
  | .segment _ _ name => inferInstanceAs (Decidable (SymbolTable.IsGiven name))
  | .label _ name => inferInstanceAs (Decidable (SymbolTable.IsGiven name))
  | .comment .. => isTrue trivial
  | .inputFile _ => isTrue trivial
  | .note .. | .range .. | .terminator _ | .embed _ => isFalse id

def onSymbols (d : Directive) (symbols : SymbolTable) : Option SymbolTable :=
  match d.label? with
  | some (address, name) => symbols.request address name
  | none => some symbols

def onComments (d : Directive) (inRange : Int → Bool) (comments : Comments) : Option Comments :=
  match d.comment? with
  | some (address, text) => comments.request inRange address text
  | none => some comments

def onSegments (d : Directive) (segments : List Segment) : List Segment :=
  match d.segment? with
  | some s => s.insert segments
  | none => segments

variable {d e : Directive}

theorem IsPlacing.given (hd : d.IsPlacing) {address : Int} {name : Option String}
    (h : d.label? = some (address, name)) : SymbolTable.IsGiven name := by
  cases d with
  | segment mode a given =>
    simp only [label?] at h
    split at h
    · cases h
    · cases h
      exact hd
  | label a given =>
    cases h
    exact hd
  | _ => cases h

theorem onSymbols_comm (hd : d.IsPlacing) (he : e.IsPlacing) (symbols : SymbolTable) :
    (d.onSymbols symbols).bind e.onSymbols = (e.onSymbols symbols).bind d.onSymbols := by
  unfold onSymbols
  cases hlabel : d.label? with
  | none => simp
  | some first =>
    cases hother : e.label? with
    | none => simp
    | some second => exact symbols.request_comm first.1 second.1 (hd.given hlabel) (he.given hother)

theorem onComments_comm (d e : Directive) (inRange : Int → Bool) (comments : Comments) :
    (d.onComments inRange comments).bind (e.onComments inRange) =
      (e.onComments inRange comments).bind (d.onComments inRange) := by
  unfold onComments
  cases d.comment? with
  | none => simp
  | some first =>
    cases e.comment? with
    | none => simp
    | some second => exact comments.request_comm inRange first.1 second.1 first.2 second.2

theorem onSegments_comm (h : ∀ s ∈ d.segment?, ∀ t ∈ e.segment?, s = t ∨ s.address ≠ t.address)
    (segments : List Segment) :
    e.onSegments (d.onSegments segments) = d.onSegments (e.onSegments segments) := by
  unfold onSegments
  cases hd : d.segment? with
  | none => rfl
  | some s =>
    cases he : e.segment? with
    | none => rfl
    | some t => exact (Segment.insert_comm (h s hd t he) segments).symm

theorem inRange_of_onSymbols {symbols next : SymbolTable} (h : d.onSymbols symbols = some next) :
    next.inRange = symbols.inRange := by
  unfold onSymbols at h
  split at h
  · exact SymbolTable.inRange_of_request h
  · cases h
    rfl

end Directive

/-- What the directives of a file place, and whether they name the image. -/
structure Placement where
  symbols : SymbolTable
  segments : List Segment
  comments : Comments
  isNamed : Bool

namespace Placement

/-- Place what a directive says; a label or a comment may be refused. -/
def place (p : Placement) (d : Directive) : Option Placement :=
  (d.onSymbols p.symbols).bind fun symbols =>
    (d.onComments p.symbols.inRange p.comments).map fun comments =>
      ⟨symbols, d.onSegments p.segments, comments, p.isNamed || d.namesImage⟩

section

variable (p : Placement) (address : Nat)

theorem place_segment (mode : SegmentMode) (name : Option String) :
    p.place (.segment mode address name) =
      (if name = none ∧ mode ≠ .procs then some p.symbols
        else p.symbols.request address name).map fun symbols =>
        { p with symbols, segments := Segment.insert ⟨address, mode, name⟩ p.segments } := by
  simp only [place, Directive.onSymbols, Directive.label?, Directive.onComments, Directive.comment?,
    Directive.onSegments, Directive.segment?, Directive.namesImage, Bool.or_false, Option.map_some]
  by_cases hbare : name = none ∧ mode ≠ .procs
  · rw [if_pos hbare, if_pos hbare]
    rfl
  · rw [if_neg hbare, if_neg hbare, Option.map_eq_bind]
    rfl

theorem place_label (name : Option String) :
    p.place (.label address name) = (p.symbols.request address name).map fun symbols =>
      { p with symbols } := by
  show ((p.symbols.request address name).bind fun symbols =>
    some { p with symbols, isNamed := p.isNamed || false }) = _
  rw [Bool.or_false, Option.map_eq_bind]
  rfl

theorem place_comment (text : String) :
    p.place (.comment address (some text)) =
      (p.comments.request p.symbols.inRange address text).map fun comments =>
        { p with comments } := by
  show ((p.comments.request p.symbols.inRange address text).map fun comments =>
    { p with comments, isNamed := p.isNamed || false }) = _
  rw [Bool.or_false]

theorem place_comment_none : p.place (.comment address none) = some p := by
  show some { p with isNamed := p.isNamed || false } = some p
  rw [Bool.or_false]

theorem place_inputFile (name : String) :
    p.place (.inputFile name) = some { p with isNamed := true } := by
  show some { p with isNamed := p.isNamed || true } = _
  rw [Bool.or_true]

end

variable {d e : Directive}

/-- Two placings, part by part. -/
theorem place_bind (p : Placement) (d e : Directive) :
    (p.place d).bind (·.place e) =
      ((d.onSymbols p.symbols).bind e.onSymbols).bind fun symbols =>
        ((d.onComments p.symbols.inRange p.comments).bind (e.onComments p.symbols.inRange)).map
          fun comments =>
          ⟨symbols, e.onSegments (d.onSegments p.segments), comments,
            p.isNamed || d.namesImage || e.namesImage⟩ := by
  unfold place
  cases hsymbols : d.onSymbols p.symbols with
  | none => rfl
  | some symbols =>
    rw [← Directive.inRange_of_onSymbols hsymbols]
    cases d.onComments symbols.inRange p.comments with
    | none => cases h : e.onSymbols symbols <;> simp [h]
    | some comments => simp

theorem place_comm (p : Placement) (hd : d.IsPlacing) (he : e.IsPlacing)
    (h : ∀ s ∈ d.segment?, ∀ t ∈ e.segment?, s = t ∨ s.address ≠ t.address) :
    (p.place d).bind (·.place e) = (p.place e).bind (·.place d) := by
  rw [place_bind, place_bind, Directive.onSymbols_comm hd he, Directive.onComments_comm d e,
    Directive.onSegments_comm h, Bool.or_right_comm]

def placeAll (p : Placement) (directives : List Directive) : Option Placement :=
  directives.foldlM place p

/-- The directives of a list may be exchanged: all are for placing, and no address has two
segments. -/
structure Exchangeable (directives : List Directive) : Prop where
  placing : ∀ d ∈ directives, d.IsPlacing
  apart : ((directives.filterMap Directive.segment?).map Segment.address).Nodup

theorem Exchangeable.place_comm {directives : List Directive} (h : Exchangeable directives)
    (hd : d ∈ directives) (he : e ∈ directives) (p : Placement) :
    (p.place d).bind (·.place e) = (p.place e).bind (·.place d) := by
  refine Placement.place_comm p (h.placing d hd) (h.placing e he) fun s hs t ht => ?_
  have hsmem : s ∈ directives.filterMap Directive.segment? := List.mem_filterMap.mpr ⟨d, hd, hs⟩
  have htmem : t ∈ directives.filterMap Directive.segment? := List.mem_filterMap.mpr ⟨e, he, ht⟩
  by_cases haddress : s.address = t.address
  · exact .inl (List.inj_on_of_nodup_map h.apart hsmem htmem haddress)
  · exact .inr haddress

theorem placeAll_perm {directives others : List Directive} (hperm : directives.Perm others)
    (h : Exchangeable directives) (p : Placement) : p.placeAll directives = p.placeAll others := by
  unfold placeAll
  rw [List.foldlM_eq_foldl, List.foldlM_eq_foldl]
  refine hperm.foldl_eq' (fun d hd e he placed => ?_) _
  cases placed with
  | none => rfl
  | some p => exact h.place_comm hd he p

end Placement

def Draft.placement (d : Draft) : Placement :=
  ⟨d.symbols, d.plan.segments, d.plan.lineComments, d.plan.inputFile.isSome⟩

def Loading.placement (s : Loading) : Placement :=
  ⟨s.symbols, s.plan.segments, s.plan.lineComments, s.plan.inputFile.isSome⟩

theorem Loading.Alike.placement {s t : Loading} (h : s.Alike t) : t.placement = s.placement := by
  obtain ⟨log, sources, rfl⟩ := h
  rfl

/-- Two labels for one address, or two comments. -/
def Fault.isClash : Fault → Bool
  | .labelClash .. => true
  | .commentClash .. => true
  | _ => false

/-- What is done is what is placed; where nothing can be placed, there is a clash. -/
inductive Draft.PlacedOrClash {α : Type} : Except Fault α → Option α → Prop
  | placed (a : α) : PlacedOrClash (.ok a) (some a)
  | clash {fault : Fault} (h : fault.isClash = true) : PlacedOrClash (.error fault) none

namespace Draft

theorem PlacedOrClash.map {α : Type} {answer : Except Fault α} {placed : Option α}
    (h : PlacedOrClash answer placed) (f : α → Draft) :
    PlacedOrClash ((answer.map f).map placement) (placed.map fun a => (f a).placement) := by
  cases h with
  | placed a => exact .placed (f a).placement
  | clash h => exact .clash h

theorem placedOrClash_labelled (symbols : SymbolTable) (l : Location) (address : Int)
    (name : Option String) :
    PlacedOrClash (symbols.labelled l address name) (symbols.request address name) := by
  cases name with
  | none => exact .placed _
  | some name =>
    simp only [SymbolTable.labelled, SymbolTable.request]
    cases symbols.bind address name with
    | ok symbols => exact .placed symbols
    | error fault => exact .clash rfl

theorem placedOrClash_add (comments : Comments) (symbols : SymbolTable) (l : Location)
    (address : Int) (text : String) :
    PlacedOrClash (comments.add symbols l address text)
      (comments.request symbols.inRange address text) := by
  rw [Comments.add]
  cases comments.request symbols.inRange address text with
  | some comments => exact .placed comments
  | none => exact .clash rfl

/-- A directive for placing does that to a draft and no more. -/
theorem placedOrClash_perform (l : Location) {d : Directive} (hd : d.IsPlacing) (e : Draft) :
    PlacedOrClash ((d.perform l e).map placement) (e.placement.place d) := by
  cases d with
  | segment mode address name =>
    rw [Placement.place_segment, Directive.perform]
    split
    · exact .placed _
    · exact (placedOrClash_labelled e.symbols l address name).map _
  | label address name =>
    rw [Placement.place_label, Directive.perform]
    exact (placedOrClash_labelled e.symbols l address name).map _
  | comment address text =>
    cases text with
    | none =>
      rw [Placement.place_comment_none]
      exact .placed _
    | some text =>
      rw [Placement.place_comment, Directive.perform]
      exact (placedOrClash_add e.plan.lineComments e.symbols l address text).map _
  | inputFile name =>
    rw [Placement.place_inputFile]
    exact .placed _
  | _ => cases hd

end Draft

namespace Loader

/-! ## Loading as placing -/

/-- An action places as the function says, and fails with a clash where that gives nothing. -/
def Places (m : Loader Unit) (f : Placement → Option Placement) : Prop :=
  ∀ s, (∃ t, m s = .ok () t ∧ f s.placement = some t.placement) ∨
    ∃ fault t, m s = .error fault t ∧ fault.isClash = true ∧ f s.placement = none

section

variable {m m' : Loader Unit} {f f' : Placement → Option Placement}

theorem Places.congr (h : Places m f) (heq : ∀ p, f p = f' p) : Places m f' := by
  rwa [← funext heq]

theorem Places.bind (hm : Places m f) (hm' : Places m' f') :
    Places (m >>= fun _ => m') fun p => (f p).bind f' := by
  intro s
  rcases hm s with ⟨t, ht, hf⟩ | ⟨fault, t, ht, hclash, hf⟩
  · have hrest : (f s.placement).bind f' = f' t.placement := by rw [hf, Option.bind_some]
    rcases hm' t with ⟨u, hu, hf'⟩ | ⟨fault, u, hu, hclash, hf'⟩
    · exact .inl ⟨u, (Action.bind_of_ok _ ht).trans hu, hrest.trans hf'⟩
    · exact .inr ⟨fault, u, (Action.bind_of_ok _ ht).trans hu, hclash, hrest.trans hf'⟩
  · exact .inr ⟨fault, t, Action.bind_of_error _ ht, hclash, by simp only [hf, Option.bind_none]⟩

theorem Places.eq_ok {s : Loading} {p : Placement} (h : Places m f) (hp : f s.placement = some p) :
    ∃ t, m s = .ok () t ∧ t.placement = p := by
  rcases h s with ⟨t, ht, hf⟩ | ⟨fault, t, -, -, hf⟩
  · exact ⟨t, ht, Option.some.inj (hf.symm.trans hp)⟩
  · cases hf.symm.trans hp

theorem Places.eq_error {s : Loading} (h : Places m f) (hnone : f s.placement = none) :
    ∃ fault t, m s = .error fault t ∧ fault.isClash = true := by
  rcases h s with ⟨t, -, hf⟩ | ⟨fault, t, ht, hclash, -⟩
  · cases hf.symm.trans hnone
  · exact ⟨fault, t, ht, hclash⟩

/-- An action that does not fail. -/
theorem places_of_ok {g : Placement → Placement}
    (h : ∀ s, ∃ t, m s = .ok () t ∧ g s.placement = t.placement) :
    Places m fun p => some (g p) := by
  intro s
  obtain ⟨t, ht, hplaced⟩ := h s
  exact .inl ⟨t, ht, congrArg some hplaced⟩

theorem places_pure : Places (pure ()) some := places_of_ok fun s => ⟨s, rfl, rfl⟩

theorem places_say (events : List Event) : Places (say events) some :=
  places_of_ok fun _ => ⟨_, rfl, rfl⟩

end

section

variable (file : Path) (n : Nat)

/-- A directive for placing does that and no more. -/
theorem places_apply {d : Directive} (hd : d.IsPlacing) : Places (apply file n d) (·.place d) := by
  intro s
  have hplaced := Draft.placedOrClash_perform ⟨file, n⟩ hd s.draft
  change Draft.PlacedOrClash _ (s.placement.place d) at hplaced
  rcases performs_apply file n d s with ⟨t, ht, hdone⟩ | ⟨fault, t, ht, hdone, -⟩
    <;> dsimp only at hdone ⊢
  · rw [hdone] at hplaced
    generalize s.placement.place d = placed at hplaced ⊢
    cases hplaced
    exact .inl ⟨t, ht, rfl⟩
  · rw [hdone] at hplaced
    generalize s.placement.place d = placed at hplaced ⊢
    cases hplaced with
    | clash hclash => exact .inr ⟨fault, t, ht, hclash, rfl⟩

/-! ## Lines -/

/-- A line that says nothing or has a directive for placing. -/
def IsPlacingLine (raw : List Char) : Prop :=
  isSilent (Text.dropBlanks raw) = true ∨ ∃ d ∈ directive? raw, d.IsPlacing

instance : DecidablePred IsPlacingLine := fun raw =>
  inferInstanceAs (Decidable (isSilent (Text.dropBlanks raw) = true ∨
    ∃ d ∈ directive? raw, d.IsPlacing))

theorem embedded?_of_isPlacing {raw : List Char} {d : Directive} (hd : d.IsPlacing)
    (h : directive? raw = some d) : embedded? (none : Option OpenNote).isSome raw = none := by
  cases d with
  | embed name => cases hd
  | _ => simp [embedded?, h]

theorem readLine_of_isPlacing {raw : List Char} {d : Directive} (hd : d.IsPlacing)
    (h : directive? raw = some d) :
    ∃ events, readLine file n raw none = (do say events; apply file n d; return none) := by
  have hsilent : ¬isSilent (Text.dropBlanks raw) = true := by
    intro hsilent
    rw [directive?, ofChars?_of_isSilent hsilent] at h
    cases h
  simp only [readLine, if_neg hsilent, h]
  cases d with
  | note address text => cases hd
  | _ => exact ⟨_, rfl⟩

theorem IsPlacingLine.isPlacing {raw : List Char} {d : Directive} (hraw : IsPlacingLine raw)
    (h : directive? raw = some d) : d.IsPlacing := by
  rcases hraw with hsilent | ⟨e, he, hplacing⟩
  · rw [directive?, ofChars?_of_isSilent hsilent] at h
    cases h
  · cases he.symm.trans h
    exact hplacing

/-- Reading lines for placing is placing what their directives say. -/
theorem places_readLines (embed : Path → Loader Unit) {lines : List (List Char)}
    (h : ∀ raw ∈ lines, IsPlacingLine raw) :
    Places (readLines embed file n lines none) (·.placeAll (lines.filterMap directive?)) := by
  induction lines generalizing n with
  | nil => exact places_pure
  | cons raw rest ih =>
    obtain ⟨hraw, hrest⟩ := List.forall_mem_cons.mp h
    rcases hraw with hsilent | ⟨d, hdirective, hd⟩
    · have hnone : directive? raw = none := ofChars?_of_isSilent hsilent
      rw [readLines_cons_of_none (by simp [embedded?, hnone])]
      simp only [readLine, if_pos hsilent, pure_bind, List.filterMap_cons, hnone]
      exact ih (n + 1) hrest
    · rw [Option.mem_def] at hdirective
      obtain ⟨events, hline⟩ := readLine_of_isPlacing file n hd hdirective
      rw [readLines_cons_of_none (embedded?_of_isPlacing hd hdirective), hline]
      simp only [bind_assoc, pure_bind]
      refine ((places_say events).bind ((places_apply file n hd).bind (ih (n + 1) hrest))).congr
        fun p => ?_
      rw [List.filterMap_cons, hdirective]
      rfl

end

end Loader

/-! ## Files -/

section

variable {files others : Files} {main : Path} {lines shuffled : List (List Char)}

/-- What loading a file with lines for placing comes to. -/
theorem load_placing (hlines : files.lines? main = some lines)
    (h : ∀ raw ∈ lines, Loader.IsPlacingLine raw) (symbols : SymbolTable) :
    let placed := (Loading.placement { symbols }).placeAll (lines.filterMap directive?)
    (placed = none → ∃ fault, (load files main symbols).1 = .error fault ∧ fault.isClash = true) ∧
    ∀ p, placed = some p →
      (p.isNamed = false → (load files main symbols).1 = .error .noInputFile) ∧
      (p.isNamed = true →
        ∃ loading, load files main symbols = (.ok loading.plan, loading) ∧
          loading.placement = p) := by
  intro placed
  obtain ⟨u, halike, hread⟩ := Loader.readFile_of_lines? Loader.maxDepth false hlines { symbols }
  have hplaces := Loader.places_readLines main 1 (Loader.readFile files Loader.maxDepth true) h
  have hstart : u.placement.placeAll (lines.filterMap directive?) = placed := by
    rw [halike.placement]
  constructor
  · intro hnone
    obtain ⟨fault, t, ht, hclash⟩ := hplaces.eq_error (hstart.trans hnone)
    refine ⟨fault, ?_, hclash⟩
    rw [load, Loader.loadFile, Action.bind_of_error _ (hread.trans ht)]
    rfl
  · intro p hp
    obtain ⟨t, ht, rfl⟩ := hplaces.eq_ok (hstart.trans hp)
    constructor
    · intro hnamed
      have hget : (get : Loader Loading) t = .ok t t := rfl
      change t.plan.inputFile.isSome = false at hnamed
      rw [load, Loader.loadFile, Action.bind_of_ok _ (hread.trans ht), Action.bind_of_ok _ hget]
      simp only [hnamed]
      rfl
    · intro hnamed
      exact ⟨t, load_eq_ok_iff.mpr (Loader.loadFile_eq_ok_iff.mpr ⟨hread.trans ht, rfl, hnamed⟩),
        rfl⟩

/-- The lines of a file that are silent, name the image or are for segments, labels and line
comments may be put into any order, from any symbol table: with names that are not reserved and
segments at different addresses, either both orders fail, each with two labels or two comments for
one address or both for want of an image, or both give the same symbol table, the same line comments
and the same segments. -/
theorem load_shuffled (symbols : SymbolTable) (hlines : files.lines? main = some lines)
    (hshuffled : others.lines? main = some shuffled) (hperm : lines.Perm shuffled)
    (hplacing : ∀ raw ∈ lines, Loader.IsPlacingLine raw)
    (hsegments : (((lines.filterMap directive?).filterMap Directive.segment?).map
      Segment.address).Nodup) :
    (∃ fault fault', (load files main symbols).1 = .error fault ∧
      (load others main symbols).1 = .error fault' ∧
      (fault.isClash = true ∧ fault'.isClash = true ∨ fault = .noInputFile ∧
        fault' = .noInputFile)) ∨
    ∃ plan plan' loading loading', load files main symbols = (.ok plan, loading) ∧
      load others main symbols = (.ok plan', loading') ∧ loading.symbols = loading'.symbols ∧
      plan.lineComments = plan'.lineComments ∧ plan.segments = plan'.segments := by
  have hexchange : Placement.Exchangeable (lines.filterMap directive?) := by
    refine ⟨fun d hd => ?_, hsegments⟩
    obtain ⟨raw, hraw, hdirective⟩ := List.mem_filterMap.mp hd
    exact (hplacing raw hraw).isPlacing hdirective
  have hsame :=
    Placement.placeAll_perm (hperm.filterMap directive?) hexchange (Loading.placement { symbols })
  have hplacing' : ∀ raw ∈ shuffled, Loader.IsPlacingLine raw :=
    fun raw hraw => hplacing raw (hperm.mem_iff.mpr hraw)
  obtain ⟨hclash, hplaced⟩ := load_placing hlines hplacing symbols
  obtain ⟨hclash', hplaced'⟩ := load_placing hshuffled hplacing' symbols
  cases hp : (Loading.placement { symbols }).placeAll (lines.filterMap directive?) with
  | none =>
    obtain ⟨fault, hfault, hkind⟩ := hclash hp
    obtain ⟨fault', hfault', hkind'⟩ := hclash' (hsame.symm.trans hp)
    exact .inl ⟨fault, fault', hfault, hfault', .inl ⟨hkind, hkind'⟩⟩
  | some p =>
    obtain ⟨hbare, hnamed⟩ := hplaced p hp
    obtain ⟨hbare', hnamed'⟩ := hplaced' p (hsame.symm.trans hp)
    cases himage : p.isNamed with
    | false => exact .inl ⟨_, _, hbare himage, hbare' himage, .inr ⟨rfl, rfl⟩⟩
    | true =>
      obtain ⟨loading, hload, hend⟩ := hnamed himage
      obtain ⟨loading', hload', hend'⟩ := hnamed' himage
      have hequal : loading.placement = loading'.placement := hend.trans hend'.symm
      exact .inr ⟨_, _, loading, loading', hload, hload', congrArg Placement.symbols hequal,
        congrArg Placement.comments hequal, congrArg Placement.segments hequal⟩

end

/-- A label that is generated or given at one address, in both orders. -/
theorem load_shuffled_reverse :
    let main := Path.ofString "rom.lst"
    let lines : List (List Char) :=
      ["f rom.bin", "l 10 START", "p 10", "k 10 entry", "# data", "l 20", "", "b 20 DATA",
        "l 30"].map String.toList
    let files : Files := fun _ => .ok (written lines)
    let others : Files := fun _ => .ok (written lines.reverse)
    (load files main {}).2.symbols.entries =
        [⟨0x10, some "START", false, []⟩, ⟨0x20, some "DATA", false, []⟩,
          ⟨0x30, some "___0030", true, []⟩] ∧
      ∃ plan plan' loading loading', load files main {} = (.ok plan, loading) ∧
        load others main {} = (.ok plan', loading') ∧ loading.symbols = loading'.symbols ∧
        plan.lineComments = plan'.lineComments ∧ plan.segments = plan'.segments := by
  intro main lines files others
  have hlines : files.lines? main = some lines := by decide +kernel
  have hreverse : others.lines? main = some lines.reverse := by decide +kernel
  have hok : (load files main {}).1.toOption.isSome = true := by decide +kernel
  refine ⟨by decide +kernel, ?_⟩
  rcases load_shuffled {} hlines hreverse lines.reverse_perm.symm (by decide +kernel)
    (by decide +kernel) with
    ⟨fault, _, hfault, -⟩ | hsame
  · rw [hfault] at hok
    cases hok
  · exact hsame

end Disassembler
