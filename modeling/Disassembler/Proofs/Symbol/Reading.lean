import Disassembler.Proofs.Symbol.Run
import Disassembler.Proofs.Text.Reading
import Disassembler.Symbol.Report

/-!
Reading reports on cross-references. A line of a report is a divider, or it starts a block with an
address, or it goes on with one; the first character tells which. Numbers and tags have an end that
can be seen, and a label fills the rest of its line. So a report can be read line by line, and what
is read is all that the table has to say of the addresses that are referred to.
-/

namespace Disassembler

/-- What a report says of one address. A label that is empty is not said. -/
structure Reported where
  address : Int
  label : Option String
  refs : List Reference
  deriving DecidableEq, Repr

inductive ReportLine where
  | first (address : Int) (ref : Reference) (label : Option String)
  | further (ref : Reference)
  | divider
  deriving DecidableEq, Repr

/-! ## The reader -/

/-- A tag takes up six columns, and three more lead over to the source. -/
def Reference.read (cs : List Char) : Reference × List Char :=
  let kind := RefKind.all.find? fun kind => kind.tag.toList.rightpad 6 ' ' = cs.take 6
  let source := Text.readNumber (cs.drop 9)
  (⟨source.1, kind.getD .none⟩, source.2)

namespace ReportLine

/-- A label stands in brackets behind three blanks. -/
def readLabel (cs : List Char) : Option String :=
  if cs = [] then none else some (String.ofList (cs.drop 4).dropLast)

def read (cs : List Char) : ReportLine :=
  if cs = [] ∨ cs = SymbolTable.reportRule.toList then divider
  else if cs.head? = some ' ' then further (Reference.read (cs.drop 6)).1
  else
    let address := Text.readNumber cs
    let ref := Reference.read (address.2.drop 2)
    first address.1 ref.1 (readLabel ref.2)

/-- Put a line in front of what has been read behind it: the references that go on with a block, and
the blocks. -/
def gather (line : ReportLine) (behind : List Reference × List Reported) :
    List Reference × List Reported :=
  match line with
  | first address ref label => ([], ⟨address, label, ref :: behind.1⟩ :: behind.2)
  | further ref => (ref :: behind.1, behind.2)
  | divider => ([], behind.2)

def readAll (lines : List (List Char)) (behind : List Reference × List Reported) :
    List Reference × List Reported :=
  lines.foldr (fun line => gather (read line)) behind

end ReportLine

def Reported.ofReport (text : String) : List Reported :=
  (ReportLine.readAll (text.toList.splitOn '\n') ([], [])).2

/-! ## What there is to say -/

def Entry.reported? (e : Entry) : Option Reported :=
  if e.refs = [] then none else some ⟨e.address, e.label.filter (· ≠ ""), e.refs⟩

/-- The addresses that are referred to, in order, with their labels and references. -/
def SymbolTable.reported (t : SymbolTable) : List Reported := t.entries.filterMap Entry.reported?

/-! ## Lines -/

theorem RefKind.length_tag (kind : RefKind) : (kind.tag.toList.rightpad 6 ' ').length = 6 := by
  cases kind <;> rfl

/-- The columns of a tag tell the kind. -/
theorem RefKind.find?_tag (kind : RefKind) :
    RefKind.all.find? (fun other => other.tag.toList.rightpad 6 ' ' =
      kind.tag.toList.rightpad 6 ' ') = some kind := by
  cases kind <;> decide

namespace SymbolTable

theorem toList_referenceText (ref : Reference) :
    (referenceText ref).toList =
      ref.kind.tag.toList.rightpad 6 ' ' ++
        ([' ', '@', ' '] ++ (Text.address ref.source).toList) := by
  simp only [referenceText, String.toList_append, String.toList_ofList, List.append_assoc]
  rfl

end SymbolTable

open SymbolTable (referenceText toList_referenceText labelNote reportRule)

theorem Reference.read_referenceText (ref : Reference) {rest : List Char}
    (hrest : ∀ c ∈ rest.head?, Directive.isHexDigit c = false) :
    Reference.read ((referenceText ref).toList ++ rest) = (ref, rest) := by
  have hlength := ref.kind.length_tag
  have htag : ((referenceText ref).toList ++ rest).take 6 = ref.kind.tag.toList.rightpad 6 ' ' := by
    rw [toList_referenceText, List.append_assoc, List.take_left' hlength]
  have hsource : ((referenceText ref).toList ++ rest).drop 9 =
      (Text.address ref.source).toList ++ rest := by
    rw [toList_referenceText, List.append_assoc, List.append_assoc, show 9 = 6 + 3 from rfl,
      ← List.drop_drop, List.drop_left' hlength]
    simp only [List.cons_append, List.drop_succ_cons, List.drop_zero, List.nil_append]
  rw [Reference.read, htag, hsource, ref.kind.find?_tag, Text.readNumber_address _ hrest]
  rfl

namespace ReportLine

theorem readAll_cons (line : List Char) (lines : List (List Char))
    (behind : List Reference × List Reported) :
    readAll (line :: lines) behind = gather (read line) (readAll lines behind) := rfl

theorem readAll_append (lines more : List (List Char)) (behind : List Reference × List Reported) :
    readAll (lines ++ more) behind = readAll lines (readAll more behind) := List.foldr_append

theorem toList_reportRule : reportRule.toList = List.replicate 27 '-' := String.toList_ofList

theorem read_divider : read [] = divider ∧ read reportRule.toList = divider :=
  ⟨if_pos (.inl rfl), if_pos (.inr rfl)⟩

/-- A divider holds nothing but dashes. -/
theorem not_divider {cs : List Char} {c : Char} (hmem : c ∈ cs) (hc : c ≠ '-') :
    ¬ (cs = [] ∨ cs = reportRule.toList) := by
  rintro (rfl | rfl)
  · cases hmem
  · rw [toList_reportRule] at hmem
    exact hc (List.eq_of_mem_replicate hmem)

theorem read_further (ref : Reference) :
    read ("      " ++ referenceText ref).toList = further ref := by
  have hline : ("      " ++ referenceText ref).toList = List.replicate 6 ' ' ++
      (referenceText ref).toList :=
    String.toList_append
  have hblank : (List.replicate 6 ' ' ++ (referenceText ref).toList).head? = some ' ' := rfl
  have hread : Reference.read ((referenceText ref).toList ++ []) = (ref, []) :=
    Reference.read_referenceText ref (by simp)
  rw [List.append_nil] at hread
  rw [hline, read, if_neg (not_divider (List.mem_of_head? hblank) (by decide)), if_pos hblank,
    List.drop_left' List.length_replicate, hread]

theorem toList_labelNote {label : String} (h : label ≠ "") :
    (labelNote (some label)).toList = ' ' :: ' ' :: ' ' :: '(' :: (label.toList ++ [')']) := by
  rw [labelNote, if_neg h, String.toList_append, String.toList_append, List.append_assoc]
  rfl

theorem labelNote_eq_empty {label : Option String} (h : label.filter (· ≠ "") = none) :
    labelNote label = "" := by
  cases label with
  | none => rfl
  | some label =>
    rw [labelNote, if_pos]
    simpa using h

/-- A label can be read off its note, which starts with a blank if it is not empty. -/
theorem readLabel_labelNote (label : Option String) :
    readLabel (labelNote label).toList = label.filter (· ≠ "") ∧
      ∀ c ∈ (labelNote label).toList.head?, c = ' ' := by
  cases hlabel : label.filter (· ≠ "") with
  | none =>
    rw [labelNote_eq_empty hlabel]
    exact ⟨rfl, by simp⟩
  | some name =>
    obtain ⟨rfl, hname⟩ := Option.filter_eq_some_iff.mp hlabel
    rw [toList_labelNote (by simpa using hname)]
    refine ⟨?_, by simp⟩
    rw [readLabel, if_neg (by simp)]
    simp only [List.drop_succ_cons, List.drop_zero, List.dropLast_concat, String.ofList_toList]

theorem read_first (address : Int) (ref : Reference) (label : Option String) :
    read (Text.address address ++ ": " ++ referenceText ref ++ labelNote label).toList =
      first address ref (label.filter (· ≠ "")) := by
  obtain ⟨hlabel, hblank⟩ := readLabel_labelNote label
  have href : Reference.read ((referenceText ref).toList ++ (labelNote label).toList) =
      (ref, (labelNote label).toList) := by
    refine Reference.read_referenceText ref fun c hc => ?_
    rw [hblank c hc]
    decide
  have hline : (Text.address address ++ ": " ++ referenceText ref ++ labelNote label).toList =
      (Text.address address).toList ++ ':' :: ' ' ::
        ((referenceText ref).toList ++ (labelNote label).toList) := by
    have hcolon : ": ".toList = [':', ' '] := rfl
    simp only [String.toList_append, List.append_assoc, hcolon, List.cons_append, List.nil_append]
  rw [hline]
  generalize (referenceText ref).toList ++ (labelNote label).toList = rest at href
  -- The line is no divider, for it holds a colon. It does not go on with a block, for no address
  -- starts with a blank.
  have hcolon : ':' ∈ (Text.address address).toList ++ ':' :: ' ' :: rest := by simp
  have hother := not_divider hcolon (by decide)
  have hstart : ((Text.address address).toList ++ ':' :: ' ' :: rest).head? ≠ some ' ' := by
    intro hhead
    rw [List.head?_append] at hhead
    rcases Option.or_eq_some_iff.mp hhead with hmem | ⟨-, hmem⟩
    · exact absurd (Text.mem_address (List.mem_of_head? hmem)) (by decide)
    · exact absurd hmem (by simp)
  have haddress : Text.readNumber ((Text.address address).toList ++ ':' :: ' ' :: rest) =
      (address, ':' :: ' ' :: rest) := by
    refine Text.readNumber_address address fun c hc => ?_
    cases hc
    decide
  simp only [read, if_neg hother, if_neg hstart, haddress, List.drop_succ_cons, List.drop_zero,
    href, hlabel]

end ReportLine

/-! ## Blocks -/

open ReportLine (readAll readAll_cons readAll_append)

theorem ReportLine.readAll_further (refs : List Reference)
    (behind : List Reference × List Reported) :
    readAll ((refs.map fun ref => "      " ++ referenceText ref).map String.toList) behind =
      (refs ++ behind.1, behind.2) := by
  induction refs with
  | nil => rfl
  | cons ref refs ih =>
    rw [List.map_cons, List.map_cons, readAll_cons, ih, read_further]
    rfl

theorem SymbolTable.blockLines_of_cons {e : Entry} {ref : Reference} {refs : List Reference}
    (h : e.refs = ref :: refs) :
    blockLines e = (Text.address e.address ++ ": " ++ referenceText ref ++ labelNote e.label) ::
      (refs.map (fun ref => "      " ++ referenceText ref) ++ [""]) := by
  simp only [blockLines, h]
  rfl

/-- The lines of a block are read as what there is to say of its entry. -/
theorem Entry.readAll_blockLines (e : Entry) (blocks : List Reported) :
    readAll ((SymbolTable.blockLines e).map String.toList) ([], blocks) =
      ([], e.reported?.toList ++ blocks) := by
  cases hrefs : e.refs with
  | nil =>
    rw [SymbolTable.blockLines, Entry.reported?, hrefs]
    rfl
  | cons ref refs =>
    have hend : readAll ([""].map String.toList) ([], blocks) = ([], blocks) :=
      congrArg (ReportLine.gather · ([], blocks)) ReportLine.read_divider.1
    rw [SymbolTable.blockLines_of_cons hrefs, List.map_cons, List.map_append, readAll_cons,
      readAll_append, hend, ReportLine.readAll_further, ReportLine.read_first, List.append_nil,
      Entry.reported?, hrefs, if_neg (List.cons_ne_nil ref refs)]
    rfl

namespace SymbolTable

theorem readAll_blocks (entries : List Entry) (blocks : List Reported) :
    readAll ((entries.flatMap blockLines).map String.toList) ([], blocks) =
      ([], entries.filterMap Entry.reported? ++ blocks) := by
  induction entries with
  | nil => rfl
  | cons e entries ih =>
    rw [List.flatMap_cons, List.map_append, readAll_append, ih, Entry.readAll_blockLines]
    cases he : e.reported? with
    | none => rw [List.filterMap_cons_none he]; rfl
    | some block => rw [List.filterMap_cons_some he]; rfl

theorem readAll_reportLines (t : SymbolTable) :
    readAll (t.reportLines.map String.toList) ([], []) = ([], t.reported) := by
  have hrule := ReportLine.read_divider.2
  have hend : readAll ([reportRule, ""].map String.toList) ([], []) = ([], []) := by
    rw [List.map_cons, readAll_cons, hrule]
    rfl
  have hempty : ReportLine.read "".toList = .divider := ReportLine.read_divider.1
  rw [reportLines, List.cons_append, List.cons_append, List.map_cons, List.map_cons,
    List.map_append, readAll_cons,
    readAll_cons, readAll_append, hend, readAll_blocks, hrule, hempty, List.append_nil]
  rfl

/-! ## Line feeds -/

theorem notMem_address (a : Int) : '\n' ∉ (Text.address a).toList := by
  intro h
  exact absurd (Text.mem_address h) (by decide)

theorem notMem_referenceText (ref : Reference) : '\n' ∉ (referenceText ref).toList := by
  have htag : '\n' ∉ ref.kind.tag.toList.rightpad 6 ' ' := by
    cases ref.kind <;> decide
  rw [toList_referenceText, List.mem_append, List.mem_append]
  rintro (h | h | h)
  · exact htag h
  · exact absurd h (by decide)
  · exact notMem_address _ h

theorem notMem_labelNote {label : Option String} (h : ∀ name ∈ label, '\n' ∉ name.toList) :
    '\n' ∉ (labelNote label).toList := by
  cases label with
  | none => exact List.not_mem_nil
  | some name =>
    by_cases hname : name = ""
    · rw [labelNote, if_pos hname]
      exact List.not_mem_nil
    · rw [ReportLine.toList_labelNote hname]
      simpa using h name rfl

/-- No line of a block holds a line feed, if the label does not. -/
theorem notMem_of_mem_blockLines {e : Entry} (hlabel : ∀ name ∈ e.label, '\n' ∉ name.toList)
    {line : String} (hline : line ∈ blockLines e) : '\n' ∉ line.toList := by
  cases hrefs : e.refs with
  | nil =>
    rw [blockLines, hrefs] at hline
    cases hline
  | cons ref refs =>
    rw [blockLines_of_cons hrefs, List.mem_cons, List.mem_append, List.mem_map,
      List.mem_singleton] at hline
    rcases hline with rfl | ⟨further, -, rfl⟩ | rfl
    · have hcolon : '\n' ∉ ": ".toList := by decide
      simp only [String.toList_append, List.mem_append, not_or]
      exact ⟨⟨⟨notMem_address _, hcolon⟩, notMem_referenceText ref⟩, notMem_labelNote hlabel⟩
    · have hblanks : '\n' ∉ "      ".toList := by decide
      rw [String.toList_append, List.mem_append, not_or]
      exact ⟨hblanks, notMem_referenceText further⟩
    · exact List.not_mem_nil

theorem splitOn_report {t : SymbolTable} (hlabels : ∀ p ∈ t.labels, '\n' ∉ p.2.toList) :
    t.report.toList.splitOn '\n' = t.reportLines.map String.toList ++ [[]] := by
  have hrule : '\n' ∉ reportRule.toList := by
    rw [ReportLine.toList_reportRule, List.mem_replicate]
    exact fun h => absurd h.2 (by decide)
  have hlines : ∀ line ∈ t.reportLines.map String.toList, '\n' ∉ line := by
    intro line hline
    obtain ⟨text, htext, rfl⟩ := List.mem_map.mp hline
    simp only [reportLines, List.mem_cons, List.mem_append, List.mem_flatMap, List.not_mem_nil,
      or_false] at htext
    rcases htext with ((rfl | rfl | ⟨e, he, hblock⟩) | rfl | rfl)
    · exact hrule
    · exact List.not_mem_nil
    · refine notMem_of_mem_blockLines (fun name hname => ?_) hblock
      exact hlabels (e.address, name) (mem_labels.mpr ⟨e, he, rfl, hname⟩)
    · exact hrule
    · exact List.not_mem_nil
  -- The last line has a line feed too, so that splitting leaves an empty piece behind it.
  have htext : t.report.toList = ['\n'].intercalate (t.reportLines.map String.toList) ++
      '\n' :: [] := by
    rw [report, String.toList_append, String.toList_intercalate]
    rfl
  rw [htext, List.splitOn_append_cons_self, List.splitOn_nil,
    List.splitOn_intercalate _ hlines (by simp [reportLines])]

/-- A report can be read. -/
theorem ofReport_report {t : SymbolTable} (hlabels : ∀ p ∈ t.labels, '\n' ∉ p.2.toList) :
    Reported.ofReport t.report = t.reported := by
  rw [Reported.ofReport, splitOn_report hlabels, readAll_append]
  exact congrArg Prod.snd t.readAll_reportLines

/-! ## What a report tells -/

theorem mem_reported {t : SymbolTable} (h : t.Ordered) {b : Reported} :
    b ∈ t.reported ↔ b.refs ≠ [] ∧ b.refs = t.references b.address ∧
      b.label = (t.label? b.address).filter (· ≠ "") := by
  simp only [reported, List.mem_filterMap, Entry.reported?]
  constructor
  · rintro ⟨e, he, hb⟩
    split at hb
    · cases hb
    · next hrefs =>
      cases hb
      have hget := (mem_entries h).mp he
      exact ⟨hrefs, by rw [references, hget]; rfl, by rw [label?, hget]; rfl⟩
  · rintro ⟨hrefs, heq, hlabel⟩
    cases hget : t.get? b.address with
    | none =>
      rw [references, hget] at heq
      exact absurd heq hrefs
    | some e =>
      rw [references, hget] at heq
      rw [label?, hget] at hlabel
      refine ⟨e, mem_of_get? hget, ?_⟩
      have hrefs : e.refs ≠ [] := by rwa [heq] at hrefs
      rw [if_neg hrefs, address_of_get? hget]
      cases b
      exact congrArg some (congrArg₂ _ hlabel.symm heq.symm)

theorem reported_ascend {t : SymbolTable} (h : t.Ordered) :
    (t.reported.map (·.address)).Pairwise (· < ·) := by
  refine List.pairwise_map.mpr (List.pairwise_filterMap.mpr (List.Pairwise.imp ?_ h))
  intro d e hlt b hb c hc
  unfold Entry.reported? at hb hc
  split at hb
  · cases hb
  · split at hc
    · cases hc
    · cases hb
      cases hc
      exact hlt

theorem mem_addresses_reported {t : SymbolTable} (h : t.Ordered) {a : Int} :
    a ∈ t.reported.map (·.address) ↔ t.references a ≠ [] := by
  rw [List.mem_map]
  constructor
  · rintro ⟨b, hb, rfl⟩
    obtain ⟨hrefs, heq, -⟩ := (mem_reported h).mp hb
    rwa [heq] at hrefs
  · intro hrefs
    exact ⟨⟨a, (t.label? a).filter (· ≠ ""), t.references a⟩,
      (mem_reported h).mpr ⟨hrefs, rfl, rfl⟩, rfl⟩

theorem references_eq_of_reported_eq {t u : SymbolTable} (ht : t.Ordered) (hu : u.Ordered)
    (h : t.reported = u.reported) (a : Int) : t.references a = u.references a := by
  by_cases hrefs : t.references a = []
  · have hnone : ¬ u.references a ≠ [] := by
      rw [← mem_addresses_reported hu, ← h, mem_addresses_reported ht]
      exact fun hne => hne hrefs
    rw [hrefs, Decidable.not_not.mp hnone]
  · obtain ⟨b, hb, rfl⟩ := List.mem_map.mp ((mem_addresses_reported ht).mpr hrefs)
    exact ((mem_reported ht).mp hb).2.1.symm.trans ((mem_reported hu).mp (h ▸ hb)).2.1

/-- A report tells the references. For every table that operations lead to and whose labels hold no
line feed, what is read off its report is the ascending list of the addresses that have references,
each with all of its references in the order in which they were recorded, and with its label unless
that is empty. So tables that differ in a reference have different reports. -/
theorem report_readable {t : SymbolTable} (ht : Built t)
    (hlabels : ∀ p ∈ t.labels, '\n' ∉ p.2.toList) :
    let blocks := Reported.ofReport t.report
    (blocks.map (·.address)).Pairwise (· < ·) ∧
    (∀ a, a ∈ blocks.map (·.address) ↔ t.references a ≠ []) ∧
    (∀ b ∈ blocks, b.refs = t.references b.address ∧
      b.label = (t.label? b.address).filter (· ≠ "")) ∧
    ∀ u : SymbolTable, Built u → (∀ p ∈ u.labels, '\n' ∉ p.2.toList) →
      (∃ a, t.references a ≠ u.references a) →
      t.report ≠ u.report := by
  intro blocks
  have hblocks : blocks = t.reported := ofReport_report hlabels
  rw [hblocks]
  refine ⟨reported_ascend ht.ordered, fun a => mem_addresses_reported ht.ordered,
    fun b hb => ((mem_reported ht.ordered).mp hb).2, ?_⟩
  rintro u hu hulabels ⟨a, hne⟩ hreport
  have hsame : t.reported = u.reported := by
    rw [← ofReport_report hlabels, hreport, ofReport_report hulabels]
  exact hne (references_eq_of_reported_eq ht.ordered hu.ordered hsame a)

/-- Labels that read as lines of a report, and addresses that are negative or wide. -/
theorem report_readable_imitated :
    let ops : List Operation :=
      [.bind (-2) "0040: Ptr    @ 2003" false, .bind 0x12345 "      Jump   @ 2010   (" false,
        .bind 0x40 "" false, .record 0x12345 0x2000 .call, .record (-2) (-0x10000) .direct,
        .record 0x40 0x2003 .ptr, .record 0x12345 0x2010 .jump, .autoLabel 0x50]
    let t := run ops {}
    let u := run (ops ++ [.record 0x40 0x2003 .ptr]) {}
    Built t ∧ (∀ p ∈ t.labels, '\n' ∉ p.2.toList) ∧
      Reported.ofReport t.report = [⟨-2, some "0040: Ptr    @ 2003", [⟨-0x10000, .direct⟩]⟩,
        ⟨0x40, none, [⟨0x2003, .ptr⟩]⟩,
        ⟨0x12345, some "      Jump   @ 2010   (", [⟨0x2000, .call⟩, ⟨0x2010, .jump⟩]⟩] ∧
      (∀ a, a ∈ (Reported.ofReport t.report).map (·.address) ↔ t.references a ≠ []) ∧
        t.report ≠ u.report := by
  intro ops t u
  have ht : Built t := built_run ops .empty
  have hlabels : ∀ p ∈ t.labels, '\n' ∉ p.2.toList := by decide
  obtain ⟨-, haddresses, -, hother⟩ := report_readable ht hlabels
  refine ⟨ht, hlabels, ?_, haddresses, hother u (built_run _ .empty) (by decide) ⟨0x40, by decide⟩⟩
  rw [ofReport_report hlabels]
  decide

end SymbolTable

end Disassembler
