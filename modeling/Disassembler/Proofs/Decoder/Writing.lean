import Disassembler.Decoder.Output

/-!
Runs of calls that write to an output, those that fail included. A call that comes to a token offers
it, and every token offered counts, also one that is refused. So the count passes the limit once and
for all: up to then it is the length of the text, and from then on nothing is kept any more. The
templates are any text: one with a conversion that `Text.convert` does not know fails and comes to
no token.
-/

namespace Disassembler.Output

/-! ## Calls -/

inductive Call where
  | mnemonic (name : String) (width : Int)
  | write (template : String) (args : List Value)
  /-- text that a prefix has left, or whatever stands in its place -/
  | value (value : Value)
  | separator (text : String)
  | address (value : Int) (text : String) (label : Option String)
  deriving DecidableEq, Repr

namespace Call

def perform : Call → Action Output Unit
  | mnemonic name width => Output.mnemonic name width
  | write template args => Output.write template args
  | value v => Output.value v
  | separator s => Output.separator s
  | address v s label => append (.address v s label)

def result (call : Call) (o : Output) : Except Fault Unit := (Action.outcome (call.perform o)).1

def after (call : Call) (o : Output) : Output := (Action.outcome (call.perform o)).2

/-- Text is a token unless it is empty. -/
def ofText (s : String) : Option Token := if s = "" then none else some (.text s)

/-- The token that a call comes to. There is none for empty text, for a template that its arguments
do not fit, for something that is not text, and for a mnemonic that is filled up to more than there
is room for. -/
def token? : Call → Option Token
  | mnemonic name width =>
    if (Token.mnemonic name width).check.isOk then some (.mnemonic name width) else none
  | write template args => (Text.fill template args).toOption.bind ofText
  | value (.text s) => ofText s
  | value _ => none
  | separator s => some (.separator s)
  | address v s label => some (.address v s label)

def text (call : Call) : String := call.token?.elim "" Token.toString

def size (call : Call) : Nat := call.token?.elim 0 Token.length

end Call

def run (calls : List Call) (o : Output) : Output := calls.foldl (fun o call => call.after o) o

/-- The calls of a run, each with how it ended. -/
def results : List Call → Output → List (Call × Except Fault Unit)
  | [], _ => []
  | call :: calls, o => (call, call.result o) :: results calls (call.after o)

def written (calls : List Call) (o : Output) : List String :=
  ((results calls o).filter (·.2.isOk)).map (·.1.text)

/-- The number of characters of all tokens that some calls offer, whether or not they are kept. -/
def offered : List Call → Nat
  | [] => 0
  | call :: calls => call.size + offered calls

/-! ## One call -/

variable {o : Output} {t : Token} {call : Call}

theorem offer_of_le (h : (o.length + t.length : Nat) ≤ o.limit) :
    offer t o = .ok () { o with parts := o.parts ++ [t], length := o.length + t.length } := by
  rw [offer, if_pos h]

theorem offer_of_lt (h : o.limit < (o.length + t.length : Nat)) :
    offer t o = .error (.textTooLong o.limit) { o with length := o.length + t.length } := by
  rw [offer, if_neg (Int.not_le.mpr h)]

/-- All that a call can do: without a token it changes nothing, and if it fails then not for the
length of the text; with a token it offers that. -/
inductive Offers (o : Output) : Option Token → EStateM.Result Fault Output Unit → Prop where
  | nothing : Offers o none (.ok () o)
  | fault {fault : Fault} (h : fault.family ≠ .table) : Offers o none (.error fault o)
  | token (t : Token) : Offers o (some t) (offer t o)

theorem offers_append (o : Output) (h : t.check = .ok ()) : Offers o (some t) (append t o) := by
  rw [append, h]
  exact .token t

theorem offers_text (s : String) (o : Output) : Offers o (Call.ofText s) (text s o) := by
  unfold Call.ofText text
  split
  · exact .nothing
  · exact offers_append o rfl

theorem offers_mnemonic (name : String) (width : Int) (o : Output) :
    Offers o (Call.mnemonic name width).token? (mnemonic name width o) := by
  rw [Call.token?, mnemonic]
  cases hcheck : (Token.mnemonic name width).check with
  | ok _ => exact offers_append o hcheck
  | error fault =>
    have hfamily : fault.family ≠ .table := by
      rw [Token.check] at hcheck
      cases hwidth : Capacity.checkWidth width <;> rw [hwidth] at hcheck <;> cases hcheck
      exact fun h => by cases h
    rw [append, hcheck]
    exact .fault hfamily

theorem offers_write (template : String) (args : List Value) (o : Output) :
    Offers o (Call.write template args).token? (write template args o) := by
  rw [Call.token?, write]
  cases Text.fill template args with
  | ok s => exact offers_text s o
  | error flaw => exact .fault (by cases flaw <;> decide)

theorem offers_value (v : Value) (o : Output) : Offers o (Call.value v).token? (value v o) := by
  cases v with
  | text s => exact offers_text s o
  | _ =>
    simp only [value, Call.token?]
    split
    · exact .nothing
    · exact .fault (by decide)

theorem Call.offers (call : Call) (o : Output) : Offers o call.token? (call.perform o) := by
  cases call with
  | mnemonic name width => exact offers_mnemonic name width o
  | write template args => exact offers_write template args o
  | value v => exact offers_value v o
  | separator s => exact offers_append o rfl
  | address v s label => exact offers_append o rfl

theorem toString_concat (o : Output) (t : Token) (n : Nat) :
    toString { o with parts := o.parts ++ [t], length := n } = o.toString ++ t.toString := by
  simp [toString, Token.join]

namespace Offers

variable {token : Option Token} {r : EStateM.Result Fault Output Unit}

theorem refused_iff (h : Offers o token r) :
    (Action.outcome r).1 = .error (.textTooLong o.limit) ↔
      token ≠ none ∧ o.limit < (o.length + token.elim 0 Token.length : Nat) := by
  cases h with
  | nothing => simp [Action.outcome]
  | @fault fault hfamily =>
    have hne : fault ≠ .textTooLong o.limit := by
      rintro rfl
      exact hfamily rfl
    simpa [Action.outcome] using hne
  | token t =>
    by_cases hle : (o.length + t.length : Nat) ≤ o.limit
    · rw [offer_of_le hle]
      exact ⟨fun hr => (by cases hr), fun hpast => absurd hle (Int.not_le.mpr hpast.2)⟩
    · rw [offer_of_lt (Int.not_le.mp hle)]
      exact ⟨fun _ => ⟨Option.some_ne_none t, Int.not_le.mp hle⟩, fun _ => rfl⟩

/-- No other fault is a fault of the tables. -/
theorem eq_tooLong (h : Offers o token r) {fault : Fault} (hr : (Action.outcome r).1 = .error fault)
    (hfamily : fault.family = .table) : fault = .textTooLong o.limit := by
  cases h with
  | nothing => cases hr
  | fault hother =>
    cases hr
    exact absurd hfamily hother
  | token t =>
    unfold offer at hr
    split at hr
    · cases hr
    · cases hr
      rfl

theorem unchanged (h : Offers o none r) : (Action.outcome r).2 = o := by
  cases h <;> rfl

theorem limit (h : Offers o token r) : (Action.outcome r).2.limit = o.limit := by
  cases h with
  | nothing | fault => rfl
  | token t => unfold offer; split <;> rfl

/-- Every token counts. -/
theorem length (h : Offers o token r) :
    (Action.outcome r).2.length = o.length + token.elim 0 Token.length := by
  cases h with
  | nothing | fault => rfl
  | token t => unfold offer; split <;> rfl

theorem toString_of_le (h : Offers o token r)
    (hle : (o.length + token.elim 0 Token.length : Nat) ≤ o.limit) :
    (Action.outcome r).2.toString = o.toString ++ token.elim "" Token.toString := by
  cases h with
  | nothing | fault => exact String.append_empty.symm
  | token t =>
    rw [offer_of_le (t := t) hle]
    exact toString_concat o t _

theorem toString_of_lt (h : Offers o token r)
    (hlt : o.limit < (o.length + token.elim 0 Token.length : Nat)) :
    (Action.outcome r).2.toString = o.toString := by
  cases h with
  | nothing | fault => rfl
  | token t =>
    rw [offer_of_lt (t := t) hlt]
    rfl

/-- The text of a token is kept if nothing fails. -/
theorem toString_eq (h : Offers o token r) :
    (Action.outcome r).2.toString =
      o.toString ++ if (Action.outcome r).1.isOk then token.elim "" Token.toString else "" := by
  cases h with
  | nothing | fault => simp [Action.outcome, Except.isOk, Except.toBool]
  | token t =>
    unfold offer
    split
    · exact toString_concat o t _
    · exact String.append_empty.symm

end Offers

namespace Call

/-- A call is refused exactly if the characters offered before and by it are more than the limit
allows. -/
theorem refused_iff (call : Call) (o : Output) :
    call.result o = .error (.textTooLong o.limit) ↔ call.token? ≠ none ∧
    o.limit < (o.length + call.size : Nat) :=
  (call.offers o).refused_iff

theorem after_limit (call : Call) (o : Output) : (call.after o).limit = o.limit :=
  (call.offers o).limit

theorem after_length (call : Call) (o : Output) : (call.after o).length = o.length + call.size :=
  (call.offers o).length

theorem after_toString_of_le (h : (o.length + call.size : Nat) ≤ o.limit) :
    (call.after o).toString = o.toString ++ call.text := (call.offers o).toString_of_le h

theorem after_toString_of_lt (h : o.limit < (o.length + call.size : Nat)) :
    (call.after o).toString = o.toString :=
  (call.offers o).toString_of_lt h

theorem after_of_token (h : call.token? = none) (o : Output) : call.after o = o := by
  have hoffers := call.offers o
  rw [h] at hoffers
  exact hoffers.unchanged

theorem length_text (call : Call) : call.text.length = call.size := by
  unfold text size
  cases call.token? with
  | none => rfl
  | some t => exact t.length_toString

/-- Before the count has passed the limit, a call is refused exactly if it passes it then. -/
theorem refused_iff_of_le (h : o.length ≤ o.limit) :
    call.result o = .error (.textTooLong o.limit) ↔ o.limit < (call.after o).length := by
  rw [refused_iff, after_length]
  refine ⟨And.right, fun hlt => ⟨fun hnone => ?_, hlt⟩⟩
  rw [size, hnone, Option.elim_none] at hlt
  omega

/-- Once the count has passed the limit, a call that comes to a token is refused. -/
theorem refused_of_lt (h : o.limit < o.length) (htoken : call.token? ≠ none) :
    call.result o = .error (.textTooLong o.limit) :=
  (call.refused_iff o).mpr ⟨htoken, by omega⟩

end Call

/-! ## Runs -/

theorem run_append (before later : List Call) (o : Output) :
    run (before ++ later) o = run later (run before o) :=
  List.foldl_append

theorem offered_append (before later : List Call) :
    offered (before ++ later) = offered before + offered later := by
  induction before with
  | nil => rw [List.nil_append, offered, Nat.zero_add]
  | cons call calls ih => rw [List.cons_append, offered, ih, offered, Nat.add_assoc]

theorem run_limit (calls : List Call) (o : Output) : (run calls o).limit = o.limit := by
  induction calls generalizing o with
  | nil => rfl
  | cons call calls ih => exact (ih _).trans (call.after_limit o)

theorem run_length (calls : List Call) (o : Output) :
    (run calls o).length = o.length + offered calls := by
  induction calls generalizing o with
  | nil => rfl
  | cons call calls ih => exact (ih _).trans (by rw [call.after_length, offered, Nat.add_assoc])

theorem run_toString (calls : List Call) (o : Output) :
    (run calls o).toString = o.toString ++ String.join (written calls o) := by
  induction calls generalizing o with
  | nil => exact String.append_empty.symm
  | cons call calls ih =>
    refine (ih _).trans ?_
    have hcall : (call.after o).toString = o.toString ++ if (call.result o).isOk then
        call.text else "" :=
      (call.offers o).toString_eq
    rw [hcall, String.append_assoc]
    unfold written
    rw [results, List.filter_cons]
    split <;> simp

theorem run_toString_of_lt (h : o.limit < o.length) (calls : List Call) :
    (run calls o).toString = o.toString := by
  induction calls generalizing o with
  | nil => rfl
  | cons call calls ih =>
    have hafter : (call.after o).limit < (call.after o).length := by
      rw [call.after_limit, call.after_length]
      omega
    exact (ih hafter).trans (Call.after_toString_of_lt (by omega))

/-- No call has been refused as long as the count is within the limit. -/
theorem unrefused_iff (h : o.length ≤ o.limit) (calls : List Call) :
    (∀ p ∈ results calls o, p.2 ≠ .error (.textTooLong o.limit)) ↔
    (run calls o).length ≤ o.limit := by
  induction calls generalizing o with
  | nil => exact ⟨fun _ => h, fun _ => List.forall_mem_nil _⟩
  | cons call calls ih =>
    have hlimit := call.after_limit o
    have hrun := run_length calls (call.after o)
    rw [results, List.forall_mem_cons, ne_eq, Call.refused_iff_of_le h, Int.not_lt]
    change _ ↔ ((run calls (call.after o)).length : Int) ≤ o.limit
    rw [← hlimit]
    constructor
    · rintro ⟨hle, hcalls⟩
      exact (ih hle).mp hcalls
    · intro hle
      have hfirst : (call.after o).length ≤ (call.after o).limit := by omega
      exact ⟨hfirst, (ih hfirst).mpr hle⟩

/-- The text is within the limit, and as long as the count is so too, it is the length of the
text. -/
structure Bounded (o : Output) : Prop where
  within : o.toString.length ≤ o.limit
  counted : o.length ≤ o.limit → o.length = o.toString.length

theorem Bounded.after (h : Bounded o) (call : Call) : Bounded (call.after o) := by
  have hwithin := h.within
  have hcounted := h.counted
  have hlimit := call.after_limit o
  have hlength := call.after_length o
  by_cases hle : (o.length + call.size : Nat) ≤ o.limit
  · have htext : (call.after o).toString.length = o.toString.length + call.size := by
      rw [Call.after_toString_of_le hle, String.length_append, call.length_text]
    exact ⟨by omega, fun _ => by omega⟩
  · have htext := Call.after_toString_of_lt (Int.not_le.mp hle)
    exact ⟨by rw [htext, hlimit]; exact hwithin, fun hlate => by omega⟩

theorem Bounded.run (h : Bounded o) (calls : List Call) : Bounded (run calls o) := by
  induction calls generalizing o with
  | nil => exact h
  | cons call calls ih => exact ih (h.after call)

/-- From the first refusal on nothing is kept any more. -/
theorem run_of_refused (h : call.result o = .error (.textTooLong o.limit)) (later : List Call) :
    (run (call :: later) o).toString = o.toString ∧ ∀ next : Call, next.token? ≠ none →
      next.result (run (call :: later) o) = .error (.textTooLong o.limit) := by
  have hpast := ((call.refused_iff o).mp h).2
  have hfull : (call.after o).limit < (call.after o).length := by
    rwa [call.after_limit, call.after_length]
  have hlimit : (run (call :: later) o).limit = o.limit := run_limit _ o
  refine ⟨(run_toString_of_lt hfull later).trans (Call.after_toString_of_lt hpast),
    fun next hnext => ?_⟩
  rw [← hlimit]
  refine Call.refused_of_lt ?_ hnext
  rw [hlimit, run_length, offered]
  omega

/-- After any run of calls on a new output, failing ones included: the text is within the limit and
consists of the texts of the calls that did not fail, and the count is its length unless a call has
been refused. A call is refused exactly if it comes to a token and all tokens offered so far, those
refused included, have more characters than the limit allows; one that comes to no token changes
nothing. After a refusal every call that comes to a token is refused, and the text stays as it
is. -/
theorem run_bounded (limit : Int) (hlimit : 0 ≤ limit) (calls : List Call) :
    let o := run calls { limit }
    o.toString.length ≤ limit ∧ o.toString = String.join (written calls { limit }) ∧
    (o.length = o.toString.length ↔
      ∀ p ∈ results calls { limit }, p.2 ≠ .error (.textTooLong limit)) ∧
    (∀ call : Call,
      (call.result o = .error (.textTooLong limit) ↔
        call.token? ≠ none ∧ limit < offered (calls ++ [call])) ∧
      (∀ fault, call.result o = .error fault → fault.family = .table → fault = .textTooLong limit) ∧
      (call.token? = none → call.after o = o)) ∧
    ∀ call later, call.result o = .error (.textTooLong limit) →
      (run (calls ++ call :: later) { limit }).toString = o.toString ∧
      ∀ next : Call, next.token? ≠ none →
        next.result (run (calls ++ call :: later) { limit }) = .error (.textTooLong limit) := by
  intro o
  have hnew : Bounded { limit } := ⟨hlimit, fun _ => rfl⟩
  have hbounded : Bounded o := hnew.run calls
  have holimit : o.limit = limit := run_limit calls { limit }
  have holength : o.length = offered calls := (run_length calls { limit }).trans (Nat.zero_add _)
  have hwithin := hbounded.within
  have hcounted := hbounded.counted
  rw [holimit] at hwithin hcounted
  refine ⟨hwithin, ?_, ?_, fun call => ⟨?_, fun fault => ?_, fun hnone => ?_⟩,
    fun call later hrefused => ?_⟩
  · exact (run_toString calls { limit }).trans String.empty_append
  · refine Iff.trans ⟨fun heq => ?_, hcounted⟩ (unrefused_iff (o := { limit }) hlimit calls).symm
    rwa [← heq] at hwithin
  · have hoffered : offered (calls ++ [call]) = o.length + call.size := by
      rw [offered_append, holength, offered, offered, Nat.add_zero]
    rw [hoffered, ← holimit]
    exact call.refused_iff o
  · rw [← holimit]
    exact (call.offers o).eq_tooLong
  · exact Call.after_of_token hnone o
  · have hlate := run_of_refused (o := o) (holimit ▸ hrefused) later
    rw [holimit] at hlate
    rw [run_append]
    exact hlate

/-- Five characters fill the output: a label is refused, and after it even an empty separator. -/
theorem run_bounded_full :
    let calls : List Call := [.mnemonic "LD" 3, .value (.text ""), .separator ", "]
    let label : Call := .address 0x10 "0010" (some "X")
    let o := run calls { limit := 5 }
    let u := run (calls ++ [label]) { limit := 5 }
    o.toString = "LD , " ∧ o.length = 5 ∧ label.result o = .error (.textTooLong 5) ∧
    u.toString = o.toString ∧
      u.length = 6 ∧ (Call.separator "").result u = .error (.textTooLong 5) := by
  intro calls label o u
  obtain ⟨-, -, -, hcalls, hlater⟩ := run_bounded 5 (by decide) calls
  have hrefused : label.result o = .error (.textTooLong 5) :=
    (hcalls label).1.mpr ⟨by decide, by decide⟩
  obtain ⟨hfixed, hnext⟩ := hlater label [] hrefused
  exact ⟨by decide, by decide, hrefused, hfixed, by decide, hnext (.separator "") (by decide)⟩

end Disassembler.Output
