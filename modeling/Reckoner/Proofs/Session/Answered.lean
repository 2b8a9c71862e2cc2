import Reckoner.Proofs.Answer.Text
import Reckoner.Proofs.Evaluation.Deadline
import Reckoner.Proofs.Expr.EchoRoundTrip
import Reckoner.Session

/-!
# What a call is answered with

A call shows one message, the newest one, however many the evaluation reported. This file proves
that the message tells whether there is an answer. Without an answer the message is that of a syntax
error or the one about the time, which are added last. With an answer it is neither of them, since
evaluations report other texts and the warning about stale rates comes first, and the answer is not
empty, since every number and every tree that was read has a text.
-/

namespace Reckoner

/-! ## Texts of messages -/

/-- A text begins as its first part does. -/
theorem head?_append_of_head? {first : String} {c : Char} (hfirst : first.toList.head? = some c)
    (rest : String) : (first ++ rest).toList.head? = some c := by
  rw [String.toList_append, List.head?_append, hfirst, Option.some_or]

/-- A text ends as its last part does. -/
theorem getLast?_append_of_getLast? {last : String} {c : Char}
    (hlast : last.toList.getLast? = some c) (before : String) :
    (before ++ last).toList.getLast? = some c := by
  rw [String.toList_append, List.getLast?_append, hlast, Option.some_or]

namespace SyntaxFault

/-- The messages about syntax begin alike. -/
theorem head?_message (fault : SyntaxFault) : fault.message.toList.head? = some 'S' := by
  unfold message
  exact head?_append_of_head? (head?_append_of_head? rfl _) _

/-- No message about syntax is the one about the time. -/
theorem message_ne_timeout (fault : SyntaxFault) : fault.message ≠ timeoutMessage.text := by
  intro hsame
  have hhead := fault.head?_message
  rw [hsame] at hhead
  exact absurd hhead (by decide)

/-- The last letter of a message about syntax, before the point, is no t. -/
theorem getLast?_dropLast_message (fault : SyntaxFault) :
    ∃ c, c ≠ 't' ∧ fault.message.toList.dropLast.getLast? = some c := by
  have hdescription : ∃ c, c ≠ 't' ∧ fault.description.toList.getLast? = some c := by
    cases fault with
    | emptyExpression | unexpectedEnd => exact ⟨'n', by decide, rfl⟩
    | identifierExpected | numberExpected => exact ⟨'d', by decide, rfl⟩
    | unexpected c | badNumber literal | expected c =>
      exact ⟨_, by decide, getLast?_append_of_getLast? rfl _⟩
  obtain ⟨c, hc, hlast⟩ := hdescription
  refine ⟨c, hc, ?_⟩
  have hpoint : (".".toList : List Char) = ['.'] := rfl
  rw [message, String.toList_append, hpoint, List.dropLast_concat]
  exact getLast?_append_of_getLast? hlast _

end SyntaxFault

namespace EvaluationFault

/-- But for one, the messages of evaluations begin otherwise than those about syntax and time. -/
theorem head?_message {fault : EvaluationFault}
    (hfault : ∀ function, fault ≠ .dimensionedArgument function) :
    ∃ c, c ≠ 'S' ∧ c ≠ 'T' ∧ fault.message.toList.head? = some c := by
  cases fault with
  | unknownName name | noConversion unit | unknownUnit unit | unknownFunction name
  | wrongArity function =>
    unfold message
    exact ⟨_, by decide, by decide, head?_append_of_head? (head?_append_of_head? rfl _) _⟩
  | incompatibleUnits | compoundUnits | inverseUnits | unitPowers | divisionByZero | plotBounds
  | plotRange => exact ⟨_, by decide, by decide, rfl⟩
  | dimensionedArgument function => exact absurd rfl (hfault function)

/-- The message that begins with the name of a function, and so with anything, ends otherwise. -/
theorem getLast?_dropLast_message (function : String) :
    (dimensionedArgument function).message.toList.dropLast.getLast? = some 't' := by
  let ending := " expects a dimensionless argument."
  have hsome : ending.toList ≠ [] := by decide
  have hlast : ending.toList.dropLast.getLast? = some 't' := by decide
  show (function ++ ending).toList.dropLast.getLast? = some 't'
  rw [String.toList_append, List.dropLast_append_of_ne_nil hsome, List.getLast?_append, hlast,
    Option.some_or]

/-- No message of an evaluation is one about syntax. -/
theorem message_ne_syntax (fault : EvaluationFault) (other : SyntaxFault) :
    fault.message ≠ other.message := by
  intro hsame
  by_cases hfault : ∃ function, fault = .dimensionedArgument function
  · obtain ⟨function, rfl⟩ := hfault
    obtain ⟨c, hc, hlast⟩ := other.getLast?_dropLast_message
    rw [← hsame, getLast?_dropLast_message] at hlast
    exact hc (Option.some.inj hlast).symm
  · obtain ⟨c, hc, -, hhead⟩ := head?_message fun function h => hfault ⟨function, h⟩
    rw [hsame, other.head?_message] at hhead
    exact hc (Option.some.inj hhead).symm

/-- No message of an evaluation is the one about the time. -/
theorem message_ne_timeout (fault : EvaluationFault) : fault.message ≠ timeoutMessage.text := by
  intro hsame
  by_cases hfault : ∃ function, fault = .dimensionedArgument function
  · obtain ⟨function, rfl⟩ := hfault
    have hlast := getLast?_dropLast_message function
    rw [hsame] at hlast
    exact absurd hlast (by decide)
  · obtain ⟨c, -, hc, hhead⟩ := head?_message fun function h => hfault ⟨function, h⟩
    rw [hsame] at hhead
    have hbegins : timeoutMessage.text.toList.head? = some 'T' := rfl
    exact hc (Option.some.inj (hhead.symm.trans hbegins))

end EvaluationFault

/-! ## Messages of an evaluation -/

/-- A message that an evaluation reports. -/
def Message.IsFault (m : Message) : Prop :=
  ∃ fault : EvaluationFault, m = ⟨.error, fault.message⟩

/-- Whatever an evaluation adds to the messages is the report of a fault. -/
def Evaluation.AddsFaults {α : Type} (x : Evaluation α) : Prop :=
  ∀ a, (∀ m ∈ a.messages, m.IsFault) → ∀ m ∈ (x.run a).2.messages, m.IsFault

/-- All steps of an evaluation report faults at the most. -/
theorem Evaluation.congruence_addsFaults : Congruence fun x _ => AddsFaults x where
  pure _ _ ha := ha
  throw _ _ ha := ha
  bind {_ _ x _ f _} hx hf a ha := by
    have hfirst := hx a ha
    rw [run_bind]
    cases hrun : x.run a with
    | mk outcome b =>
      rw [hrun] at hfirst
      cases outcome with
      | ok v => exact hf v b hfirst
      | error halt => exact hfirst
  report fault a ha m hm := by
    rcases List.mem_cons.mp hm with rfl | hearlier
    · exact ⟨fault, rfl⟩
    · exact ha m hearlier
  modify hmessages _ a ha := by
    rw [run_modify, hmessages]
    exact ha
  readBinding hf a ha := hf a.binding a ha
  withBinding hx value a ha := hx { a with binding := some value } ha

/-- An expression reports faults at the most. -/
theorem Scope.addsFaults_eval (scope : Scope) (e : Expr) : (scope.eval e).AddsFaults := by
  have hrelated : scope.Related (fun x _ => x.AddsFaults) scope := {
    congruence := Evaluation.congruence_addsFaults
    constants_eq := rfl
    functions_eq := rfl
    settings_eq := rfl
    checkDeadline := fun a ha => by
      rw [run_checkDeadline]
      exact ha }
  exact hrelated.eval fun _ _ => ⟨rfl, fun _ _ => rfl⟩

/-! ## Texts of answers -/

/-- A tree that was read has a text. -/
theorem Expr.echo_ne_empty {text : String} {e : Expr} (hparse : parse text = .ok e)
    (unicode : Bool) : e.echo unicode ≠ "" := by
  have hread := (everywhere_wasRead_of_parse hparse).here
  intro hnone
  have hchars : e.echoChars unicode = [] := String.ofList_eq_empty_iff.mp hnone
  cases e with
  | number value =>
    rw [echoChars] at hchars
    exact Decimal.plain_ne_nil value hchars
  | name label =>
    obtain ⟨c, others, hlabel, -⟩ := hread.begins
    rw [echoChars, hlabel] at hchars
    cases hchars
  | neg operand =>
    rw [echoChars] at hchars
    cases hchars
  | binary op left right =>
    rw [echoChars, List.append_assoc] at hchars
    have hsymbol := (List.append_eq_nil_iff.mp (List.append_eq_nil_iff.mp hchars).2).1
    cases op <;> cases unicode <;> cases hsymbol
  | call function arguments =>
    rw [echoChars] at hchars
    cases (List.append_eq_nil_iff.mp (List.append_eq_nil_iff.mp hchars).1).2
  | convert operand unit =>
    rw [echoChars] at hchars
    cases (List.append_eq_nil_iff.mp (List.append_eq_nil_iff.mp hchars).1).2

namespace StandardEngine

/-- Every quantity has a text. -/
theorem render_ne_empty (engine : StandardEngine) (settings : Settings) (q : Quantity) :
    engine.render settings q ≠ "" := by
  unfold render
  split
  next value suffix _ =>
    have hnumber : (if q.approximate && value.isFinite then
        Answer.approximate settings.print q.precision value
        else Answer.exact settings.print value) ≠ "" := by
      split
      · exact Answer.approximate_ne_empty settings.print q.precision value
      · exact Answer.exact_ne_empty settings.print value
    dsimp only
    split
    · exact hnumber
    · exact fun hnone => hnumber (String.append_eq_empty_iff.mp hnone).1

/-- The four ends of reading and evaluating a text with an engine that has no earlier messages. -/
inductive Ends (text : String) (run : EngineRun StandardEngine) : Prop
  /-- The text nests too deeply. -/
  | tooDeep (hparse : Expr.parse text = .error .tooDeep)
      (houtcome : run.outcome = .error (.recursionLimit maxDepth))
  /-- The text is no expression. -/
  | invalid (fault : SyntaxFault) (hparse : Expr.parse text = .error (.invalid fault))
      (houtcome : run.outcome = .ok ⟨text, ""⟩)
      (hmessages : run.engine.messages = [⟨.error, fault.message⟩])
  /-- The time was not enough for the expression. -/
  | late (e : Expr) (parsed : String) (hparse : Expr.parse text = .ok e)
      (houtcome : run.outcome = .ok ⟨parsed, ""⟩)
      (hmessages : run.engine.messages.head? = some timeoutMessage)
  /-- The expression has an answer. -/
  | answered (e : Expr) (evaluated : Evaluated) (hparse : Expr.parse text = .ok e)
      (houtcome : run.outcome = .ok evaluated) (hformatted : evaluated.formatted ≠ "")
      (hmessages : ∀ m ∈ run.engine.messages, m.IsFault ∨ m = staleRatesMessage)

/-- An evaluation of an expression reports faults at the most. -/
theorem isFault_of_mem_evaluate (engine : StandardEngine) (settings : Settings) (clock : Clock)
    (budget : Nat) (plot : PlotSlot) (e : Expr) :
    ∀ m ∈ (engine.evaluate settings clock budget { plot } e).2.messages, m.IsFault :=
  (engine.scope settings clock (clock.reading 0 + budget * millisecond)).addsFaults_eval e _
    (by simp)

/-- Reading and evaluating a text meets one of the four ends. -/
theorem ends_evaluateAndFormat {engine : StandardEngine} (hempty : engine.messages = [])
    (clock : Clock) (settings : Settings) (budget : Nat) (text : String) (plot : PlotSlot) :
    Ends text (engine.evaluateAndFormat clock settings budget text plot) := by
  cases hparse : Expr.parse text with
  | error parseError =>
    cases parseError with
    | tooDeep =>
      refine .tooDeep hparse ?_
      rw [evaluateAndFormat, hparse]
    | invalid fault =>
      refine .invalid fault hparse ?_ ?_
      · rw [evaluateAndFormat, hparse]
      · rw [evaluateAndFormat, hparse]
        dsimp only
        rw [hempty]
  | ok e =>
    have hfaults := engine.isFault_of_mem_evaluate settings clock budget plot e
    cases hrun : engine.evaluate settings clock budget { plot } e with
    | mk outcome run =>
      rw [hrun] at hfaults
      cases outcome with
      | ok q =>
        obtain ⟨warnings, hwarnings, hmessages⟩ := reported_of_ok hparse hrun
        refine .answered e _ hparse (by rw [evaluateAndFormat, hparse]; dsimp only; rw [hrun]) ?_ ?_
        · dsimp only
          split
          · exact Expr.echo_ne_empty hparse _
          · exact engine.render_ne_empty settings q
        · intro m hm
          rw [hmessages, hempty, List.append_nil, List.nil_append] at hm
          rcases List.mem_append.mp hm with hown | hwarning
          · exact .inl (hfaults m hown)
          · refine .inr ?_
            rcases List.mem_pair.mp hwarnings with rfl | rfl
            · cases hwarning
            · exact List.mem_singleton.mp hwarning
      | error halt =>
        cases halt
        obtain ⟨houtcome, warnings, -, hmessages⟩ := reported_of_timeout hparse hrun
        refine .late e _ hparse houtcome ?_
        rw [hmessages]
        rfl

end StandardEngine

/-! ## Results -/

/-- A result has one message at the most, and this message tells whether there is an output: there
is none just for the messages about syntax, which are about texts that are no expressions, and for
the one about the time. -/
structure CallResult.Explained (result : CallResult) (text : String) : Prop where
  length_messages_le : result.messages.length ≤ 1
  output_eq_empty_iff : result.output = "" ↔
    (∃ fault : SyntaxFault, result.messages = [⟨.error, fault.message⟩]) ∨
      result.messages = [⟨.error, "Timeout reached."⟩]
  syntaxFault_iff : (∃ fault : SyntaxFault, result.messages = [⟨.error, fault.message⟩]) ↔
    ∃ fault, Expr.parse text = .error (.invalid fault)

namespace StandardEngine.Ends

variable {text : String} {run : EngineRun StandardEngine}

/-- Only a text that nests too deeply has no result, and its nesting is the reason. -/
theorem outcome_eq_error_iff (hends : Ends text run) (fault : EngineFault) :
    run.outcome = .error fault ↔
      Expr.parse text = .error .tooDeep ∧ fault = .recursionLimit maxDepth := by
  cases hends with
  | tooDeep hparse houtcome =>
    rw [houtcome]
    exact ⟨fun h => ⟨hparse, (Except.error.inj h).symm⟩, fun h => congrArg _ h.2.symm⟩
  | invalid other hparse houtcome hmessages =>
    rw [houtcome, hparse]
    simp
  | late e parsed hparse houtcome hmessages =>
    rw [houtcome, hparse]
    simp
  | answered e evaluated hparse houtcome hformatted hmessages =>
    rw [houtcome, hparse]
    simp

/-- The newest message explains the output. -/
theorem explained (hends : Ends text run) {evaluated : Evaluated}
    (houtcome : run.outcome = .ok evaluated) (plot : Option PlotPayload) :
    CallResult.Explained {
      input := evaluated.parsed
      output := evaluated.formatted
      messages := run.engine.messages.head?.toList.map Diagnostic.ofMessage
      plot } text := by
  cases hends with
  | tooDeep hparse hfailed => cases hfailed.symm.trans houtcome
  | invalid fault hparse hread hmessages =>
    obtain rfl := Except.ok.inj (hread.symm.trans houtcome)
    rw [hmessages]
    exact ⟨Nat.le_refl 1, iff_of_true rfl (.inl ⟨fault, rfl⟩),
      iff_of_true ⟨fault, rfl⟩ ⟨fault, hparse⟩⟩
  | late e parsed hparse hlate hmessages =>
    obtain rfl := Except.ok.inj (hlate.symm.trans houtcome)
    rw [hmessages]
    refine ⟨Nat.le_refl 1, iff_of_true rfl (.inr rfl), iff_of_false ?_ ?_⟩
    · rintro ⟨fault, hsame⟩
      exact fault.message_ne_timeout (congrArg Diagnostic.text (List.singleton_injective hsame)).symm
    · rintro ⟨fault, hinvalid⟩
      cases hparse.symm.trans hinvalid
  | answered e _ hparse hanswered hformatted hmessages =>
    obtain rfl := Except.ok.inj (hanswered.symm.trans houtcome)
    -- Neither a fault nor the warning is a message about syntax or time.
    have hnewest : ∀ d, run.engine.messages.head?.toList.map Diagnostic.ofMessage = [d] →
        d.severity = .warning ∨ ∃ fault : EvaluationFault, d.text = fault.message := by
      intro d hd
      obtain ⟨m, hm, rfl⟩ : ∃ m ∈ run.engine.messages, Diagnostic.ofMessage m = d := by
        cases hall : run.engine.messages with
        | nil =>
          rw [hall] at hd
          cases hd
        | cons newest others =>
          rw [hall] at hd
          exact ⟨newest, List.mem_cons_self, List.singleton_injective hd⟩
      rcases hmessages m hm with ⟨fault, rfl⟩ | rfl
      · exact .inr ⟨fault, rfl⟩
      · exact .inl rfl
    have hsyntax : ¬ ∃ fault : SyntaxFault,
        run.engine.messages.head?.toList.map Diagnostic.ofMessage = [⟨.error, fault.message⟩] := by
      rintro ⟨fault, hsame⟩
      rcases hnewest _ hsame with hwarning | ⟨other, htext⟩
      · cases hwarning
      · exact other.message_ne_syntax fault htext.symm
    have htimeout : run.engine.messages.head?.toList.map Diagnostic.ofMessage ≠
        [⟨.error, timeoutMessage.text⟩] := by
      intro hsame
      rcases hnewest _ hsame with hwarning | ⟨other, htext⟩
      · cases hwarning
      · exact other.message_ne_timeout htext.symm
    refine ⟨?_, iff_of_false hformatted ?_, iff_of_false hsyntax ?_⟩
    · rw [List.length_map]
      exact Option.length_toList_le
    · rintro (hfault | hlate)
      · exact hsyntax hfault
      · exact htimeout hlate
    · rintro ⟨fault, hinvalid⟩
      cases hparse.symm.trans hinvalid

end StandardEngine.Ends

/-! ## Calls -/

namespace Session

open StandardEngine

/-- A call on a loaded engine with some time answers with the newest message, if there is one. -/
theorem fst_calculate (session : Session StandardEngine) (clock : Clock) (expression : String)
    {timeout : Int} (flags : CallFlags) (hloaded : session.engine.isLoaded = true)
    (htimeout : 0 < timeout) :
    let settings := flags.apply session.settings
    let run := StandardEngine.evaluateAndFormat { session.engine with messages := [] } clock
      settings timeout.toNat (plainInput settings.parse expression) .empty
    (session.calculate clock expression timeout flags).1 =
      match run.outcome with
      | .error fault => .error (.resourceExhausted fault.message)
      | .ok evaluated => .ok {
          input := evaluated.parsed
          output := evaluated.formatted
          messages := run.engine.messages.head?.toList.map Diagnostic.ofMessage
          plot := run.plot.payload? } := by
  intro settings run
  have hchecked : checkedTimeout timeout = .ok timeout.toNat := if_pos htimeout
  have hisLoaded : Engine.isLoaded session.engine = true := hloaded
  have hnewest (engine : StandardEngine) :
      (Engine.nextMessage engine).1 = engine.messages.head? := by
    show (StandardEngine.nextMessage engine).1 = _
    unfold StandardEngine.nextMessage
    cases engine.messages <;> rfl
  have hrun : Engine.evaluateAndFormat (Engine.clearMessages session.engine) clock settings
      timeout.toNat
      (Engine.normalizeInput (Engine.clearMessages session.engine) settings.parse expression)
      .empty = run := rfl
  rw [calculate, hchecked]
  dsimp only
  rw [evaluate, hchecked]
  dsimp only
  rw [hisLoaded, if_pos rfl, hrun]
  cases run.outcome with
  | error fault => rfl
  | ok evaluated =>
    dsimp only
    rw [hnewest]

/-- A call on a loaded engine with some time fails on a text that nests too deeply in the plain form
that the settings ask for. -/
theorem fst_calculate_of_tooDeep (session : Session StandardEngine) (clock : Clock)
    {expression : String} {timeout : Int} (flags : CallFlags)
    (hloaded : session.engine.isLoaded = true) (htimeout : 0 < timeout)
    (hparse : Expr.parse (plainInput (flags.apply session.settings).parse expression) =
      .error .tooDeep) :
    (session.calculate clock expression timeout flags).1 =
      .error (.resourceExhausted (EngineFault.recursionLimit maxDepth).message) := by
  rw [session.fst_calculate clock expression flags hloaded htimeout, evaluateAndFormat, hparse]

/-- A call on a loaded engine with some time fails just when the text, in the plain form that the
settings ask for, nests too deeply, and then for that reason. Otherwise it has a result with one
message at the most, and this message tells whether there is an output. -/
theorem calculate_answered (session : Session StandardEngine) (clock : Clock) (expression : String)
    (timeout : Int) (flags : CallFlags) (hloaded : session.engine.isLoaded = true)
    (htimeout : 0 < timeout) :
    let text := plainInput (flags.apply session.settings).parse expression
    let answer := (session.calculate clock expression timeout flags).1
    ((∃ failure, answer = .error failure) ↔ Expr.parse text = .error .tooDeep) ∧
      (∀ failure, answer = .error failure →
        failure = .resourceExhausted (EngineFault.recursionLimit maxDepth).message) ∧
      ∀ result, answer = .ok result → result.Explained text := by
  intro text answer
  let cleared : StandardEngine := { session.engine with messages := [] }
  have hempty : cleared.messages = [] := rfl
  have hends := ends_evaluateAndFormat hempty clock (flags.apply session.settings) timeout.toNat
    text .empty
  have hanswer := session.fst_calculate clock expression flags hloaded htimeout
  dsimp only at hanswer
  change answer = _ at hanswer
  generalize StandardEngine.evaluateAndFormat _ _ _ _ _ _ = run at hends hanswer
  rw [hanswer]
  cases houtcome : run.outcome with
  | error fault =>
    obtain ⟨hparse, rfl⟩ := (hends.outcome_eq_error_iff fault).mp houtcome
    refine ⟨iff_of_true ⟨_, rfl⟩ hparse, fun failure h => ?_, fun result h => ?_⟩
    · exact (Except.error.inj h).symm
    · cases h
  | ok evaluated =>
    refine ⟨iff_of_false ?_ fun hparse => ?_, fun failure h => ?_, fun result h => ?_⟩
    · rintro ⟨failure, h⟩
      cases h
    · cases houtcome.symm.trans ((hends.outcome_eq_error_iff _).mpr ⟨hparse, rfl⟩)
    · cases h
    · obtain rfl := Except.ok.inj h
      exact hends.explained houtcome _

/-- Two unknown names are reported, one of them is shown, and the sum is undefined. -/
theorem calculate_answered_unknowns :
    let session : Session StandardEngine := { engine := withDefinitions }
    let answer := (session.calculate (.metered 0 1) "foo − bar" 500 {}).1
    session.engine.isLoaded = true ∧ (0 : Int) < 500 ∧ ∃ result, answer = .ok result ∧
      result.output = "undefined" ∧
      result.messages = [⟨.error, "Unknown variable or unit: bar."⟩] ∧
      result.Explained "foo - bar" := by
  intro session answer
  have hloaded : session.engine.isLoaded = true := by rfl
  have htext : plainInput (({} : CallFlags).apply session.settings).parse "foo − bar" =
      "foo - bar" := by
    decide +kernel
  have hshown : answer.toOption.map (fun result => (result.output, result.messages)) =
      some ("undefined", [⟨.error, "Unknown variable or unit: bar."⟩]) := by
    decide +kernel
  obtain ⟨-, -, hexplained⟩ := session.calculate_answered (.metered 0 1) "foo − bar" 500 {} hloaded
    (by decide)
  rw [htext] at hexplained
  cases hanswer : answer with
  | error failure =>
    rw [hanswer] at hshown
    cases hshown
  | ok result =>
    rw [hanswer] at hshown
    obtain ⟨houtput, hmessages⟩ := Prod.mk.inj (Option.some.inj hshown)
    exact ⟨hloaded, by decide, result, rfl, houtput, hmessages, hexplained result hanswer⟩

end Session

end Reckoner
