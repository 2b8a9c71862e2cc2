import Reckoner.CommandLine
import Reckoner.Proofs.Expr.EchoNormalized
import Reckoner.Proofs.Session.Answered
import Reckoner.Proofs.Session.Flags
import Reckoner.Proofs.Session.Isolation
import Reckoner.Proofs.Settings.Command

/-!
# What the rates command leaves

The command carries out the setting commands, reads a table, applies it as one batch and evaluates
expressions until one of them fails as a call. This file proves what it writes and how it exits.
Since calls leave no trace, every expression is answered as if it were the first after the batch, so
that the results are read off answers that do not depend on each other.
-/

namespace Reckoner.CommandLine

open Assignment Session Transcript

/-! ## Setting commands -/

/-- Commands that are all accepted are carried out. -/
theorem applySettings_of_accepted (calculator : Calculator) {commands : List String}
    (haccepted : ∀ command ∈ commands, ¬ Refused command) :
    applySettings calculator commands = .ok (calculator.afterCommands commands) := by
  induction commands generalizing calculator with
  | nil => rfl
  | cons command others ih =>
    obtain ⟨hcommand, hothers⟩ := List.forall_mem_cons.mp haccepted
    obtain ⟨assignment, hread⟩ := Option.ne_none_iff_exists'.mp (mt refused_iff.mpr hcommand)
    have hset : calculator.setOption command = (true, (calculator.setOption command).2) := by
      rw [setOption_eq, hread]
      rfl
    rw [applySettings, hset]
    exact ih _ hothers

/-- Where one command is refused, no calculator comes of them. -/
theorem applySettings_of_refused (calculator : Calculator) {commands : List String}
    {command : String} (hmem : command ∈ commands) (hrefused : Refused command) :
    ∃ first, applySettings calculator commands = .error first := by
  induction commands generalizing calculator with
  | nil => cases hmem
  | cons first others ih =>
    rw [applySettings, setOption_eq]
    cases hread : read? first with
    | none => exact ⟨first, rfl⟩
    | some assignment =>
      have hother : command ∈ others := by
        rcases List.mem_cons.mp hmem with rfl | hother
        · rw [refused_iff.mp hrefused] at hread
          cases hread
        · exact hother
      exact ih _ hother

/-! ## Expressions -/

/-- What a calculator answers to some expressions, to each as if it were the first. -/
def answers (clocks : Nat → Clock) (timeout : Int) (calculator : Calculator)
    (expressions : List String) : List (Except CallError CallResult) :=
  expressions.mapIdx fun i expression => (calculator.calculate (clocks i) expression timeout {}).1

/-- No flags change no settings. -/
theorem apply_noFlags (settings : Settings) : CallFlags.apply {} settings = settings :=
  rfl

/-- Calls one after another have the answers that each has for itself, up to the first that fails,
also when others were made before. -/
theorem callAll_eq {start calculator : Calculator}
    (hengine : start.engine.SameDefinitions calculator.engine)
    (hsettings : start.settings = calculator.settings) (clocks : Nat → Clock) (timeout : Int)
    (expressions : List String) :
    ∃ rest, answers clocks timeout start expressions =
        (callAll clocks timeout {} calculator expressions).1.map .ok ++ rest ∧
      rest.head? = (callAll clocks timeout {} calculator expressions).2.1.map .error := by
  induction expressions generalizing calculator clocks with
  | nil => exact ⟨[], rfl, rfl⟩
  | cons expression others ih =>
    let c : Call := ⟨clocks 0, expression, timeout, {}⟩
    have hanswer : (start.call c).1 = (calculator.call c).1 := call_answer_eq hengine hsettings c
    have hkept := hengine.trans (sameDefinitions_call calculator c)
    have hsame : start.settings = (calculator.call c).2.settings := by
      rw [settings_call, apply_noFlags, ite_self, hsettings]
    have hcons : answers clocks timeout start (expression :: others) =
        (start.call c).1 :: answers (fun n => clocks (n + 1)) timeout start others :=
      List.mapIdx_cons
    have hcall : calculator.calculate (clocks 0) expression timeout {} = calculator.call c := rfl
    obtain ⟨rest, hanswers, hrest⟩ := ih hkept hsame fun n => clocks (n + 1)
    rw [hcons, hanswer, callAll, hcall]
    generalize calculator.call c = answered at hanswers hrest
    obtain ⟨answer | result, after⟩ := answered
    · exact ⟨_, rfl, rfl⟩
    · refine ⟨rest, ?_, hrest⟩
      rw [hanswers]
      rfl

/-- With as many signs in front as there are levels, an expression fails as a call. -/
theorem fst_calculate_replicate_minus (calculator : Calculator) (clock : Clock) {timeout : Int}
    (flags : CallFlags) (hloaded : calculator.engine.isLoaded = true) (htimeout : 0 < timeout)
    (hpoint : (flags.apply calculator.settings).parse.decimalComma = false) :
    (calculator.calculate clock (String.ofList (List.replicate maxDepth '-' ++ ['1'])) timeout
      flags).1 = .error (.resourceExhausted (EngineFault.recursionLimit maxDepth).message) := by
  have hmem {c : Char} (hc : c ∈ List.replicate maxDepth '-' ++ ['1']) : c = '-' ∨ c = '1' :=
    (List.mem_append.mp hc).imp List.eq_of_mem_replicate List.mem_singleton.mp
  refine fst_calculate_of_tooDeep calculator clock flags hloaded htimeout ?_
  rw [plainInput_eq_self hpoint]
  · exact Expr.parse_replicate_minus ['1']
  · intro c hc
    obtain rfl | rfl := hmem hc <;> exact isPlain_of_not_mem (by decide)
  · refine .of_forall (List.append_ne_nil_of_right_ne_nil _ (by decide)) fun c hc => ?_
    obtain rfl | rfl := hmem hc <;> decide

/-- There is one way to part answers into results and what begins with an error. -/
theorem results_eq_of_append_eq (results : List CallResult) {results' : List CallResult}
    (rest : List (Except CallError CallResult)) {rest' : List (Except CallError CallResult)}
    (hrest : ∀ answer ∈ rest.head?, ∃ e, answer = .error e)
    (hrest' : ∀ answer ∈ rest'.head?, ∃ e, answer = .error e)
    (h : results.map .ok ++ rest = results'.map .ok ++ rest') : results = results' := by
  induction results generalizing results' with
  | nil =>
    cases results' with
    | nil => rfl
    | cons result' others' =>
      have hbegins : rest = .ok result' :: (others'.map .ok ++ rest') := h
      obtain ⟨e, he⟩ := hrest (.ok result') (by rw [hbegins]; rfl)
      cases he
  | cons result others ih =>
    cases results' with
    | nil =>
      have hbegins : .ok result :: (others.map .ok ++ rest) = rest' := h
      obtain ⟨e, he⟩ := hrest' (.ok result) (by rw [← hbegins]; rfl)
      cases he
    | cons result' others' =>
      obtain ⟨hfirst, hothers⟩ := List.cons.inj h
      rw [Except.ok.inj hfirst, ih hothers]

/-! ## The command -/

/-- What is written and how the command exits once the table is read: after the report come the
results of the expressions up to the first that fails, each as the calculator answers it that the
batch leaves. -/
theorem runRates_answers (clocks : Nat → Clock) (timeout : Int) (calculator : Calculator)
    (rows : List RateRow) (base : String) (warn : Bool) (expressions : List String) :
    let transcript := runRates clocks timeout calculator rows base warn expressions
    let updated := calculator.updateRates (clocks 0) rows base warn
    ∃ (results : List CallResult) (rest : List (Except CallError CallResult)),
      answers (fun n => clocks (n + 1)) timeout updated.2 expressions = results.map .ok ++ rest ∧
      (∀ answer ∈ rest.head?, ∃ e, answer = .error e) ∧
      transcript.output = line updated.1.toJson.pretty ++ resultLines results ∧
      transcript.exitCode =
        if results.length < expressions.length then 1
        else if updated.1.isSuccess then 0 else 2 := by
  intro transcript updated
  obtain ⟨rest, hanswers, hrest⟩ :=
    callAll_eq (.refl updated.2.engine) rfl (fun n => clocks (n + 1)) timeout expressions
  have hrun : transcript = runRates clocks timeout calculator rows base warn expressions := rfl
  rw [runRates] at hrun
  dsimp only at hrun
  generalize callAll _ timeout {} _ expressions = called at hanswers hrest hrun
  obtain ⟨results, error, after⟩ := called
  have hlength : results.length + rest.length = expressions.length := by
    simpa [answers] using (congrArg List.length hanswers).symm
  refine ⟨results, rest, hanswers, ?_⟩
  cases error with
  | none =>
    obtain rfl : rest = [] := List.head?_eq_none_iff.mp hrest
    have hall : ¬ results.length < expressions.length := by simpa using hlength.ge
    exact ⟨nofun, congrArg Transcript.output hrun,
      (congrArg Transcript.exitCode hrun).trans (if_neg hall).symm⟩
  | some e =>
    obtain ⟨others, rfl⟩ : ∃ others, rest = .error e :: others := List.head?_eq_some_iff.mp hrest
    have hsome : results.length < expressions.length := by
      rw [List.length_cons] at hlength
      omega
    refine ⟨fun answer hanswer => ⟨e, ?_⟩, congrArg Transcript.output hrun,
      (congrArg Transcript.exitCode hrun).trans (if_pos hsome).symm⟩
    exact (Option.some.inj hanswer).symm

/-- A batch succeeds unless its base was refused or a row was skipped. -/
theorem isSuccess_iff (report : RateReport) : report.isSuccess = true ↔
    ¬ (report.baseAccepted = false ∨ report.skipped ≠ []) := by
  simp [RateReport.isSuccess]

/-- The table in a file: its contents are read as JSON, and the JSON as a table. -/
theorem readTable?_eq (contents : Option String) : readTable? contents =
    contents.bind fun text => (Json.parse? text).bind RateRow.tableOfJson? :=
  rfl

/-- For any setting commands, contents of the file, base, budget and expressions: where a setting
command is refused or the contents are no table, nothing is written to the output and the exit code
is 1. Otherwise the output is the report on the batch, followed by the results of the expressions up
to the first that fails as a call, each as the calculator answers it that the setting commands and
the batch leave, and each text ends its line. The exit code is 1 if an expression fails; else 2 if
the base was refused or a row was skipped; else 0. -/
theorem Invocation.runTimed_rates (clocks : Nat → Clock) (contents : Option String)
    (timeout : Int) (commands : List String) (file base : String) (warn : Bool)
    (expressions : List String) :
    let transcript := Invocation.runTimed clocks contents
      ⟨timeout, commands, .rates file base warn expressions⟩
    let table? := contents.bind fun text => (Json.parse? text).bind RateRow.tableOfJson?
    ((∃ command ∈ commands, Refused command) ∨ table? = none →
      transcript.output = "" ∧ transcript.exitCode = 1) ∧
    ∀ rows, (∀ command ∈ commands, ¬ Refused command) → table? = some rows →
      let updated := (Calculator.new.afterCommands commands).updateRates (clocks 0) rows base warn
      let answers := expressions.mapIdx fun i expression =>
        (updated.2.calculate (clocks (i + 1)) expression timeout {}).1
      ∃ (results : List CallResult) (rest : List (Except CallError CallResult)),
        answers = results.map .ok ++ rest ∧ (∀ answer ∈ rest.head?, ∃ e, answer = .error e) ∧
        transcript.output = updated.1.toJson.pretty ++ "\n" ++
          String.join (results.map fun result => result.toJson.pretty ++ "\n") ∧
        transcript.exitCode =
          if results.length < expressions.length then 1
          else if updated.1.baseAccepted = false ∨ updated.1.skipped ≠ [] then 2 else 0 := by
  intro transcript table?
  refine ⟨fun hfailed => ?_, fun rows haccepted htable => ?_⟩
  · by_cases haccepted : ∀ command ∈ commands, ¬ Refused command
    · have hnone : table? = none := hfailed.resolve_left (by simpa using haccepted)
      have hread : readTable? contents = none := (readTable?_eq contents).trans hnone
      simp [transcript, runTimed, applySettings_of_accepted _ haccepted, runCommand, hread]
    · push Not at haccepted
      obtain ⟨command, hmem, hrefused⟩ := haccepted
      obtain ⟨first, hfirst⟩ := applySettings_of_refused .new hmem hrefused
      simp [transcript, runTimed, hfirst, Transcript.failure]
  · intro updated answers
    have hread : readTable? contents = some rows := (readTable?_eq contents).trans htable
    have hrun : transcript = runRates clocks timeout (Calculator.new.afterCommands commands) rows
        base warn expressions := by
      simp [transcript, runTimed, applySettings_of_accepted _ haccepted, runCommand, hread]
    obtain ⟨results, rest, hanswers, hrest, houtput, hexit⟩ := runRates_answers clocks timeout
      (Calculator.new.afterCommands commands) rows base warn expressions
    refine ⟨results, rest, hanswers, hrest, by rw [hrun, houtput]; rfl, ?_⟩
    rw [hrun, hexit]
    simp only [isSuccess_iff, ite_not, updated]

/-- A table with a row for the metre is applied and reported, and dollars are converted. The
expression behind them has more signs than there are levels, so that the last one is not read. -/
theorem Invocation.runTimed_rates_dollars :
    let clocks : Nat → Clock := fun _ => .metered 0 1
    let contents := some "[[\"USD\", 2], [\"m\", 3]]"
    let rates := Command.rates "rates.json" "EUR" true
    let deep := String.ofList (List.replicate 200 '-' ++ ['1'])
    let reported :=
      "\x7b\n" ++
      "  \"base_accepted\": true,\n" ++
      "  \"created\": [\n" ++
      "    \"USD\"\n" ++
      "  ],\n" ++
      "  \"updated\": [],\n" ++
      "  \"skipped\": [\n" ++
      "    \x7b\n" ++
      "      \"index\": 1,\n" ++
      "      \"name\": \"m\"\n" ++
      "    \x7d\n" ++
      "  ]\n" ++
      "\x7d\n"
    let converted :=
      "\x7b\n" ++
      "  \"input\": \"6 USD to EUR\",\n" ++
      "  \"output\": \"≈ 12.00 EUR\",\n" ++
      "  \"messages\": []\n" ++
      "\x7d\n"
    Refused "unicode" ∧ (∀ command ∈ ["unicode on"], ¬ Refused command) ∧
      (contents.bind fun text => (Json.parse? text).bind RateRow.tableOfJson?) =
        some [⟨"USD", "2"⟩, ⟨"m", "3"⟩] ∧
      (Invocation.runTimed clocks contents
        ⟨500, ["unicode on"], rates ["6 USD to EUR", deep, "1"]⟩).output = reported ++ converted ∧
      (Invocation.runTimed clocks contents
        ⟨500, ["unicode on"], rates ["6 USD to EUR", deep, "1"]⟩).exitCode = 1 ∧
      (Invocation.runTimed clocks contents
        ⟨500, ["unicode on"], rates ["6 USD to EUR"]⟩).output = reported ++ converted ∧
      (Invocation.runTimed clocks contents
        ⟨500, ["unicode on"], rates ["6 USD to EUR"]⟩).exitCode = 2 ∧
      (Invocation.runTimed clocks contents
        ⟨500, ["unicode on", "unicode"], rates ["6 USD to EUR"]⟩).output = "" ∧
      (Invocation.runTimed clocks contents
        ⟨500, ["unicode on", "unicode"], rates ["6 USD to EUR"]⟩).exitCode = 1 := by
  intro clocks contents rates deep reported converted
  have hrefused : Refused "unicode" := by
    rw [refused_iff]
    decide +kernel
  have haccepted : ∀ command ∈ ["unicode on"], ¬ Refused command := by
    simp only [List.forall_mem_singleton, refused_iff]
    decide +kernel
  have htable : (contents.bind fun text => (Json.parse? text).bind RateRow.tableOfJson?) =
      some [⟨"USD", "2"⟩, ⟨"m", "3"⟩] := by
    decide +kernel
  let updated := (Calculator.new.afterCommands ["unicode on"]).updateRates (clocks 0)
    [⟨"USD", "2"⟩, ⟨"m", "3"⟩] "EUR" true
  let dollars : CallResult := ⟨"6 USD to EUR", "≈ 12.00 EUR", [], none⟩
  let failure : CallError := .resourceExhausted (EngineFault.recursionLimit maxDepth).message
  have hreport : updated.1 =
      { baseAccepted := true, created := ["USD"], skipped := [⟨1, "m"⟩] } := by
    decide +kernel
  have hdollars : (updated.2.calculate (clocks 1) "6 USD to EUR" 500 {}).1 = .ok dollars := by
    decide +kernel
  have hdeep : (updated.2.calculate (clocks 2) deep 500 {}).1 = .error failure :=
    fst_calculate_replicate_minus updated.2 (clocks 2) {} (by decide +kernel) (by decide)
      (by decide +kernel)
  have hreported : updated.1.toJson.pretty ++ "\n" = reported := by
    rw [hreport]
    decide +kernel
  have hconverted : dollars.toJson.pretty ++ "\n" = converted := by decide +kernel
  have hwritten : updated.1.toJson.pretty ++ "\n" ++
      String.join ([dollars].map fun result => result.toJson.pretty ++ "\n") =
        reported ++ converted := by
    rw [List.map_singleton, hreported, hconverted]
    rfl
  obtain ⟨-, hthree⟩ := runTimed_rates clocks contents 500 ["unicode on"] "rates.json" "EUR" true
    ["6 USD to EUR", deep, "1"]
  obtain ⟨-, hone⟩ := runTimed_rates clocks contents 500 ["unicode on"] "rates.json" "EUR" true
    ["6 USD to EUR"]
  obtain ⟨hnothing, -⟩ := runTimed_rates clocks contents 500 ["unicode on", "unicode"] "rates.json"
    "EUR" true ["6 USD to EUR"]
  obtain ⟨results, rest, hanswers, hrest, houtput, hexit⟩ := hthree _ haccepted htable
  obtain ⟨results', rest', hanswers', hrest', houtput', hexit'⟩ := hone _ haccepted htable
  obtain rfl : [dollars] = results := by
    simp only [List.mapIdx_cons, List.mapIdx_nil, Nat.reduceAdd] at hanswers
    rw [hdollars, hdeep] at hanswers
    refine results_eq_of_append_eq [dollars] [.error failure, _] ?_ hrest hanswers
    exact fun answer hanswer => ⟨failure, (Option.some.inj hanswer).symm⟩
  obtain rfl : [dollars] = results' := by
    simp only [List.mapIdx_cons, List.mapIdx_nil, Nat.reduceAdd] at hanswers'
    rw [hdollars] at hanswers'
    exact results_eq_of_append_eq [dollars] [] nofun hrest' hanswers'
  obtain ⟨hsilent, hfailed⟩ := hnothing (.inl ⟨"unicode", by simp, hrefused⟩)
  have hskipped : updated.1.baseAccepted = false ∨ updated.1.skipped ≠ [] := by
    rw [hreport]
    exact .inr (by decide)
  exact ⟨hrefused, haccepted, htable, houtput.trans hwritten, hexit.trans (if_pos (by decide)),
    houtput'.trans hwritten, hexit'.trans ((if_neg (by decide)).trans (if_pos hskipped)), hsilent,
    hfailed⟩

end Reckoner.CommandLine
