import Reckoner.Proofs.Evaluation.Effects
import Reckoner.Proofs.Expr.EchoCharacters
import Reckoner.Proofs.Session.Answered

/-!
# The script of a plot

A plot leaves commands, and the canonical text of the plotted expression stands between quotes in
one of them. This file reads a script as its commands, in a way that knows nothing of plots: outside
of quotes a line or a semicolon ends a command, and inside of them nothing does but the next quote.
Whatever is plotted, the script is read as two commands, with the text of the expression as the
second of its two quoted texts.
-/

namespace Reckoner

namespace Script

open Text

/-! ## Reading a script -/

/-- A piece of a script: a character outside of quotes, or the text between two of them. -/
inductive Piece where
  | plain (c : Char)
  | quoted (text : List Char)
deriving DecidableEq

mutual

/-- Reads a script outside of quotes. What escapes a character or runs a command is not read. -/
def readPlain : List Char → Option (List Piece)
  | [] => some []
  | c :: rest =>
      if c = '"' then readQuoted [] rest
      else if c = '\\' ∨ c = '\x60' then none
      else (readPlain rest).map (.plain c :: ·)

/-- Reads on inside of quotes, after the characters that are held, the last of them first. The next
quote ends the text, and none of the other characters with a meaning there is read. -/
def readQuoted (held : List Char) : List Char → Option (List Piece)
  | [] => none
  | c :: rest =>
      if c = '"' then (readPlain rest).map (.quoted held.reverse :: ·)
      else if c ∈ quoteMarks then none
      else readQuoted (c :: held) rest

end

/-- Whether a piece ends a command. -/
def Piece.endsCommand : Piece → Bool
  | .plain c => c == '\n' || c == '\r' || c == ';'
  | .quoted _ => false

/-- The commands of a script. -/
def commandsOf? (script : String) : Option (List (List Piece)) :=
  (readPlain script.toList).map (List.splitOnP Piece.endsCommand)

example : (commandsOf? "plot \"x\"; title \"y; z\"").map List.length = some 2 := by
  decide +kernel

variable {text rest : List Char}

/-- A text without the characters that mean something is read as it is. -/
theorem readPlain_append (htext : IsQuotable text) (rest : List Char) :
    readPlain (text ++ rest) = (readPlain rest).map (text.map .plain ++ ·) := by
  induction text with
  | nil =>
    rw [List.nil_append]
    cases readPlain rest <;> rfl
  | cons c others ih =>
    obtain ⟨hc, hothers⟩ := List.forall_mem_cons.mp htext
    simp only [quoteMarks, List.mem_cons, List.not_mem_nil, or_false, not_or] at hc
    obtain ⟨hquote, hescape, hrun, -⟩ := hc
    rw [List.cons_append, readPlain, if_neg hquote, if_neg (not_or.mpr ⟨hescape, hrun⟩), ih hothers,
      Option.map_map]
    rfl

/-- Between quotes, a text without such characters is read to the quote behind it. -/
theorem readQuoted_append (htext : IsQuotable text) (held rest : List Char) :
    readQuoted held (text ++ '"' :: rest) =
      (readPlain rest).map (.quoted (held.reverse ++ text) :: ·) := by
  induction text generalizing held with
  | nil => rw [List.nil_append, readQuoted, if_pos rfl, List.append_nil]
  | cons c others ih =>
    obtain ⟨hc, hothers⟩ := List.forall_mem_cons.mp htext
    have hquote : c ≠ '"' := fun h => hc (h ▸ by decide)
    rw [List.cons_append, readQuoted, if_neg hquote, if_neg hc, ih hothers, List.reverse_cons,
      List.append_assoc]
    rfl

/-- A quoted text in a script. -/
theorem readPlain_quoted (htext : IsQuotable text) (rest : List Char) :
    readPlain ('"' :: text ++ '"' :: rest) = (readPlain rest).map (.quoted text :: ·) := by
  rw [List.cons_append, readPlain, if_pos rfl, readQuoted_append htext]
  rfl

/-! ## The script of a plot -/

/-- The text of the command that sets the range of a plot. -/
def rangeText (lower upper : Float) : List Char :=
  "set xrange [".toList ++ Decimal.plain lower ++ ":".toList ++ Decimal.plain upper ++ "]".toList

/-- The text of the command that draws the only series under a title. -/
def drawText (title : List Char) : List Char :=
  "plot ".toList ++ '"' :: ['1'] ++ '"' :: " title ".toList ++ '"' :: title ++
    '"' :: " with lines".toList

/-- The first command as it should be read. -/
def rangeCommand (lower upper : Float) : List Piece :=
  (rangeText lower upper).map .plain

/-- The second command as it should be read, with two quoted texts. -/
def drawCommand (title : List Char) : List Piece :=
  "plot ".toList.map .plain ++ .quoted ['1'] :: (" title ".toList.map .plain ++
    .quoted title :: " with lines".toList.map .plain)

/-- A condition holds of all characters of the first command, if it holds of those of numbers and of
those around them. -/
theorem forall_mem_rangeText {p : Char → Prop} (hdigit : ∀ c : Char, c.isDigit = true → p c)
    (hmarks : ∀ c ∈ Decimal.plainMarks, p c) (haround : ∀ c ∈ "set xrange [:]".toList, p c)
    (lower upper : Float) : ∀ c ∈ rangeText lower upper, p c := by
  have hnumber := Decimal.forall_mem_plain hdigit hmarks
  have hpart {part : List Char} (hpart : part ⊆ "set xrange [:]".toList) : ∀ c ∈ part, p c :=
    fun c hc => haround c (hpart hc)
  unfold rangeText
  simp only [List.forall_mem_append]
  exact ⟨⟨⟨⟨hpart (by decide), hnumber lower⟩, hpart (by decide)⟩, hnumber upper⟩,
    hpart (by decide)⟩

theorem isQuotable_rangeText (lower upper : Float) : IsQuotable (rangeText lower upper) :=
  forall_mem_rangeText (fun _ => not_mem_quoteMarks_of_isDigit) (isQuotable_of_all (by decide))
    (isQuotable_of_all (by decide)) lower upper

/-- The first command is not ended by one of its pieces. -/
theorem not_endsCommand_rangeCommand (lower upper : Float) :
    ∀ piece ∈ rangeCommand lower upper, piece.endsCommand = false := by
  have hdigit (c : Char) (hc : c.isDigit = true) : (Piece.plain c).endsCommand = false := by
    by_contra hend
    rw [Bool.not_eq_false, Piece.endsCommand, Bool.or_eq_true, Bool.or_eq_true, beq_iff_eq,
      beq_iff_eq, beq_iff_eq] at hend
    rcases hend with (rfl | rfl) | rfl <;> exact absurd hc (by decide)
  exact List.forall_mem_map.mpr (forall_mem_rangeText hdigit (Token.forall_mem_of_all (by decide))
    (Token.forall_mem_of_all (by decide)) lower upper)

/-- Neither is the second one, whatever its title is. -/
theorem not_endsCommand_drawCommand (title : List Char) :
    ∀ piece ∈ drawCommand title, piece.endsCommand = false := by
  have hplain {part : List Char} (hpart : ∀ c ∈ part, (Piece.plain c).endsCommand = false) :
      ∀ piece ∈ part.map Piece.plain, piece.endsCommand = false :=
    List.forall_mem_map.mpr hpart
  unfold drawCommand
  simp only [List.forall_mem_append, List.forall_mem_cons]
  exact ⟨hplain (Token.forall_mem_of_all (by decide)), rfl,
    hplain (Token.forall_mem_of_all (by decide)), rfl,
    hplain (Token.forall_mem_of_all (by decide))⟩

/-- The second command is read as it should be under a title that is quotable. -/
theorem readPlain_drawText {title : List Char} (htitle : IsQuotable title) :
    readPlain (drawText title) = some (drawCommand title) := by
  have hbegin : IsQuotable "plot ".toList := isQuotable_of_all (by decide)
  have hname : IsQuotable ['1'] := isQuotable_of_all (by decide)
  have hword : IsQuotable " title ".toList := isQuotable_of_all (by decide)
  have hend : IsQuotable " with lines".toList := isQuotable_of_all (by decide)
  have htext : drawText title = "plot ".toList ++ ('"' :: ['1'] ++ '"' :: (" title ".toList ++
      ('"' :: title ++ '"' :: (" with lines".toList ++ [])))) := by
    unfold drawText
    simp only [List.append_assoc, List.cons_append, List.append_nil]
  rw [htext, readPlain_append hbegin, readPlain_quoted hname, readPlain_append hword,
    readPlain_quoted htitle, readPlain_append hend, readPlain]
  simp only [drawCommand, Option.map_some, List.append_nil]

/-- The two commands, each read as it should be, are the commands of the two lines. -/
theorem commandsOf?_lines {script : String} {lower upper : Float} {title : List Char}
    (hscript : script.toList = rangeText lower upper ++ '\n' :: drawText title)
    (htitle : IsQuotable title) :
    commandsOf? script = some [rangeCommand lower upper, drawCommand title] := by
  have hline (rest : List Char) :
      readPlain ('\n' :: rest) = (readPlain rest).map (.plain '\n' :: ·) := by
    rw [readPlain, if_neg (by decide), if_neg (by decide)]
  unfold commandsOf?
  rw [hscript, readPlain_append (isQuotable_rangeText lower upper), hline,
    readPlain_drawText htitle]
  show some (List.splitOnP _ (rangeCommand lower upper ++ .plain '\n' :: drawCommand title)) = _
  rw [List.splitOnP_append_cons_of_forall_mem (not_endsCommand_rangeCommand lower upper) _ rfl,
    List.splitOnP_eq_singleton (not_endsCommand_drawCommand title)]

/-- A plot of an expression with a quotable text leaves these commands, with the text as the
title. -/
theorem commandsOf?_plotPayload {scope : Scope} {body : Expr} (lower upper : Float)
    (points : List (Float × Float))
    (htitle : IsQuotable (body.echoChars scope.settings.print.useUnicodeSigns)) :
    commandsOf? (scope.plotPayload body lower upper points).commands =
      some [rangeCommand lower upper,
        drawCommand (body.echo scope.settings.print.useUnicodeSigns).toList] := by
  have hbetween : "]\nplot \"1\" title \"".toList =
      "]".toList ++
        '\n' :: ("plot ".toList ++ '"' :: ['1'] ++ '"' :: " title ".toList ++ ['"']) := by
    decide
  have hend : "\" with lines".toList = '"' :: " with lines".toList := by decide
  rw [Expr.echo, String.toList_ofList]
  refine commandsOf?_lines ?_ htitle
  unfold rangeText drawText
  simp only [Scope.plotPayload, PlotPayload.withSeries, Decimal.plainText, Expr.echo,
    String.toList_append, String.toList_ofList, hbetween, hend, List.append_assoc,
    List.cons_append, List.nil_append]

end Script

/-! ## Plots of an evaluation -/

open Evaluation Script Text

/-- The script of a plot is the two commands that draw an expression under its canonical text. -/
def PlotPayload.DrawsExpression (unicode : Bool) (payload : PlotPayload) : Prop :=
  ∃ (body : Expr) (lower upper : Float),
    commandsOf? payload.commands =
      some [rangeCommand lower upper, drawCommand (body.echo unicode).toList]

/-- A slot is left as it was, or has the drawing of an expression. -/
def PlotSlot.KeptOrDrawn (unicode : Bool) (before after : PlotSlot) : Prop :=
  after = before ∨ ∃ payload, after = before.put payload ∧ payload.DrawsExpression unicode

/-- All changes to a run besides plots leave the slot as it was. -/
theorem effects_keptOrDrawn (unicode : Bool) :
    Effects fun a b => a.plot.KeptOrDrawn unicode b.plot where
  refl _ := .inl rfl
  trans {a b c} hab hbc := by
    rcases hbc with hkept | hdrawn
    · rwa [hkept]
    · exact .inr hdrawn
  report _ _ := .inl rfl
  note _ _ := .inl rfl
  tick _ := .inl rfl
  sample _ hab := hab

namespace Scope

/-- Evaluating an expression that was read leaves drawings at the most. -/
theorem keptOrDrawn_eval (scope : Scope) {e : Expr} (hread : e.Everywhere Expr.WasRead) (a : Run) :
    a.plot.KeptOrDrawn scope.settings.print.useUnicodeSigns ((scope.eval e).run a).2.plot := by
  refine movesBy_eval (effects_keptOrDrawn _) (hread.nested.mono fun s hs => ?_) a
  unfold CallsPlotBy
  split
  · next body _ =>
    intro _ lower upper points b
    have hbody : body.Everywhere Expr.WasRead := by
      cases hs with
      | call _ each => exact each body List.mem_cons_self
    exact .inr ⟨_, rfl, body, lower, upper,
      commandsOf?_plotPayload lower upper points (Expr.isQuotable_echoChars hbody _)⟩
  · trivial

end Scope

namespace StandardEngine

/-- Reading and evaluating a text leaves drawings at the most. -/
theorem keptOrDrawn_evaluateAndFormat (engine : StandardEngine) (clock : Clock)
    (settings : Settings) (budget : Nat) (text : String) (plot : PlotSlot) :
    plot.KeptOrDrawn settings.print.useUnicodeSigns
      (engine.evaluateAndFormat clock settings budget text plot).plot := by
  cases hparse : Expr.parse text with
  | error parseError =>
    cases parseError <;> exact .inl (by rw [evaluateAndFormat, hparse])
  | ok e =>
    have hdrawn : plot.KeptOrDrawn settings.print.useUnicodeSigns
        (engine.evaluate settings clock budget { plot } e).2.plot :=
      Scope.keptOrDrawn_eval _ (Expr.everywhere_wasRead_of_parse hparse) _
    rw [evaluateAndFormat, hparse]
    dsimp only
    cases hrun : engine.evaluate settings clock budget { plot } e with
    | mk outcome run =>
      rw [hrun] at hdrawn
      cases outcome with
      | ok q => exact hdrawn
      | error halt =>
        cases halt
        exact hdrawn

/-- The canonical text of whatever was read can stand between quotes as it is. So a text that is
evaluated leaves the slot as it was, or with a script of just two commands: one that sets the range,
and one that draws an expression, with its canonical text as the title. -/
theorem evaluateAndFormat_draws_quoted :
    (∀ (text : String) (e : Expr) (unicode : Bool), Expr.parse text = .ok e →
      ∀ c ∈ (e.echo unicode).toList, c ∉ quoteMarks) ∧
    ∀ (engine : StandardEngine) (clock : Clock) (settings : Settings) (budget : Nat)
      (text : String) (plot : PlotSlot),
      let after := (engine.evaluateAndFormat clock settings budget text plot).plot
      after = plot ∨ ∃ (payload : PlotPayload) (body : Expr) (lower upper : Float),
        after = plot.put payload ∧ commandsOf? payload.commands =
          some [rangeCommand lower upper,
            drawCommand (body.echo settings.print.useUnicodeSigns).toList] := by
  refine ⟨fun text e unicode hparse => ?_, fun engine clock settings budget text plot => ?_⟩
  · rw [Expr.echo, String.toList_ofList]
    exact Expr.isQuotable_echoChars (Expr.everywhere_wasRead_of_parse hparse) unicode
  · rcases engine.keptOrDrawn_evaluateAndFormat clock settings budget text plot with
      hkept | ⟨payload, hput, body, lower, upper, hcommands⟩
    · exact .inl hkept
    · exact .inr ⟨payload, body, lower, upper, hput, hcommands⟩

/-- A product is drawn under its title. -/
theorem evaluateAndFormat_draws_quoted_product :
    let run := withDefinitions.evaluateAndFormat (.metered 0 1) {} 500 "plot(2 x, 0, 1, 2)" .empty
    Expr.parse "2 x" = .ok (.binary .juxtapose (.number 2) (.name "x")) ∧
      (∀ c ∈ (Expr.echo false (.binary .juxtapose (.number 2) (.name "x"))).toList,
        c ∉ quoteMarks) ∧
      run.plot.payload?.map PlotPayload.commands =
        some "set xrange [0:1]\nplot \"1\" title \"2 x\" with lines" ∧
      ∃ (payload : PlotPayload) (body : Expr) (lower upper : Float),
        run.plot = ⟨some payload⟩ ∧ commandsOf? payload.commands =
          some [rangeCommand lower upper, drawCommand (body.echo false).toList] := by
  intro run
  have hparse : Expr.parse "2 x" = .ok (.binary .juxtapose (.number 2) (.name "x")) := by
    decide +kernel
  have hcommands : run.plot.payload?.map PlotPayload.commands =
      some "set xrange [0:1]\nplot \"1\" title \"2 x\" with lines" := by
    decide +kernel
  refine ⟨hparse, evaluateAndFormat_draws_quoted.1 _ _ false hparse, hcommands, ?_⟩
  rcases evaluateAndFormat_draws_quoted.2 withDefinitions (.metered 0 1) {} 500 "plot(2 x, 0, 1, 2)"
    .empty with hkept | hdrawn
  · have hempty : run.plot = .empty := hkept
    rw [hempty] at hcommands
    cases hcommands
  · exact hdrawn

end StandardEngine

namespace Session

variable {session : Session StandardEngine} {clock : Clock} {expression : String} {timeout : Int}
  {flags : CallFlags} {result : CallResult}

/-- Only a call with some time on a loaded engine has a result. -/
theorem ready_of_calculate
    (hanswer : (session.calculate clock expression timeout flags).1 = .ok result) :
    session.engine.isLoaded = true ∧ 0 < timeout := by
  by_cases htimeout : 0 < timeout
  · have hchecked : checkedTimeout timeout = .ok timeout.toNat := if_pos htimeout
    refine ⟨?_, htimeout⟩
    by_contra hnone
    have hisLoaded : ¬ Engine.isLoaded session.engine = true := hnone
    rw [calculate, hchecked] at hanswer
    dsimp only at hanswer
    rw [evaluate, hchecked] at hanswer
    dsimp only at hanswer
    rw [if_neg hisLoaded] at hanswer
    cases hanswer
  · have hchecked : checkedTimeout timeout = .error (.invalidTimeout timeout) := if_neg htimeout
    rw [calculate, hchecked] at hanswer
    cases hanswer

/-- A plot that a call answers with draws an expression. -/
theorem drawsExpression_of_calculate {payload : PlotPayload}
    (hanswer : (session.calculate clock expression timeout flags).1 = .ok result)
    (hplot : result.plot = some payload) :
    payload.DrawsExpression (flags.apply session.settings).print.useUnicodeSigns := by
  obtain ⟨hloaded, htimeout⟩ := ready_of_calculate hanswer
  have hdrawn := StandardEngine.keptOrDrawn_evaluateAndFormat
    { session.engine with messages := [] } clock (flags.apply session.settings) timeout.toNat
    (plainInput (flags.apply session.settings).parse expression) .empty
  rw [session.fst_calculate clock expression flags hloaded htimeout] at hanswer
  dsimp only at hanswer
  generalize StandardEngine.evaluateAndFormat _ _ _ _ _ _ = run at hdrawn hanswer
  cases houtcome : run.outcome with
  | error fault =>
    rw [houtcome] at hanswer
    cases hanswer
  | ok evaluated =>
    rw [houtcome] at hanswer
    obtain rfl := Except.ok.inj hanswer
    rcases hdrawn with hkept | ⟨payload', hput, hdraws⟩
    · rw [hkept] at hplot
      cases hplot
    · rw [hput] at hplot
      obtain rfl := Option.some.inj hplot
      exact hdraws

end Session

end Reckoner
