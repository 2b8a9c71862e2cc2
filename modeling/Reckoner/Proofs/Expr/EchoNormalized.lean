import Reckoner.Proofs.Expr.EchoRoundTrip
import Reckoner.Proofs.Expr.Recognition
import Reckoner.StandardEngine

/-!
# Canonical texts in the plain form

An input is put into the plain form before it is read: typographic signs become those of the
grammar, raised digits become powers, and blanks at the ends go. The canonical text of what was read
then is typographic only where the printer chose the signs, for the names in it are spelled with
characters that were in the plain form already. So putting it into the plain form again undoes that
choice, and nothing else.
-/

namespace Reckoner

/-! ## Texts without blanks at the ends -/

namespace Text

/-- A text that neither begins nor ends with a blank, and is not empty. -/
structure IsTight (text : List Char) : Prop where
  begins : ∃ c others, text = c :: others ∧ isBlank c = false
  ends : ∃ others c, text = others ++ [c] ∧ isBlank c = false

namespace IsTight

variable {text other : List Char}

/-- There is nothing to drop from a tight text. -/
theorem trimmed_eq (h : IsTight text) : trimmed text = text := by
  obtain ⟨⟨c, others, hbegins, hc⟩, others', c', hends, hc'⟩ := h
  have hfront : skipBlanks text = text := by
    rw [hbegins]
    exact List.dropWhile_cons_of_neg (by simp [hc])
  have hback : skipBlanks text.reverse = text.reverse := by
    rw [hends, List.reverse_append, List.reverse_singleton, List.singleton_append]
    exact List.dropWhile_cons_of_neg (by simp [hc'])
  rw [trimmed, hfront, hback, List.reverse_reverse]

/-- Whatever stands between two tight texts. -/
theorem append (h : IsTight text) (between : List Char) (h' : IsTight other) :
    IsTight (text ++ between ++ other) where
  begins := by
    obtain ⟨c, others, rfl, hc⟩ := h.begins
    exact ⟨c, others ++ between ++ other, rfl, hc⟩
  ends := by
    obtain ⟨others, c, rfl, hc⟩ := h'.ends
    exact ⟨text ++ between ++ others, c, (List.append_assoc _ _ _).symm, hc⟩

/-- A text without any blanks is tight. -/
theorem of_forall (hne : text ≠ []) (hblank : ∀ c ∈ text, isBlank c = false) : IsTight text where
  begins := by
    obtain ⟨c, others, rfl⟩ := List.exists_cons_of_ne_nil hne
    exact ⟨c, others, rfl, hblank c List.mem_cons_self⟩
  ends := ⟨text.dropLast, text.getLast hne, (List.dropLast_append_getLast hne).symm,
    hblank _ (List.getLast_mem hne)⟩

/-- A character alone is a tight text, if it is no blank. -/
theorem singleton {c : Char} (hc : isBlank c = false) : IsTight [c] :=
  .of_forall (List.cons_ne_nil c []) (List.forall_mem_singleton.mpr hc)

end IsTight

end Text

open Text Token

/-! ## Parts of a text -/

namespace Token

variable {p : Char → Prop} {text rest : List Char}

/-- What comes after blanks is part of the text. -/
theorem AfterBlanks.forall_mem (h : AfterBlanks text rest) (htext : ∀ c ∈ text, p c) :
    ∀ c ∈ rest, p c := by
  obtain ⟨blanks, -, rfl⟩ := h
  exact (List.forall_mem_append.mp htext).2

/-- So is what comes after blanks and one character more. -/
theorem AfterBlanks.forall_mem_tail {d : Char} (h : AfterBlanks text (d :: rest))
    (htext : ∀ c ∈ text, p c) : ∀ c ∈ rest, p c :=
  (List.forall_mem_cons.mp (h.forall_mem htext)).2

/-- A longest match and what comes after it are parts of the text. -/
theorem LongestMatch.forall_mem {kind : List Char → Prop} {lexeme : List Char}
    (h : LongestMatch kind text lexeme rest) (htext : ∀ c ∈ text, p c) :
    (∀ c ∈ lexeme, p c) ∧ ∀ c ∈ rest, p c := by
  rw [h.split] at htext
  exact List.forall_mem_append.mp htext

/-- What comes after the keyword is part of the text. -/
theorem Keyword.forall_mem (h : Keyword text rest) (htext : ∀ c ∈ text, p c) :
    ∀ c ∈ rest, p c := by
  rw [h.split] at htext
  exact (List.forall_mem_cons.mp (List.forall_mem_cons.mp htext).2).2

end Token

/-- A name is tight. -/
theorem Token.IsName.isTight {name : List Char} (hname : IsName name) : IsTight name := by
  have hblank {c : Char} (hc : (isNameStart c || isNamePart c) = true) : isBlank c = false := by
    by_contra hother
    obtain ⟨hstart, hpart⟩ := not_name_of_isBlank (Bool.eq_true_of_not_eq_false hother)
    rw [hstart, hpart] at hc
    cases hc
  cases name with
  | nil => exact hname.elim
  | cons c others =>
    refine .of_forall (List.cons_ne_nil c others) (List.forall_mem_cons.mpr ⟨hblank hname.1, ?_⟩)
    exact fun d hd => hblank (by rw [hname.2 d hd, Bool.or_true])

namespace Decimal

/-- The plain text of a number is tight. -/
theorem isTight_plain (x : Float) : IsTight (plain x) := by
  refine .of_forall (plain_ne_nil x) (forall_mem_plain (fun c hc => ?_) ?_ x)
  · by_contra hblank
    have hpart := (not_name_of_isBlank (Bool.eq_true_of_not_eq_false hblank)).2
    rw [isNamePart_of_isDigit hc] at hpart
    cases hpart
  · exact forall_mem_of_all (by decide)

end Decimal

namespace Expr

/-! ## The ends of a canonical text -/

/-- Parentheses are tight around anything, and so is a tight text without them. -/
theorem isTight_enclosed {text : List Char} (needed : Bool) (htext : IsTight text) :
    IsTight (enclosed needed text) := by
  unfold enclosed
  split
  · exact (IsTight.singleton (by decide)).append text (.singleton (by decide))
  · exact htext

/-- The canonical text of a tree that was read neither begins nor ends with a blank. -/
theorem isTight_echoChars {e : Expr} (hread : e.Everywhere WasRead) (unicode : Bool) :
    IsTight (e.echoChars unicode) := by
  induction hread with
  | number =>
    rw [echoChars]
    exact Decimal.isTight_plain _
  | name here =>
    rw [echoChars]
    exact here.isName.isTight
  | neg _ _ ih =>
    rw [echoChars]
    have hsign : isBlank (if unicode then '−' else '-') = false := by cases unicode <;> decide
    exact (IsTight.singleton hsign).append [] (isTight_enclosed _ ih)
  | binary _ _ _ ihleft ihright =>
    rw [echoChars]
    exact (isTight_enclosed _ ihleft).append _ (isTight_enclosed _ ihright)
  | call here _ _ =>
    rw [echoChars]
    exact here.isName.isTight.append _ (.singleton (by decide))
  | @convert _ unit here _ ih =>
    have hunit : IsTight unit.toList := Token.IsName.isTight here
    rw [echoChars]
    exact ih.append _ hunit

/-! ## The characters of names -/

/-- The name or unit of a node is spelled with characters of some kind. -/
def SpelledWith (p : Char → Prop) : Expr → Prop
  | .name label => ∀ c ∈ label.toList, p c
  | .call function _ => ∀ c ∈ function.toList, p c
  | .convert _ unit => ∀ c ∈ unit.toList, p c
  | _ => True

section spelling

variable {p : Char → Prop} {text rest : List Char}

/-- The operand of an operator is part of the text. -/
theorem Joins.forall_mem {kind : Chain} {op : Operator} {operandText : List Char}
    (h : Joins kind op text operandText) (htext : ∀ c ∈ text, p c) : ∀ c ∈ operandText, p c := by
  cases h with
  | parenthesis | name => exact htext
  | plus | minus | times | divided => exact (List.forall_mem_cons.mp htext).2

/-- Arguments that follow one another are parts of the text, if each of them leaves over a part of
its own text. -/
theorem Separated.forall_mem {segments : List Segment} (h : Separated text segments rest)
    (hitems : ∀ s ∈ segments, (∀ c ∈ s.text, p c) → ∀ c ∈ s.rest, p c)
    (htext : ∀ c ∈ text, p c) :
    (∀ s ∈ segments, ∀ c ∈ s.text, p c) ∧ ∀ c ∈ rest, p c := by
  induction segments generalizing text with
  | nil => exact ⟨List.forall_mem_nil _, AfterBlanks.forall_mem_tail h htext⟩
  | cons s segments ih =>
    obtain ⟨hcomma, hothers⟩ := h
    obtain ⟨hitem, hlater⟩ := List.forall_mem_cons.mp hitems
    have hsegment := hcomma.forall_mem_tail htext
    obtain ⟨hsegments, hrest⟩ := ih hothers hlater (hitem hsegment)
    exact ⟨List.forall_mem_cons.mpr ⟨hsegment, hsegments⟩, hrest⟩

/-- The arguments of a call are parts of the text. -/
theorem Arguments.forall_mem {segments : List Segment} (h : Arguments text segments rest)
    (hitems : ∀ s ∈ segments, (∀ c ∈ s.text, p c) → ∀ c ∈ s.rest, p c)
    (htext : ∀ c ∈ text, p c) :
    (∀ s ∈ segments, ∀ c ∈ s.text, p c) ∧ ∀ c ∈ rest, p c := by
  cases segments with
  | nil => exact Separated.forall_mem h hitems htext
  | cons s segments =>
    obtain ⟨hfirst, hothers⟩ := h
    obtain ⟨hitem, hlater⟩ := List.forall_mem_cons.mp hitems
    rw [← hfirst] at htext
    obtain ⟨hsegments, hrest⟩ := hothers.forall_mem hlater (hitem htext)
    exact ⟨List.forall_mem_cons.mpr ⟨htext, hsegments⟩, hrest⟩

/-- The names in a tree are spelled with the characters of the text that it was read from, and what
is left over of the text has no others either. -/
theorem Generates.spelledWith {phrase : Phrase} {n : Nat} {e : Expr}
    (h : Generates phrase n text e rest) (htext : ∀ c ∈ text, p c)
    (hleft : ∀ kind left, phrase = .more kind left → left.Everywhere (SpelledWith p)) :
    e.Everywhere (SpelledWith p) ∧ ∀ c ∈ rest, p c := by
  induction h with
  | minus hsign _ ih =>
    obtain ⟨hspelled, hrest⟩ := ih (hsign.forall_mem_tail htext) (by simp)
    exact ⟨.neg trivial hspelled, hrest⟩
  | plus hsign _ ih => exact ih (hsign.forall_mem_tail htext) (by simp)
  | bare _ ih => exact ih htext (by simp)
  | unraised _ ih => exact ih htext (by simp)
  | raised _ hcaret _ ihbase ihexponent =>
    obtain ⟨hbase, hbetween⟩ := ihbase htext (by simp)
    obtain ⟨hexponent, hrest⟩ :=
      ihexponent (hcaret.forall_mem_tail hbetween) (by simp)
    exact ⟨.binary trivial hbase hexponent, hrest⟩
  | enclosed hopen _ hclose ih =>
    obtain ⟨hinner, hbetween⟩ :=
      ih (hopen.forall_mem_tail htext) (by simp)
    exact ⟨hinner, hclose.forall_mem_tail hbetween⟩
  | number hblanks _ hlongest =>
    exact ⟨.number trivial, (hlongest.forall_mem (hblanks.forall_mem htext)).2⟩
  | name hblanks hlongest _ =>
    obtain ⟨hlabel, hrest⟩ := hlongest.forall_mem (hblanks.forall_mem htext)
    refine ⟨.name ?_, hrest⟩
    rw [SpelledWith, String.toList_ofList]
    exact hlabel
  | call hblanks hlongest hopen segments harguments _ ih =>
    obtain ⟨hlabel, hbetween⟩ := hlongest.forall_mem (hblanks.forall_mem htext)
    obtain ⟨hsegments, hrest⟩ := harguments.forall_mem
      (fun s hs hsegment => (ih s hs hsegment (by simp)).2)
      (hopen.forall_mem_tail hbetween)
    refine ⟨.call ?_ fun a ha => ?_, hrest⟩
    · rw [SpelledWith, String.toList_ofList]
      exact hlabel
    · obtain ⟨s, hs, rfl⟩ := List.mem_map.mp ha
      exact (ih s hs (hsegments s hs) (by simp)).1
  | @chain _ kind _ _ _ _ _ _ _ ihleft ihmore =>
    obtain ⟨hspelled, hbetween⟩ := ihleft htext (by cases kind <;> simp [Chain.operand])
    refine ihmore hbetween fun kind' left' heq => ?_
    obtain ⟨-, rfl⟩ := Phrase.more.inj heq
    exact hspelled
  | done => exact ⟨hleft _ _ rfl, htext⟩
  | @joined _ kind _ _ _ _ _ _ _ _ _ hblanks hjoins _ _ ihright ihmore =>
    obtain ⟨hright, hbetween⟩ := ihright (hjoins.forall_mem (hblanks.forall_mem htext))
      (by cases kind <;> simp [Chain.operand])
    refine ihmore hbetween fun kind' left' heq => ?_
    obtain ⟨-, rfl⟩ := Phrase.more.inj heq
    exact .binary trivial (hleft _ _ rfl) hright
  | unconverted _ ih => exact ih htext (by simp)
  | converted _ hbefore hkeyword hblanks hlongest ih =>
    obtain ⟨hvalue, hbetween⟩ := ih htext (by simp)
    have hafter := hkeyword.forall_mem (hbefore.forall_mem hbetween)
    obtain ⟨hunit, hrest⟩ := hlongest.forall_mem (hblanks.forall_mem hafter)
    refine ⟨.convert ?_ hvalue, hrest⟩
    rw [SpelledWith, String.toList_ofList]
    exact hunit

end spelling

end Expr

/-! ## The plain form -/

/-- A character that stands for itself in the plain form. -/
def IsPlain (c : Char) : Prop :=
  plainForm false c = [c]

/-- The characters that are not plain. -/
def typographicChars : List Char :=
  ['×', '·', '⋅', '∙', '÷', '∕', '−', '–', '²', '³']

/-- A character is plain unless it is typographic. -/
theorem isPlain_of_not_mem {c : Char} (hc : c ∉ typographicChars) : IsPlain c := by
  simp only [typographicChars, List.mem_cons, List.not_mem_nil, or_false, not_or] at hc
  obtain ⟨h1, h2, h3, h4, h5, h6, h7, h8, h9, h10⟩ := hc
  simp only [IsPlain, plainForm, h1, h2, h3, h4, h5, h6, h7, h8, h9, h10, Bool.false_eq_true,
    false_and, or_self, if_false]

/-- All that a character stands for is plain. -/
theorem isPlain_of_mem_plainForm {c d : Char} (hd : d ∈ plainForm false c) : IsPlain d := by
  by_cases hc : c ∈ typographicChars
  · have hall : ∀ c ∈ typographicChars,
        (plainForm false c).all (fun d => decide (d ∉ typographicChars)) = true :=
      Token.forall_mem_of_all (by decide)
    exact isPlain_of_not_mem (Token.forall_mem_of_all (hall c hc) d hd)
  · have hplain := isPlain_of_not_mem hc
    rw [hplain, List.mem_singleton] at hd
    exact hd ▸ hplain

/-- A text of plain characters stands for itself. -/
theorem flatMap_plainForm_of_plain {text : List Char} (htext : ∀ c ∈ text, IsPlain c) :
    text.flatMap (plainForm false) = text := by
  rw [List.flatMap_congr htext, List.flatMap_singleton']

/-- What is left of a text without the blanks at its ends is part of it. -/
theorem Text.mem_of_mem_trimmed {text : List Char} {c : Char} (hc : c ∈ trimmed text) :
    c ∈ text := by
  have hfront := (List.dropWhile_suffix isBlank).subset (List.mem_reverse.mp hc)
  exact (List.dropWhile_suffix isBlank).subset (List.mem_reverse.mp hfront)

/-- All characters of an input in the plain form are plain, if the point marks decimals. -/
theorem isPlain_of_mem_plainInput {parse : ParseSettings} (hpoint : parse.decimalComma = false)
    {text : String} : ∀ c ∈ (plainInput parse text).toList, IsPlain c := by
  intro c hc
  rw [plainInput, String.toList_ofList, hpoint] at hc
  obtain ⟨d, -, hd⟩ := List.mem_flatMap.mp (Text.mem_of_mem_trimmed hc)
  exact isPlain_of_mem_plainForm hd

/-- A plain text without blanks at its ends is its own plain form, if the point marks decimals. -/
theorem plainInput_eq_self {parse : ParseSettings} (hpoint : parse.decimalComma = false)
    {text : List Char} (hplain : ∀ c ∈ text, IsPlain c) (htight : Text.IsTight text) :
    plainInput parse (String.ofList text) = String.ofList text := by
  rw [plainInput, String.toList_ofList, hpoint, flatMap_plainForm_of_plain hplain,
    htight.trimmed_eq]

/-- The plain text of a number is plain. -/
theorem Decimal.isPlain_of_mem_plain (x : Float) : ∀ c ∈ plain x, IsPlain c := by
  have hdigit (c : Char) (hc : c.isDigit = true) : c ∉ typographicChars := by
    intro hmem
    have hother : ∀ d ∈ typographicChars, d.isDigit = false := Token.forall_mem_of_all (by decide)
    rw [hother c hmem] at hc
    cases hc
  exact forall_mem_plain (fun c hc => isPlain_of_not_mem (hdigit c hc))
    (fun c hc => isPlain_of_not_mem
      (Token.forall_mem_of_all (p := fun c => c ∉ typographicChars) (by decide) c hc)) x

namespace Expr

/-- Parentheses stand for themselves. -/
theorem flatMap_enclosed (needed : Bool) (text : List Char) :
    (enclosed needed text).flatMap (plainForm false) =
      enclosed needed (text.flatMap (plainForm false)) := by
  unfold enclosed
  split
  · rw [List.cons_append, List.flatMap_cons, List.flatMap_append]
    rfl
  · rfl

/-- The typographic sign of an operator stands for the other one. -/
theorem flatMap_symbol (unicode : Bool) (op : Operator) :
    (op.symbol unicode).flatMap (plainForm false) = op.symbol false := by
  cases op <;> cases unicode <;> decide

/-- Arguments stand for the same arguments without typographic signs, if each of them does. -/
theorem flatMap_echoArguments {unicode : Bool} {arguments : List Expr}
    (heach : ∀ a ∈ arguments,
      (a.echoChars unicode).flatMap (plainForm false) = a.echoChars false) :
    (echoArguments unicode arguments).flatMap (plainForm false) =
      echoArguments false arguments := by
  induction arguments with
  | nil =>
    rw [echoArguments, echoArguments]
    rfl
  | cons first others ih =>
    have hfirst := heach first List.mem_cons_self
    have hothers := ih fun a ha => heach a (List.mem_cons_of_mem first ha)
    cases others with
    | nil =>
      rw [echoArguments, echoArguments]
      exact hfirst
    | cons next others =>
      rw [echoArguments, echoArguments, List.flatMap_append, List.flatMap_append, hfirst, hothers]
      rfl

/-- The canonical text of a tree whose names are plain stands for the canonical text without
typographic signs. -/
theorem flatMap_echoChars {e : Expr} (hnames : e.Everywhere (SpelledWith IsPlain))
    (unicode : Bool) :
    (e.echoChars unicode).flatMap (plainForm false) = e.echoChars false := by
  induction hnames with
  | number =>
    rw [echoChars, echoChars]
    exact flatMap_plainForm_of_plain (Decimal.isPlain_of_mem_plain _)
  | name here =>
    rw [echoChars, echoChars]
    exact flatMap_plainForm_of_plain here
  | neg _ _ ih =>
    rw [echoChars, echoChars, List.flatMap_cons, flatMap_enclosed, ih]
    cases unicode <;> rfl
  | binary _ _ _ ihleft ihright =>
    rw [echoChars, echoChars, List.flatMap_append, List.flatMap_append, flatMap_enclosed,
      flatMap_enclosed, flatMap_symbol, ihleft, ihright]
  | @call function arguments here _ ih =>
    have hfunction : function.toList.flatMap (plainForm false) = function.toList :=
      flatMap_plainForm_of_plain here
    rw [echoChars, echoChars, List.flatMap_append, List.flatMap_append, hfunction,
      List.flatMap_cons, flatMap_echoArguments ih]
    rfl
  | @convert _ unit here _ ih =>
    have hunit : unit.toList.flatMap (plainForm false) = unit.toList :=
      flatMap_plainForm_of_plain here
    rw [echoChars, echoChars, List.flatMap_append, List.flatMap_append, ih, hunit]
    rfl

/-- Whatever is typed while the point marks decimals: once it is read in the plain form, its
canonical text with either kind of signs has the canonical text without typographic signs as its
plain form. -/
theorem plainInput_echo {parse : ParseSettings} (hpoint : parse.decimalComma = false)
    {text : String} {e : Expr} (hparse : Expr.parse (plainInput parse text) = .ok e)
    (unicode : Bool) : plainInput parse (e.echo unicode) = e.echo false := by
  obtain ⟨rest, hgenerates, -⟩ := (parse_eq_ok_iff _ e).mp hparse
  have hnames := (hgenerates.spelledWith (isPlain_of_mem_plainInput hpoint) (by simp)).1
  rw [plainInput, hpoint, echo, echo, String.toList_ofList, flatMap_echoChars hnames,
    (isTight_echoChars (everywhere_wasRead_of_parse hparse) false).trimmed_eq]

/-- A difference, a product with a raised digit, and a call. -/
theorem plainInput_echo_product :
    let e := Expr.binary .sub (.binary .mul (.number 2.0) (.binary .pow (.name "x") (.number 2.0)))
      (.call "max" [.neg (.name "a1"), .name "y"])
    Expr.parse (plainInput {} "  2·x² − max(–a1, y) ") = .ok e ∧
      e.echo true = "2 × x^2 − max(−a1, y)" ∧
      plainInput {} (e.echo true) = "2 * x^2 - max(-a1, y)" := by
  intro e
  have hparse : Expr.parse (plainInput {} "  2·x² − max(–a1, y) ") = .ok e := by decide +kernel
  have hecho : e.echo false = "2 * x^2 - max(-a1, y)" := by decide +kernel
  refine ⟨hparse, by decide +kernel, ?_⟩
  rw [← hecho]
  exact plainInput_echo rfl hparse true

end Expr

end Reckoner
