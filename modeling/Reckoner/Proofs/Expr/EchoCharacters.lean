import Reckoner.Proofs.Expr.EchoRoundTrip

/-!
# The characters of a canonical text

Names are letters, numerals and a few signs; numbers are digits with a point and a minus sign; an
operator or a call adds blanks, parentheses and commas. So in whatever way a tree that was read is
written, its text has none of the characters that mean something inside of quotes, and can stand
between quotes as it is.
-/

namespace Reckoner

namespace Text

/-- The characters with a meaning inside of quotes: the quote itself, the one that escapes, the one
that encloses a command to run, and the ends of lines. -/
def quoteMarks : List Char :=
  ['"', '\\', '\x60', '\r', '\n']

/-- A text without such characters. -/
def IsQuotable (text : List Char) : Prop :=
  ∀ c ∈ text, c ∉ quoteMarks

variable {text other : List Char}

/-- A text is quotable if going through it finds it to be. -/
theorem isQuotable_of_all (hall : text.all (fun c => decide (c ∉ quoteMarks)) = true) :
    IsQuotable text :=
  Token.forall_mem_of_all hall

theorem IsQuotable.append (htext : IsQuotable text) (hother : IsQuotable other) :
    IsQuotable (text ++ other) :=
  List.forall_mem_append.mpr ⟨htext, hother⟩

theorem IsQuotable.cons {c : Char} (hc : c ∉ quoteMarks) (htext : IsQuotable text) :
    IsQuotable (c :: text) :=
  List.forall_mem_cons.mpr ⟨hc, htext⟩

/-- Digits have no meaning of their own. -/
theorem not_mem_quoteMarks_of_isDigit {c : Char} (hc : c.isDigit = true) : c ∉ quoteMarks := by
  intro hmark
  have hother : ∀ d ∈ quoteMarks, d.isDigit = false := Token.forall_mem_of_all (by decide)
  rw [hother c hmark] at hc
  cases hc

/-- Neither have the characters of names. -/
theorem not_mem_quoteMarks_of_name {c : Char}
    (hc : (Token.isNameStart c || Token.isNamePart c) = true) : c ∉ quoteMarks := by
  intro hmark
  have hother : ∀ d ∈ quoteMarks, (Token.isNameStart d || Token.isNamePart d) = false :=
    Token.forall_mem_of_all (by decide +kernel)
  rw [hother c hmark] at hc
  cases hc

end Text

open Text

/-- A name is quotable. -/
theorem Token.IsName.isQuotable {name : List Char} (hname : IsName name) : IsQuotable name := by
  cases name with
  | nil => exact List.forall_mem_nil _
  | cons c others =>
    obtain ⟨hc, hothers⟩ := hname
    refine .cons (not_mem_quoteMarks_of_name hc) fun d hd => not_mem_quoteMarks_of_name ?_
    rw [hothers d hd, Bool.or_true]

namespace Decimal

/-- The plain text of any number is quotable. -/
theorem isQuotable_plain (x : Float) : IsQuotable (plain x) :=
  forall_mem_plain (fun _ => not_mem_quoteMarks_of_isDigit) (isQuotable_of_all (by decide)) x

end Decimal

namespace Expr

/-- An operator with its blanks is quotable. -/
theorem isQuotable_symbol (unicode : Bool) (op : Operator) : IsQuotable (op.symbol unicode) := by
  cases op <;> cases unicode <;> exact isQuotable_of_all (by decide)

/-- Parentheses are quotable. -/
theorem isQuotable_enclosed {text : List Char} (needed : Bool) (htext : IsQuotable text) :
    IsQuotable (enclosed needed text) := by
  unfold enclosed
  split
  · exact (IsQuotable.cons (by decide) htext).append (isQuotable_of_all (by decide))
  · exact htext

/-- Arguments are quotable if each of them is. -/
theorem isQuotable_echoArguments {unicode : Bool} {arguments : List Expr}
    (heach : ∀ a ∈ arguments, IsQuotable (a.echoChars unicode)) :
    IsQuotable (echoArguments unicode arguments) := by
  induction arguments with
  | nil =>
    rw [echoArguments]
    exact List.forall_mem_nil _
  | cons first others ih =>
    have hfirst := heach first List.mem_cons_self
    have hothers := ih fun a ha => heach a (List.mem_cons_of_mem first ha)
    cases others with
    | nil =>
      rw [echoArguments]
      exact hfirst
    | cons next others =>
      rw [echoArguments]
      exact (hfirst.append (isQuotable_of_all (by decide))).append hothers

/-- A tree is quotable if all of its nodes were read. -/
theorem isQuotable_echoChars {e : Expr} (hread : e.Everywhere WasRead) (unicode : Bool) :
    IsQuotable (e.echoChars unicode) := by
  induction hread with
  | number =>
    rw [echoChars]
    exact Decimal.isQuotable_plain _
  | name here =>
    rw [echoChars]
    exact here.isName.isQuotable
  | neg _ _ ih =>
    rw [echoChars]
    exact .cons (by cases unicode <;> decide) (isQuotable_enclosed _ ih)
  | binary _ _ _ ihleft ihright =>
    rw [echoChars]
    exact ((isQuotable_enclosed _ ihleft).append (isQuotable_symbol unicode _)).append
      (isQuotable_enclosed _ ihright)
  | @call function _ here _ ih =>
    have hfunction : IsQuotable function.toList := here.isName.isQuotable
    rw [echoChars]
    exact (hfunction.append (.cons (by decide) (isQuotable_echoArguments ih))).append
      (isQuotable_of_all (by decide))
  | @convert _ unit here _ ih =>
    have hunit : IsQuotable unit.toList := Token.IsName.isQuotable here
    rw [echoChars]
    exact (ih.append (isQuotable_of_all (by decide))).append hunit

end Expr

end Reckoner
