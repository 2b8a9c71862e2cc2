import Reckoner.Proofs.Expr.Lexeme
import Reckoner.Proofs.Expr.Reading

/-!
# The language of expressions

The grammar of expressions over characters. Blanks may stand before every token, and tokens are
longest matches; apart from that a rule says what its phrase is made of, and not where the phrase
ends. A chain of summands may thus be left at any of its operators. This file proves that what the
parsers read is in the language.
-/

namespace Reckoner.Expr

open Reckoner.Expr.Parser Reckoner.Text Reckoner.Token

/-! ## Rules -/

/-- An operator of a chain stands in front of a text, and its operand after it. A parenthesis
multiplies without a sign, and so does a name, unless it is the keyword. -/
inductive Joins : Chain → Operator → List Char → List Char → Prop where
  | plus {rest : List Char} : Joins .summands .add ('+' :: rest) rest
  | minus {rest : List Char} : Joins .summands .sub ('-' :: rest) rest
  | times {rest : List Char} : Joins .factors .mul ('*' :: rest) rest
  | divided {rest : List Char} : Joins .factors .div ('/' :: rest) rest
  | parenthesis {rest : List Char} : Joins .factors .juxtapose ('(' :: rest) ('(' :: rest)
  | name {c : Char} {rest : List Char} (hstart : isNameStart c = true)
      (hkeyword : ∀ after, ¬ Keyword (c :: rest) after) :
      Joins .factors .juxtapose (c :: rest) (c :: rest)

/-- Some arguments follow one another, each after a comma, up to the closing parenthesis. -/
def Separated : List Char → List Segment → List Char → Prop
  | text, [], rest => AfterBlanks text (')' :: rest)
  | text, s :: others, rest => AfterBlanks text (',' :: s.text) ∧ Separated s.rest others rest

/-- The arguments of a call, parted by commas, and the closing parenthesis. -/
def Arguments : List Char → List Segment → List Char → Prop
  | text, [], rest => AfterBlanks text (')' :: rest)
  | text, s :: others, rest => s.text = text ∧ Separated s.rest others rest

/-- A text begins with a phrase that is the given tree, and the given rest comes after it. The
phrase charges no more than the allowance: each operand takes a level and so does each of its signs,
and an operator of a chain takes one as long as its chain lasts. -/
inductive Generates : Phrase → Nat → List Char → Expr → List Char → Prop where
  | minus {n : Nat} {text inner rest : List Char} {e : Expr}
      (hsign : AfterBlanks text ('-' :: inner)) (hinner : Generates .signed n inner e rest) :
      Generates .signed (n + 1) text (.neg e) rest
  | plus {n : Nat} {text inner rest : List Char} {e : Expr}
      (hsign : AfterBlanks text ('+' :: inner)) (hinner : Generates .signed n inner e rest) :
      Generates .signed (n + 1) text e rest
  | bare {n : Nat} {text rest : List Char} {e : Expr}
      (hpower : Generates .power n text e rest) :
      Generates .signed (n + 1) text e rest
  | unraised {n : Nat} {text rest : List Char} {e : Expr}
      (hbase : Generates .primary n text e rest) :
      Generates .power n text e rest
  | raised {n : Nat} {text between after rest : List Char} {base exponent : Expr}
      (hbase : Generates .primary n text base between)
      (hcaret : AfterBlanks between ('^' :: after))
      (hexponent : Generates .signed n after exponent rest) :
      Generates .power n text (.binary .pow base exponent) rest
  | enclosed {n : Nat} {text inner between rest : List Char} {e : Expr}
      (hopen : AfterBlanks text ('(' :: inner)) (hinner : Generates .conversion n inner e between)
      (hclose : AfterBlanks between (')' :: rest)) :
      Generates .primary n text e rest
  | number {n : Nat} {text start rest : List Char} {literal : NumberLiteral}
      (hblanks : AfterBlanks text start) (hliteral : literal.WellFormed)
      (hlongest : LongestMatch IsNumeral start literal.text rest) :
      Generates .primary n text (.number literal.decimal.toFloat) rest
  | name {n : Nat} {text start label rest : List Char} (hblanks : AfterBlanks text start)
      (hlongest : LongestMatch IsWord start label rest)
      (huncalled : ∀ inner, ¬ AfterBlanks rest ('(' :: inner)) :
      Generates .primary n text (.name (String.ofList label)) rest
  | call {n : Nat} {text start label between inner rest : List Char}
      (hblanks : AfterBlanks text start) (hlongest : LongestMatch IsWord start label between)
      (hopen : AfterBlanks between ('(' :: inner)) (segments : List Segment)
      (harguments : Arguments inner segments rest)
      (hitems : ∀ s ∈ segments, Generates .conversion n s.text s.item s.rest) :
      Generates .primary n text (.call (String.ofList label) (segments.map Segment.item)) rest
  | chain {n : Nat} {kind : Chain} {text between rest : List Char} {left e : Expr}
      (hleft : Generates kind.operand n text left between)
      (hmore : Generates (.more kind left) n between e rest) :
      Generates (.chain kind) n text e rest
  | done {n : Nat} {kind : Chain} {text : List Char} {left : Expr} :
      Generates (.more kind left) n text left text
  | joined {n : Nat} {kind : Chain} {text start operandText between rest : List Char}
      {op : Operator} {left right e : Expr} (hblanks : AfterBlanks text start)
      (hjoins : Joins kind op start operandText)
      (hright : Generates kind.operand n operandText right between)
      (hmore : Generates (.more kind (.binary op left right)) n between e rest) :
      Generates (.more kind left) (n + 1) text e rest
  | unconverted {n : Nat} {text rest : List Char} {e : Expr}
      (hsum : Generates (.chain .summands) n text e rest) :
      Generates .conversion n text e rest
  | converted {n : Nat} {text between keyword after start unit rest : List Char} {e : Expr}
      (hsum : Generates (.chain .summands) n text e between)
      (hbefore : AfterBlanks between keyword) (hkeyword : Keyword keyword after)
      (hblanks : AfterBlanks after start) (hlongest : LongestMatch IsName start unit rest) :
      Generates .conversion n text (.convert e (String.ofList unit)) rest

/-! ## Operators -/

/-- The keyword starts no operand. -/
theorem startsOperand_eq_true_iff {text : List Char} :
    startsOperand text = true ↔ (∃ rest, text = '(' :: rest) ∨
      ∃ c rest, text = c :: rest ∧ isNameStart c = true ∧ ∀ after, ¬ Keyword text after := by
  have hkeyword : (afterTo? text).isNone = true ↔ ∀ after, ¬ Keyword text after := by
    rw [Option.isNone_iff_eq_none, Option.eq_none_iff_forall_ne_some]
    simp only [ne_eq, afterTo?_eq_some_iff]
  cases text with
  | nil => simp [startsOperand]
  | cons c rest =>
    rw [startsOperand, Bool.or_eq_true, Bool.and_eq_true, hkeyword, beq_iff_eq]
    constructor
    · rintro (rfl | ⟨hstart, hother⟩)
      · exact .inl ⟨rest, rfl⟩
      · exact .inr ⟨c, rest, rfl, hstart, hother⟩
    · rintro (⟨rest', heq⟩ | ⟨c', rest', heq, hstart, hother⟩)
      · exact .inl (List.cons.inj heq).1
      · obtain ⟨rfl, -⟩ := List.cons.inj heq
        exact .inr ⟨hstart, hother⟩

/-- The operators that are read are those of the language. -/
theorem Chain.operator?_eq_some_iff {kind : Chain} {text operandText : List Char} {op : Operator} :
    kind.operator? text = some (op, operandText) ↔ Joins kind op text operandText := by
  constructor
  · intro hop
    cases kind with
    | summands =>
      change sumOperator? text = some (op, operandText) at hop
      unfold sumOperator? at hop
      split at hop
      · cases hop
        exact .plus
      · cases hop
        exact .minus
      · cases hop
    | factors =>
      change factorOperator? text = some (op, operandText) at hop
      unfold factorOperator? at hop
      split at hop
      · cases hop
        exact .times
      · cases hop
        exact .divided
      · split at hop
        · next hstarts =>
          cases hop
          rcases startsOperand_eq_true_iff.mp hstarts with ⟨rest, rfl⟩ | ⟨c, rest, rfl, hc, hother⟩
          · exact .parenthesis
          · exact .name hc hother
        · cases hop
  · intro hjoins
    cases hjoins with
    | plus => rfl
    | minus => rfl
    | times => rfl
    | divided => rfl
    | parenthesis => rfl
    | name hstart hkeyword =>
      exact factorOperator?_of_startsOperand
        (startsOperand_eq_true_iff.mpr (.inr ⟨_, _, rfl, hstart, hkeyword⟩))

/-! ## What is read is in the language -/

/-- A phrase that is in the language wherever the text that it stands in comes after some blanks. It
may leave blanks over that the parsers skip. -/
def InLanguage (phrase : Phrase) (n : Nat) (text : List Char) (e : Expr) (rest : List Char) :
    Prop :=
  ∀ before, AfterBlanks before text → ∃ after, AfterBlanks after rest ∧
    Generates phrase n before e after

/-- Arguments that are linked are separated, with the blanks that they leave over. -/
theorem exists_separated {n : Nat} {segments : List Segment} {text rest : List Char}
    (hlinked : Linked text segments rest)
    (hitems : ∀ s ∈ segments, InLanguage .conversion n s.text s.item s.rest)
    {before : List Char} (hbefore : AfterBlanks before text) :
    ∃ others : List Segment, others.map Segment.item = segments.map Segment.item ∧
      Separated before others rest ∧
      ∀ s ∈ others, Generates .conversion n s.text s.item s.rest := by
  induction segments generalizing text before with
  | nil => exact ⟨[], rfl, hbefore.trans (.of_skipBlanks_eq hlinked), by simp⟩
  | cons s segments ih =>
    obtain ⟨hcomma, hlinked⟩ := hlinked
    obtain ⟨hitem, hlater⟩ := List.forall_mem_cons.mp hitems
    obtain ⟨after, hafter, hgenerates⟩ := hitem s.text (.refl s.text)
    obtain ⟨others, hsame, hseparated, hothers⟩ := ih hlinked hlater hafter
    refine ⟨⟨s.text, s.item, after⟩ :: others, congrArg (s.item :: ·) hsame, ?_, ?_⟩
    · exact ⟨hbefore.trans (.of_skipBlanks_eq hcomma), hseparated⟩
    · exact List.forall_mem_cons.mpr ⟨hgenerates, hothers⟩

/-- Arguments that are listed up to the closing parenthesis are arguments of the language. -/
theorem exists_arguments {n : Nat} {segments : List Segment} {text rest : List Char}
    (hlist : ArgumentList text segments rest)
    (hitems : ∀ s ∈ segments, InLanguage .conversion n s.text s.item s.rest) :
    ∃ others : List Segment, others.map Segment.item = segments.map Segment.item ∧
      Arguments text others rest ∧ ∀ s ∈ others, Generates .conversion n s.text s.item s.rest := by
  cases segments with
  | nil => exact ⟨[], rfl, .of_skipBlanks_eq hlist, by simp⟩
  | cons s segments =>
    obtain ⟨htext, hlinked⟩ := hlist
    obtain ⟨hitem, hlater⟩ := List.forall_mem_cons.mp hitems
    obtain ⟨after, hafter, hgenerates⟩ := hitem text (htext ▸ .skipBlanks text)
    obtain ⟨others, hsame, hseparated, hothers⟩ := exists_separated hlinked hlater hafter
    exact ⟨⟨text, s.item, after⟩ :: others, congrArg (s.item :: ·) hsame, ⟨rfl, hseparated⟩,
      List.forall_mem_cons.mpr ⟨hgenerates, hothers⟩⟩

/-- Every derivation of what the parsers read is one of the language. -/
theorem Derives.inLanguage {phrase : Phrase} {n : Nat} {text rest : List Char} {e : Expr}
    (h : Derives phrase n text e rest) : InLanguage phrase n text e rest := by
  induction h with
  | minus hsign _ ih =>
    intro before hbefore
    obtain ⟨after, hafter, hinner⟩ := ih _ (.refl _)
    exact ⟨after, hafter, .minus (hbefore.trans (.of_skipBlanks_eq hsign)) hinner⟩
  | plus hsign _ ih =>
    intro before hbefore
    obtain ⟨after, hafter, hinner⟩ := ih _ (.refl _)
    exact ⟨after, hafter, .plus (hbefore.trans (.of_skipBlanks_eq hsign)) hinner⟩
  | bare _ ih =>
    intro before hbefore
    obtain ⟨after, hafter, hpower⟩ := ih before (hbefore.trans (.skipBlanks _))
    exact ⟨after, hafter, .bare hpower⟩
  | unraised _ _ ih =>
    intro before hbefore
    obtain ⟨after, hafter, hbase⟩ := ih before hbefore
    exact ⟨after, hafter.trans (.skipBlanks _), .unraised hbase⟩
  | raised _ hcaret _ ihbase ihexponent =>
    intro before hbefore
    obtain ⟨between, hbetween, hbase⟩ := ihbase before hbefore
    obtain ⟨after, hafter, hexponent⟩ := ihexponent _ (.refl _)
    exact ⟨after, hafter, .raised hbase (hbetween.trans (.of_skipBlanks_eq hcaret)) hexponent⟩
  | enclosed hopen _ hclose ih =>
    intro before hbefore
    obtain ⟨between, hbetween, hinner⟩ := ih _ (.refl _)
    exact ⟨_, .refl _, .enclosed (hbefore.trans (.of_skipBlanks_eq hopen)) hinner
      (hbetween.trans (.of_skipBlanks_eq hclose))⟩
  | number htext _ hsplit hdigits =>
    intro before hbefore
    exact ⟨_, .refl _, .number (hbefore.trans (.of_skipBlanks_eq htext))
      ((splitNumber_eq hsplit).2 hdigits) (longestMatch_splitNumber hsplit hdigits)⟩
  | name htext hstart hsplit hend =>
    intro before hbefore
    refine ⟨_, .skipBlanks _, .name (hbefore.trans (.of_skipBlanks_eq htext))
      (longestMatch_word hstart hsplit) fun inner hopen => hend inner ?_⟩
    exact hopen.skipBlanks_cons (by decide)
  | call htext hstart hsplit hopen segments harguments _ ih =>
    intro before hbefore
    obtain ⟨others, hsame, hothers, hitems⟩ := exists_arguments harguments ih
    refine ⟨_, .refl _, ?_⟩
    rw [← hsame]
    exact .call (hbefore.trans (.of_skipBlanks_eq htext)) (longestMatch_word hstart hsplit)
      (.of_skipBlanks_eq hopen) others hothers hitems
  | chain _ _ ihleft ihmore =>
    intro before hbefore
    obtain ⟨between, hbetween, hleft⟩ := ihleft before hbefore
    obtain ⟨after, hafter, hmore⟩ := ihmore between hbetween
    exact ⟨after, hafter, .chain hleft hmore⟩
  | done _ =>
    intro before hbefore
    exact ⟨before, hbefore.trans (.skipBlanks _), .done⟩
  | joined hop _ _ ihright ihmore =>
    intro before hbefore
    obtain ⟨between, hbetween, hright⟩ := ihright _ (.refl _)
    obtain ⟨after, hafter, hmore⟩ := ihmore between hbetween
    exact ⟨after, hafter, .joined (hbefore.trans (.skipBlanks _))
      (Chain.operator?_eq_some_iff.mp hop) hright hmore⟩
  | unconverted _ _ ih =>
    intro before hbefore
    obtain ⟨after, hafter, hsum⟩ := ih before hbefore
    exact ⟨after, hafter.trans (.skipBlanks _), .unconverted hsum⟩
  | converted _ hto hsplit hunit ih =>
    intro before hbefore
    obtain ⟨between, hbetween, hsum⟩ := ih before hbefore
    exact ⟨_, .refl _, .converted hsum (hbetween.trans (.skipBlanks _))
      (afterTo?_eq_some_iff.mp hto) (.skipBlanks _) (longestMatch_splitName hsplit hunit)⟩

end Reckoner.Expr
