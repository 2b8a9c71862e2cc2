import Reckoner.Proofs.Expr.Language
import Reckoner.Proofs.Expr.Structure

/-!
# Reading the language

A rule of the language does not say where its phrase ends, but what comes after it in a longer
phrase or in a whole text never goes on with it. The parsers take as much as they can, so they read
the same phrase; they may only skip blanks after it that the phrase leaves over. Hence the texts
that are read are exactly those of the language, with the trees that they have there.
-/

namespace Reckoner.Expr

open Reckoner.Expr.Parser Reckoner.Text Reckoner.Token

/-! ## Where phrases begin -/

/-- The text that a phrase stands in, without the blanks in front. What follows in a chain may be
nothing, and then leaves the blanks over. -/
def Phrase.unread : Phrase → List Char → List Char
  | .more _ _, text => text
  | _, text => skipBlanks text

/-- A number begins with a digit or a point. -/
theorem exists_numeral_start {text start rest : List Char} {literal : NumberLiteral}
    (hblanks : AfterBlanks text start) (hliteral : literal.WellFormed)
    (hlongest : LongestMatch IsNumeral start literal.text rest) :
    ∃ c others, skipBlanks text = c :: others ∧ start = c :: others ∧
      (c.isDigit = true ∨ c = '.') := by
  obtain ⟨c, others, htext, hc⟩ := hliteral.begins
  obtain rfl : start = c :: (others ++ rest) := by rw [hlongest.split, htext, List.cons_append]
  have hblank : isBlank c = false := by
    rcases hc with hdigit | rfl
    · by_contra hblank
      have hpart := (not_name_of_isBlank (by simpa using hblank)).2
      rw [isNamePart_of_isDigit hdigit] at hpart
      cases hpart
    · decide
  exact ⟨c, others ++ rest, hblanks.skipBlanks_cons hblank, rfl, hc⟩

/-- A word begins with a character that begins a name. -/
theorem exists_word_start {text start label rest : List Char} (hblanks : AfterBlanks text start)
    (hlongest : LongestMatch IsWord start label rest) :
    ∃ c others, skipBlanks text = c :: others ∧ start = c :: others ∧ isNameStart c = true ∧
      splitName (c :: others) = (label, rest) := by
  obtain ⟨c, others, rfl, hc, hsplit⟩ := hlongest.word
  exact ⟨c, others, hblanks.skipBlanks_cons (isBlank_of_isNameStart hc), rfl, hc, hsplit⟩

namespace Generates

variable {n : Nat} {text rest : List Char} {e : Expr}

/-- A primary begins with no sign, and does not begin where parentheses are closed. -/
theorem primary_begins (h : Generates .primary n text e rest) :
    ∃ c others, skipBlanks text = c :: others ∧ c ≠ '-' ∧ c ≠ '+' ∧ c ≠ ')' := by
  cases h with
  | enclosed hopen => exact ⟨'(', _, hopen.skipBlanks_cons (by decide), by decide⟩
  | number hblanks hliteral hlongest =>
    obtain ⟨c, others, htext, -, hc⟩ := exists_numeral_start hblanks hliteral hlongest
    have hother : ∀ d ∈ ['-', '+', ')'], d.isDigit = false ∧ d ≠ '.' :=
      forall_mem_of_all (by decide)
    have hne : ∀ d ∈ ['-', '+', ')'], c ≠ d := by
      rintro d hd rfl
      rcases hc with hdigit | hpoint
      · rw [(hother c hd).1] at hdigit
        cases hdigit
      · exact (hother c hd).2 hpoint
    exact ⟨c, others, htext, hne _ (by decide), hne _ (by decide), hne _ (by decide)⟩
  | name hblanks hlongest =>
    obtain ⟨c, others, htext, -, hc, -⟩ := exists_word_start hblanks hlongest
    have hne := isNameStart_ne hc
    exact ⟨c, others, htext, hne _ (by decide), hne _ (by decide), hne _ (by decide)⟩
  | call hblanks hlongest =>
    obtain ⟨c, others, htext, -, hc, -⟩ := exists_word_start hblanks hlongest
    have hne := isNameStart_ne hc
    exact ⟨c, others, htext, hne _ (by decide), hne _ (by decide), hne _ (by decide)⟩

/-- A power begins like its base. -/
theorem power_begins (h : Generates .power n text e rest) :
    ∃ c others, skipBlanks text = c :: others ∧ c ≠ '-' ∧ c ≠ '+' ∧ c ≠ ')' := by
  cases h with
  | unraised hbase => exact hbase.primary_begins
  | raised hbase => exact hbase.primary_begins

/-- No operand begins where parentheses are closed. -/
theorem signed_begins (h : Generates .signed n text e rest) :
    ∃ c others, skipBlanks text = c :: others ∧ c ≠ ')' := by
  cases h with
  | minus hsign => exact ⟨'-', _, hsign.skipBlanks_cons (by decide), by decide⟩
  | plus hsign => exact ⟨'+', _, hsign.skipBlanks_cons (by decide), by decide⟩
  | bare hpower =>
    obtain ⟨c, others, htext, -, -, hclose⟩ := hpower.power_begins
    exact ⟨c, others, htext, hclose⟩

/-- No expression begins where parentheses are closed. -/
theorem conversion_begins (h : Generates .conversion n text e rest) :
    ∃ c others, skipBlanks text = c :: others ∧ c ≠ ')' := by
  have hsummands {e : Expr} {rest : List Char} (h : Generates (.chain .summands) n text e rest) :
      ∃ c others, skipBlanks text = c :: others ∧ c ≠ ')' := by
    cases h with
    | chain hfactors _ =>
      cases hfactors with
      | chain hsigned _ => exact hsigned.signed_begins
  cases h with
  | unconverted hsum => exact hsummands hsum
  | converted hsum => exact hsummands hsum

end Generates

/-! ## What phrases leave over -/

/-- The text of a phrase is no longer without the blanks in front. -/
theorem Phrase.length_unread_le (phrase : Phrase) (text : List Char) :
    (phrase.unread text).length ≤ text.length := by
  cases phrase with
  | more => exact Nat.le_refl _
  | _ => exact length_skipBlanks_le text

/-- An operator takes no more than there is. -/
theorem Joins.length_le {kind : Chain} {op : Operator} {text operandText : List Char}
    (hjoins : Joins kind op text operandText) : operandText.length ≤ text.length := by
  cases hjoins <;> simp

/-- Separated arguments take a character each, and the closing parenthesis takes one more. -/
theorem Separated.length_lt {segments : List Segment} {text rest : List Char}
    (hseparated : Separated text segments rest)
    (hitems : ∀ s ∈ segments, s.rest.length ≤ (skipBlanks s.text).length) :
    segments.length + rest.length < text.length := by
  induction segments generalizing text with
  | nil =>
    have hclose := AfterBlanks.length_le hseparated
    rw [List.length_cons] at hclose
    rw [List.length_nil]
    omega
  | cons s segments ih =>
    obtain ⟨hcomma, hothers⟩ := hseparated
    obtain ⟨hitem, hlater⟩ := List.forall_mem_cons.mp hitems
    have hfirst := hcomma.length_le
    have hskip := length_skipBlanks_le s.text
    have hrest := ih hothers hlater
    rw [List.length_cons] at hfirst ⊢
    omega

/-- Arguments and the closing parenthesis take what is there. -/
theorem Arguments.length_le {segments : List Segment} {text rest : List Char}
    (harguments : Arguments text segments rest)
    (hitems : ∀ s ∈ segments, s.rest.length ≤ (skipBlanks s.text).length) :
    rest.length ≤ text.length := by
  cases segments with
  | nil =>
    have hclose := AfterBlanks.length_le harguments
    rw [List.length_cons] at hclose
    omega
  | cons s segments =>
    obtain ⟨htext, hothers⟩ := harguments
    obtain ⟨hitem, hlater⟩ := List.forall_mem_cons.mp hitems
    have hskip := length_skipBlanks_le s.text
    have hrest := hothers.length_lt hlater
    rw [← htext]
    omega

/-- No phrase leaves over more than there is. -/
theorem Generates.length_le {phrase : Phrase} {n : Nat} {text rest : List Char} {e : Expr}
    (h : Generates phrase n text e rest) : rest.length ≤ (phrase.unread text).length := by
  have hafter {c : Char} {text inner rest : List Char} (hc : isBlank c = false)
      (htext : AfterBlanks text (c :: inner)) (hrest : rest.length ≤ inner.length) :
      rest.length ≤ (skipBlanks text).length := by
    rw [htext.skipBlanks_cons hc, List.length_cons]
    omega
  induction h with
  | minus hsign _ ih =>
    exact hafter (by decide) hsign (ih.trans (length_skipBlanks_le _))
  | plus hsign _ ih =>
    exact hafter (by decide) hsign (ih.trans (length_skipBlanks_le _))
  | bare _ ih => exact ih
  | unraised _ ih => exact ih
  | @raised _ text between after rest _ _ _ hcaret _ ihbase ihexponent =>
    have hbetween := hcaret.length_le
    have hskip := length_skipBlanks_le after
    have hbase : between.length ≤ (skipBlanks text).length := ihbase
    have hexponent : rest.length ≤ (skipBlanks after).length := ihexponent
    show rest.length ≤ (skipBlanks text).length
    rw [List.length_cons] at hbetween
    omega
  | @enclosed _ text inner between rest _ hopen _ hclose ih =>
    have hbetween := hclose.length_le
    have hskip := length_skipBlanks_le inner
    have hinner : between.length ≤ (skipBlanks inner).length := ih
    rw [List.length_cons] at hbetween
    exact hafter (by decide) hopen (by omega)
  | number hblanks hliteral hlongest =>
    obtain ⟨c, others, htext, hstart, -⟩ := exists_numeral_start hblanks hliteral hlongest
    show _ ≤ (skipBlanks _).length
    rw [htext, ← hstart]
    exact hlongest.length_le
  | name hblanks hlongest =>
    obtain ⟨c, others, htext, hstart, -⟩ := exists_word_start hblanks hlongest
    show _ ≤ (skipBlanks _).length
    rw [htext, ← hstart]
    exact hlongest.length_le
  | @call _ text start label between inner rest hblanks hlongest hopen segments harguments _ ih =>
    obtain ⟨c, others, htext, hstart, -⟩ := exists_word_start hblanks hlongest
    have hlist : rest.length ≤ inner.length := harguments.length_le ih
    have hinner := hopen.length_le
    rw [List.length_cons] at hinner
    show rest.length ≤ (skipBlanks text).length
    rw [htext, ← hstart]
    exact (by omega : rest.length ≤ between.length).trans hlongest.length_le
  | @chain _ kind text between rest _ _ _ _ ihleft ihmore =>
    have hleft : between.length ≤ (skipBlanks text).length := by
      cases kind <;> exact ihleft
    have hmore : rest.length ≤ between.length := ihmore
    exact hmore.trans hleft
  | done => exact Nat.le_refl _
  | @joined _ kind text start operandText between rest _ _ _ _ hblanks hjoins _ _ ihright ihmore =>
    have hright := ihright.trans (kind.operand.length_unread_le operandText)
    have hmore : rest.length ≤ between.length := ihmore
    have hstart := hblanks.length_le
    have hoperand := hjoins.length_le
    show rest.length ≤ text.length
    omega
  | unconverted _ ih => exact ih
  | @converted _ text between keyword after start unit rest _ _ hbefore hkeyword hblanks hlongest
      ih =>
    have hsum : between.length ≤ (skipBlanks text).length := ih
    have hrest := hlongest.length_le
    have hstart := hblanks.length_le
    have hbetween := hbefore.length_le
    rw [hkeyword.split] at hbetween
    simp only [List.length_cons] at hbetween
    show rest.length ≤ (skipBlanks text).length
    omega

/-! ## What follows phrases -/

/-- What follows a chain goes on neither with it nor with its last operand. -/
structure Chain.Stops (kind : Chain) (rest : List Char) : Prop where
  unraised : ∀ after, skipBlanks rest ≠ '^' :: after
  no_factor : factorOperator? (skipBlanks rest) = none
  no_summand : kind = .summands → sumOperator? (skipBlanks rest) = none

/-- What follows a phrase does not go on with it. -/
def Phrase.Stops : Phrase → List Char → Prop
  | .primary, _ => True
  | .signed, rest => ∀ after, skipBlanks rest ≠ '^' :: after
  | .power, rest => ∀ after, skipBlanks rest ≠ '^' :: after
  | .chain kind, rest => kind.Stops rest
  | .more kind _, rest => kind.Stops rest
  | .conversion, rest => Chain.summands.Stops rest ∧ afterTo? (skipBlanks rest) = none

namespace Chain

variable {kind : Chain} {text start rest : List Char}

/-- What follows a chain follows its last operand. -/
theorem Stops.operand (hstops : kind.Stops rest) : kind.operand.Stops rest := by
  cases kind with
  | factors => exact hstops.unraised
  | summands => exact ⟨hstops.unraised, hstops.no_factor, by simp⟩

/-- No operator of a chain follows it. -/
theorem Stops.operator?_eq_none (hstops : kind.Stops rest) :
    kind.operator? (skipBlanks rest) = none := by
  cases kind with
  | factors => exact hstops.no_factor
  | summands => exact hstops.no_summand rfl

end Chain

/-- An operator that joins has no blanks in front. -/
theorem Joins.skipBlanks_eq {kind : Chain} {op : Operator} {text start operandText : List Char}
    (hblanks : AfterBlanks text start) (hjoins : Joins kind op start operandText) :
    skipBlanks text = start := by
  cases hjoins with
  | name hstart => exact hblanks.skipBlanks_cons (isBlank_of_isNameStart hstart)
  | _ => exact hblanks.skipBlanks_cons (by decide)

/-- An operator of a chain follows its operand. -/
theorem Joins.stops {kind : Chain} {op : Operator} {text start operandText : List Char}
    (hblanks : AfterBlanks text start) (hjoins : Joins kind op start operandText) :
    kind.operand.Stops text := by
  have hskip := hjoins.skipBlanks_eq hblanks
  have hsign {c : Char} {others : List Char} (hstart : start = c :: others) (hc : c ≠ '^') :
      ∀ after, skipBlanks text ≠ '^' :: after := by
    intro after heq
    rw [hskip, hstart] at heq
    exact hc (List.cons.inj heq).1
  have hsum {c : Char} {others : List Char} (hstart : start = c :: others)
      (hc : c ∈ ['+', '-']) : Chain.factors.Stops text := by
    have hplain : ∀ d ∈ ['+', '-'], d ≠ '^' ∧ d ≠ '*' ∧ d ≠ '/' ∧ d ≠ '(' ∧
        isNameStart d = false := forall_mem_of_all (by decide +kernel)
    obtain ⟨hcaret, hstar, hslash, hparen, hname⟩ := hplain c hc
    refine ⟨hsign hstart hcaret, ?_, by simp⟩
    rw [hskip, hstart]
    simp [factorOperator?, startsOperand, hstar, hslash, hparen, hname]
  cases hjoins with
  | plus => exact hsum rfl (by decide)
  | minus => exact hsum rfl (by decide)
  | times => exact hsign rfl (by decide)
  | divided => exact hsign rfl (by decide)
  | parenthesis => exact hsign rfl (by decide)
  | name hstart => exact hsign rfl (isNameStart_ne hstart _ (by decide))

/-- What follows in a chain follows the operand before it. -/
theorem Generates.stops_operand {kind : Chain} {n : Nat} {left e : Expr} {between rest : List Char}
    (hmore : Generates (.more kind left) n between e rest) (hstops : kind.Stops rest) :
    kind.operand.Stops between := by
  cases hmore with
  | done => exact hstops.operand
  | joined hblanks hjoins => exact hjoins.stops hblanks

/-- The keyword follows a chain of summands. -/
theorem stops_of_keyword {between keyword after : List Char} (hbefore : AfterBlanks between keyword)
    (hkeyword : Keyword keyword after) : Chain.summands.Stops between := by
  have hto := afterTo?_eq_some_iff.mpr hkeyword
  obtain rfl := hkeyword.split
  have hskip := hbefore.skipBlanks_cons (by decide)
  refine ⟨?_, ?_, fun _ => ?_⟩
  · intro after heq
    simp [hskip] at heq
  · rw [hskip]
    simp [factorOperator?, startsOperand, hto]
  · rw [hskip]
    rfl

/-- What closes an expression follows it. -/
theorem stops_of_closes {rest : List Char} (hrest : Closes (skipBlanks rest)) :
    Phrase.conversion.Stops rest := by
  obtain ⟨-, hfactor, hsum, hto, -, hunraised⟩ := hrest.ends
  exact ⟨⟨hunraised, hfactor, fun _ => hsum⟩, hto⟩

/-- A parenthesis or a comma closes an expression. -/
theorem stops_of_closing {c : Char} {text rest : List Char} (htext : AfterBlanks text (c :: rest))
    (hc : c = ')' ∨ c = ',') : Phrase.conversion.Stops text := by
  have hblank : isBlank c = false := by
    rcases hc with rfl | rfl <;> decide
  exact stops_of_closes (.inr ⟨c, rest, htext.skipBlanks_cons hblank, hc⟩)

/-- Each of several arguments is closed by what follows it. -/
theorem Separated.stops {segments : List Segment} {text rest : List Char}
    (hseparated : Separated text segments rest) :
    Phrase.conversion.Stops text ∧ ∀ s ∈ segments, Phrase.conversion.Stops s.rest := by
  induction segments generalizing text with
  | nil => exact ⟨stops_of_closing hseparated (.inl rfl), by simp⟩
  | cons s segments ih =>
    obtain ⟨hcomma, hothers⟩ := hseparated
    obtain ⟨hfirst, hlater⟩ := ih hothers
    exact ⟨stops_of_closing hcomma (.inr rfl), List.forall_mem_cons.mpr ⟨hfirst, hlater⟩⟩

/-- Each argument of a call is closed by what follows it. -/
theorem Arguments.stops {segments : List Segment} {text rest : List Char}
    (harguments : Arguments text segments rest) :
    ∀ s ∈ segments, Phrase.conversion.Stops s.rest := by
  cases segments with
  | nil => simp
  | cons first others =>
    obtain ⟨hfirst, hlater⟩ := harguments.2.stops
    exact List.forall_mem_cons.mpr ⟨hfirst, hlater⟩

/-! ## What is in the language is read -/

/-- The parser of a phrase. -/
def Phrase.parser (level : Level) : Phrase → Parser Expr
  | .signed => level.signed
  | .power => level.power
  | .primary => level.primary
  | .chain kind => kind.whole level
  | .more kind left => kind.more level left
  | .conversion => level.conversion

/-- The parsers of the operands of a chain are those of their phrases. -/
theorem Chain.parser_operand (kind : Chain) (level : Level) :
    kind.operand.parser level = kind.operandParser level := by
  cases kind <;> rfl

/-- A phrase is read where it stands, with blanks that it leaves over. -/
def IsReadAt (parser : Parser Expr) (text : List Char) (e : Expr) (rest : List Char) : Prop :=
  ∃ last, parser text = .ok (e, last) ∧ skipBlanks last = skipBlanks rest

/-- Arguments that are read each on its own are read between commas. -/
theorem commaSeparated_of_separated {item : Parser Expr} {first : Segment} {others : List Segment}
    {rest : List Char} (hseparated : Separated first.rest others rest)
    (hitems : ∀ s ∈ first :: others, IsReadAt item s.text s.item s.rest) {count : Nat}
    (hcount : others.length ≤ count) :
    commaSeparated item (count + 1) first.text =
      .ok ((first :: others).map Segment.item, ')' :: rest) := by
  induction others generalizing first count with
  | nil =>
    obtain ⟨last, hread, hlast⟩ := hitems first List.mem_cons_self
    rw [AfterBlanks.skipBlanks_cons hseparated (by decide)] at hlast
    show (item first.text >>= _) = _
    rw [hread]
    simp only [bind, Except.bind, hlast]
    rfl
  | cons second others ih =>
    obtain ⟨hcomma, hothers⟩ := hseparated
    obtain ⟨hfirst, hlater⟩ := List.forall_mem_cons.mp hitems
    obtain ⟨last, hread, hlast⟩ := hfirst
    rw [hcomma.skipBlanks_cons (by decide)] at hlast
    cases count with
    | zero => simp at hcount
    | succ count =>
      have hmore := ih hothers hlater (by simpa using hcount)
      show (item first.text >>= _) = _
      rw [hread]
      simp only [bind, Except.bind, hlast, hmore]
      rfl

/-- The arguments of a call are read up to the closing parenthesis. -/
theorem arguments_of_arguments {n : Nat} {segments : List Segment} {text rest : List Char}
    (harguments : Arguments text segments rest)
    (hgenerates : ∀ s ∈ segments, Generates .conversion n s.text s.item s.rest)
    (hitems : ∀ s ∈ segments,
      IsReadAt (Level.withAllowance n).conversion s.text s.item s.rest) :
    (Level.withAllowance n).arguments text =
      .ok (segments.map Segment.item, ')' :: rest) := by
  unfold Level.arguments
  cases segments with
  | nil =>
    rw [AfterBlanks.skipBlanks_cons harguments (by decide)]
    rfl
  | cons first others =>
    obtain ⟨rfl, hseparated⟩ := harguments
    obtain ⟨c, more, htext, hclose⟩ := (hgenerates first List.mem_cons_self).conversion_begins
    have hfirst : first.rest.length ≤ (skipBlanks first.text).length :=
      (hgenerates first List.mem_cons_self).length_le
    have hothers := hseparated.length_lt fun s hs =>
      (hgenerates s (List.mem_cons_of_mem first hs)).length_le
    have hcount : others.length ≤ (skipBlanks first.text).length := by omega
    have hread := commaSeparated_of_separated hseparated hitems hcount
    rw [commaSeparated_congr (conversion_congr n (skipBlanks_skipBlanks first.text).symm)] at hread
    rw [htext] at hread ⊢
    split
    · next heq => exact absurd (List.cons.inj heq).1 hclose
    · exact hread

namespace IsReadAt

variable {n : Nat} {kind : Chain} {text start inner between after rest : List Char}
  {e base left right : Expr}

/-- An operand is read after a minus sign. -/
theorem minus (hinner : IsReadAt (Level.withAllowance n).signed inner e rest)
    (hsign : AfterBlanks text ('-' :: inner)) :
    IsReadAt (Level.withAllowance (n + 1)).signed text (.neg e) rest := by
  obtain ⟨last, hread, hlast⟩ := hinner
  refine ⟨last, ?_, hlast⟩
  rw [signed_congr _ hsign.skipBlanks_eq, signed_minus, hread]
  rfl

/-- An operand is read after a plus sign. -/
theorem plus (hinner : IsReadAt (Level.withAllowance n).signed inner e rest)
    (hsign : AfterBlanks text ('+' :: inner)) :
    IsReadAt (Level.withAllowance (n + 1)).signed text e rest := by
  obtain ⟨last, hread, hlast⟩ := hinner
  refine ⟨last, ?_, hlast⟩
  rw [signed_congr _ hsign.skipBlanks_eq, signed_plus, hread]

/-- An operand without signs is read. -/
theorem bare (hread : IsReadAt (Level.withAllowance n).power text e rest)
    (hpower : Generates .power n text e rest) :
    IsReadAt (Level.withAllowance (n + 1)).signed text e rest := by
  obtain ⟨c, others, htext, hminus, hplus, -⟩ := hpower.power_begins
  obtain ⟨last, hread, hlast⟩ := hread
  refine ⟨last, ?_, hlast⟩
  rw [signed_of_unsigned n htext hminus hplus, hread]

/-- A primary is read that no power follows. -/
theorem unraised (hbase : IsReadAt (Level.withAllowance n).primary text e rest)
    (hend : ∀ after, skipBlanks rest ≠ '^' :: after) :
    IsReadAt (Level.withAllowance n).power text e rest := by
  obtain ⟨last, hread, hlast⟩ := hbase
  have hprimary : (Level.withAllowance n).primary text = within 0 (n + 1) (.ok (e, last)) :=
    hread.trans (within_zero _ _).symm
  refine ⟨skipBlanks last, ?_, by rw [skipBlanks_skipBlanks, hlast]⟩
  rw [power_of_end hprimary (by rw [hlast]; exact hend), within_zero]

/-- A primary is read with its power. -/
theorem raised (hbase : IsReadAt (Level.withAllowance n).primary text base between)
    (hcaret : AfterBlanks between ('^' :: after))
    (hexponent : IsReadAt (Level.withAllowance n).signed after e rest) :
    IsReadAt (Level.withAllowance n).power text (.binary .pow base e) rest := by
  obtain ⟨middle, hread, hmiddle⟩ := hbase
  obtain ⟨last, hread', hlast⟩ := hexponent
  have hprimary : (Level.withAllowance n).primary text = within 0 (n + 1) (.ok (base, middle)) :=
    hread.trans (within_zero _ _).symm
  refine ⟨last, ?_, hlast⟩
  rw [power_of_caret hprimary (hmiddle.trans (hcaret.skipBlanks_cons (by decide))), within_zero,
    hread']
  rfl

/-- An expression in parentheses is read. -/
theorem enclosed (hopen : AfterBlanks text ('(' :: inner))
    (hinner : IsReadAt (Level.withAllowance n).conversion inner e between)
    (hclose : AfterBlanks between (')' :: rest)) :
    IsReadAt (Level.withAllowance n).primary text e rest := by
  obtain ⟨last, hread, hlast⟩ := hinner
  refine ⟨rest, ?_, rfl⟩
  rw [primary_of_parenthesis _ (hopen.skipBlanks_cons (by decide)), hread]
  simp only [bind, Except.bind]
  rw [hlast, hclose.skipBlanks_cons (by decide)]
  rfl

/-- A number is read. -/
theorem number {literal : NumberLiteral} (hblanks : AfterBlanks text start)
    (hliteral : literal.WellFormed)
    (hlongest : LongestMatch IsNumeral start literal.text rest) :
    IsReadAt (Level.withAllowance n).primary text (.number literal.decimal.toFloat) rest := by
  obtain ⟨c, others, htext, rfl, hc⟩ := exists_numeral_start hblanks hliteral hlongest
  refine ⟨rest, ?_, rfl⟩
  rw [primary_of_digit _ htext hc, Parser.number, hlongest.splitNumber_eq hliteral]
  dsimp only
  rw [if_pos hliteral.digits]

/-- A name is read that is not called. -/
theorem name {label : List Char} (hblanks : AfterBlanks text start)
    (hlongest : LongestMatch IsWord start label rest)
    (huncalled : ∀ inner, ¬ AfterBlanks rest ('(' :: inner)) :
    IsReadAt (Level.withAllowance n).primary text (.name (String.ofList label)) rest := by
  obtain ⟨c, others, htext, -, hc, hsplit⟩ := exists_word_start hblanks hlongest
  refine ⟨skipBlanks rest, ?_, skipBlanks_skipBlanks rest⟩
  rw [primary_of_name _ htext hc hsplit]
  split
  · next inner hopen => exact absurd (.of_skipBlanks_eq hopen) (huncalled inner)
  · rfl

/-- A call is read whose arguments are. -/
theorem call {label : List Char} {segments : List Segment} (hblanks : AfterBlanks text start)
    (hlongest : LongestMatch IsWord start label between)
    (hopen : AfterBlanks between ('(' :: inner)) (harguments : Arguments inner segments rest)
    (hgenerates : ∀ s ∈ segments, Generates .conversion n s.text s.item s.rest)
    (hitems : ∀ s ∈ segments,
      IsReadAt (Level.withAllowance n).conversion s.text s.item s.rest) :
    IsReadAt (Level.withAllowance n).primary text
      (.call (String.ofList label) (segments.map Segment.item)) rest := by
  obtain ⟨c, others, htext, -, hc, hsplit⟩ := exists_word_start hblanks hlongest
  have hread := arguments_of_arguments harguments hgenerates hitems
  refine ⟨rest, ?_, rfl⟩
  rw [primary_of_name _ htext hc hsplit, hopen.skipBlanks_cons (by decide)]
  simp only [bind, Except.bind, hread]
  rfl

/-- A chain is read whose first operand is, and what follows it. -/
theorem chain (hleft : IsReadAt (kind.operandParser (Level.withAllowance n)) text left between)
    (hmore : IsReadAt (kind.more (Level.withAllowance n) left) between e rest) :
    IsReadAt (kind.whole (Level.withAllowance n)) text e rest := by
  obtain ⟨middle, hread, hmiddle⟩ := hleft
  obtain ⟨last, hread', hlast⟩ := hmore
  refine ⟨last, ?_, hlast⟩
  rw [Chain.whole_eq, hread]
  exact (kind.more_congr n left hmiddle).trans hread'

/-- A chain is left where none of its operators follows. -/
theorem done (hstops : kind.Stops text) :
    IsReadAt (kind.more (Level.withAllowance n) left) text left text :=
  ⟨skipBlanks text, kind.more_of_end n left hstops.operator?_eq_none, skipBlanks_skipBlanks text⟩

/-- A chain goes on with an operator, an operand and what follows that. -/
theorem joined {op : Operator} {operandText : List Char} (hblanks : AfterBlanks text start)
    (hjoins : Joins kind op start operandText)
    (hright : IsReadAt (kind.operandParser (Level.withAllowance n)) operandText right between)
    (hmore : IsReadAt (kind.more (Level.withAllowance n) (.binary op left right)) between e rest) :
    IsReadAt (kind.more (Level.withAllowance (n + 1)) left) text e rest := by
  have hop : kind.operator? (skipBlanks text) = some (op, operandText) := by
    rw [hjoins.skipBlanks_eq hblanks]
    exact Chain.operator?_eq_some_iff.mpr hjoins
  obtain ⟨middle, hread, hmiddle⟩ := hright
  obtain ⟨last, hread', hlast⟩ := hmore
  refine ⟨last, ?_, hlast⟩
  rw [kind.more_succ n left hop, hread]
  exact (kind.more_congr n _ hmiddle).trans hread'

/-- A sum is read that no conversion follows. -/
theorem unconverted (hsum : IsReadAt (Level.withAllowance n).sum text e rest)
    (hend : afterTo? (skipBlanks rest) = none) :
    IsReadAt (Level.withAllowance n).conversion text e rest := by
  obtain ⟨last, hread, hlast⟩ := hsum
  have hvalue : (Level.withAllowance n).sum text = within 0 n (.ok (e, last)) :=
    hread.trans (within_zero _ _).symm
  refine ⟨skipBlanks last, ?_, by rw [skipBlanks_skipBlanks, hlast]⟩
  rw [conversion_of_end hvalue (by rw [hlast]; exact hend), within_zero]

/-- A sum is read with the unit that it is converted to. -/
theorem converted {keyword unit : List Char}
    (hsum : IsReadAt (Level.withAllowance n).sum text e between)
    (hbefore : AfterBlanks between keyword) (hkeyword : Keyword keyword after)
    (hblanks : AfterBlanks after start) (hlongest : LongestMatch IsName start unit rest) :
    IsReadAt (Level.withAllowance n).conversion text (.convert e (String.ofList unit)) rest := by
  obtain ⟨last, hread, hlast⟩ := hsum
  have hto : afterTo? (skipBlanks last) = some after := by
    obtain rfl := hkeyword.split
    rw [hlast, hbefore.skipBlanks_cons (by decide)]
    exact afterTo?_eq_some_iff.mpr hkeyword
  have hstart : skipBlanks after = start := by
    rw [hblanks.skipBlanks_eq, hlongest.split]
    exact skipBlanks_name hlongest.isKind rest
  have hunit : unit ≠ [] := by
    rintro rfl
    exact hlongest.isKind
  have hname : Parser.name (skipBlanks after) = .ok (String.ofList unit, rest) := by
    rw [hstart]
    exact name_of_splitName hlongest.splitName_eq hunit
  have hvalue : (Level.withAllowance n).sum text = within 0 n (.ok (e, last)) :=
    hread.trans (within_zero _ _).symm
  exact ⟨rest, by rw [conversion_of_to hvalue hto hname, within_zero], rfl⟩

end IsReadAt

/-- What is in the language is read, if what follows does not go on with it. -/
theorem Generates.isReadAt {phrase : Phrase} {n : Nat} {text rest : List Char} {e : Expr}
    (h : Generates phrase n text e rest) (hstops : phrase.Stops rest) :
    IsReadAt (phrase.parser (Level.withAllowance n)) text e rest := by
  induction h with
  | minus hsign _ ih => exact (ih hstops).minus hsign
  | plus hsign _ ih => exact (ih hstops).plus hsign
  | bare hpower ih => exact (ih hstops).bare hpower
  | unraised _ ih => exact (ih trivial).unraised hstops
  | raised _ hcaret _ ihbase ihexponent => exact (ihbase trivial).raised hcaret (ihexponent hstops)
  | enclosed hopen _ hclose ih =>
    exact .enclosed hopen (ih (stops_of_closing hclose (.inl rfl))) hclose
  | number hblanks hliteral hlongest => exact .number hblanks hliteral hlongest
  | name hblanks hlongest huncalled => exact .name hblanks hlongest huncalled
  | call hblanks hlongest hopen segments harguments hitems ih =>
    exact .call hblanks hlongest hopen harguments hitems fun s hs =>
      ih s hs (harguments.stops s hs)
  | @chain _ kind _ _ _ _ _ _ hmore ihleft ihmore =>
    have hleft := ihleft (hmore.stops_operand hstops)
    rw [Chain.parser_operand] at hleft
    exact .chain hleft (ihmore hstops)
  | done => exact .done hstops
  | joined hblanks hjoins _ hmore ihright ihmore =>
    have hright := ihright (hmore.stops_operand hstops)
    rw [Chain.parser_operand] at hright
    exact .joined hblanks hjoins hright (ihmore hstops)
  | unconverted _ ih => exact (ih hstops.1).unconverted hstops.2
  | converted _ hbefore hkeyword hblanks hlongest ih =>
    exact (ih (stops_of_keyword hbefore hkeyword)).converted hbefore hkeyword hblanks hlongest

/-! ## Whole texts -/

/-- A text is read if it is not blank and an expression makes up all of it but some blanks. -/
theorem parse_eq_ok_iff_conversion {text : String} {e : Expr} :
    parse text = .ok e ↔ skipBlanks text.toList ≠ [] ∧ ∃ rest,
      (Level.withAllowance maxDepth).conversion (skipBlanks text.toList) = .ok (e, rest) ∧
        skipBlanks rest = [] := by
  unfold parse
  split
  · next hnil => simp [hnil, fault]
  · next hne =>
    rw [bind_eq_ok_iff]
    constructor
    · rintro ⟨⟨value, rest⟩, hread, hend⟩
      dsimp only at hend
      split at hend
      · next hrest =>
        obtain rfl := Except.ok.inj hend
        exact ⟨hne, rest, hread, hrest⟩
      · simp [fault] at hend
    · rintro ⟨-, rest, hread, hrest⟩
      refine ⟨(e, rest), hread, ?_⟩
      simp only [hrest]

/-- A text is read as a tree exactly if it is that tree in the language, within the levels that an
expression may nest, and nothing but blanks comes after it. -/
theorem parse_eq_ok_iff (text : String) (e : Expr) :
    parse text = .ok e ↔ ∃ rest, Generates .conversion maxDepth text.toList e rest ∧
      ∀ c ∈ rest, isBlank c = true := by
  have hblank {rest : List Char} : skipBlanks rest = [] ↔ ∀ c ∈ rest, isBlank c = true :=
    List.dropWhile_eq_nil_iff
  rw [parse_eq_ok_iff_conversion]
  constructor
  · rintro ⟨-, rest, hread, hrest⟩
    obtain ⟨after, hafter, hgenerates⟩ :=
      ((sound_withAllowance maxDepth).conversion hread).inLanguage _ (.skipBlanks text.toList)
    refine ⟨after, hgenerates, hblank.mp ?_⟩
    rw [hafter.skipBlanks_eq, hrest]
  · rintro ⟨rest, hgenerates, hrest⟩
    have hnil : skipBlanks rest = [] := hblank.mpr hrest
    obtain ⟨c, others, htext, -⟩ := hgenerates.conversion_begins
    obtain ⟨last, hread, hlast⟩ :=
      hgenerates.isReadAt (stops_of_closes (.inl hnil))
    refine ⟨by simp [htext], last, ?_, hlast.trans hnil⟩
    rw [conversion_congr _ (skipBlanks_skipBlanks text.toList)]
    exact hread

-- The letter is no exponent, the first `to` is the keyword, and the second one is a name.
example : parse "2e to to" =
    .ok (.convert (.binary .juxtapose (.number 2.0) (.name "e")) "to") := by
  decide +kernel

end Reckoner.Expr
