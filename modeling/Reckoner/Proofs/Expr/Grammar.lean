import Reckoner.Expr.Parser

/-!
# The grammar of expressions

What the parsers read, said without them: `Derives phrase allowance text e rest` holds when a phrase
of the grammar stands at the front of a text, is the tree `e`, leaves `rest` over and charges no
more than the allowance. A sign, a bare operand and an operator of a chain each take one level of
it. This file proves that whatever a parser returns has a derivation, so that facts about all trees
that are ever read can be proved by induction on derivations.
-/

namespace Reckoner.Expr

open Reckoner.Expr.Parser Reckoner.Text Reckoner.Token

/-- The two kinds of chain: factors joined by multiplication and division, and summands. -/
inductive Chain where
  | factors
  | summands
deriving DecidableEq

/-- The operator of a chain in front of a text, with the text of its right operand. -/
def Chain.operator? : Chain → List Char → Option (Operator × List Char)
  | .factors => factorOperator?
  | .summands => sumOperator?

/-- The phrases of the grammar. -/
inductive Phrase where
  /-- an operand with its signs -/
  | signed
  /-- a primary and the power it may be raised to -/
  | power
  /-- a number, a name, a call or an expression in parentheses -/
  | primary
  /-- a chain of operands -/
  | chain (kind : Chain)
  /-- what follows in a chain after its left part -/
  | more (kind : Chain) (left : Expr)
  /-- a sum and the conversion that may follow it -/
  | conversion

/-- The phrase that the operands of a chain are. -/
def Chain.operand : Chain → Phrase
  | .factors => .signed
  | .summands => .chain .factors

/-- An argument of a call, with the text before it and the text after it. -/
structure Segment where
  text : List Char
  item : Expr
  rest : List Char

/-- Some arguments follow one another, parted by commas, up to the closing parenthesis. The first
text is what is left of the argument before. -/
def Linked : List Char → List Segment → List Char → Prop
  | text, [], rest => skipBlanks text = ')' :: rest
  | text, s :: others, rest => skipBlanks text = ',' :: s.text ∧ Linked s.rest others rest

/-- The arguments of a call and the closing parenthesis stand at the front of a text. -/
def ArgumentList : List Char → List Segment → List Char → Prop
  | text, [], rest => skipBlanks text = ')' :: rest
  | text, s :: others, rest => s.text = skipBlanks text ∧ Linked s.rest others rest

/-- A phrase stands at the front of a text, is the given tree and leaves the given rest. -/
inductive Derives : Phrase → Nat → List Char → Expr → List Char → Prop where
  | minus {n : Nat} {text inner rest : List Char} {e : Expr}
      (hsign : skipBlanks text = '-' :: inner) (hinner : Derives .signed n inner e rest) :
      Derives .signed (n + 1) text (.neg e) rest
  | plus {n : Nat} {text inner rest : List Char} {e : Expr}
      (hsign : skipBlanks text = '+' :: inner) (hinner : Derives .signed n inner e rest) :
      Derives .signed (n + 1) text e rest
  | bare {n : Nat} {text rest : List Char} {e : Expr}
      (hpower : Derives .power n (skipBlanks text) e rest) :
      Derives .signed (n + 1) text e rest
  | unraised {n : Nat} {text rest : List Char} {e : Expr}
      (hbase : Derives .primary n text e rest)
      (hend : ∀ after, skipBlanks rest ≠ '^' :: after) :
      Derives .power n text e (skipBlanks rest)
  | raised {n : Nat} {text between after rest : List Char} {base exponent : Expr}
      (hbase : Derives .primary n text base between)
      (hcaret : skipBlanks between = '^' :: after)
      (hexponent : Derives .signed n after exponent rest) :
      Derives .power n text (.binary .pow base exponent) rest
  | enclosed {n : Nat} {text inner between rest : List Char} {e : Expr}
      (hopen : skipBlanks text = '(' :: inner) (hinner : Derives .conversion n inner e between)
      (hclose : skipBlanks between = ')' :: rest) :
      Derives .primary n text e rest
  | number {n : Nat} {text rest : List Char} {literal : NumberLiteral} {c : Char}
      {others : List Char} (htext : skipBlanks text = c :: others)
      (hstart : c.isDigit = true ∨ c = '.')
      (hsplit : splitNumber (c :: others) = (literal, rest)) (hdigits : literal.hasDigits = true) :
      Derives .primary n text (.number literal.decimal.toFloat) rest
  | name {n : Nat} {text label rest : List Char} {c : Char} {others : List Char}
      (htext : skipBlanks text = c :: others) (hstart : isNameStart c = true)
      (hsplit : splitName (c :: others) = (label, rest))
      (hend : ∀ after, skipBlanks rest ≠ '(' :: after) :
      Derives .primary n text (.name (String.ofList label)) (skipBlanks rest)
  | call {n : Nat} {text label between inner rest : List Char} {c : Char} {others : List Char}
      (htext : skipBlanks text = c :: others) (hstart : isNameStart c = true)
      (hsplit : splitName (c :: others) = (label, between))
      (hopen : skipBlanks between = '(' :: inner) (segments : List Segment)
      (harguments : ArgumentList inner segments rest)
      (hitems : ∀ s ∈ segments, Derives .conversion n s.text s.item s.rest) :
      Derives .primary n text (.call (String.ofList label) (segments.map Segment.item)) rest
  | chain {n : Nat} {kind : Chain} {text between rest : List Char} {left e : Expr}
      (hleft : Derives kind.operand n text left between)
      (hmore : Derives (.more kind left) n between e rest) :
      Derives (.chain kind) n text e rest
  | done {n : Nat} {kind : Chain} {text : List Char} {left : Expr}
      (hend : kind.operator? (skipBlanks text) = none) :
      Derives (.more kind left) n text left (skipBlanks text)
  | joined {n : Nat} {kind : Chain} {text operandText between rest : List Char} {op : Operator}
      {left right e : Expr} (hop : kind.operator? (skipBlanks text) = some (op, operandText))
      (hright : Derives kind.operand n operandText right between)
      (hmore : Derives (.more kind (.binary op left right)) n between e rest) :
      Derives (.more kind left) (n + 1) text e rest
  | unconverted {n : Nat} {text rest : List Char} {e : Expr}
      (hsum : Derives (.chain .summands) n text e rest)
      (hend : afterTo? (skipBlanks rest) = none) :
      Derives .conversion n text e (skipBlanks rest)
  | converted {n : Nat} {text between after unit rest : List Char} {e : Expr}
      (hsum : Derives (.chain .summands) n text e between)
      (hto : afterTo? (skipBlanks between) = some after)
      (hsplit : splitName (skipBlanks after) = (unit, rest)) (hunit : unit ≠ []) :
      Derives .conversion n text (.convert e (String.ofList unit)) rest

/-! ## What the parsers return has a derivation -/

/-- A computation in two steps has a result exactly when both steps have one. -/
theorem bind_eq_ok_iff {α β : Type} {first : Except ParseError α}
    {next : α → Except ParseError β} {b : β} :
    (first >>= next) = .ok b ↔ ∃ a, first = .ok a ∧ next a = .ok b := by
  cases first with
  | error e => simp [bind, Except.bind]
  | ok a => simp [bind, Except.bind]

/-- The parsers of a level return nothing that the grammar does not derive within the allowance. -/
structure Parser.Level.Sound (level : Level) (n : Nat) : Prop where
  signed {text rest : List Char} {e : Expr} :
    level.signed text = .ok (e, rest) → Derives .signed n text e rest
  moreFactors {text rest : List Char} {left e : Expr} :
    level.moreFactors left text = .ok (e, rest) → Derives (.more .factors left) n text e rest
  moreSummands {text rest : List Char} {left e : Expr} :
    level.moreSummands left text = .ok (e, rest) → Derives (.more .summands left) n text e rest

/-- Reading one given character takes it off the text. -/
theorem expect_eq_ok {wanted : Char} {text rest : List Char}
    (hok : expect wanted text = .ok rest) : text = wanted :: rest := by
  cases text with
  | nil => simp [expect, fault] at hok
  | cons c others =>
    simp only [expect] at hok
    split at hok
    · next hc => rw [hc, Except.ok.inj hok]
    · simp [fault] at hok

/-- A name that was read is what splits off the text, and is not empty. -/
theorem name_eq_ok {text rest : List Char} {label : String}
    (hok : Parser.name text = .ok (label, rest)) :
    ∃ split, splitName text = (split, rest) ∧ split ≠ [] ∧ label = String.ofList split := by
  unfold Parser.name at hok
  generalize splitName text = pair at hok ⊢
  obtain ⟨split, after⟩ := pair
  cases split with
  | nil => simp [fault] at hok
  | cons c others =>
    simp only [Except.ok.injEq, Prod.mk.injEq] at hok
    obtain ⟨rfl, rfl⟩ := hok
    exact ⟨c :: others, rfl, by simp, rfl⟩

/-- A number that was read is the value of a literal that has digits. -/
theorem number_eq_ok {text rest : List Char} {e : Expr}
    (hok : Parser.number text = .ok (e, rest)) :
    ∃ literal, splitNumber text = (literal, rest) ∧ literal.hasDigits = true ∧
      e = .number literal.decimal.toFloat := by
  unfold Parser.number at hok
  generalize splitNumber text = pair at hok ⊢
  obtain ⟨literal, after⟩ := pair
  dsimp only at hok
  split at hok
  · next hdigits =>
    simp only [Except.ok.injEq, Prod.mk.injEq] at hok
    obtain ⟨rfl, rfl⟩ := hok
    exact ⟨literal, rfl, hdigits, rfl⟩
  · split at hok <;> simp [fault] at hok

namespace Parser.Level.Sound

variable {level : Level} {n : Nat}

/-- A chain of factors that was read has a derivation. -/
theorem term (hlevel : level.Sound n) {text rest : List Char} {e : Expr}
    (hok : level.term text = .ok (e, rest)) : Derives (.chain .factors) n text e rest := by
  obtain ⟨⟨left, between⟩, hleft, hmore⟩ := bind_eq_ok_iff.mp hok
  exact .chain (hlevel.signed hleft) (hlevel.moreFactors hmore)

/-- A chain of summands that was read has a derivation. -/
theorem sum (hlevel : level.Sound n) {text rest : List Char} {e : Expr}
    (hok : level.sum text = .ok (e, rest)) : Derives (.chain .summands) n text e rest := by
  obtain ⟨⟨left, between⟩, hleft, hmore⟩ := bind_eq_ok_iff.mp hok
  exact .chain (hlevel.term hleft) (hlevel.moreSummands hmore)

/-- A sum that was read with its conversion has a derivation. -/
theorem conversion (hlevel : level.Sound n) {text rest : List Char} {e : Expr}
    (hok : level.conversion text = .ok (e, rest)) : Derives .conversion n text e rest := by
  obtain ⟨⟨value, between⟩, hvalue, hend⟩ := bind_eq_ok_iff.mp hok
  have hsum := hlevel.sum hvalue
  dsimp only at hend
  split at hend
  · next hto =>
    simp only [Except.ok.injEq, Prod.mk.injEq] at hend
    obtain ⟨rfl, rfl⟩ := hend
    exact .unconverted hsum hto
  · next after hto =>
    obtain ⟨⟨unit, last⟩, hunit, hdone⟩ := bind_eq_ok_iff.mp hend
    obtain ⟨split, hsplit, hne, rfl⟩ := name_eq_ok hunit
    simp only [Except.ok.injEq, Prod.mk.injEq] at hdone
    obtain ⟨rfl, rfl⟩ := hdone
    exact .converted hsum hto hsplit hne

/-- Items that were read between commas are linked, and each was read on its own. -/
theorem commaSeparated (hlevel : level.Sound n) {count : Nat} {text rest : List Char}
    {es : List Expr} (hok : Parser.commaSeparated level.conversion count text = .ok (es, rest)) :
    ∃ (first : Segment) (others : List Segment), first.text = text ∧
      (first :: others).map Segment.item = es ∧
      (∀ s ∈ first :: others, Derives .conversion n s.text s.item s.rest) ∧
      ∀ after, rest = ')' :: after → Linked first.rest others after := by
  induction count generalizing text rest es with
  | zero => simp [Parser.commaSeparated, fault] at hok
  | succ count ih =>
    obtain ⟨⟨e, between⟩, hfirst, hmore⟩ := bind_eq_ok_iff.mp hok
    have hitem := hlevel.conversion hfirst
    dsimp only at hmore
    split at hmore
    · next inner hcomma =>
      obtain ⟨⟨es', last⟩, hothers, hdone⟩ := bind_eq_ok_iff.mp hmore
      obtain ⟨second, others, htext, hitems, hderives, hlinked⟩ := ih hothers
      simp only [Except.ok.injEq, Prod.mk.injEq] at hdone
      obtain ⟨rfl, rfl⟩ := hdone
      refine ⟨⟨text, e, between⟩, second :: others, rfl, by simp [← hitems], ?_, ?_⟩
      · simpa using ⟨hitem, by simpa using hderives⟩
      · intro after hafter
        exact ⟨by rw [hcomma, htext], hlinked after hafter⟩
    · simp only [Except.ok.injEq, Prod.mk.injEq] at hmore
      obtain ⟨rfl, rfl⟩ := hmore
      exact ⟨⟨text, e, between⟩, [], rfl, rfl, by simpa using hitem, fun _ hafter => hafter⟩

/-- Arguments that were read up to a closing parenthesis form an argument list. -/
theorem arguments (hlevel : level.Sound n) {text rest : List Char} {es : List Expr}
    (hok : level.arguments text = .ok (es, ')' :: rest)) :
    ∃ segments : List Segment, segments.map Segment.item = es ∧
      ArgumentList text segments rest ∧
      ∀ s ∈ segments, Derives .conversion n s.text s.item s.rest := by
  unfold Level.arguments at hok
  split at hok
  · next after hclose =>
    simp only [Except.ok.injEq, Prod.mk.injEq, List.cons.injEq, true_and] at hok
    obtain ⟨rfl, rfl⟩ := hok
    exact ⟨[], rfl, hclose, by simp⟩
  · obtain ⟨first, others, htext, hitems, hderives, hlinked⟩ := hlevel.commaSeparated hok
    exact ⟨first :: others, hitems, ⟨htext, hlinked rest rfl⟩, hderives⟩

/-- A primary that was read has a derivation. -/
theorem primary (hlevel : level.Sound n) {text rest : List Char} {e : Expr}
    (hok : level.primary text = .ok (e, rest)) : Derives .primary n text e rest := by
  unfold Level.primary at hok
  split at hok
  · simp [fault] at hok
  · next c others htext =>
    split at hok
    · next hc =>
      obtain ⟨⟨inner, between⟩, hinner, hclose⟩ := bind_eq_ok_iff.mp hok
      obtain ⟨last, hlast, hdone⟩ := bind_eq_ok_iff.mp hclose
      simp only [Except.ok.injEq, Prod.mk.injEq] at hdone
      obtain ⟨rfl, rfl⟩ := hdone
      exact .enclosed (hc ▸ htext) (hlevel.conversion hinner) (expect_eq_ok hlast)
    · split at hok
      · next hstart =>
        obtain ⟨literal, hsplit, hdigits, rfl⟩ := number_eq_ok hok
        exact .number htext (by simpa using hstart) hsplit hdigits
      · split at hok
        · next hstart =>
          obtain ⟨⟨label, between⟩, hname, hend⟩ := bind_eq_ok_iff.mp hok
          obtain ⟨split, hsplit, _, rfl⟩ := name_eq_ok hname
          dsimp only at hend
          split at hend
          · next inner hopen =>
            obtain ⟨⟨es, last⟩, harguments, hclose⟩ := bind_eq_ok_iff.mp hend
            obtain ⟨final, hfinal, hdone⟩ := bind_eq_ok_iff.mp hclose
            obtain rfl := expect_eq_ok hfinal
            simp only [Except.ok.injEq, Prod.mk.injEq] at hdone
            obtain ⟨rfl, rfl⟩ := hdone
            obtain ⟨segments, rfl, hlist, hderives⟩ := hlevel.arguments harguments
            exact .call htext hstart hsplit hopen segments hlist hderives
          · next hopen =>
            simp only [Except.ok.injEq, Prod.mk.injEq] at hend
            obtain ⟨rfl, rfl⟩ := hend
            exact .name htext hstart hsplit hopen
        · simp [fault] at hok

/-- A primary that was read with its power has a derivation. -/
theorem power (hlevel : level.Sound n) {text rest : List Char} {e : Expr}
    (hok : level.power text = .ok (e, rest)) : Derives .power n text e rest := by
  obtain ⟨⟨base, between⟩, hbase, hend⟩ := bind_eq_ok_iff.mp hok
  have hprimary := hlevel.primary hbase
  dsimp only at hend
  split at hend
  · next after hcaret =>
    obtain ⟨⟨exponent, last⟩, hexponent, hdone⟩ := bind_eq_ok_iff.mp hend
    simp only [Except.ok.injEq, Prod.mk.injEq] at hdone
    obtain ⟨rfl, rfl⟩ := hdone
    exact .raised hprimary hcaret (hlevel.signed hexponent)
  · next hcaret =>
    simp only [Except.ok.injEq, Prod.mk.injEq] at hend
    obtain ⟨rfl, rfl⟩ := hend
    exact .unraised hprimary hcaret

/-- An operand that was read with its signs has a derivation. -/
theorem operand (hlevel : level.Sound n) {text rest : List Char} {e : Expr}
    (hok : level.operand text = .ok (e, rest)) : Derives .signed (n + 1) text e rest := by
  unfold Level.operand at hok
  split at hok
  · next inner hsign =>
    obtain ⟨⟨e', last⟩, hinner, hdone⟩ := bind_eq_ok_iff.mp hok
    simp only [Except.ok.injEq, Prod.mk.injEq] at hdone
    obtain ⟨rfl, rfl⟩ := hdone
    exact .minus hsign (hlevel.signed hinner)
  · next inner hsign => exact .plus hsign (hlevel.signed hok)
  · exact .bare (hlevel.power hok)

/-- A chain that was read on has a derivation, where its operands and the rest of it have one. -/
theorem chain (kind : Chain) {operand : Parser Expr} {more : Expr → Parser Expr}
    (hoperand : ∀ {text rest e}, operand text = .ok (e, rest) →
      Derives kind.operand n text e rest)
    (hmore : ∀ {text rest left e}, more left text = .ok (e, rest) →
      Derives (.more kind left) n text e rest)
    {text rest : List Char} {left e : Expr}
    (hok : Parser.chain kind.operator? operand more left text = .ok (e, rest)) :
    Derives (.more kind left) (n + 1) text e rest := by
  unfold Parser.chain at hok
  split at hok
  · next hend =>
    simp only [Except.ok.injEq, Prod.mk.injEq] at hok
    obtain ⟨rfl, rfl⟩ := hok
    exact .done hend
  · next op operandText hop =>
    obtain ⟨⟨right, between⟩, hright, hrest⟩ := bind_eq_ok_iff.mp hok
    exact .joined hop (hoperand hright) (hmore hrest)

/-- The level above one whose parsers are sound has sound parsers with one level more. -/
theorem above (hlevel : level.Sound n) : level.above.Sound (n + 1) where
  signed := hlevel.operand
  moreFactors := chain .factors hlevel.signed hlevel.moreFactors
  moreSummands := chain .summands hlevel.term hlevel.moreSummands

end Parser.Level.Sound

/-- A chain whose operands are all too deep is only read where it ends. -/
theorem derives_of_chain_tooDeep (kind : Chain) {text rest : List Char} {left e : Expr}
    (hok : Parser.chain kind.operator? tooDeep (fun _ => tooDeep) left text = .ok (e, rest)) :
    Derives (.more kind left) 0 text e rest := by
  unfold Parser.chain at hok
  split at hok
  · next hend =>
    simp only [Except.ok.injEq, Prod.mk.injEq] at hok
    obtain ⟨rfl, rfl⟩ := hok
    exact .done hend
  · simp [tooDeep, bind, Except.bind] at hok

/-- The parsers of every level are sound for its allowance. -/
theorem sound_withAllowance (n : Nat) : (Level.withAllowance n).Sound n := by
  induction n with
  | zero =>
    exact {
      signed := fun hok => by simp [Level.withAllowance, Level.bottom, tooDeep] at hok
      moreFactors := derives_of_chain_tooDeep .factors
      moreSummands := derives_of_chain_tooDeep .summands }
  | succ n ih => exact ih.above

end Reckoner.Expr
