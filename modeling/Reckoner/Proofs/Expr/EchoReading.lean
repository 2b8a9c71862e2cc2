import Reckoner.Proofs.Expr.EchoPrimary

/-!
# Reading a canonical text

The parsers read the canonical text of a tree as `reread` says, within just as many levels as
`levels` says, wherever the text keeps the meaning of all nodes. Every phrase of the text is read
after what stands before it and hands on what follows: an operand to the rest of its chain, a chain
to the conversion that ends it.
-/

namespace Reckoner.Expr

open Reckoner.Expr.Parser Reckoner.Text Reckoner.Token

/-! ## Signs, conversions and chains -/

/-- A sign moves from the text of its operand to what stands before it. -/
theorem signText_minus (left : Option (Expr × Operator)) (signs : Nat) (text : List Char) :
    Before.signText ⟨left, signs⟩ ('-' :: text) = Before.signText ⟨left, signs + 1⟩ text := by
  simp only [Before.signText, List.replicate_succ', List.append_assoc, List.singleton_append]

/-- A chain whose first operand has a sign starts after one sign more. -/
theorem Chain.start_minus (kind : Chain) (n : Nat) (left : Option (Expr × Operator)) (signs : Nat)
    (text : List Char) :
    kind.start n ⟨left, signs⟩ ('-' :: text) = kind.start n ⟨left, signs + 1⟩ text := by
  cases left with
  | none =>
    show kind.whole _ (Before.signText _ _) = _
    rw [signText_minus]
    rfl
  | some before =>
    show kind.more _ _ (_ ++ Before.signText _ _) = _
    rw [signText_minus]
    rfl

/-- What a sign in the text leads to is what the sign before the text leads to. -/
theorem Before.Admits.minus {kind : Chain} {left : Option (Expr × Operator)} {signs : Nat}
    {text : List Char} (hadmits : Before.Admits ⟨left, signs⟩ kind ('-' :: text)) :
    Before.Admits ⟨left, signs + 1⟩ kind text := by
  intro l op hleft
  obtain ⟨hop, hjuxtapose⟩ := hadmits l op hleft
  rw [signText_minus] at hjuxtapose
  exact ⟨hop, hjuxtapose⟩

/-- The operand of a sign is no sum, unless it is in parentheses. -/
theorem openChain?_negated {e : Expr} (hmeaning : keepsMeaning (.neg e) = true) :
    Operand.openChain? ⟨e.needsParensAfterSign, e⟩ ≠ some .summands := by
  simp only [keepsMeaning, Bool.or_eq_true, bne_iff_ne] at hmeaning
  simp only [Operand.openChain?, unlessEnclosed]
  split
  · simp
  · next hparens => exact hmeaning.resolve_left hparens

/-- A negated operand is read as the operand after one sign more. -/
theorem reads_neg {e : Expr} (hread : Operand.Reads ⟨e.needsParensAfterSign, e⟩)
    (hmeaning : keepsMeaning (.neg e) = true) : Operand.Reads ⟨false, .neg e⟩ := by
  have htext (rest : List Char) : Operand.text ⟨false, .neg e⟩ ++ rest =
      '-' :: (Operand.text ⟨e.needsParensAfterSign, e⟩ ++ rest) := by
    show echoChars false (.neg e) ++ rest = _
    rw [echoChars]
    rfl
  have hnosum := openChain?_negated hmeaning
  have hchain (kind : Chain)
      (hkind : Operand.ReadsChain ⟨e.needsParensAfterSign, e⟩ kind) :
      Operand.ReadsChain ⟨false, .neg e⟩ kind := by
    rintro n ⟨left, signs⟩ rest hadmits _ hparted hfollows
    rw [htext] at hadmits ⊢
    rw [Chain.start_minus]
    exact hkind n ⟨left, signs + 1⟩ rest hadmits.minus (fun hsum => (hnosum hsum).elim) hparted
      hfollows
  refine ⟨fun hnone n signs rest hfollows => ?_, fun hsum => hchain _ (hread.factors hsum),
    hchain _ hread.summands⟩
  rw [htext, signText_minus]
  exact hread.signed hnone n (signs + 1) rest hfollows

/-- An expression with a conversion at its end is read up to the conversion. -/
theorem reads_convert {e : Expr} {unit : String} (hread : Operand.Reads ⟨false, e⟩)
    (hmeaning : keepsMeaning (.convert e unit) = true) :
    Operand.Reads ⟨false, .convert e unit⟩ := by
  have hunit : Operand.trailingUnit ⟨false, e⟩ = none := Option.isNone_iff_eq_none.mp hmeaning
  have htext (rest : List Char) : Operand.text ⟨false, .convert e unit⟩ ++ rest =
      Operand.text ⟨false, e⟩ ++ (" to ".toList ++ (unit.toList ++ rest)) := by
    show echoChars false (.convert e unit) ++ rest = _
    rw [echoChars, List.append_assoc, List.append_assoc]
    rfl
  have htail (rest : List Char) : Operand.tail ⟨false, .convert e unit⟩ rest =
      Operand.tail ⟨false, e⟩ (" to ".toList ++ (unit.toList ++ rest)) := by
    rw [Operand.tail_of_none hunit]
    rfl
  have hstop (kind : Chain) (rest : List Char) : Follows kind (Operand.endsInName ⟨false, e⟩)
      (Operand.tail ⟨false, e⟩ (" to ".toList ++ (unit.toList ++ rest))) := by
    rw [Operand.tail_of_none hunit]
    exact (follows_to kind _ _).1
  have hchain (kind : Chain) (hkind : Operand.ReadsChain ⟨false, e⟩ kind) :
      Operand.ReadsChain ⟨false, .convert e unit⟩ kind := by
    intro n before rest hadmits hsigns _ _
    rw [htext] at hadmits ⊢
    rw [htail]
    exact hkind n before _ hadmits hsigns (follows_to kind false _).1.parted (hstop kind rest)
  refine ⟨fun hnone n signs rest _ => ?_, fun hsum => hchain _ (hread.factors hsum),
    hchain _ hread.summands⟩
  rw [htext, htail]
  exact hread.signed hnone n signs _ (hstop .factors rest)

/-- Factors without an operator between them: the right one starts an operand and is not taken for
the arguments of a call. -/
theorem keepsMeaning_juxtapose {left right : Expr}
    (hmeaning : keepsMeaning (.binary .juxtapose left right) = true) :
    startsOperand (Operand.text ⟨parenthesizesRight .juxtapose right, right⟩) = true ∧
      (Operand.endsInName ⟨parenthesizesLeft .juxtapose left, left⟩ = true →
        (Operand.text ⟨parenthesizesRight .juxtapose right, right⟩).head? ≠ some '(') := by
  simp only [keepsMeaning, Bool.and_eq_true] at hmeaning
  have hstarts : juxtaposes left right = true := by simpa using hmeaning.2
  simp only [juxtaposes, Bool.and_eq_true, Bool.not_eq_true', Bool.and_eq_false_imp,
    beq_eq_false_iff_ne] at hstarts
  refine ⟨hstarts.1, fun hnamed => hstarts.2 ?_⟩
  simpa [Operand.endsInName] using hnamed

/-- A text that starts an operand still does so with more text after it. -/
theorem startsOperand_append_of_eq_true {text rest : List Char} (htext : startsOperand text = true)
    (hrest : Parted rest) : startsOperand (text ++ rest) = true := by
  rw [startsOperand_append _ hrest]
  · exact htext
  · rintro rfl
    simp [startsOperand] at htext

/-- An operator other than the juxtaposition ends what stands before it. -/
theorem follows_sign {kind : Chain} (named : Bool) {text : List Char} (c : Char)
    (hparted : Parted text) (hhead : (skipBlanks text).head? = some c)
    (hc : c ∈ ['+', '-'] ∨ kind = .factors ∧ c ∈ ['*', '/']) : Follows kind named text := by
  have hstart : ∀ d ∈ ['+', '-'], isNameStart d = false :=
    forall_mem_of_all (by decide +kernel)
  obtain ⟨others, htext⟩ := List.head?_eq_some_iff.mp hhead
  refine ⟨hparted, ?_, ?_, ?_⟩
  · rintro - after hafter
    rw [htext] at hafter
    obtain ⟨rfl, -⟩ := List.cons.inj hafter
    simp at hc
  · rintro after hafter
    rw [htext] at hafter
    obtain ⟨rfl, -⟩ := List.cons.inj hafter
    simp at hc
  · rintro rfl
    rw [htext]
    rcases hc with hc | ⟨hfactors, -⟩
    · have hname := hstart c hc
      simp only [List.mem_cons, List.not_mem_nil, or_false] at hc
      rcases hc with rfl | rfl <;> simp [factorOperator?, startsOperand, hname]
    · simp at hfactors

/-- What follows the left operand of an operator. -/
theorem follows_operator {kind : Chain} {op : Operator} {left right : Expr}
    (hop : op.chain? = some kind) (hmeaning : keepsMeaning (.binary op left right) = true)
    {rest : List Char} (hrest : Parted rest) :
    Follows kind (Operand.endsInName ⟨parenthesizesLeft op left, left⟩)
      (op.symbol false ++ (Operand.text ⟨parenthesizesRight op right, right⟩ ++ rest)) := by
  have hparted : isNamePart ' ' = false ∧ isNamePart '/' = false := by decide +kernel
  cases op with
  | add =>
    exact follows_sign _ '+' ⟨hparted.1, by decide⟩ (congrArg List.head? (skipBlanks_space _))
      (.inl (by decide))
  | sub =>
    exact follows_sign _ '-' ⟨hparted.1, by decide⟩ (congrArg List.head? (skipBlanks_space _))
      (.inl (by decide))
  | mul =>
    cases hop
    exact follows_sign _ '*' ⟨hparted.1, by decide⟩ (congrArg List.head? (skipBlanks_space _))
      (.inr ⟨rfl, by decide⟩)
  | div =>
    cases hop
    exact follows_sign _ '/' ⟨hparted.2, by decide⟩
      (congrArg List.head? (skipBlanks_cons _ (by decide))) (.inr ⟨rfl, by decide⟩)
  | pow => simp [Operator.chain?] at hop
  | juxtapose =>
    cases hop
    obtain ⟨hstarts, huncalled⟩ := keepsMeaning_juxtapose hmeaning
    generalize Operand.text ⟨parenthesizesRight .juxtapose right, right⟩ = text at *
    have hskip : skipBlanks (' ' :: (text ++ rest)) = text ++ rest := by
      rw [skipBlanks_space,
        skipBlanks_of_startsOperand (startsOperand_append_of_eq_true hstarts hrest)]
    obtain ⟨c, others, rfl, hc⟩ := startsOperand_head hstarts
    refine ⟨⟨hparted.1, by decide⟩, ?_, ?_, by simp⟩
    · intro hnamed after hafter
      obtain ⟨rfl, -⟩ := List.cons.inj (hskip.symm.trans hafter)
      exact huncalled hnamed rfl
    · intro after hafter
      obtain ⟨rfl, -⟩ := List.cons.inj (hskip.symm.trans hafter)
      rcases hc with hc | hc
      · simp at hc
      · exact isNameStart_ne hc _ (by decide) rfl

/-- An operator joins its operands to the chain before it. -/
theorem place_binary {kind : Chain} {op : Operator} (hop : op.chain? = some kind)
    (left right : Expr) {before : Before}
    (hbefore : ∀ l earlier, before.left = some (l, earlier) → earlier.chain? = some kind) :
    (Expr.binary op left right).place before =
      Operand.place ⟨parenthesizesRight op right, right⟩
        ⟨some (Operand.place ⟨parenthesizesLeft op left, left⟩ before, op), 0⟩ := by
  have hcontinues : before.continues op = true := by
    unfold Before.continues
    split
    · rfl
    · next l earlier hleft => rw [hbefore l earlier hleft, hop, beq_self_eq_true]
  simp only [place, hop, Before.inside, Before.outside, hcontinues, if_true]
  rfl

/-- Two operands and their operator are read as a chain. -/
theorem readsChain_binary {kind : Chain} {op : Operator} {left right : Expr}
    (hop : op.chain? = some kind)
    (hleft : Operand.ReadsChain ⟨parenthesizesLeft op left, left⟩ kind)
    (hright : Operand.ReadsChain ⟨parenthesizesRight op right, right⟩ kind)
    (hnosum : kind = .factors →
      Operand.openChain? ⟨parenthesizesLeft op left, left⟩ ≠ some .summands)
    (hmeaning : keepsMeaning (.binary op left right) = true) :
    Operand.ReadsChain ⟨false, .binary op left right⟩ kind := by
  intro n before rest hadmits hsigns hparted hfollows
  have hfollow := follows_operator hop hmeaning hparted
  have htail (text : List Char) : Operand.tail ⟨parenthesizesLeft op left, left⟩ text = text := by
    apply Operand.tail_of_none
    simp only [keepsMeaning, Bool.and_eq_true, Bool.or_eq_true] at hmeaning
    rcases hmeaning.1.1 with hparens | hunit
    · exact if_pos hparens
    · simp [Operand.trailingUnit, unlessEnclosed, Option.isNone_iff_eq_none.mp hunit]
  have hjuxtapose : op = .juxtapose →
      startsOperand (Operand.text ⟨parenthesizesRight op right, right⟩ ++ rest) = true := by
    rintro rfl
    exact startsOperand_append_of_eq_true (keepsMeaning_juxtapose hmeaning).1 hparted
  rw [text_binary] at hadmits ⊢
  have hleftsigns : Operand.openChain? ⟨parenthesizesLeft op left, left⟩ = some .summands →
      before.signs = 0 := by
    intro hsum
    cases kind with
    | factors => exact (hnosum rfl hsum).elim
    | summands => exact hsigns hop
  have hfirst := hleft n before _ hadmits hleftsigns hfollow.parted (by rw [htail]; exact hfollow)
  rw [htail] at hfirst
  -- The operator and the right operand are the rest of the chain after the left operand.
  have hsecond := hright
    (n - before.shift - Operand.chainLength ⟨parenthesizesLeft op left, left⟩ kind)
    ⟨some (Operand.place ⟨parenthesizesLeft op left, left⟩ before, op), 0⟩ rest
    (by
      intro l earlier hleft
      obtain ⟨-, rfl⟩ := Prod.mk.inj (Option.some.inj hleft)
      exact ⟨hop, hjuxtapose⟩)
    (fun _ => rfl) hparted hfollows
  change _ = within (1 + Operand.levels _ 0) _
    (kind.more (Level.withAllowance (_ - 1 - _)) _ _) at hsecond
  have hpositive := Operand.levels_pos ⟨parenthesizesRight op right, right⟩ 0
  rw [hfirst]
  refine Eq.trans (congrArg (within _ n) hsecond) ?_
  rw [Nat.sub_sub, within_within (by omega)]
  have hplace : Operand.place ⟨false, .binary op left right⟩ before = _ :=
    place_binary hop left right fun l earlier hleft => (hadmits l earlier hleft).1
  have hlength : Operand.chainLength ⟨false, .binary op left right⟩ kind =
      Operand.chainLength ⟨parenthesizesLeft op left, left⟩ kind + 1 +
        Operand.chainLength ⟨parenthesizesRight op right, right⟩ kind := if_pos hop
  have hlevels : Operand.levels ⟨false, .binary op left right⟩ before.signs =
      max (Operand.levels ⟨parenthesizesLeft op left, left⟩ before.signs)
        (Operand.chainLength ⟨parenthesizesLeft op left, left⟩ kind + 1 +
          Operand.levels ⟨parenthesizesRight op right, right⟩ 0) := by
    show (Expr.binary op left right).levels before.signs = _
    simp only [levels, hop]
    rfl
  have htailright : Operand.tail ⟨false, .binary op left right⟩ rest =
      Operand.tail ⟨parenthesizesRight op right, right⟩ rest := rfl
  rw [hplace, hlength, hlevels, htailright]
  generalize Operand.chainLength ⟨parenthesizesLeft op left, left⟩ kind = length at *
  have hneeded (l r : Nat) : max (before.shift + l) (before.shift + length + (1 + r)) =
      before.shift + max l (length + 1 + r) := by omega
  have hspent (r : Nat) :
      n - (before.shift + length) - 1 - r = n - before.shift - (length + 1 + r) := by omega
  rw [hneeded, hspent]

/-! ## Canonical texts -/

/-- The names, units and numbers of a node are such that their texts are read. -/
def Legible : Expr → Prop
  | .number value => ∃ m exponent, Binary64.ofFloat value = .finite false m exponent
  | .name label => IsWord label.toList
  | .call function _ => IsWord function.toList
  | .convert _ unit => IsName unit.toList
  | _ => True

/-- The unit that a canonical text ends with is a name. -/
theorem isName_trailingUnit {e : Expr} (he : e.Everywhere Legible) :
    ∀ unit, e.trailingUnit = some unit → IsName unit.toList := by
  have henclosed {parens : Bool} {unit? : Option String}
      (h : ∀ unit, unit? = some unit → IsName unit.toList) :
      ∀ unit, unlessEnclosed parens unit? = some unit → IsName unit.toList := by
    intro unit hunit
    cases parens with
    | true => simp [unlessEnclosed] at hunit
    | false => exact h unit hunit
  induction he with
  | number => simp [trailingUnit]
  | name => simp [trailingUnit]
  | call => simp [trailingUnit]
  | neg _ _ ih => exact henclosed ih
  | binary _ _ _ _ ihright => exact henclosed ihright
  | convert here _ _ =>
    rintro unit hunit
    obtain rfl := Option.some.inj hunit
    exact here

/-- An operand of a factor is no sum, unless it is in parentheses. -/
theorem openChain?_factor {op : Operator} (hop : op.chain? = some .factors) {e : Expr}
    (hmeaning : e.keepsMeaning = true) (strict : Bool) :
    Operand.openChain? ⟨e.needsParens op.precedence strict, e⟩ ≠ some .summands := by
  have hprecedence : op.precedence = 2 := by
    cases op <;> simp_all [Operator.chain?, Operator.precedence]
  simp only [Operand.openChain?, unlessEnclosed, hprecedence]
  split
  · simp
  · next hparens =>
    cases e with
    | neg inner => exact openChain?_negated hmeaning
    | binary op' left right =>
      cases op' <;> simp_all [needsParens, Operator.precedence, openChain?, Operator.chain?]
    | convert inner unit => simp [needsParens] at hparens
    | _ => simp [openChain?]

/-- What is known of the canonical text of an expression. -/
structure IsRead (e : Expr) : Prop where
  reads : Operand.Reads ⟨false, e⟩
  whole : ReadsWhole e
  begins : Begins (e.echoChars false)
  /-- a number, a name or a call is a primary -/
  primary : e.needsParens Operator.pow.precedence true = false → Operand.IsPrimary ⟨false, e⟩

/-- In parentheses or without, an operand is read wherever it may stand. -/
theorem IsRead.operand {e : Expr} (he : e.IsRead) (parens : Bool) : Operand.Reads ⟨parens, e⟩ := by
  cases parens with
  | true => exact (isPrimary_enclosed he.whole).reads_anywhere
  | false => exact he.reads

/-- A primary is read. -/
theorem Operand.IsPrimary.isRead {e : Expr} (he : Operand.IsPrimary ⟨false, e⟩) : e.IsRead where
  reads := he.reads_anywhere
  whole := he.reads_anywhere.readsWhole fun unit hunit => by
    have hnone : e.trailingUnit = none := he.trailingUnit_eq
    simp [hnone] at hunit
  begins := by
    obtain ⟨c, others, htext, hc⟩ := he.begins
    exact ⟨c, others, htext, .inr hc⟩
  primary _ := he

/-- An operand in parentheses or without begins with a sign or a primary. -/
theorem IsRead.begins_operand {e : Expr} (he : e.IsRead) (parens : Bool) :
    Begins (Operand.text ⟨parens, e⟩) := by
  cases parens with
  | true => exact ⟨'(', e.echoChars false ++ [')'], rfl, .inr (.inl rfl)⟩
  | false => exact he.begins

/-- More text after it does not change how a text begins. -/
theorem Begins.append {text : List Char} (htext : Begins text) (rest : List Char) :
    Begins (text ++ rest) := by
  obtain ⟨c, others, rfl, hc⟩ := htext
  exact ⟨c, others ++ rest, rfl, hc⟩

/-- Two operands and their operator are read. -/
theorem reads_binary {op : Operator} {left right : Expr} (hleft : left.IsRead)
    (hright : right.IsRead) (hleftmeaning : left.keepsMeaning = true)
    (hrightmeaning : right.keepsMeaning = true)
    (hmeaning : keepsMeaning (.binary op left right) = true) :
    Operand.Reads ⟨false, .binary op left right⟩ := by
  have hleftreads := hleft.operand (parenthesizesLeft op left)
  have hrightreads := hright.operand (parenthesizesRight op right)
  cases hop : op.chain? with
  | none =>
    obtain rfl : op = .pow := by cases op <;> simp_all [Operator.chain?]
    refine .of_signed rfl (readsSigned_pow ?_ (hrightreads.signed (openChain?_exponent right)))
    cases hparens : parenthesizesLeft .pow left with
    | true => exact isPrimary_enclosed hleft.whole
    | false => exact hleft.primary hparens
  | some kind =>
    cases kind with
    | factors =>
      have hnosum := openChain?_factor hop hleftmeaning (strictLeft op)
      have hnosum' := openChain?_factor hop hrightmeaning (strictRight op)
      exact .of_factors hop (readsChain_binary hop (hleftreads.factors hnosum)
        (hrightreads.factors hnosum') (fun _ => hnosum) hmeaning)
    | summands =>
      exact .of_summands hop (readsChain_binary hop hleftreads.summands hrightreads.summands
        (by simp) hmeaning)

/-- Every canonical text that keeps its meaning is read. -/
theorem isRead_of_everywhere {e : Expr}
    (he : e.Everywhere fun s => s.Legible ∧ s.keepsMeaning = true) : e.IsRead := by
  -- With a conversion at its end, an expression is read as a whole if its unit is a name.
  have hwhole {e : Expr} (he : e.Everywhere fun s => s.Legible ∧ s.keepsMeaning = true)
      (hreads : Operand.Reads ⟨false, e⟩) : ReadsWhole e :=
    hreads.readsWhole (isName_trailingUnit (he.mono fun _ h => h.1))
  induction he with
  | number here =>
    obtain ⟨m, exponent, hvalue⟩ := here.1
    exact (isPrimary_number hvalue).isRead
  | name here => exact (isPrimary_name here.1).isRead
  | call here each ih =>
    exact (isPrimary_call here.1 (fun a ha => (ih a ha).whole) fun a ha => (ih a ha).begins).isRead
  | @neg e here operand ih =>
    have hreads := reads_neg (ih.operand e.needsParensAfterSign) here.2
    refine ⟨hreads, hwhole (.neg here operand) hreads, ?_, by simp [needsParens]⟩
    rw [echoChars]
    exact ⟨'-', _, rfl, .inl rfl⟩
  | @binary op left right here leftOperand rightOperand ihleft ihright =>
    have hreads := reads_binary ihleft ihright leftOperand.here.2 rightOperand.here.2 here.2
    refine ⟨hreads, hwhole (.binary here leftOperand rightOperand) hreads, ?_, ?_⟩
    · have htext := text_binary op left right []
      rw [List.append_nil] at htext
      have hbegins := (ihleft.begins_operand (parenthesizesLeft op left)).append
        (op.symbol false ++ (Operand.text ⟨parenthesizesRight op right, right⟩ ++ []))
      rw [← htext] at hbegins
      exact hbegins
    · cases op <;> simp [needsParens, Operator.precedence]
  | @convert e unit here operand ih =>
    have hreads := reads_convert ih.reads here.2
    refine ⟨hreads, hwhole (.convert here operand) hreads, ?_, by simp [needsParens]⟩
    rw [echoChars, List.append_assoc]
    exact ih.begins.append _

/-- The canonical text of an expression is read as `reread` says, unless it takes too many
levels. -/
theorem parse_echo {e : Expr} (he : e.Everywhere fun s => s.Legible ∧ s.keepsMeaning = true) :
    parse (e.echo false) = within (e.levels 0) maxDepth (.ok e.reread) := by
  obtain ⟨-, hwhole, ⟨c, others, htext, hc⟩, -⟩ := isRead_of_everywhere he
  have hblank : isBlank c = false := by
    rcases hc with rfl | hc
    · decide
    · exact hc.plain.1
  have hread := hwhole maxDepth [] (.inl rfl)
  rw [List.append_nil, htext] at hread
  unfold parse echo
  rw [String.toList_ofList, htext, skipBlanks_cons _ hblank]
  show ((Level.withAllowance maxDepth).conversion (c :: others) >>= _) = _
  rw [hread, within_bind]
  rfl

end Reckoner.Expr
