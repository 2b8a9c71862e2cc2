import Reckoner.Proofs.Expr.Cursor
import Reckoner.Proofs.Expr.Progress

/-!
# The steps of a cursor

What a reading by a cursor does is compared with what a parser does with the text that is left at
the cursor. This file says what it means that the two agree and proves it for the single steps and
for the tokens: they end, they pass safe cursors only, and they leave the cursor before the text
that the parser leaves over.
-/

namespace Reckoner.Expr

open Reckoner.Token

/-- A cursor where a text can be cut, with at most one level more than there may be: the one for
which the text is about to be refused. -/
structure Cursor.IsSafe (text : String) (cursor : Cursor) : Prop where
  isValid : cursor.position.IsValid text
  depth_le : cursor.depth ≤ maxDepth + 1

namespace Trail

/-- All cursors on a trail are safe. -/
def IsSafe (text : String) (trail : Trail) : Prop :=
  ∀ cursor ∈ trail.cursors, cursor.IsSafe text

/-- A trail of safe cursors has come to a place of the text, with some levels charged. -/
structure IsBefore (text : String) (depth : Nat) (rest : List Char) (trail : Trail) : Prop where
  unread : unread? text trail.cursor.position = some rest
  depth_eq : trail.cursor.depth = depth
  isSafe : trail.IsSafe text

/-- A reading can start where a text can be cut. -/
theorem isBefore_start {text : String} {start : Cursor} {rest : List Char}
    (hstart : start.IsSafe text) (hrest : unread? text start.position = some rest) :
    IsBefore text start.depth rest ⟨start, []⟩ where
  unread := hrest
  depth_eq := rfl
  isSafe := by
    intro cursor hcursor
    obtain rfl := List.mem_singleton.mp hcursor
    exact hstart

end Trail

/-- How a reading ends where a parser has an outcome: with the same result, before what the parser
leaves over, or with the same refusal. -/
inductive Arrival {α : Type} (text : String) (depth : Nat) :
    Except ParseError (α × List Char) → Except Stop α × Trail → Prop where
  | result {a : α} {rest : List Char} {trail : Trail} (hbefore : trail.IsBefore text depth rest) :
      Arrival text depth (.ok (a, rest)) (.ok a, trail)
  | refusal {error : ParseError} {trail : Trail} (hsafe : trail.IsSafe text) :
      Arrival text depth (.error error) (.error (.refused error), trail)

/-- Wherever a reading arrives, it has passed safe cursors only. -/
theorem Arrival.isSafe {α : Type} {text : String} {depth : Nat}
    {outcome : Except ParseError (α × List Char)} {result : Except Stop α} {trail : Trail}
    (h : Arrival text depth outcome (result, trail)) : trail.IsSafe text := by
  cases h with
  | result hbefore => exact hbefore.isSafe
  | refusal hsafe => exact hsafe

/-- From any trail that has come before `rest` with `start` levels charged, a reading ends, and it
ends as the outcome of a parser says, with `stop` levels charged if it has a result. -/
def Scan.Arrives {α : Type} (text : String) (scan : Nat → Scan α) (start : Nat)
    (rest : List Char) (stop : Nat) (outcome : Except ParseError (α × List Char)) : Prop :=
  ∀ trail : Trail, trail.IsBefore text start rest →
    ∃ final enough, (∀ calls ≥ enough, (scan calls).run.run trail = some final) ∧
      Arrival text stop outcome final

namespace Scan

variable {α β : Type} {text : String} {depth start stop last : Nat} {front rest rest' : List Char}

/-! ## Steps -/

namespace Arrives

variable {scan : Nat → Scan α} {onward : α → Nat → Scan β}
  {outcome : Except ParseError (α × List Char)}

/-- A result without a step. -/
theorem pure (a : α) (depth : Nat) (rest : List Char) :
    Arrives text (fun _ => Pure.pure a) depth rest depth (.ok (a, rest)) :=
  fun trail hbefore => ⟨(.ok a, trail), 0, fun _ _ => rfl, .result hbefore⟩

/-- A refusal. -/
theorem refuse (error : ParseError) (start stop : Nat) (rest : List Char) :
    Arrives text (fun _ => (Scan.refuse error : Scan α)) start rest stop (.error error) :=
  fun trail hbefore =>
    ⟨(.error (.refused error), trail), 0, fun _ _ => rfl, .refusal hbefore.isSafe⟩

/-- What nests one call more ends as well. -/
theorem call (hscan : Arrives text (fun calls => scan (calls + 1)) start rest stop outcome) :
    Arrives text scan start rest stop outcome := by
  intro trail hbefore
  obtain ⟨final, enough, hrun, harrival⟩ := hscan trail hbefore
  refine ⟨final, enough + 1, fun calls hcalls => ?_, harrival⟩
  obtain ⟨calls, rfl⟩ : ∃ before, calls = before + 1 := ⟨calls - 1, by omega⟩
  exact hrun calls (by omega)

/-- A reading goes on from where another one has come to. -/
theorem bind {further : α × List Char → Except ParseError (β × List Char)}
    (hscan : Arrives text scan start rest stop outcome)
    (honward : ∀ a rest', outcome = .ok (a, rest') →
      Arrives text (onward a) stop rest' last (further (a, rest'))) :
    Arrives text (fun calls => scan calls >>= fun a => onward a calls) start rest last
      (outcome >>= further) := by
  intro trail hbefore
  obtain ⟨final, enough, hrun, harrival⟩ := hscan trail hbefore
  cases harrival with
  | @result a rest' trail' hbefore' =>
    obtain ⟨final', enough', hrun', harrival'⟩ := honward a rest' rfl trail' hbefore'
    refine ⟨final', max enough enough', fun calls hcalls => ?_, harrival'⟩
    show (((scan calls).run.run trail).bind _) = _
    rw [hrun calls (by omega)]
    exact hrun' calls (by omega)
  | @refusal error trail' hsafe =>
    refine ⟨(.error (.refused error), trail'), enough, fun calls hcalls => ?_, .refusal hsafe⟩
    show (((scan calls).run.run trail).bind _) = _
    rw [hrun calls hcalls]
    rfl

/-- A reading may end with steps that keep the result. -/
theorem ending {further : α → Nat → Scan α} (hscan : Arrives text scan start rest stop outcome)
    (hfurther : ∀ a rest', Arrives text (further a) stop rest' last (.ok (a, rest'))) :
    Arrives text (fun calls => scan calls >>= fun a => further a calls) start rest last
      outcome := by
  have hsame : (outcome >>= fun pair => .ok pair) = outcome := by cases outcome <;> rfl
  rw [← hsame]
  exact hscan.bind fun a rest' _ => hfurther a rest'

/-- After a step with a known result the rest decides. -/
theorem andThen {a : α} {outcome : Except ParseError (β × List Char)}
    (hscan : Arrives text scan start rest stop (.ok (a, rest')))
    (honward : Arrives text (onward a) stop rest' last outcome) :
    Arrives text (fun calls => scan calls >>= fun a => onward a calls) start rest last
      outcome := by
  show Arrives text _ start rest last (Except.ok (a, rest') >>= fun _ => outcome)
  refine hscan.bind ?_
  rintro _ _ ⟨⟩
  exact honward

/-- After a refusal nothing is read. -/
theorem refused {error : ParseError}
    (hscan : Arrives text scan start rest stop (.error error)) :
    Arrives text (fun calls => scan calls >>= fun a => onward a calls) start rest last
      (.error error) := by
  let refusal : Except ParseError (α × List Char) := .error error
  show Arrives text _ start rest last (refusal >>= fun _ => .error error)
  refine hscan.bind ?_
  rintro _ _ ⟨⟩

/-- What depends on the cursor can be told from where it stands. -/
theorem cursor {onward : Cursor → Nat → Scan β} {outcome : Except ParseError (β × List Char)}
    (honward : ∀ position, unread? text position = some rest →
      Arrives text (onward ⟨position, start⟩) start rest stop outcome) :
    Arrives text (fun calls => Scan.cursor >>= fun here => onward here calls) start rest stop
      outcome := by
  intro trail hbefore
  have hcursor : trail.cursor = ⟨trail.cursor.position, start⟩ := by rw [← hbefore.depth_eq]
  have hfinal := honward trail.cursor.position hbefore.unread trail hbefore
  rw [← hcursor] at hfinal
  exact hfinal

/-- The cursor may go to any safe place. -/
theorem moveTo {position : String.Pos.Raw} (hunread : unread? text position = some rest')
    (hstop : stop ≤ maxDepth + 1) (start : Nat) (rest : List Char) :
    Arrives text (fun _ => Scan.moveTo ⟨position, stop⟩) start rest stop (.ok ((), rest')) := by
  intro trail hbefore
  refine ⟨(.ok (), ⟨⟨position, stop⟩, trail.cursors⟩), 0, fun _ _ => rfl,
    .result ⟨hunread, rfl, ?_⟩⟩
  exact List.forall_mem_cons.mpr
    ⟨⟨exists_unread?_iff.mp ⟨rest', hunread⟩, hstop⟩, hbefore.isSafe⟩

end Arrives

/-- The cursor moves by the bytes of the characters in front. -/
theorem arrives_advance (hdepth : depth ≤ maxDepth + 1) (front rest : List Char) :
    Arrives text (fun _ => advance (String.ofList front).utf8ByteSize) depth (front ++ rest) depth
      (.ok ((), rest)) :=
  .cursor fun _ hunread => .moveTo (unread?_increaseBy hunread) hdepth _ _

/-- A level is charged where there is one left. -/
theorem arrives_descend (hdepth : depth < maxDepth) (rest : List Char) :
    Arrives text (fun _ => descend) depth rest (depth + 1) (.ok ((), rest)) := by
  refine .cursor fun position hunread => ?_
  dsimp only
  refine .andThen (.moveTo hunread (by omega) _ _) ?_
  rw [if_neg (by omega)]
  exact .pure () _ _

/-- Where none is left, the text is refused. -/
theorem arrives_descend_of_eq (hdepth : depth = maxDepth) (stop : Nat) (rest : List Char) :
    Arrives text (fun _ => descend) depth rest stop (.error .tooDeep) := by
  refine .cursor fun position hunread => ?_
  dsimp only
  refine .andThen (.moveTo hunread (by omega) _ _) ?_
  rw [if_pos (by omega)]
  exact .refuse _ _ _ _

/-- Levels that were charged are given back. -/
theorem arrives_ascend {levels : Nat} (hdepth : depth ≤ maxDepth + 1) (rest : List Char) :
    Arrives text (fun _ => ascend levels) (depth + levels) rest depth (.ok ((), rest)) := by
  refine .cursor fun position hunread => ?_
  rw [if_pos (Nat.le_add_left _ _), Nat.add_sub_cancel]
  exact .moveTo hunread hdepth _ _

/-- The text is cut behind the characters in front. -/
theorem arrives_unreadAfter (depth : Nat) (front rest : List Char) :
    Arrives text (fun _ => unreadAfter text (String.ofList front).utf8ByteSize) depth
      (front ++ rest) depth (.ok (rest, front ++ rest)) := by
  refine .cursor fun position hunread => ?_
  rw [unread?_increaseBy hunread]
  exact .pure rest _ _

/-- The text that is left can be looked at. -/
theorem arrives_unreadAfter_zero (depth : Nat) (rest : List Char) :
    Arrives text (fun _ => unreadAfter text 0) depth rest depth (.ok (rest, rest)) :=
  arrives_unreadAfter depth [] rest

/-- The next character can be looked at. -/
theorem arrives_peek (depth : Nat) (rest : List Char) :
    Arrives text (fun _ => peek text) depth rest depth (.ok (rest.head?, rest)) :=
  .andThen (arrives_unreadAfter_zero depth rest) (.pure _ _ _)

/-! ## Characters -/

/-- A character takes the bytes of its encoding. -/
theorem utf8ByteSize_char (c : Char) : (String.ofList [c]).utf8ByteSize = c.utf8Size := by
  rw [← String.singleton_eq_ofList, String.utf8ByteSize_singleton]

/-- The cursor moves over the character in front. -/
theorem arrives_advance_char (hdepth : depth ≤ maxDepth + 1) (c : Char) (rest : List Char) :
    Arrives text (fun _ => advance c.utf8Size) depth (c :: rest) depth (.ok ((), rest)) := by
  rw [← utf8ByteSize_char]
  exact arrives_advance hdepth [c] rest

/-- A character that stands there is taken. -/
theorem arrives_consume (hdepth : depth ≤ maxDepth + 1) (c : Char) (rest : List Char) :
    Arrives text (fun _ => consume text c) depth (c :: rest) depth (.ok (true, rest)) := by
  refine .andThen (arrives_peek _ _) ?_
  rw [List.head?_cons, if_pos rfl]
  exact .andThen (arrives_advance_char hdepth c rest) (.pure _ _ _)

/-- A character that does not stand there is not taken. -/
theorem arrives_consume_of_ne {c : Char} (hrest : ∀ others, rest ≠ c :: others) (depth : Nat) :
    Arrives text (fun _ => consume text c) depth rest depth (.ok (false, rest)) := by
  have hhead : rest.head? ≠ some c := by
    intro hc
    obtain ⟨others, hothers⟩ := List.head?_eq_some_iff.mp hc
    exact hrest others hothers
  refine .andThen (arrives_peek _ _) ?_
  rw [if_neg hhead]
  exact .pure _ _ _

/-- A character that must stand there is taken, or missed. -/
theorem arrives_expect (hdepth : depth ≤ maxDepth + 1) (c : Char) (a : α) (rest : List Char) :
    Arrives text (fun _ => expect text c >>= fun _ => pure a) depth rest depth
      (Parser.expect c rest >>= fun rest => .ok (a, rest)) := by
  by_cases hc : ∃ others, rest = c :: others
  · obtain ⟨others, rfl⟩ := hc
    rw [Parser.expect, if_pos rfl]
    exact .andThen (.andThen (arrives_consume hdepth c others) (.pure _ _ _)) (.pure _ _ _)
  · have hmissed : Parser.expect c rest = Parser.fault (.expected c) := by
      cases rest with
      | nil => rfl
      | cons d others =>
        rw [Parser.expect, if_neg]
        rintro rfl
        exact hc ⟨others, rfl⟩
    have hrefused : Arrives text (fun _ => expect text c) depth rest depth
        (.error (.invalid (.expected c))) :=
      .andThen (arrives_consume_of_ne (fun others h => hc ⟨others, h⟩) depth) (.refuse _ _ _ _)
    rw [hmissed]
    exact hrefused.refused

/-- Characters are passed over as long as they pass the test, if each takes its own bytes. -/
theorem arrives_skipWhile (hdepth : depth ≤ maxDepth + 1) {test : Char → Bool} {width : Char → Nat}
    (hwidth : ∀ c, test c = true → width c = c.utf8Size) (rest : List Char) :
    Arrives text (skipWhile text test width) depth rest depth (.ok ((), rest.dropWhile test)) := by
  induction rest with
  | nil =>
    refine .call ?_
    simp only [skipWhile]
    exact .andThen (arrives_peek _ _) (.pure _ _ _)
  | cons c rest ih =>
    refine .call ?_
    simp only [skipWhile]
    refine .andThen (arrives_peek _ _) ?_
    by_cases hc : test c = true
    · simp only [List.head?_cons, if_pos hc, hwidth c hc]
      rw [List.dropWhile_cons_of_pos hc]
      exact .andThen (arrives_advance_char hdepth c rest) ih
    · simp only [List.head?_cons, if_neg hc]
      rw [List.dropWhile_cons_of_neg hc]
      exact .pure _ _ _

/-- Blanks are passed over. -/
theorem arrives_skipBlanks (hdepth : depth ≤ maxDepth + 1) (rest : List Char) :
    Arrives text (skipBlanks text) depth rest depth (.ok ((), Text.skipBlanks rest)) :=
  arrives_skipWhile hdepth (fun _ _ => rfl) rest

/-- Digits are passed over. -/
theorem arrives_skipDigits (hdepth : depth ≤ maxDepth + 1) (rest : List Char) :
    Arrives text (skipDigits text) depth rest depth (.ok ((), rest.dropWhile Char.isDigit)) :=
  arrives_skipWhile hdepth (fun _ hc => (utf8Size_of_isDigit hc).symm) rest

/-! ## The keyword -/

/-- The keyword takes two bytes. -/
theorem utf8ByteSize_to : "to".utf8ByteSize = (String.ofList ['t', 'o']).utf8ByteSize := rfl

/-- The keyword is seen where it stands as a word of its own. -/
theorem arrives_peekKeyword (depth : Nat) (rest : List Char) :
    Arrives text (fun _ => peekKeyword text "to") depth rest depth
      (.ok ((afterTo? rest).isSome, rest)) := by
  refine .andThen (arrives_unreadAfter_zero _ _) ?_
  by_cases hto : ∃ after, rest = 't' :: 'o' :: after
  · obtain ⟨after, rfl⟩ := hto
    rw [if_pos (by simp), utf8ByteSize_to]
    refine .andThen (arrives_unreadAfter depth ['t', 'o'] after) ?_
    have hsome : (afterTo? ('t' :: 'o' :: after)).isSome = !after.head?.any isNamePart := by
      cases after with
      | nil => rfl
      | cons c others => by_cases hc : isNamePart c = true <;> simp [afterTo?, hc]
    rw [hsome]
    exact .pure _ _ _
  · have hnone : afterTo? rest = none := by
      rw [Option.eq_none_iff_forall_ne_some]
      intro after hafter
      exact hto ⟨after, (afterTo?_eq_some hafter).1⟩
    rw [if_neg, hnone]
    · exact .pure _ _ _
    · intro hfront
      obtain ⟨after, hafter⟩ := List.isPrefixOf_iff_prefix.mp hfront
      exact hto ⟨after, hafter.symm⟩

/-- The keyword is taken where it stands. -/
theorem arrives_consumeKeyword (hdepth : depth ≤ maxDepth + 1) {rest after : List Char}
    (hto : afterTo? rest = some after) :
    Arrives text (fun _ => consumeKeyword text "to") depth rest depth (.ok (true, after)) := by
  have hpeek : Arrives text (fun _ => peekKeyword text "to") depth rest depth _ :=
    arrives_peekKeyword depth rest
  rw [hto] at hpeek
  obtain ⟨rfl, -⟩ := afterTo?_eq_some hto
  refine .andThen hpeek ?_
  rw [Option.isSome_some, if_pos rfl, utf8ByteSize_to]
  exact .andThen (arrives_advance hdepth ['t', 'o'] after) (.pure _ _ _)

/-- It is not taken where it does not stand. -/
theorem arrives_consumeKeyword_of_none {rest : List Char} (hto : afterTo? rest = none)
    (depth : Nat) :
    Arrives text (fun _ => consumeKeyword text "to") depth rest depth (.ok (false, rest)) := by
  have hpeek : Arrives text (fun _ => peekKeyword text "to") depth rest depth _ :=
    arrives_peekKeyword depth rest
  rw [hto] at hpeek
  exact .andThen hpeek (.pure _ _ _)

/-- An operand that multiplies is seen where one stands. -/
theorem arrives_startsOperand (depth : Nat) (rest : List Char) :
    Arrives text (fun _ => startsOperand text) depth rest depth
      (.ok (Parser.startsOperand rest, rest)) := by
  refine .andThen (arrives_peek _ _) ?_
  cases rest with
  | nil => exact .pure _ _ _
  | cons c others =>
    simp only [List.head?_cons, Parser.startsOperand]
    by_cases hparenthesis : c = '('
    · simp only [hparenthesis, beq_self_eq_true, Bool.true_or]
      exact .pure _ _ _
    · rw [if_neg hparenthesis, beq_eq_false_iff_ne.mpr hparenthesis, Bool.false_or]
      by_cases hc : isNameStart c = true
      · rw [if_pos hc, hc, Bool.true_and, ← Option.not_isSome]
        exact .andThen (arrives_peekKeyword _ _) (.pure _ _ _)
      · rw [if_neg hc, Bool.not_eq_true _ |>.mp hc, Bool.false_and]
        exact .pure _ _ _

/-! ## Names -/

/-- The cursor passes over the name in front. -/
theorem arrives_skipName (hdepth : depth ≤ maxDepth + 1) (rest : List Char) :
    Arrives text (skipName text) depth rest depth (.ok ((), (splitName rest).2)) := by
  have hskip : ∀ rest, Arrives text (skipWhile text isNamePart Char.utf8Size) depth rest depth _ :=
    arrives_skipWhile hdepth fun _ _ => rfl
  cases rest with
  | nil => exact .andThen (.andThen (arrives_peek _ _) (.pure _ _ _)) (hskip [])
  | cons c others =>
    by_cases hstart : isNameStart c = true
    · have hmove : Arrives text (fun _ => skipNameStart text) depth (c :: others) depth
          (.ok ((), others)) := by
        refine .andThen (arrives_peek _ _) ?_
        simp only [List.head?_cons, if_pos hstart]
        exact arrives_advance_char hdepth c others
      rw [splitName_cons (by rw [hstart, Bool.true_or])]
      exact .andThen hmove (hskip others)
    · have hstay : Arrives text (fun _ => skipNameStart text) depth (c :: others) depth
          (.ok ((), c :: others)) := by
        refine .andThen (arrives_peek _ _) ?_
        simp only [List.head?_cons, if_neg hstart]
        exact .pure _ _ _
      have hname : (splitName (c :: others)).2 = (c :: others).dropWhile isNamePart := by
        by_cases hpart : isNamePart c = true
        · rw [splitName_cons (by rw [hpart, Bool.or_true]), List.dropWhile_cons_of_pos hpart]
        · rw [splitName, nameLength, if_neg (by simp [hstart, hpart]),
            List.dropWhile_cons_of_neg hpart]
          rfl
      rw [hname]
      exact .andThen hstay (hskip _)

/-- A name is read as the parser reads it. -/
theorem arrives_name (hdepth : depth ≤ maxDepth + 1) (rest : List Char) :
    Arrives text (name text) depth rest depth (Parser.name rest) := by
  obtain ⟨label, after, hsplit⟩ : ∃ label after, splitName rest = (label, after) := ⟨_, _, rfl⟩
  have hskip : Arrives text (skipName text) depth rest depth _ := arrives_skipName hdepth rest
  have hrest := splitName_eq_append hsplit
  rw [hsplit] at hskip
  refine .cursor fun start hstart => ?_
  rw [hrest] at hstart
  refine .andThen hskip (.cursor fun stop hstop => ?_)
  have hposition := position_eq_iff hstart hstop
  dsimp only
  by_cases hlabel : label = []
  · rw [if_pos (hposition.mpr hlabel), Parser.name, hsplit, hlabel]
    exact .refuse _ _ _ _
  · rw [if_neg fun h => hlabel (hposition.mp h), between?_eq_some hstart hstop, Parser.name, hsplit]
    cases label with
    | nil => exact absurd rfl hlabel
    | cons => exact .andThen (.pure _ _ _) (.pure _ _ _)

/-! ## Numbers -/

/-- The cursor passes over a point with its digits. -/
theorem arrives_skipFraction (hdepth : depth ≤ maxDepth + 1) (rest : List Char) :
    Arrives text (skipFraction text) depth ('.' :: rest) depth
      (.ok ((), rest.dropWhile Char.isDigit)) :=
  .andThen (arrives_consume hdepth _ _) (arrives_skipDigits hdepth rest)

/-- Where there is no point, the cursor stays. -/
theorem arrives_skipFraction_of_ne {rest : List Char} (hrest : ∀ after, rest ≠ '.' :: after)
    (depth : Nat) : Arrives text (skipFraction text) depth rest depth (.ok ((), rest)) :=
  .andThen (arrives_consume_of_ne hrest depth) (.pure _ _ _)

/-- The cursor passes over an exponent. -/
theorem arrives_skipExponent (hdepth : depth ≤ maxDepth + 1) (rest : List Char) :
    Arrives text (skipExponent text) depth rest depth (.ok ((), (splitExponent rest).2)) := by
  refine .andThen (arrives_peek _ _) ?_
  cases rest with
  | nil => exact .pure _ _ _
  | cons c others =>
    simp only [List.head?_cons]
    by_cases hc : c = 'e' ∨ c = 'E'
    · obtain ⟨mark, after, hrest, hmarked, hlength⟩ := exists_marked hc others
      have hbytes := utf8ByteSize_mark hmarked.isMark
      have hletter : (String.ofList [c]).utf8ByteSize = 1 := by
        rcases hc with rfl | rfl <;> rfl
      have hafter : Arrives text (fun _ => unreadAfter text (String.ofList [c]).utf8ByteSize) depth
          ([c] ++ others) depth _ := arrives_unreadAfter depth [c] others
      rw [hletter] at hafter
      simp only [if_pos hc]
      refine .andThen hafter ?_
      rw [List.singleton_append, ← hlength, ← hbytes, hrest, splitExponent_marked hmarked]
      refine .andThen (arrives_unreadAfter depth mark after) ?_
      by_cases hdigit : after.head?.any Char.isDigit = true
      · simp only [if_pos hdigit]
        exact .andThen (arrives_advance hdepth mark after) (arrives_skipDigits hdepth after)
      · simp only [if_neg hdigit]
        exact .pure _ _ _
    · have hnone : splitExponent (c :: others) = (none, c :: others) := by
        simp only [splitExponent]
        rw [if_neg (by simpa using hc)]
      simp only [if_neg hc, hnone]
      exact .pure _ _ _

/-- The cursor passes over a number literal. -/
theorem arrives_skipNumber (hdepth : depth ≤ maxDepth + 1) (rest : List Char) :
    Arrives text (skipNumber text) depth rest depth (.ok ((), (splitNumber rest).2)) := by
  have hwhole : splitDigits rest = (rest.takeWhile Char.isDigit, rest.dropWhile Char.isDigit) := rfl
  refine .andThen (arrives_skipDigits hdepth rest) ?_
  by_cases hpoint : ∃ after, rest.dropWhile Char.isDigit = '.' :: after
  · obtain ⟨after, hafter⟩ := hpoint
    rw [hafter] at hwhole ⊢
    rw [splitNumber_of_point hwhole rfl rfl]
    exact .andThen (arrives_skipFraction hdepth after) (arrives_skipExponent hdepth _)
  · have hnone := fun after h => hpoint ⟨after, h⟩
    rw [splitNumber_of_no_point hwhole hnone rfl]
    exact .andThen (arrives_skipFraction_of_ne hnone depth) (arrives_skipExponent hdepth _)

/-- A number is read as the parser reads it. -/
theorem arrives_number (hdepth : depth ≤ maxDepth + 1) (rest : List Char) :
    Arrives text (number text) depth rest depth (Parser.number rest) := by
  obtain ⟨n, after, hsplit⟩ : ∃ n after, splitNumber rest = (n, after) := ⟨_, _, rfl⟩
  have hskip : Arrives text (skipNumber text) depth rest depth _ := arrives_skipNumber hdepth rest
  have hrest := (splitNumber_eq hsplit).1
  rw [hsplit] at hskip
  refine .cursor fun start hstart => ?_
  rw [hrest] at hstart
  refine .andThen hskip (.cursor fun stop hstop => ?_)
  dsimp only
  rw [between?_eq_some hstart hstop]
  refine .andThen (.pure _ _ _) ?_
  simp only [text_eq_iff hsplit, floatOf?_text hsplit, Parser.number, hsplit]
  by_cases hdigits : n.hasDigits = true
  · simp only [hdigits]
    exact .pure _ _ _
  · rw [Bool.not_eq_true] at hdigits
    simp only [hdigits]
    cases n.exponent with
    | none => exact .refuse _ _ _ _
    | some pair => exact .refuse _ _ _ _

end Scan

end Reckoner.Expr
