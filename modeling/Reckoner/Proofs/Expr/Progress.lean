import Reckoner.Proofs.Expr.Grammar
import Reckoner.Proofs.Expr.Lexeme

/-!
# What a phrase takes off a text

Whatever the parsers read, they leave over an end of the text, and a whole phrase takes at least
one character. Only the rest of a chain may be empty. This is why a list of arguments comes to an
end, and why juxtaposed factors do, between which no operator is taken.
-/

namespace Reckoner.Expr

open Reckoner.Text Reckoner.Token

/-- A text ends with what is left of it without blanks. -/
theorem skipBlanks_suffix (text : List Char) : skipBlanks text <:+ text :=
  List.dropWhile_suffix isBlank

/-- What comes after a character that is not skipped is an end of the text. -/
theorem suffix_of_skipBlanks {c : Char} {text inner rest : List Char}
    (htext : skipBlanks text = c :: inner) (hrest : rest <:+ inner) : rest <:+ text :=
  (hrest.trans (List.suffix_cons c inner)).trans (htext ▸ skipBlanks_suffix text)

/-- It is shorter than the text. -/
theorem length_lt_of_skipBlanks {c : Char} {text inner rest : List Char}
    (htext : skipBlanks text = c :: inner) (hrest : rest <:+ inner) :
    rest.length < text.length := by
  have hskip := length_skipBlanks_le text
  have hlength := hrest.length_le
  rw [htext, List.length_cons] at hskip
  omega

/-- An operator with its operand is an end of the text in front of which it stands. -/
theorem Chain.operator?_suffix {kind : Chain} {text operandText : List Char} {op : Operator}
    (hop : kind.operator? text = some (op, operandText)) : operandText <:+ text := by
  cases kind with
  | summands =>
    simp only [Chain.operator?] at hop
    unfold Parser.sumOperator? at hop
    split at hop
    · obtain ⟨rfl, rfl⟩ := Prod.mk.inj (Option.some.inj hop)
      exact List.suffix_cons _ _
    · obtain ⟨rfl, rfl⟩ := Prod.mk.inj (Option.some.inj hop)
      exact List.suffix_cons _ _
    · cases hop
  | factors =>
    simp only [Chain.operator?] at hop
    unfold Parser.factorOperator? at hop
    split at hop
    · obtain ⟨rfl, rfl⟩ := Prod.mk.inj (Option.some.inj hop)
      exact List.suffix_cons _ _
    · obtain ⟨rfl, rfl⟩ := Prod.mk.inj (Option.some.inj hop)
      exact List.suffix_cons _ _
    · split at hop
      · obtain ⟨rfl, rfl⟩ := Prod.mk.inj (Option.some.inj hop)
        exact List.suffix_refl _
      · cases hop

/-- What is cut off as a name and the rest make up the text. -/
theorem splitName_eq_append {text label rest : List Char}
    (hsplit : splitName text = (label, rest)) : text = label ++ rest := by
  rw [splitName, List.splitAt_eq] at hsplit
  obtain ⟨rfl, rfl⟩ := Prod.mk.inj hsplit
  exact (List.take_append_drop _ text).symm

/-- A name leaves over an end of the text. -/
theorem splitName_suffix {text label rest : List Char} (hsplit : splitName text = (label, rest)) :
    rest <:+ text :=
  splitName_eq_append hsplit ▸ List.suffix_append label rest

/-- Where a name begins, at least one character is cut off. -/
theorem splitName_cons_suffix {c : Char} {others label rest : List Char}
    (hstart : isNameStart c = true) (hsplit : splitName (c :: others) = (label, rest)) :
    rest <:+ others := by
  rw [splitName_cons (by rw [hstart, Bool.true_or])] at hsplit
  obtain ⟨rfl, rfl⟩ := Prod.mk.inj hsplit
  exact List.dropWhile_suffix _

/-- Where a number begins, at least one character is cut off. -/
theorem splitNumber_cons_suffix {c : Char} {others rest : List Char} {n : NumberLiteral}
    (hsplit : splitNumber (c :: others) = (n, rest)) (hdigits : n.hasDigits = true) :
    rest <:+ others := by
  obtain ⟨htext, hn⟩ := splitNumber_eq hsplit
  obtain ⟨d, more, hmore, -⟩ := (hn hdigits).begins
  rw [hmore, List.cons_append] at htext
  exact (List.cons.inj htext).2 ▸ List.suffix_append more rest

/-- Linked arguments and the closing parenthesis leave over an end of the text. -/
theorem Linked.suffix {segments : List Segment} {text rest : List Char}
    (hlinked : Linked text segments rest) (hitems : ∀ s ∈ segments, s.rest <:+ s.text) :
    rest <:+ text := by
  induction segments generalizing text with
  | nil => exact suffix_of_skipBlanks hlinked (List.suffix_refl rest)
  | cons s others ih =>
    obtain ⟨hcomma, hothers⟩ := hlinked
    obtain ⟨hitem, hlater⟩ := List.forall_mem_cons.mp hitems
    exact suffix_of_skipBlanks hcomma ((ih hothers hlater).trans hitem)

/-- So do all arguments of a call. -/
theorem ArgumentList.suffix {segments : List Segment} {text rest : List Char}
    (harguments : ArgumentList text segments rest) (hitems : ∀ s ∈ segments, s.rest <:+ s.text) :
    rest <:+ text := by
  cases segments with
  | nil => exact suffix_of_skipBlanks harguments (List.suffix_refl rest)
  | cons s others =>
    obtain ⟨htext, hlinked⟩ := harguments
    obtain ⟨hitem, hlater⟩ := List.forall_mem_cons.mp hitems
    exact ((hlinked.suffix hlater).trans hitem).trans (htext ▸ skipBlanks_suffix text)

namespace Derives

variable {phrase : Phrase} {n : Nat} {text rest : List Char} {e : Expr}

/-- What a phrase leaves over is an end of the text. -/
theorem suffix (h : Derives phrase n text e rest) : rest <:+ text := by
  induction h with
  | minus hsign _ ih => exact suffix_of_skipBlanks hsign ih
  | plus hsign _ ih => exact suffix_of_skipBlanks hsign ih
  | bare _ ih => exact ih.trans (skipBlanks_suffix _)
  | unraised _ _ ih => exact (skipBlanks_suffix _).trans ih
  | raised _ hcaret _ ihbase ihexponent =>
    exact (suffix_of_skipBlanks hcaret ihexponent).trans ihbase
  | enclosed hopen _ hclose ih =>
    exact suffix_of_skipBlanks hopen ((suffix_of_skipBlanks hclose (List.suffix_refl _)).trans ih)
  | number htext _ hsplit hdigits =>
    exact suffix_of_skipBlanks htext (splitNumber_cons_suffix hsplit hdigits)
  | name htext hstart hsplit _ =>
    have hname := splitName_cons_suffix hstart hsplit
    exact suffix_of_skipBlanks htext ((skipBlanks_suffix _).trans hname)
  | call htext hstart hsplit hopen segments harguments _ ih =>
    have hname := splitName_cons_suffix hstart hsplit
    have hlist := suffix_of_skipBlanks hopen (harguments.suffix ih)
    exact suffix_of_skipBlanks htext (hlist.trans hname)
  | chain _ _ ihleft ihmore => exact ihmore.trans ihleft
  | done => exact skipBlanks_suffix _
  | joined hop _ _ ihright ihmore =>
    exact ((ihmore.trans ihright).trans (Chain.operator?_suffix hop)).trans (skipBlanks_suffix _)
  | unconverted _ _ ih => exact (skipBlanks_suffix _).trans ih
  | converted _ hto hsplit _ ih =>
    have hunit := (splitName_suffix hsplit).trans (skipBlanks_suffix _)
    have hafter := hunit.trans (List.suffix_cons 'o' _)
    exact (suffix_of_skipBlanks (afterTo?_eq_some hto).1 hafter).trans ih

/-- A primary takes a character. -/
theorem length_lt_of_primary (h : Derives .primary n text e rest) :
    rest.length < text.length := by
  cases h with
  | enclosed hopen hinner hclose =>
    have hlast := suffix_of_skipBlanks hclose (List.suffix_refl rest)
    exact length_lt_of_skipBlanks hopen (hlast.trans hinner.suffix)
  | number htext _ hsplit hdigits =>
    exact length_lt_of_skipBlanks htext (splitNumber_cons_suffix hsplit hdigits)
  | name htext hstart hsplit _ =>
    have hname := splitName_cons_suffix hstart hsplit
    exact length_lt_of_skipBlanks htext ((skipBlanks_suffix _).trans hname)
  | call htext hstart hsplit hopen segments harguments hitems =>
    have hname := splitName_cons_suffix hstart hsplit
    have hlist := suffix_of_skipBlanks hopen (harguments.suffix fun s hs => (hitems s hs).suffix)
    exact length_lt_of_skipBlanks htext (hlist.trans hname)

/-- A primary with its power takes a character. -/
theorem length_lt_of_power (h : Derives .power n text e rest) : rest.length < text.length := by
  cases h with
  | unraised hbase _ => exact (length_skipBlanks_le _).trans_lt hbase.length_lt_of_primary
  | raised hbase hcaret hexponent =>
    have hafter := suffix_of_skipBlanks hcaret hexponent.suffix
    exact hafter.length_le.trans_lt hbase.length_lt_of_primary

/-- An operand takes a character. -/
theorem length_lt_of_signed (h : Derives .signed n text e rest) : rest.length < text.length := by
  cases h with
  | minus hsign hinner => exact length_lt_of_skipBlanks hsign hinner.suffix
  | plus hsign hinner => exact length_lt_of_skipBlanks hsign hinner.suffix
  | bare hpower => exact hpower.length_lt_of_power.trans_le (length_skipBlanks_le _)

/-- A chain takes a character, since its first operand does. -/
theorem length_lt_of_chain {kind : Chain} (h : Derives (.chain kind) n text e rest) :
    rest.length < text.length := by
  have hfactors {text rest : List Char} {e : Expr} (h : Derives (.chain .factors) n text e rest) :
      rest.length < text.length := by
    cases h with
    | chain hleft hmore => exact hmore.suffix.length_le.trans_lt hleft.length_lt_of_signed
  cases kind with
  | factors => exact hfactors h
  | summands =>
    cases h with
    | chain hleft hmore => exact hmore.suffix.length_le.trans_lt (hfactors hleft)

/-- A sum with its conversion takes a character. -/
theorem length_lt_of_conversion (h : Derives .conversion n text e rest) :
    rest.length < text.length := by
  cases h with
  | unconverted hsum _ => exact (length_skipBlanks_le _).trans_lt hsum.length_lt_of_chain
  | converted hsum hto hsplit _ =>
    have hunit := (splitName_suffix hsplit).trans (skipBlanks_suffix _)
    have hunit := hunit.trans (List.suffix_cons 'o' _)
    have hafter := suffix_of_skipBlanks (afterTo?_eq_some hto).1 hunit
    exact hafter.length_le.trans_lt hsum.length_lt_of_chain

/-- Every phrase but the rest of a chain takes a character. -/
theorem length_lt (h : Derives phrase n text e rest)
    (hphrase : ∀ kind left, phrase ≠ .more kind left) : rest.length < text.length := by
  cases phrase with
  | signed => exact h.length_lt_of_signed
  | power => exact h.length_lt_of_power
  | primary => exact h.length_lt_of_primary
  | chain kind => exact h.length_lt_of_chain
  | more kind left => exact absurd rfl (hphrase kind left)
  | conversion => exact h.length_lt_of_conversion

end Derives

end Reckoner.Expr
