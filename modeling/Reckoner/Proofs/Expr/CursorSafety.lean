import Reckoner.Proofs.Expr.CursorRules

/-!
# Readings by a cursor are safe

Wherever a character begins and as long as no more levels are charged than there may be, a rule
can be read. The reading ends, the text is only ever cut where a character begins, no more levels
are given back than were charged, and at most one level too many is charged before the text is
refused. Where there is a result, all levels are given back and the cursor stands behind at least
one more character. What is read, and why a text is refused, is what the parser finds that may
charge the levels left over.
-/

namespace Reckoner.Expr

open Reckoner.Expr.Parser Reckoner.Text

/-- The rule by which a cursor reads a phrase. The rest of a chain starts with nothing charged. -/
def Phrase.scan (text : String) : Phrase → Nat → Scan Expr
  | .signed => Scan.signed text
  | .power => Scan.power text
  | .primary => Scan.primary text
  | .chain kind => Scan.chain text kind
  | .more kind left => Scan.more text kind left 0
  | .conversion => Scan.conversion text

/-- The rule of every phrase follows its parser. -/
theorem Scan.Follows.phrase {text : String} {depth n : Nat} (h : Follows text n)
    (hdepth : depth + n = maxDepth) (phrase : Phrase) (rest : List Char) :
    Arrives text (phrase.scan text) depth rest depth
      (phrase.parser (Level.withAllowance n) rest) := by
  cases phrase with
  | signed => exact h.signed hdepth rest
  | power => exact h.power hdepth rest
  | primary => exact h.primary hdepth rest
  | chain kind => exact h.chain hdepth kind rest
  | more kind left =>
    have hcharged : depth + 0 + n = maxDepth := hdepth
    exact h.more hcharged kind left rest
  | conversion => exact h.conversion hdepth rest

/-- What the parser of a phrase reads has a derivation. -/
theorem Parser.Level.Sound.phrase {level : Level} {n : Nat} (hlevel : level.Sound n)
    {phrase : Phrase} {text rest : List Char} {e : Expr}
    (hok : phrase.parser level text = .ok (e, rest)) : Derives phrase n text e rest := by
  cases phrase with
  | signed => exact hlevel.signed hok
  | power => exact hlevel.power hok
  | primary => exact hlevel.primary hok
  | chain kind =>
    cases kind with
    | factors => exact hlevel.term hok
    | summands => exact hlevel.sum hok
  | more kind left =>
    cases kind with
    | factors => exact hlevel.moreFactors hok
    | summands => exact hlevel.moreSummands hok
  | conversion => exact hlevel.conversion hok

/-- From wherever a character begins and with at most the levels charged that there may be, the
reading of a phrase ends, with the same outcome for all large enough counts of calls. It passes safe
cursors only and never breaks down: it gives the result of the parser that may charge the levels
left over, in front of the same rest and with the levels as at the start, or refuses the text like
that parser. A result takes at least one character, unless it is that of the rest of a chain. -/
theorem Phrase.scan_safe (phrase : Phrase) (text : String) (start : Cursor)
    (hposition : start.position.IsValid text) (hdepth : start.depth ≤ maxDepth) :
    ∃ (result : Except Stop Expr) (trail : Trail) (unread : List Char) (enough : Nat),
      (∀ calls ≥ enough,
        (phrase.scan text calls).run.run ⟨start, []⟩ = some (result, trail)) ∧
      (∀ cursor ∈ trail.cursors, cursor.position.IsValid text ∧ cursor.depth ≤ maxDepth + 1) ∧
      unread? text start.position = some unread ∧
      ((∃ e front rest, result = .ok e ∧ unread = front ++ rest ∧
          ((∀ kind left, phrase ≠ .more kind left) → front ≠ []) ∧
          trail.cursor =
            ⟨start.position.increaseBy (String.ofList front).utf8ByteSize, start.depth⟩ ∧
          phrase.parser (Level.withAllowance (maxDepth - start.depth)) unread = .ok (e, rest)) ∨
        ∃ error, result = .error (.refused error) ∧
          phrase.parser (Level.withAllowance (maxDepth - start.depth)) unread =
            .error error) := by
  obtain ⟨unread, hunread⟩ := exists_unread?_iff.mpr hposition
  have hbefore : Trail.IsBefore text start.depth unread ⟨start, []⟩ :=
    Trail.isBefore_start ⟨hposition, by omega⟩ hunread
  have hlevels : start.depth + (maxDepth - start.depth) = maxDepth := by omega
  have hfollows := (Scan.follows text (maxDepth - start.depth)).phrase hlevels phrase unread
  obtain ⟨⟨result, trail⟩, enough, hrun, harrival⟩ := hfollows _ hbefore
  refine ⟨result, trail, unread, enough, hrun, fun cursor hcursor => ?_, hunread, ?_⟩
  · have hsafe := harrival.isSafe cursor hcursor
    exact ⟨hsafe.isValid, hsafe.depth_le⟩
  · generalize houtcome : phrase.parser _ unread = outcome at harrival
    cases harrival with
    | refusal => exact .inr ⟨_, rfl, rfl⟩
    | @result e rest _ hend =>
      have hderives := (sound_withAllowance _).phrase houtcome
      obtain ⟨front, rfl⟩ := hderives.suffix
      refine .inl ⟨e, front, rest, rfl, rfl, ?_, ?_, rfl⟩
      · rintro hphrase rfl
        exact Nat.lt_irrefl _ (hderives.length_lt hphrase)
      · rw [← eq_increaseBy_of_unread? hunread hend.unread, ← hend.depth_eq]

/-- Behind the first letter, a product takes two levels. With one level left it is refused, at the
level that is one too many. -/
theorem Phrase.scan_safe_product :
    let text := "α(ß)€ to m"
    let product := Phrase.chain .factors
    let e := Expr.binary .juxtapose (.name "ß") (.name "€")
    (∃ (trail : Trail) (enough : Nat),
      (∀ calls ≥ enough,
        (product.scan text calls).run.run ⟨⟨⟨2⟩, 198⟩, []⟩ = some (.ok e, trail)) ∧
      trail.cursor = ⟨⟨10⟩, 198⟩ ∧
      ∀ cursor ∈ trail.cursors, cursor.position.IsValid text ∧ cursor.depth ≤ maxDepth + 1) ∧
    ∃ (trail : Trail) (enough : Nat),
      (∀ calls ≥ enough, (product.scan text calls).run.run ⟨⟨⟨2⟩, 199⟩, []⟩ =
        some (.error (.refused .tooDeep), trail)) ∧
      ∀ cursor ∈ trail.cursors, cursor.position.IsValid text ∧ cursor.depth ≤ maxDepth + 1 := by
  intro text product e
  have hunread : unread? text ⟨2⟩ = some "(ß)€ to m".toList :=
    unread?_eq_some_iff.mpr ⟨"α".toList, by decide +kernel, by decide +kernel⟩
  have hvalid : String.Pos.Raw.IsValid text ⟨2⟩ := exists_unread?_iff.mp ⟨_, hunread⟩
  have hread : product.parser (Level.withAllowance 2) "(ß)€ to m".toList =
      .ok (e, "to m".toList) := by decide +kernel
  have hdeep : product.parser (Level.withAllowance 1) "(ß)€ to m".toList = .error .tooDeep := by
    decide +kernel
  constructor
  · obtain ⟨result, trail, unread, enough, hrun, hsafe, hstart, hend⟩ :=
      Phrase.scan_safe product text ⟨⟨2⟩, 198⟩ hvalid (by decide)
    obtain rfl := Option.some.inj (hunread.symm.trans hstart)
    rcases hend with ⟨e', front, rest, rfl, hfront, -, hcursor, hok⟩ | ⟨error, -, herror⟩
    · obtain ⟨rfl, rfl⟩ := Prod.mk.inj (Except.ok.inj (hread.symm.trans hok))
      obtain rfl : front = "(ß)€ ".toList := List.append_cancel_right hfront.symm
      exact ⟨trail, enough, hrun, hcursor, hsafe⟩
    · cases hread.symm.trans herror
  · obtain ⟨result, trail, unread, enough, hrun, hsafe, hstart, hend⟩ :=
      Phrase.scan_safe product text ⟨⟨2⟩, 199⟩ hvalid (by decide)
    obtain rfl := Option.some.inj (hunread.symm.trans hstart)
    rcases hend with ⟨e', front, rest, -, -, -, -, hok⟩ | ⟨error, rfl, herror⟩
    · cases hdeep.symm.trans hok
    · obtain rfl := Except.error.inj (hdeep.symm.trans herror)
      exact ⟨trail, enough, hrun, hsafe⟩

/-! ## Whole texts -/

namespace Scan

/-- The end of the text is where nothing is left. -/
theorem arrives_atEnd (text : String) (depth : Nat) (rest : List Char) :
    Arrives text (fun _ => atEnd text) depth rest depth (.ok (rest.isEmpty, rest)) := by
  refine .cursor fun position hunread => ?_
  have hend : decide (text.utf8ByteSize ≤ position.byteIdx) = rest.isEmpty := by
    rw [Bool.eq_iff_iff, decide_eq_true_eq, List.isEmpty_iff]
    exact utf8ByteSize_le_iff hunread
  dsimp only
  rw [hend]
  exact .pure _ _ _

/-- A whole text is read as it is parsed, and then nothing is left. -/
theorem arrives_whole (text : String) :
    Arrives text (whole text) 0 text.toList 0 ((fun e => (e, [])) <$> parse text) := by
  have hsafe : 0 ≤ maxDepth + 1 := Nat.zero_le _
  refine .andThen (arrives_skipBlanks hsafe _) (.andThen (arrives_atEnd text 0 _) ?_)
  unfold parse
  cases Text.skipBlanks text.toList with
  | nil => exact .refuse _ _ _ _
  | cons first others =>
    dsimp only
    rw [map_bind]
    refine ((follows text maxDepth).conversion (Nat.zero_add _) _).bind fun e rest _ => ?_
    refine .andThen (arrives_skipBlanks hsafe rest) (.andThen (arrives_atEnd text 0 _) ?_)
    dsimp only
    cases Text.skipBlanks rest with
    | nil => exact .pure _ _ _
    | cons c others => exact .andThen (arrives_peek _ _) (.refuse _ _ _ _)

/-- The reading of a whole text from its start ends, passes safe cursors only, and finds what is
parsed. -/
theorem exists_run_whole (text : String) :
    ∃ (trail : Trail) (enough : Nat), trail.IsSafe text ∧ ∀ calls ≥ enough,
      (whole text calls).run.run ⟨⟨⟨0⟩, 0⟩, []⟩ = some ((parse text).mapError .refused, trail) := by
  have hunread : unread? text ⟨0⟩ = some text.toList :=
    unread?_eq_some_iff.mpr ⟨[], by simp, rfl⟩
  have hstart : Cursor.IsSafe text ⟨⟨0⟩, 0⟩ :=
    ⟨exists_unread?_iff.mp ⟨_, hunread⟩, Nat.zero_le _⟩
  obtain ⟨⟨result, trail⟩, enough, hrun, harrival⟩ :=
    arrives_whole text _ (Trail.isBefore_start hstart hunread)
  refine ⟨trail, enough, harrival.isSafe, fun calls hcalls => ?_⟩
  rw [hrun calls hcalls]
  cases hparse : parse text with
  | error error =>
    rw [hparse] at harrival
    cases harrival
    rfl
  | ok e =>
    rw [hparse] at harrival
    cases harrival
    rfl

end Scan

end Reckoner.Expr
