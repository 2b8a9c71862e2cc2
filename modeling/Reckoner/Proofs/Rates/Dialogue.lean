import Mathlib.Data.List.Forall2
import Reckoner.Rates

/-!
# Batches of rates as dialogues

A batch knows its engine by the answers to what it asks, and an engine may answer as it likes: it
may forget a unit that it has just created, refuse to change what it called a currency, or tell
something else when it is asked a second time. This file writes a batch down as a dialogue, which
says what is asked next after every possible answer. Whatever the answers are, each row gets its own
few questions and meets one of four ends, and the report accounts for all of them.
-/

namespace Reckoner

/-! ## Queries and dialogues -/

/-- What a batch asks of an engine. -/
inductive Query where
  | resolveUnit (name : String)
  | anchorCurrency
  | isCurrencyUnit (unit : UnitId)
  | createAlias (spec : AliasSpec)
  | editCurrency (unit : UnitId) (edits : List CurrencyEdit)
  | setStaleWarning (enabled : Bool)
  | reloadCurrencies

namespace Query

/-- The answers to a query. Changes to a currency are granted or refused. -/
abbrev Answer : Query → Type
  | resolveUnit _ | anchorCurrency => Option UnitId
  | isCurrencyUnit _ | editCurrency .. => Bool
  | createAlias _ => UnitId
  | setStaleWarning _ | reloadCurrencies => Unit

/-- Whether a query asks for a change. -/
def mutates : Query → Bool
  | resolveUnit _ | anchorCurrency | isCurrencyUnit _ => false
  | createAlias _ | editCurrency .. | setStaleWarning _ | reloadCurrencies => true

/-- Whether a query is one of those that end a batch. -/
def closes : Query → Bool
  | setStaleWarning _ | reloadCurrencies => true
  | resolveUnit _ | anchorCurrency | isCurrencyUnit _ | createAlias _ | editCurrency .. => false

end Query

/-- A query with the answer that was given. -/
structure Exchange where
  query : Query
  answer : query.Answer

/-- Anything that answers queries. The answers come from a state, which any query may change. -/
structure Respondent (σ : Type) where
  answer : (query : Query) → σ → query.Answer × σ

/-- An engine answers out of its state, and only a change leads to another one. -/
def Respondent.ofEngine {σ : Type} [Engine σ] (clock : Clock) : Respondent σ where
  answer
    | .resolveUnit name, engine => (Engine.resolveUnit engine name, engine)
    | .anchorCurrency, engine => (Engine.anchorCurrency engine, engine)
    | .isCurrencyUnit unit, engine => (Engine.isCurrencyUnit engine unit, engine)
    | .createAlias spec, engine => Engine.createAlias engine spec
    | .editCurrency unit edits, engine =>
        match Engine.editCurrency engine unit edits with
        | some engine => (true, engine)
        | none => (false, engine)
    | .setStaleWarning enabled, engine => ((), Engine.setStaleWarning engine enabled)
    | .reloadCurrencies, engine => ((), Engine.reloadCurrencies engine clock)

/-- What is asked next after every possible answer, up to a value. -/
inductive Dialogue (α : Type) where
  | done (value : α)
  | ask (query : Query) (next : query.Answer → Dialogue α)

/-- How a dialogue went. -/
structure Conversation (σ α : Type) where
  exchanges : List Exchange
  value : α
  state : σ

namespace Conversation

variable {σ α β : Type}

/-- What remains of a conversation if the exchanges are forgotten. -/
def result (talk : Conversation σ α) : α × σ :=
  (talk.value, talk.state)

/-- A conversation that was carried on after another one. -/
def andThen (before : Conversation σ α) (after : Conversation σ β) : Conversation σ β :=
  { after with exchanges := before.exchanges ++ after.exchanges }

end Conversation

namespace Dialogue

variable {α β σ : Type}

/-- One dialogue after another. -/
def bind : Dialogue α → (α → Dialogue β) → Dialogue β
  | done value, f => f value
  | ask query next, f => ask query fun answer => (next answer).bind f

/-- Carries on a dialogue with a respondent. -/
def run (respondent : Respondent σ) : Dialogue α → σ → Conversation σ α
  | done value, state => ⟨[], value, state⟩
  | ask query next, state =>
      let reply := respondent.answer query state
      let rest := (next reply.1).run respondent reply.2
      ⟨⟨query, reply.1⟩ :: rest.exchanges, rest.value, rest.state⟩

/-- Of two dialogues one after the other, the second one goes on in the state that the first one
led to. -/
theorem run_bind (respondent : Respondent σ) (first : Dialogue α) (f : α → Dialogue β)
    (state : σ) :
    (first.bind f).run respondent state =
      (first.run respondent state).andThen
        ((f (first.run respondent state).value).run respondent
          (first.run respondent state).state) := by
  induction first generalizing state with
  | done value => rfl
  | ask query next ih =>
    rw [bind, run, ih]
    rfl

/-! ## The dialogue of a batch -/

/-- Asks for the changes of a row to its currency. -/
def edits (base unit : UnitId) (row : RateRow) (outcome : RowOutcome) : Dialogue RowOutcome :=
  ask (.editCurrency unit (row.edits base)) fun granted =>
    done (if granted then outcome else .skipped)

/-- The dialogue of one row. -/
def row (base : UnitId) (row : RateRow) : Dialogue RowOutcome :=
  ask (.resolveUnit row.name) fun
    | some unit =>
        if unit = base then done .ignored
        else ask (.isCurrencyUnit unit) fun
          | true => edits base unit row .updated
          | false => done .skipped
    | none => ask (.createAlias { name := row.name, base }) fun unit => edits base unit row .created

/-- The dialogues of rows, one after another. -/
def rows (base : UnitId) : List RateRow → Dialogue (List RowOutcome)
  | [] => done []
  | first :: others =>
      (row base first).bind fun outcome => (rows base others).bind fun outcomes =>
        done (outcome :: outcomes)

/-- The dialogue of a batch once its base and the anchor are known. -/
def body (rates : List RateRow) (warnOnStale : Bool) :
    Option UnitId → Option UnitId → Dialogue RateReport
  | some base, some anchor =>
      if base = anchor then
        (rows base rates).bind fun outcomes =>
          ask (.setStaleWarning warnOnStale) fun _ => ask .reloadCurrencies fun _ =>
            done (.ofOutcomes rates outcomes)
      else done {}
  | _, _ => done {}

/-- The dialogue of a batch. -/
def batch (rates : List RateRow) (baseName : String) (warnOnStale : Bool) : Dialogue RateReport :=
  ask (.resolveUnit baseName) fun base? => ask .anchorCurrency fun anchor? =>
    body rates warnOnStale base? anchor?

section engines

variable [Engine σ] {clock : Clock} {base : UnitId}

/-- With an engine, the dialogue about changes makes them. -/
theorem run_edits_ofEngine (clock : Clock) (unit : UnitId) (row : RateRow) (outcome : RowOutcome)
    (engine : σ) :
    ((edits base unit row outcome).run (.ofEngine clock) engine).result =
      applyEdits engine base unit row outcome := by
  dsimp only [edits, run, Respondent.ofEngine]
  unfold applyEdits
  cases Engine.editCurrency engine unit (row.edits base) <;> rfl

/-- With an engine, the dialogue of a row applies it. -/
theorem run_row_ofEngine (clock : Clock) (rate : RateRow) (engine : σ) :
    ((row base rate).run (.ofEngine clock) engine).result = applyRow base engine rate := by
  dsimp only [row, run, Respondent.ofEngine]
  unfold applyRow
  cases Engine.resolveUnit engine rate.name with
  | none => exact run_edits_ofEngine clock _ rate .created _
  | some unit =>
    dsimp only
    by_cases hunit : unit = base
    · rw [if_pos hunit, if_pos hunit]
      rfl
    · rw [if_neg hunit, if_neg hunit]
      dsimp only [run]
      cases Engine.isCurrencyUnit engine unit with
      | true => exact run_edits_ofEngine clock unit rate .updated engine
      | false => rfl

/-- With an engine, the dialogues of rows apply them one after another. -/
theorem run_rows_ofEngine (clock : Clock) (rates : List RateRow) (engine : σ) :
    ((rows base rates).run (.ofEngine clock) engine).result = applyRows base engine rates := by
  induction rates generalizing engine with
  | nil => rfl
  | cons first others ih =>
    rw [rows, run_bind, run_bind, applyRows, ← run_row_ofEngine clock]
    dsimp only [Conversation.result]
    rw [← ih]
    rfl

/-- With an engine, the dialogue of a batch applies it. -/
theorem run_batch_ofEngine (rates : List RateRow) (baseName : String) (warnOnStale : Bool)
    (engine : σ) (clock : Clock) :
    ((batch rates baseName warnOnStale).run (.ofEngine clock) engine).result =
      updateRates engine clock rates baseName warnOnStale := by
  dsimp only [batch, body, run, Respondent.ofEngine]
  unfold updateRates acceptedBase?
  cases Engine.resolveUnit engine baseName with
  | none => rfl
  | some base =>
    cases Engine.anchorCurrency engine with
    | none => rfl
    | some anchor =>
      dsimp only
      by_cases hbase : base = anchor
      · rw [if_pos hbase, if_pos hbase, run_bind]
        dsimp only
        rw [← run_rows_ofEngine clock]
        rfl
      · rw [if_neg hbase, if_neg hbase]
        rfl

end engines

end Dialogue

/-! ## What is said about a row -/

/-- The possible conversations about a row, with what becomes of it. -/
inductive RowTalk (base : UnitId) (row : RateRow) : List Exchange → RowOutcome → Prop
  /-- The row names the base. -/
  | ignored : RowTalk base row [⟨.resolveUnit row.name, some base⟩] .ignored
  /-- The row names another unit, which is no currency. -/
  | noCurrency {unit : UnitId} (hunit : unit ≠ base) :
      RowTalk base row [⟨.resolveUnit row.name, some unit⟩, ⟨.isCurrencyUnit unit, false⟩] .skipped
  /-- The row names a currency, which grants or refuses its changes. -/
  | known {unit : UnitId} (hunit : unit ≠ base) (granted : Bool) :
      RowTalk base row
        [⟨.resolveUnit row.name, some unit⟩, ⟨.isCurrencyUnit unit, true⟩,
          ⟨.editCurrency unit (row.edits base), granted⟩]
        (if granted then .updated else .skipped)
  /-- The row has a new name. The unit that is created for it may refuse the changes all the
  same. -/
  | new (unit : UnitId) (granted : Bool) :
      RowTalk base row
        [⟨.resolveUnit row.name, none⟩, ⟨.createAlias { name := row.name, base }, unit⟩,
          ⟨.editCurrency unit (row.edits base), granted⟩]
        (if granted then .created else .skipped)

/-- No conversation about a row is about the end of the batch. -/
theorem RowTalk.closes_eq_false {base : UnitId} {row : RateRow} {exchanges : List Exchange}
    {outcome : RowOutcome} (htalk : RowTalk base row exchanges outcome) :
    ∀ exchange ∈ exchanges, exchange.query.closes = false := by
  cases htalk <;> simp [Query.closes]

/-- Nor are the conversations about several rows. -/
theorem closes_eq_false_of_rowTalks {base : UnitId} {rows : List RateRow}
    {talks : List (List Exchange × RowOutcome)}
    (htalks : List.Forall₂ (fun row talk => RowTalk base row talk.1 talk.2) rows talks) :
    ∀ exchange ∈ (talks.map Prod.fst).flatten, exchange.query.closes = false := by
  induction htalks with
  | nil => simp
  | cons hfirst _ ih =>
    rw [List.map_cons, List.flatten_cons]
    intro exchange hexchange
    rcases List.mem_append.mp hexchange with hhere | hlater
    · exact hfirst.closes_eq_false exchange hhere
    · exact ih exchange hlater

namespace Dialogue

variable {σ : Type}

/-- The dialogue of a row is one of the possible conversations, whoever answers. -/
theorem rowTalk_run (respondent : Respondent σ) (base : UnitId) (rate : RateRow) (state : σ) :
    RowTalk base rate ((row base rate).run respondent state).exchanges
      ((row base rate).run respondent state).value := by
  dsimp only [row, run]
  cases (respondent.answer (.resolveUnit rate.name) state).1 with
  | none => exact .new _ _
  | some unit =>
    dsimp only
    by_cases hunit : unit = base
    · rw [if_pos hunit, hunit]
      exact .ignored
    · rw [if_neg hunit]
      dsimp only [run]
      cases (respondent.answer (.isCurrencyUnit unit) _).1 with
      | true => exact .known hunit _
      | false => exact .noCurrency hunit

/-- The dialogues of rows are possible conversations about them, one after another. -/
theorem exists_rowTalks_run (respondent : Respondent σ) (base : UnitId) (rates : List RateRow)
    (state : σ) :
    ∃ talks : List (List Exchange × RowOutcome),
      List.Forall₂ (fun row talk => RowTalk base row talk.1 talk.2) rates talks ∧
      ((rows base rates).run respondent state).exchanges = (talks.map Prod.fst).flatten ∧
      ((rows base rates).run respondent state).value = talks.map Prod.snd := by
  induction rates generalizing state with
  | nil => exact ⟨[], .nil, rfl, rfl⟩
  | cons first others ih =>
    obtain ⟨talks, htalks, hexchanges, hvalue⟩ :=
      ih ((row base first).run respondent state).state
    refine ⟨(_, _) :: talks, .cons (rowTalk_run respondent base first state) htalks, ?_, ?_⟩
    · rw [rows, run_bind, run_bind, List.map_cons, List.flatten_cons, ← hexchanges]
      exact congrArg (((row base first).run respondent state).exchanges ++ ·) (List.append_nil _)
    · rw [rows, run_bind, run_bind, List.map_cons, ← hvalue]
      rfl

/-- Without an anchor for a base, a batch is over after two questions. -/
theorem run_batch_of_rejected (respondent : Respondent σ) (rates : List RateRow)
    (baseName : String) (warnOnStale : Bool) (state : σ) :
    let first := respondent.answer (.resolveUnit baseName) state
    let second := respondent.answer .anchorCurrency first.2
    (¬ ∃ base, first.1 = some base ∧ second.1 = some base) →
      (batch rates baseName warnOnStale).run respondent state =
        ⟨[⟨.resolveUnit baseName, first.1⟩, ⟨.anchorCurrency, second.1⟩], {}, second.2⟩ := by
  intro first second hbase
  have hdone : body rates warnOnStale first.1 second.1 = done {} := by
    unfold body
    split
    · next base anchor hfirst hsecond =>
      exact if_neg fun (hsame : base = anchor) => hbase ⟨base, hfirst, hsame ▸ hsecond⟩
    · rfl
  dsimp only [batch, run]
  rw [hdone]
  rfl

/-- With the anchor for a base, a batch goes on with its rows and ends with the warning and the
rates. -/
theorem run_batch_of_accepted (respondent : Respondent σ) (rates : List RateRow)
    (baseName : String) (warnOnStale : Bool) (state : σ) {base : UnitId} :
    let first := respondent.answer (.resolveUnit baseName) state
    let second := respondent.answer .anchorCurrency first.2
    let applied := (rows base rates).run respondent second.2
    let talk := (batch rates baseName warnOnStale).run respondent state
    first.1 = some base → second.1 = some base →
      talk.exchanges = ⟨.resolveUnit baseName, first.1⟩ :: ⟨.anchorCurrency, second.1⟩ ::
        (applied.exchanges ++ [⟨.setStaleWarning warnOnStale, ()⟩, ⟨.reloadCurrencies, ()⟩]) ∧
      talk.value = .ofOutcomes rates applied.value := by
  intro first second applied talk hfirst hsecond
  have hbody : body rates warnOnStale first.1 second.1 =
      (rows base rates).bind fun outcomes =>
        ask (.setStaleWarning warnOnStale) fun _ => ask .reloadCurrencies fun _ =>
          done (.ofOutcomes rates outcomes) := by
    rw [hfirst, hsecond]
    exact if_pos rfl
  have htalk : talk = ⟨⟨.resolveUnit baseName, first.1⟩ :: ⟨.anchorCurrency, second.1⟩ ::
      ((body rates warnOnStale first.1 second.1).run respondent second.2).exchanges,
      ((body rates warnOnStale first.1 second.1).run respondent second.2).value,
      ((body rates warnOnStale first.1 second.1).run respondent second.2).state⟩ := rfl
  rw [hbody, run_bind] at htalk
  rw [htalk]
  exact ⟨rfl, rfl⟩

end Dialogue

/-! ## What a report says -/

/-- A report accounts for every row of a batch once: as ignored, created, updated or skipped. -/
structure RateReport.Accounts (report : RateReport) (rows : List RateRow)
    (outcomes : List RowOutcome) : Prop where
  baseAccepted_eq : report.baseAccepted = true
  length_eq : outcomes.length = rows.length
  created_eq : report.created =
    ((rows.zip outcomes).filter fun pair => pair.2 == .created).map fun pair => pair.1.name
  updated_eq : report.updated =
    ((rows.zip outcomes).filter fun pair => pair.2 == .updated).map fun pair => pair.1.name
  mem_skipped_iff : ∀ i name, ⟨i, name⟩ ∈ report.skipped ↔
    outcomes[i]? = some .skipped ∧ rows[i]?.map RateRow.name = some name
  skipped_ascending : report.skipped.Pairwise fun entry later => entry.index < later.index
  length_add : outcomes.count .ignored + report.created.length + report.updated.length +
    report.skipped.length = rows.length
  isSuccess_iff : report.isSuccess = true ↔ report.skipped = []

/-- Each outcome is one of the four. -/
theorem count_outcomes (outcomes : List RowOutcome) :
    outcomes.count .ignored + outcomes.count .created + outcomes.count .updated +
      outcomes.count .skipped = outcomes.length := by
  induction outcomes with
  | nil => rfl
  | cons first others ih =>
    rw [List.length_cons, ← ih]
    cases first <;> simp <;> omega

/-- A report that is made from one outcome for each row accounts for the rows. -/
theorem accounts_ofOutcomes {rows : List RateRow} {outcomes : List RowOutcome}
    (hlength : outcomes.length = rows.length) :
    (RateReport.ofOutcomes rows outcomes).Accounts rows outcomes := by
  have hsnd : (rows.zip outcomes).map Prod.snd = outcomes := List.map_snd_zip (by omega)
  have hfst : (rows.zip outcomes).zipIdx.map Prod.fst = rows.zip outcomes := List.zipIdx_map_fst 0 _
  have hcount (wanted : RowOutcome) :
      ((rows.zip outcomes).filter fun pair => pair.2 == wanted).length = outcomes.count wanted := by
    conv_rhs => rw [← hsnd, List.count, List.countP_map]
    exact List.countP_eq_length_filter.symm
  have hskipped : (RateReport.ofOutcomes rows outcomes).skipped.length =
      outcomes.count .skipped := by
    rw [← hcount, ← hfst, List.filter_map, List.length_map]
    exact List.length_map _
  refine ⟨rfl, hlength, rfl, rfl, fun i name => ?_, ?_, ?_, ?_⟩
  · constructor
    · intro hmem
      obtain ⟨⟨⟨row, outcome⟩, j⟩, hfiltered, heq⟩ := List.mem_map.mp hmem
      obtain ⟨hplace, hskips⟩ := List.mem_filter.mp hfiltered
      obtain ⟨hrow, houtcome⟩ :=
        List.getElem?_zip_eq_some.mp (List.mk_mem_zipIdx_iff_getElem?.mp hplace)
      obtain ⟨rfl, rfl⟩ := SkippedRow.mk.inj heq
      obtain rfl := beq_iff_eq.mp hskips
      exact ⟨houtcome, by rw [hrow]; rfl⟩
    · rintro ⟨houtcome, hname⟩
      obtain ⟨row, hrow, rfl⟩ := Option.map_eq_some_iff.mp hname
      refine List.mem_map.mpr ⟨((row, .skipped), i), List.mem_filter.mpr ⟨?_, rfl⟩, rfl⟩
      exact List.mk_mem_zipIdx_iff_getElem?.mpr
        (List.getElem?_zip_eq_some.mpr ⟨hrow, houtcome⟩)
  · have hplaces : (rows.zip outcomes).zipIdx.Pairwise fun pair later => pair.2 < later.2 := by
      rw [← List.pairwise_map, List.zipIdx_map_snd]
      exact List.pairwise_lt_range'
    exact List.pairwise_map.mpr (hplaces.filter _)
  · rw [hskipped, ← hlength, ← count_outcomes, ← hcount .created, ← hcount .updated]
    show _ + (List.map _ _).length + (List.map _ _).length + _ = _
    rw [List.length_map, List.length_map]
  · show (true && (RateReport.ofOutcomes rows outcomes).skipped.isEmpty) = true ↔ _
    rw [Bool.true_and, List.isEmpty_iff]

/-! ## Whole batches -/

/-- Whatever engine a batch is applied to, it is a dialogue with this engine, and such a dialogue
goes one of two ways with anyone, consistent or not. It begins with the names of the base and of the
anchor. If they are not the same unit, nothing else is asked, so that nothing is changed, and the
report is empty. Otherwise there is a conversation about each row, in order, then the warning is set,
and last the rates are evaluated; these two are asked for once and at no other time. The report then
accounts for each row once. -/
theorem updateRates_dialogue (rows : List RateRow) (baseName : String) (warnOnStale : Bool) :
    (∀ {σ : Type} [Engine σ] (engine : σ) (clock : Clock),
      updateRates engine clock rows baseName warnOnStale =
        ((Dialogue.batch rows baseName warnOnStale).run (.ofEngine clock) engine).result) ∧
    ∀ {σ : Type} (respondent : Respondent σ) (state : σ),
      let talk := (Dialogue.batch rows baseName warnOnStale).run respondent state
      ∃ base? anchor? others, talk.exchanges =
          ⟨.resolveUnit baseName, base?⟩ :: ⟨.anchorCurrency, anchor?⟩ :: others ∧
        ((¬ ∃ base, base? = some base ∧ anchor? = some base) ∧ others = [] ∧
            (∀ exchange ∈ talk.exchanges, exchange.query.mutates = false) ∧ talk.value = {} ∨
          ∃ base parts, base? = some base ∧ anchor? = some base ∧
            List.Forall₂ (fun row part => RowTalk base row part.1 part.2) rows parts ∧
            others = (parts.map Prod.fst).flatten ++
              [⟨.setStaleWarning warnOnStale, ()⟩, ⟨.reloadCurrencies, ()⟩] ∧
            talk.exchanges.filter (fun exchange => exchange.query.closes) =
              [⟨.setStaleWarning warnOnStale, ()⟩, ⟨.reloadCurrencies, ()⟩] ∧
            talk.value.Accounts rows (parts.map Prod.snd)) := by
  refine ⟨fun engine clock => (Dialogue.run_batch_ofEngine ..).symm, ?_⟩
  intro σ respondent state talk
  let first := respondent.answer (.resolveUnit baseName) state
  let second := respondent.answer .anchorCurrency first.2
  by_cases hbase : ∃ base, first.1 = some base ∧ second.1 = some base
  · obtain ⟨base, hfirst, hsecond⟩ := hbase
    obtain ⟨hexchanges, hvalue⟩ :=
      Dialogue.run_batch_of_accepted respondent rows baseName warnOnStale state hfirst hsecond
    obtain ⟨parts, hparts, hrows, houtcomes⟩ :=
      Dialogue.exists_rowTalks_run respondent base rows second.2
    have hlength : (parts.map Prod.snd).length = rows.length := by
      rw [List.length_map, hparts.length_eq]
    have hopen : (parts.map Prod.fst).flatten.filter (fun exchange => exchange.query.closes) =
        [] :=
      List.filter_eq_nil_iff.mpr fun exchange hexchange =>
        Bool.eq_false_iff.mp (closes_eq_false_of_rowTalks hparts exchange hexchange)
    rw [hrows] at hexchanges
    rw [houtcomes] at hvalue
    refine ⟨first.1, second.1, _, hexchanges, .inr ⟨base, parts, hfirst, hsecond, hparts, rfl, ?_,
      ?_⟩⟩
    · show talk.exchanges.filter _ = _
      rw [hexchanges, List.filter_cons_of_neg (by simp [Query.closes]),
        List.filter_cons_of_neg (by simp [Query.closes]), List.filter_append, hopen]
      rfl
    · rw [hvalue]
      exact accounts_ofOutcomes hlength
  · have hrun := Dialogue.run_batch_of_rejected respondent rows baseName warnOnStale state hbase
    refine ⟨first.1, second.1, [], congrArg Conversation.exchanges hrun, .inl ⟨hbase, rfl, ?_,
      congrArg Conversation.value hrun⟩⟩
    show ∀ exchange ∈ talk.exchanges, _
    rw [show talk = _ from hrun]
    simp [Query.mutates]

-- A respondent that knows the euro alone, and refuses to change the unit that it has just created.
example :
    let respondent : Respondent Unit := ⟨fun
      | .resolveUnit name, state => (if name = "EUR" then some ⟨0⟩ else none, state)
      | .anchorCurrency, state => (some ⟨0⟩, state)
      | .isCurrencyUnit _, state | .editCurrency .., state => (false, state)
      | .createAlias _, state => (⟨1⟩, state)
      | .setStaleWarning _, state | .reloadCurrencies, state => ((), state)⟩
    ((Dialogue.batch [⟨"EUR", "1"⟩, ⟨"USD", "0.9"⟩] "EUR" true).run respondent ()).value =
      { baseAccepted := true, skipped := [⟨1, "USD"⟩] } := by
  decide

end Reckoner
