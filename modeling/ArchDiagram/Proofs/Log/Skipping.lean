import Mathlib.Algebra.GroupWithZero.Nat
import ArchDiagram.Proofs.Statement.Order
import ArchDiagram.Proofs.Statement.Recognition

/-! Tokens against statements and reports. A statement takes a number of tokens for itself that can
be told from what it says, and a block reports each token that it skips; so no token of an accepted
document goes missing, however far the parser looks ahead. -/
namespace ArchDiagram

namespace Event

/-- The report that a block skips a token. -/
def ReportsSkip (e : Event) : Prop :=
  e.message = "Skipping token in block"

instance (e : Event) : Decidable e.ReportsSkip :=
  inferInstanceAs (Decidable (e.message = _))

/-- The number of tokens that some reports say were skipped. -/
def skips (es : List Event) : ℕ :=
  es.countP fun e => e.ReportsSkip

@[simp] theorem skips_nil : skips [] = 0 := rfl

@[simp] theorem skips_append (es fs : List Event) : skips (es ++ fs) = skips es + skips fs :=
  List.countP_append

@[simp] theorem skips_skippedToken (text : String) (line : ℕ) (es : List Event) :
    skips (.skippedToken text line :: es) = skips es + 1 := by
  rw [skips, List.countP_cons_of_pos]
  · rfl
  · simp [ReportsSkip, message]

@[simp] theorem skips_parsedStatements (n : ℕ) : skips [.parsedStatements n] = 0 := by
  rw [skips, List.countP_singleton, if_neg]
  simp [ReportsSkip, message]

end Event

namespace Statement

/-- The tokens that a statement takes for itself; those of its body are not counted. -/
def ownTokens : Statement → ℕ
  | .layout _ as => 1 + 3 * as.length
  | .style _ _ as => 2 + 3 * as.length
  | .component _ _ ps | .container _ _ ps _ | .note _ _ ps => 4 + 2 * ps.length
  | .relation _ _ _ label => 4 + if label.isSome then 2 else 0

/-- The tokens that statements take at every depth. -/
def tokensTaken (ss : List Statement) : ℕ :=
  ((occurrencesAll [] ss).map fun o => o.statement.ownTokens).sum

@[simp] theorem tokensTaken_nil : tokensTaken [] = 0 := rfl

mutual

lemma map_statement_occurrences (opened opened' : List Id) : ∀ s : Statement,
    (s.occurrences opened).map Occurrence.statement =
      (s.occurrences opened').map Occurrence.statement
  | .container span id ps body => by
    rw [occurrences, occurrences, List.map_cons, List.map_cons,
      map_statement_occurrencesAll (id.value :: opened) (id.value :: opened') body]
  | .layout .. | .style .. | .component .. | .relation .. | .note .. => by
    simp [occurrences]

/-- Which statements are nested does not depend on where they stand. -/
lemma map_statement_occurrencesAll (opened opened' : List Id) : ∀ ss : List Statement,
    (occurrencesAll opened ss).map Occurrence.statement =
      (occurrencesAll opened' ss).map Occurrence.statement
  | [] => rfl
  | s :: ss => by
    rw [occurrencesAll, occurrencesAll, List.map_append, List.map_append,
      map_statement_occurrences opened opened' s, map_statement_occurrencesAll opened opened' ss]

end

lemma tokensTaken_eq (opened : List Id) (ss : List Statement) :
    tokensTaken ss = ((occurrencesAll opened ss).map fun o => o.statement.ownTokens).sum := by
  have h := congrArg (fun l => (l.map ownTokens).sum) (map_statement_occurrencesAll [] opened ss)
  simpa [tokensTaken, Function.comp_def] using h

/-- A statement takes its own tokens and those of its body. -/
lemma tokensTaken_cons (s : Statement) (ss : List Statement) :
    tokensTaken (s :: ss) = s.ownTokens + tokensTaken s.body + tokensTaken ss := by
  obtain ⟨inner, h⟩ := occurrences_eq [] s
  rw [tokensTaken_eq inner s.body, tokensTaken, tokensTaken, occurrencesAll, h]
  simp [Nat.add_assoc]

lemma tokensTaken_singleton (s : Statement) :
    tokensTaken [s] = s.ownTokens + tokensTaken s.body := by
  rw [tokensTaken_cons, tokensTaken_nil, Nat.add_zero]

lemma tokensTaken_eq_sum (ss : List Statement) :
    tokensTaken ss = (ss.map fun s => tokensTaken [s]).sum := by
  induction ss with
  | nil => rfl
  | cons s ss ih => rw [tokensTaken_cons, ih, List.map_cons, List.sum_cons, tokensTaken_singleton]

end Statement

namespace Parser
open Event Statement

variable {α β : Type} {n : ℕ}

/-- `p` loses no token: of the `n` tokens before it and those that it takes off the front, all are
reported as skipped but for the `weight` of what was read. -/
def Accounts (n : ℕ) (p : Parser α) (weight : α → ℕ) : Prop :=
  ∀ ts a rest, (p ts).value = .done a rest →
    n + ts.length = rest.length + skips (p ts).events + weight a

lemma accounts_pure {weight : α → ℕ} {a : α} (h : weight a = n) :
    Accounts n (Pure.pure a : Parser α) weight := by
  rintro ts b rest ⟨⟩
  change n + ts.length = ts.length + 0 + weight a
  omega

lemma accounts_fail (cause : Cause) (weight : α → ℕ) : Accounts n (fail cause) weight := by
  rintro ts a rest ⟨⟩

/-- The second parser goes on with the weight of what the first one read. -/
lemma accounts_bind {p : Parser α} {f : α → Parser β} {first : α → ℕ} {weight : β → ℕ}
    (hp : Accounts n p first) (hf : ∀ a, Accounts (first a) (f a) weight) :
    Accounts n (p >>= f) weight := by
  intro ts b rest h
  obtain ⟨a, mid, ha, hb⟩ := bind_eq_done_iff.mp h
  have hevents : ((p >>= f) ts).events = (p ts).events ++ (f a mid).events := by
    change (Parser.bind p f ts).events = _
    rw [Parser.bind, ha]
  have hfirst := hp ts a mid ha
  have hsecond := hf a mid b rest hb
  rw [hevents, skips_append]
  omega

lemma events_next (what : Expectation) (accept : Token → Option α) (ts : List Token) :
    (next what accept ts).events = [] := by
  cases ts with
  | nil => rfl
  | cons t ts =>
    rw [next]
    cases accept t <;> rfl

lemma accounts_next (what : Expectation) (accept : Token → Option α) :
    Accounts n (next what accept) fun _ => n + 1 := by
  intro ts a rest h
  obtain ⟨t, rfl, -⟩ := next_eq_done_iff.mp h
  rw [events_next]
  change n + (rest.length + 1) = rest.length + 0 + (n + 1)
  omega

/-- An attribute takes three tokens, and the look at what is none takes nothing. -/
lemma accounts_attributes : Accounts n attributes fun as => n + 3 * as.length := by
  intro ts as rest h
  rw [events_attributes]
  rw [attributes_eq_done_iff] at h
  change n + ts.length = rest.length + 0 + (n + 3 * as.length)
  induction h with
  | nil => exact Nat.add_comm _ _
  | cons _ _ _ _ ih =>
    simp only [List.length_cons]
    omega

lemma events_relationLabel (ts : List Token) : (relationLabel ts).events = [] := by
  cases ts with
  | nil => rfl
  | cons t ts =>
    rw [relationLabel]
    split_ifs
    · exact events_next _ _ ts
    · rfl

lemma accounts_relationLabel :
    Accounts n relationLabel fun label => n + if label.isSome then 2 else 0 := by
  intro ts label rest h
  rw [events_relationLabel]
  obtain ⟨rfl, rfl, -⟩ | ⟨c, l, rfl, -, -, rfl⟩ := relationLabel_eq_done_iff.mp h
  · exact Nat.add_comm _ _
  · change n + (rest.length + 2) = rest.length + 0 + (n + 2)
    omega

/-- A block takes its closing brace, two tokens for each property and those of its statements. -/
theorem accounts_items {kind : BlockKind} {nested : Parser Statement} {weight : Statement → ℕ}
    (hn : Accounts 0 nested weight) : Accounts n (items kind nested) fun b =>
      n + 1 + 2 * b.properties.length + (b.body.map weight).sum := by
  intro ts b rest h
  rw [items_eq_done_iff] at h
  change n + ts.length = rest.length + skips (items kind nested ts).events +
    (n + 1 + 2 * b.properties.length + (b.body.map weight).sum)
  induction h with
  | @close t ts role =>
    rw [items_close role]
    change n + (ts.length + 1) = ts.length + 0 + (n + 1 + 0 + 0)
    omega
  | @skipped t ts b rest role _ ih =>
    rw [items_skipped role, skips_skippedToken, List.length_cons]
    omega
  | @property t v ts field b rest role value _ ih =>
    rw [items_property role value]
    change n + (ts.length + 2) = rest.length + skips (items kind nested ts).events +
      (n + 1 + 2 * (b.properties.length + 1) + (b.body.map weight).sum)
    omega
  | @statement t ts s mid b rest role read le _ ih =>
    have hfirst : 0 + (ts.length + 1) = mid.length + skips (nested (t :: ts)).events + weight s :=
      hn _ _ _ read
    rw [items_statement role read le, skips_append]
    change n + (ts.length + 1) = rest.length + (skips (nested (t :: ts)).events +
      skips (items kind nested mid).events) +
        (n + 1 + 2 * b.properties.length + (weight s + (b.body.map weight).sum))
    omega

lemma accounts_layout (start : Span) : Accounts 1 (layout start) fun s => tokensTaken [s] :=
  accounts_bind accounts_attributes fun _ => accounts_pure (tokensTaken_singleton _)

lemma accounts_style (start : Span) : Accounts 1 (style start) fun s => tokensTaken [s] := by
  refine accounts_bind (accounts_next _ _) fun name => ?_
  exact accounts_bind accounts_attributes fun _ => accounts_pure (tokensTaken_singleton _)

lemma accounts_relation (start : Span) : Accounts 1 (relation start) fun s => tokensTaken [s] := by
  refine accounts_bind (accounts_next _ _) fun source => ?_
  refine accounts_bind (accounts_next _ _) fun _ => ?_
  refine accounts_bind (accounts_next _ _) fun target => ?_
  exact accounts_bind accounts_relationLabel fun _ => accounts_pure (tokensTaken_singleton _)

/-- The statements with a block: `make` builds one from its id and its block. -/
lemma accounts_blockStatement {kind : BlockKind} {nested : Parser Statement}
    {weight : Statement → ℕ} (hn : Accounts 0 nested weight) (make : Located Id → Block → Statement)
    (hmake : ∀ id b, tokensTaken [make id b] =
      4 + 2 * b.properties.length + (b.body.map weight).sum) :
    Accounts 1 (do let id ← identifier; let b ← block kind nested; return make id b)
      fun s => tokensTaken [s] := by
  refine accounts_bind (accounts_next _ _) fun id => ?_
  refine accounts_bind (accounts_bind (accounts_next _ _) fun _ => accounts_items hn) fun b => ?_
  exact accounts_pure (hmake id b)

/-- No statement is read in such a block, so the body adds nothing. -/
lemma accounts_flatStatement {kind : BlockKind} {cause : Cause}
    (make : Located Id → Block → Statement)
    (hmake : ∀ id b, tokensTaken [make id b] = 4 + 2 * b.properties.length) :
    Accounts 1 (do let id ← identifier; let b ← block kind (fail cause); return make id b)
      fun s => tokensTaken [s] := by
  refine accounts_blockStatement (accounts_fail cause fun _ => 0) make fun id b => ?_
  rw [hmake, List.map_const', List.sum_replicate_nat, Nat.mul_zero, Nat.add_zero]

/-- A keyword is one of the tokens of its statement. -/
lemma Accounts.behind_keyword {p : Parser Statement} {weight : Statement → ℕ}
    (h : Accounts 1 p weight) {k : Token} {ts rest : List Token} {s : Statement} (hs : (p ts).value = .done s rest) :
    0 + (k :: ts).length = rest.length + skips (p ts).events + weight s := by
  have hrest := h ts s rest hs
  rw [List.length_cons]
  omega

theorem accounts_dispatch {inner : Option (Parser Statement)}
    (hn : ∀ nested, inner = some nested → Accounts 0 nested fun s => tokensTaken [s]) :
    Accounts 0 (dispatch inner) fun s => tokensTaken [s] := by
  intro ts s rest
  cases ts with
  | nil => rintro ⟨⟩
  | cons k ts =>
    simp only [dispatch]
    cases k.kind with
    | keyword word =>
      cases word with
      | layout => exact (accounts_layout _).behind_keyword
      | style => exact (accounts_style _).behind_keyword
      | component =>
        exact (accounts_flatStatement _ fun _ _ => tokensTaken_singleton _).behind_keyword
      | container =>
        cases inner with
        | none => rintro ⟨⟩
        | some nested =>
          refine (accounts_blockStatement (hn nested rfl) _ fun id b => ?_).behind_keyword
          rw [tokensTaken_singleton, ← tokensTaken_eq_sum]
          rfl
      | relation => exact (accounts_relation _).behind_keyword
      | note => exact (accounts_flatStatement _ fun _ _ => tokensTaken_singleton _).behind_keyword
    | _ => rintro ⟨⟩

theorem accounts_statement (room : ℕ) : Accounts 0 (statement room) fun s => tokensTaken [s] :=
  statement_induction (P := fun p => Accounts 0 p fun s => tokensTaken [s])
    (fun _ => accounts_dispatch) room

/-- A document is read to its end. -/
theorem SequenceRun.accounts {one : Parser Statement}
    (h : Accounts 0 one fun s => tokensTaken [s]) {ts : List Token} {ss : List Statement}
    (hrun : SequenceRun one ts ss) :
    ts.length = skips (sequence one ts).events + tokensTaken ss := by
  induction hrun with
  | nil =>
    rw [sequence]
    rfl
  | @cons t ts s rest ss read le _ ih =>
    have hone : 0 + (ts.length + 1) = rest.length + skips (one (t :: ts)).events + tokensTaken [s] :=
      h _ _ _ read
    rw [tokensTaken_singleton] at hone
    rw [sequence_cons read le, skips_append, tokensTaken_cons, List.length_cons]
    omega

end Parser

/-- No token is lost: all that no statement takes for itself are reported as skipped, one by one. -/
theorem parseStatements_accounts_tokens {ts : List Token} {ss : List Statement}
    (h : (parseStatements ts).outcome = .ok ss) :
    ts.length = (parseStatements ts).events.countP (fun e => e.ReportsSkip) +
      ((Statement.occurrencesAll [] ss).map fun o => o.statement.ownTokens).sum := by
  have hdone := Parser.sequence_eq_done_iff.mpr ⟨rfl, parseStatements_eq_ok_iff.mp h⟩
  have hrun := (parseStatements_eq_ok_iff.mp h).accounts (Parser.accounts_statement maxNesting)
  have hevents : (parseStatements ts).events =
      (Parser.sequence (Parser.statement maxNesting) ts).events ++
        [.parsedStatements ss.length] := by
    rw [parseStatements, hdone]
    rfl
  have hskips := Event.skips_append
    (Parser.sequence (Parser.statement maxNesting) ts).events [.parsedStatements ss.length]
  rw [Event.skips_parsedStatements, ← hevents] at hskips
  rw [hrun]
  exact congrArg (· + _) hskips.symm

/-- A comma in a container, `layout` in a component and `style` in an annotation are skipped; the
`style` of the container is a property first and then a statement. -/
def strayedSource : String :=
  "layout ranksep = 12px
container c \x7b , style s label \"x\" component a \x7b width 1 layout \x7d style s icon = i
  relation a -> c : \"l\" relation c -> a \x7d
annotation c \x7b style s \x7d"

theorem accounts_tokens_of_strayed : ∃ ss,
    (parseStatements (tokenize strayedSource)).outcome = .ok ss ∧
    (Statement.occurrencesAll [] ss).map (fun o => o.statement.ownTokens) =
      [4, 8, 6, 5, 6, 4, 4] ∧
    (parseStatements (tokenize strayedSource)).events.countP (fun e => e.ReportsSkip) = 4 ∧
    (tokenize strayedSource).length =
      (parseStatements (tokenize strayedSource)).events.countP (fun e => e.ReportsSkip) +
        ((Statement.occurrencesAll [] ss).map fun o => o.statement.ownTokens).sum := by
  have hrun : (parseStatements (tokenize strayedSource)).outcome.toOption.any (fun ss =>
      (Statement.occurrencesAll [] ss).map (fun o => o.statement.ownTokens) =
        [4, 8, 6, 5, 6, 4, 4]) = true ∧
      (parseStatements (tokenize strayedSource)).events.countP (fun e => e.ReportsSkip) = 4 := by
    decide +kernel
  obtain ⟨ss, hss, howns⟩ := Attempt.exists_eq_ok hrun.1
  exact ⟨ss, hss, of_decide_eq_true howns, hrun.2, parseStatements_accounts_tokens hss⟩

end ArchDiagram
