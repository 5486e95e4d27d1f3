import ArchDiagram.Proofs.Diagram.Handles
import ArchDiagram.Proofs.Diagram.Redeclaration

/-! Every statement is accounted for. A statement adds to the diagram, or it replaces what an earlier
one declared, or it is left out because it stands in a container; of the last two there is a warning
that names the kind of the statement. So statements, declarations and warnings balance, kind by kind. -/
namespace ArchDiagram

/-- The word for a kind of statement at the start of a report. -/
def Keyword.title : Keyword → String
  | layout => "Layout"
  | style => "Style"
  | component => "Component"
  | container => "Container"
  | relation => "Relation"
  | note => "Annotation"

lemma Keyword.text_injective : Function.Injective Keyword.text := by
  intro j k h
  have hread : ofText? j.text = ofText? k.text := by rw [h]
  simpa using hread

namespace Event

/-- The report warns that a statement of this kind replaces an earlier one. -/
def WarnsRedeclared (k : Keyword) (e : Event) : Prop :=
  e.level = .warn ∧ (k.title ++ " redeclared").toList <+: e.message.toList

/-- The report warns that a statement of this kind is left out. -/
def WarnsIgnored (k : Keyword) (e : Event) : Prop :=
  e.level = .warn ∧ e.message = "Ignoring statement inside container block" ∧
    ("statement", k.text) ∈ e.details

instance (k : Keyword) (e : Event) : Decidable (e.WarnsRedeclared k) :=
  inferInstanceAs (Decidable (_ ∧ _))

instance (k : Keyword) (e : Event) : Decidable (e.WarnsIgnored k) :=
  inferInstanceAs (Decidable (_ ∧ _))

/-- The kind of the statement that replaced an earlier one. -/
def redeclared? : Event → Option Keyword
  | layoutRedeclared => some .layout
  | styleRedeclared _ => some .style
  | noteRedeclared _ => some .note
  | componentRedeclared _ => some .component
  | containerRedeclared _ => some .container
  | _ => none

/-- The kind of the statement that was left out. -/
def ignored? : Event → Option Keyword
  | ignoredStatement k _ => some k
  | _ => none

lemma warnsRedeclared_iff {k : Keyword} {e : Event} :
    e.WarnsRedeclared k ↔ e.redeclared? = some k := by
  cases e with
  | layoutRedeclared | styleRedeclared | noteRedeclared | componentRedeclared
  | containerRedeclared | ignoredStatement | unknownDirection | invalidNumber | sizeNotPositive
  | unknownShape =>
    simp only [WarnsRedeclared, redeclared?, level, message, true_and]
    cases k <;> decide
  | _ => simp [WarnsRedeclared, redeclared?, level]

lemma warnsIgnored_iff {k : Keyword} {e : Event} : e.WarnsIgnored k ↔ e.ignored? = some k := by
  cases e with
  | ignoredStatement word offset =>
    simp [WarnsIgnored, ignored?, level, message, details, Keyword.text_injective.eq_iff, eq_comm]
  | _ => simp [WarnsIgnored, ignored?, level, message]

/-- A report that accounts for no statement. -/
def Quiet (e : Event) : Prop :=
  e.redeclared? = none ∧ e.ignored? = none

/-- The number of statements of a kind for which some reports account. -/
def accounted (k : Keyword) (es : List Event) : ℕ :=
  es.countP (fun e => e.redeclared? = some k) + es.countP (fun e => e.ignored? = some k)

@[simp] lemma accounted_nil (k : Keyword) : accounted k [] = 0 := rfl

@[simp] lemma accounted_append (k : Keyword) (es fs : List Event) :
    accounted k (es ++ fs) = accounted k es + accounted k fs := by
  simp only [accounted, List.countP_append]
  omega

lemma accounted_of_quiet {es : List Event} (h : ∀ e ∈ es, e.Quiet) (k : Keyword) :
    accounted k es = 0 := by
  have hredeclared : es.countP (fun e => e.redeclared? = some k) = 0 := by
    rw [List.countP_eq_zero]
    intro e he
    simp [(h e he).1]
  have hignored : es.countP (fun e => e.ignored? = some k) = 0 := by
    rw [List.countP_eq_zero]
    intro e he
    simp [(h e he).2]
  rw [accounted, hredeclared, hignored]

end Event

open Event

lemma Logged.quiet_foldlM {σ α : Type} {f : σ → α → Logged σ}
    (h : ∀ s a, ∀ e ∈ (f s a).events, e.Quiet) (s : σ) (as : List α) :
    ∀ e ∈ (as.foldlM f s).events, e.Quiet := by
  induction as generalizing s with
  | nil =>
    intro e he
    cases he
  | cons a as ih =>
    rw [List.foldlM_cons, Logged.events_bind]
    intro e he
    obtain he | he := List.mem_append.mp he
    · exact h s a e he
    · exact ih _ e he

lemma quiet_readNumber (name text : String) (fallback : Binary64) :
    ∀ e ∈ (readNumber name text fallback).events, e.Quiet := by
  rw [readNumber]
  cases Binary64.read? text with
  | none => simp [Quiet, redeclared?, ignored?, -bind_pure_comp]
  | some x => simp

lemma quiet_readDimension (name text : String) (fallback : Binary64) :
    ∀ e ∈ (readDimension name text fallback).events, e.Quiet := by
  rw [readDimension, Logged.events_bind]
  intro e he
  obtain he | he := List.mem_append.mp he
  · exact quiet_readNumber name text fallback e he
  · split_ifs at he
    · simp at he
    · simp [-bind_pure_comp] at he
      subst he
      exact ⟨rfl, rfl⟩

lemma Traits.quiet_read (t : Traits) (p : Property) : ∀ e ∈ (t.read p).events, e.Quiet := by
  simp only [read]
  cases p.field.value with
  | width | height =>
    rw [Logged.events_bind, Logged.events_pure, List.append_nil]
    exact quiet_readDimension _ _ _
  | _ => simp

lemma Traits.quiet_ofProperties (size : Size) (ps : List Property) :
    ∀ e ∈ (ofProperties size ps).events, e.Quiet :=
  Logged.quiet_foldlM quiet_read _ ps

lemma Layout.quiet_set (l : Layout) (a : Attribute) : ∀ e ∈ (l.set a).events, e.Quiet := by
  simp only [set]
  split_ifs
  · cases Direction.ofName? a.value.value with
    | none => simp [Quiet, redeclared?, ignored?, -bind_pure_comp]
    | some direction => simp
  · rw [Logged.events_bind, Logged.events_pure, List.append_nil]
    exact quiet_readNumber _ _ _
  · rw [Logged.events_bind, Logged.events_pure, List.append_nil]
    exact quiet_readNumber _ _ _
  · simp [Quiet, redeclared?, ignored?, -bind_pure_comp]

lemma Style.quiet_set (s : Style) (a : Attribute) : ∀ e ∈ (s.set a).events, e.Quiet := by
  simp only [set]
  split_ifs
  · simp
  · simp
  · simp
  · cases Shape.ofName? a.value.value with
    | none => simp [Quiet, redeclared?, ignored?, -bind_pure_comp]
    | some shape => simp
  · simp

lemma Draft.quiet_detach (d : Draft) (id : Id) (parent : Option Id) :
    ∀ e ∈ (d.detach id parent).events, e.Quiet := by
  cases parent with
  | none => simp [detach]
  | some p =>
    rw [detach, Logged.events_bind, Logged.events_reportIf, Logged.events_pure, List.append_nil]
    split_ifs
    · simp [Quiet, redeclared?, ignored?]
    · simp

namespace Parser

variable {α β : Type}

/-- The parser reports the tokens that it skips, and nothing else. -/
def OnlySkips (p : Parser α) : Prop :=
  ∀ ts, ∀ e ∈ (p ts).events, ∃ text line, e = .skippedToken text line

lemma onlySkips_pure (a : α) : OnlySkips (Pure.pure a : Parser α) := by
  rintro ts e ⟨⟩

lemma onlySkips_fail (cause : Cause) : OnlySkips (fail cause : Parser α) := by
  rintro ts e ⟨⟩

lemma onlySkips_bind {p : Parser α} {f : α → Parser β} (hp : OnlySkips p)
    (hf : ∀ a, OnlySkips (f a)) : OnlySkips (p >>= f) := by
  intro ts e he
  change e ∈ (Parser.bind p f ts).events at he
  rw [Parser.bind] at he
  cases hv : (p ts).value with
  | stop cause rest =>
    rw [hv] at he
    exact hp ts e he
  | done a rest =>
    rw [hv] at he
    obtain he | he := List.mem_append.mp he
    · exact hp ts e he
    · exact hf a rest e he

lemma onlySkips_next (what : Expectation) (accept : Token → Option α) :
    OnlySkips (next what accept) := by
  intro ts e he
  cases ts with
  | nil => cases he
  | cons t ts =>
    rw [next] at he
    cases ht : accept t with
    | none =>
      rw [ht] at he
      cases he
    | some a =>
      rw [ht] at he
      cases he

lemma onlySkips_attributes : OnlySkips attributes := by
  intro ts e he
  rw [events_attributes] at he
  cases he

lemma onlySkips_relationLabel : OnlySkips relationLabel := by
  intro ts
  cases ts with
  | nil =>
    intro e he
    cases he
  | cons t ts =>
    rw [relationLabel]
    split_ifs
    · exact onlySkips_next _ _ ts
    · intro e he
      cases he

theorem onlySkips_items {kind : BlockKind} {nested : Parser Statement} (hn : OnlySkips nested) :
    OnlySkips (items kind nested) := by
  intro ts e he
  obtain hskip | ⟨us, he⟩ := mem_events_items he
  · exact hskip
  · exact hn us e he

lemma onlySkips_blockStatement {kind : BlockKind} {nested : Parser Statement}
    (hn : OnlySkips nested) (make : Located Id → Block → Statement) :
    OnlySkips (do let id ← identifier; let b ← block kind nested; return make id b) := by
  refine onlySkips_bind (onlySkips_next _ _) fun id => ?_
  refine onlySkips_bind ?_ fun b => onlySkips_pure _
  exact onlySkips_bind (onlySkips_next _ _) fun _ => onlySkips_items hn

lemma onlySkips_dispatch {inner : Option (Parser Statement)}
    (hn : ∀ nested, inner = some nested → OnlySkips nested) : OnlySkips (dispatch inner) := by
  intro ts
  cases ts with
  | nil =>
    intro e he
    cases he
  | cons k ts =>
    simp only [dispatch]
    cases k.kind with
    | keyword word =>
      cases word with
      | layout => exact onlySkips_bind onlySkips_attributes (fun _ => onlySkips_pure _) _
      | style =>
        refine onlySkips_bind (onlySkips_next _ _) (fun name => ?_) _
        exact onlySkips_bind onlySkips_attributes fun _ => onlySkips_pure _
      | component => exact onlySkips_blockStatement (onlySkips_fail _) _ _
      | container =>
        cases inner with
        | none =>
          intro e he
          cases he
        | some nested => exact onlySkips_blockStatement (hn nested rfl) _ _
      | relation =>
        refine onlySkips_bind (onlySkips_next _ _) (fun source => ?_) _
        refine onlySkips_bind (onlySkips_next _ _) fun _ => ?_
        refine onlySkips_bind (onlySkips_next _ _) fun target => ?_
        exact onlySkips_bind onlySkips_relationLabel fun _ => onlySkips_pure _
      | note => exact onlySkips_blockStatement (onlySkips_fail _) _ _
    | _ =>
      intro e he
      cases he

theorem onlySkips_statement (room : ℕ) : OnlySkips (statement room) :=
  statement_induction (P := OnlySkips) (fun _ => onlySkips_dispatch) room

theorem onlySkips_sequence {one : Parser Statement} (h : OnlySkips one) :
    OnlySkips (sequence one) := by
  intro ts e he
  obtain ⟨us, he⟩ := mem_events_sequence he
  exact h us e he

end Parser

lemma quiet_parseStatements (ts : List Token) : ∀ e ∈ (parseStatements ts).events, e.Quiet := by
  have hskips : ∀ e ∈ (Parser.sequence (Parser.statement maxNesting) ts).events, e.Quiet := by
    intro e he
    obtain ⟨text, line, rfl⟩ :=
      Parser.onlySkips_sequence (Parser.onlySkips_statement maxNesting) ts e he
    exact ⟨rfl, rfl⟩
  rw [parseStatements]
  cases (Parser.sequence (Parser.statement maxNesting) ts).value with
  | stop cause rest => exact hskips
  | done ss rest =>
    intro e he
    obtain he | he := List.mem_append.mp he
    · exact hskips e he
    · obtain rfl := List.mem_singleton.mp he
      exact ⟨rfl, rfl⟩

@[simp] lemma Attempt.events_liftExcept {ε α : Type} (x : Except ε α) :
    (liftExcept x : Attempt ε α).events = [] := by
  cases x <;> rfl

lemma OrderedMap.size_eq_of_keys {α β γ : Type} {m : OrderedMap α β} {n : OrderedMap α γ}
    (h : m.keys = n.keys) : m.size = n.size := by
  simpa [keys, size] using congrArg List.length h

lemma OrderedMap.size_insert {α β : Type} [DecidableEq α] (m : OrderedMap α β) (k : α) (v : β) :
    (m.insert k v).size + (m.contains k).toNat = m.size + 1 := by
  have hsize (n : OrderedMap α β) : n.size = n.keys.length := (List.length_map _).symm
  rw [hsize, hsize, keys_insert, contains]
  by_cases hk : k ∈ m.keys
  · simp [hk]
  · simp [hk]

lemma Event.accounted_reportIf {k word : Keyword} {e : Event} (hr : e.redeclared? = some word)
    (hi : e.ignored? = none) (b : Bool) :
    accounted k (Logged.reportIf b e).events = if word = k then b.toNat else 0 := by
  cases b with
  | false => simp
  | true =>
    by_cases hk : word = k
    · simp [accounted, hr, hi, hk]
    · simp [accounted, hr, hi, hk]

lemma Event.accounted_ignoredStatement (k word : Keyword) (offset : ℕ) :
    accounted k [.ignoredStatement word offset] = if word = k then 1 else 0 := by
  by_cases hk : word = k
  · simp [accounted, redeclared?, ignored?, hk]
  · simp [accounted, redeclared?, ignored?, hk]

namespace Draft

/-- How many declarations of a kind the draft holds. -/
def held (d : Draft) : Keyword → ℕ
  | .layout => d.layout.toList.length
  | .style => d.styles.size
  | .component => d.components.size
  | .container => d.containers.size
  | .relation => d.relations.length
  | .note => d.notes.size

/-- One more statement of the kind `word` is held in `e` than in `d`, or the reports account for
it. -/
def Balanced (d : Draft) (word : Keyword) (es : List Event) (e : Draft) : Prop :=
  ∀ k, e.held k + accounted k es = d.held k + if word = k then 1 else 0

variable {d e : Draft} {opened : List Id} {span : Span}

/-- Nothing but the collection of that kind changes, which grows unless there is a report. -/
lemma balanced_of_accounted {word : Keyword} {es : List Event} (replaced : Bool)
    (hes : ∀ k, accounted k es = if word = k then replaced.toNat else 0)
    (hword : e.held word + replaced.toNat = d.held word + 1)
    (hothers : ∀ k, word ≠ k → e.held k = d.held k) : d.Balanced word es e := by
  intro k
  rw [hes]
  by_cases hk : word = k
  · subst hk
    simpa using hword
  · rw [if_neg hk, if_neg hk, hothers k hk]

lemma balanced_addLayout (d : Draft) (as : List Attribute) :
    d.Balanced .layout (d.addLayout as).events (d.addLayout as).value := by
  apply balanced_of_accounted d.layout.isSome
  · intro k
    rw [addLayout, Logged.events_bind, Logged.events_bind, Logged.events_pure, List.append_nil,
      accounted_append, accounted_reportIf rfl rfl,
      accounted_of_quiet (Logged.quiet_foldlM Layout.quiet_set _ _), Nat.add_zero]
  · cases hl : d.layout with
    | none => simp [held, hl, addLayout, -bind_pure_comp]
    | some l => simp [held, hl, addLayout, -bind_pure_comp]
  · intro k hk
    cases k with
    | layout => contradiction
    | _ => rfl

lemma balanced_addStyle (d : Draft) (name : Id) (as : List Attribute) :
    d.Balanced .style (d.addStyle name as).events (d.addStyle name as).value := by
  apply balanced_of_accounted (d.styles.contains name)
  · intro k
    rw [addStyle, Logged.events_bind, Logged.events_bind, Logged.events_pure, List.append_nil,
      accounted_append, accounted_reportIf rfl rfl,
      accounted_of_quiet (Logged.quiet_foldlM Style.quiet_set _ _), Nat.zero_add]
  · exact OrderedMap.size_insert _ _ _
  · intro k hk
    cases k with
    | style => contradiction
    | _ => rfl

lemma balanced_addNote (d : Draft) (target : Id) (ps : List Property) (span : Span) :
    d.Balanced .note (d.addNote target ps span).events (d.addNote target ps span).value := by
  apply balanced_of_accounted (d.notes.contains target)
  · intro k
    rw [addNote, Logged.events_bind, Logged.events_pure, List.append_nil,
      accounted_reportIf rfl rfl]
  · exact OrderedMap.size_insert _ _ _
  · intro k hk
    cases k with
    | note => contradiction
    | _ => rfl

lemma balanced_addRelation (d : Draft) (r : Relation) :
    d.Balanced .relation [] (d.addRelation r) := by
  apply balanced_of_accounted false
  · simp
  · simp [held, addRelation]
  · intro k hk
    cases k with
    | relation => contradiction
    | _ => rfl

lemma events_atTop (d : Draft) (opened : List Id) (word : Keyword) (span : Span)
    (added : Logged Draft) : (d.atTop opened word span added).events =
      if opened.isEmpty then added.events else [.ignoredStatement word span.start] := by
  rw [atTop]
  split_ifs
  · exact Attempt.events_lift added
  · rfl

/-- Inside a container the statement is left out, with a report. -/
lemma balanced_atTop {word : Keyword} {added : Logged Draft}
    (ha : d.Balanced word added.events added.value)
    (h : (d.atTop opened word span added).outcome = .ok e) :
    d.Balanced word (d.atTop opened word span added).events e := by
  rw [outcome_atTop] at h
  rw [events_atTop]
  obtain rfl := Except.ok.inj h
  cases opened with
  | nil => exact ha
  | cons p opened =>
    intro k
    exact congrArg (d.held k + ·) (accounted_ignoredStatement k word span.start)

/-- An entity that moves takes no container away and adds none. -/
lemma attach_detach_eq_ok {id : Id} {old parent : Option Id}
    (h : (d.detach id old).value.attach opened id span = .ok (e, parent)) :
    ∃ cs : OrderedMap Id Container, cs.keys = d.containers.keys ∧
      e = { d with containers := cs } := by
  have hkeys : (d.regroup id old none).keys = d.containers.keys := keys_regroup d id old none
  rw [value_detach] at h
  cases opened with
  | nil =>
    cases h
    exact ⟨_, hkeys, rfl⟩
  | cons p opened =>
    rw [attach] at h
    cases hp : (d.regroup id old none).get? p with
    | none => simp [hp] at h
    | some c =>
      simp only [hp] at h
      cases h
      exact ⟨_, (OrderedMap.keys_modify _ _ _).trans hkeys, rfl⟩

lemma addComponent_eq_ok {id : Id} {ps : List Property}
    (h : (d.addComponent opened id ps span).outcome = .ok e) :
    ∃ (cs : OrderedMap Id Container) (c : Component), cs.keys = d.containers.keys ∧
      e = { d with containers := cs, components := d.components.insert id c } ∧
      ∀ k, accounted k (d.addComponent opened id ps span).events =
        if .component = k then (d.components.contains id).toNat else 0 := by
  simp only [addComponent, Attempt.outcome_bind, Attempt.outcome_lift, Attempt.outcome_liftExcept,
    Attempt.outcome_pure, Attempt.events_bind, Attempt.events_lift, Attempt.events_liftExcept,
    Attempt.events_pure, Except.bind] at h ⊢
  cases hm : (d.detach id ((d.components.get? id).bind fun c => c.parent)).value.attach opened id
      span with
  | error fault => simp [hm] at h
  | ok r =>
    obtain ⟨moved, parent⟩ := r
    obtain ⟨cs, hkeys, rfl⟩ := attach_detach_eq_ok hm
    rw [hm] at h
    refine ⟨cs, _, hkeys, (Except.ok.inj h).symm, ?_⟩
    intro k
    have hr : (componentRedeclared id).redeclared? = some .component := rfl
    have hq : accounted k (Logged.report (registeredComponent id parent)).events = 0 := rfl
    simp only [accounted_append, accounted_of_quiet (Traits.quiet_ofProperties _ _),
      accounted_of_quiet (quiet_detach _ _ _), accounted_reportIf hr rfl, hq, accounted_nil,
      Nat.zero_add, Nat.add_zero]

lemma addContainer_eq_ok {id : Located Id} {ps : List Property}
    (h : (d.addContainer opened id ps span).outcome = .ok e) :
    ∃ (cs : OrderedMap Id Container) (c : Container), cs.keys = d.containers.keys ∧
      e = { d with containers := cs.insert id.value c } ∧
      ∀ k, accounted k (d.addContainer opened id ps span).events =
        if .container = k then (cs.contains id.value).toNat else 0 := by
  rw [addContainer] at h ⊢
  cases henc : d.enclosing? opened id.value with
  | some outer => simp [henc] at h
  | none =>
    simp only [henc, Attempt.outcome_bind, Attempt.outcome_lift, Attempt.outcome_liftExcept,
      Attempt.outcome_pure, Attempt.events_bind, Attempt.events_lift, Attempt.events_liftExcept,
      Attempt.events_pure, Except.bind] at h ⊢
    cases hm : (d.detach id.value ((d.containers.get? id.value).bind fun c => c.parent)).value.attach
        opened id.value span with
    | error fault => simp [hm] at h
    | ok r =>
      obtain ⟨moved, parent⟩ := r
      obtain ⟨cs, hkeys, rfl⟩ := attach_detach_eq_ok hm
      rw [hm] at h
      refine ⟨cs, _, hkeys, (Except.ok.inj h).symm, ?_⟩
      intro k
      have hr : (containerRedeclared id.value).redeclared? = some .container := rfl
      have hq (i : ℕ) : accounted k (Logged.report (registeredContainer id.value i)).events = 0 :=
        rfl
      have hsome : (d.containers.get? id.value).isSome = cs.contains id.value := by
        rw [Bool.eq_iff_iff, OrderedMap.contains_iff, hkeys, OrderedMap.mem_keys_iff,
          Option.isSome_iff_exists]
      simp only [accounted_append, accounted_of_quiet (Traits.quiet_ofProperties _ _),
        accounted_of_quiet (quiet_detach _ _ _), accounted_reportIf hr rfl, hq, accounted_nil,
        Nat.zero_add, Nat.add_zero, hsome]

lemma balanced_addComponent {id : Id} {ps : List Property}
    (h : (d.addComponent opened id ps span).outcome = .ok e) :
    d.Balanced .component (d.addComponent opened id ps span).events e := by
  obtain ⟨cs, c, hkeys, rfl, hes⟩ := addComponent_eq_ok h
  apply balanced_of_accounted _ hes
  · exact OrderedMap.size_insert _ _ _
  · intro k hk
    cases k with
    | component => contradiction
    | container => exact OrderedMap.size_eq_of_keys hkeys
    | _ => rfl

lemma balanced_addContainer {id : Located Id} {ps : List Property}
    (h : (d.addContainer opened id ps span).outcome = .ok e) :
    d.Balanced .container (d.addContainer opened id ps span).events e := by
  obtain ⟨cs, c, hkeys, rfl, hes⟩ := addContainer_eq_ok h
  apply balanced_of_accounted _ hes
  · have hsize := OrderedMap.size_eq_of_keys hkeys
    exact (OrderedMap.size_insert _ _ _).trans (congrArg (· + 1) hsize)
  · intro k hk
    cases k with
    | container => contradiction
    | _ => rfl

/-- One case for each kind of statement. -/
theorem balanced_place {o : Occurrence} (h : (o.place d).outcome = .ok e) :
    d.Balanced o.statement.keyword (o.place d).events e := by
  obtain ⟨opened, statement⟩ := o
  cases statement with
  | component span id ps =>
    simp only [Occurrence.place, place] at h ⊢
    exact balanced_addComponent h
  | container span id ps body => exact balanced_addContainer h
  | layout span as =>
    simp only [Occurrence.place, place] at h ⊢
    exact balanced_atTop (d.balanced_addLayout as) h
  | style span name as =>
    simp only [Occurrence.place, place] at h ⊢
    exact balanced_atTop (d.balanced_addStyle name.value as) h
  | relation span source target label =>
    simp only [Occurrence.place, place] at h ⊢
    exact balanced_atTop (d.balanced_addRelation _) h
  | note span target ps =>
    simp only [Occurrence.place, place] at h ⊢
    exact balanced_atTop (d.balanced_addNote target.value ps span) h

/-- Over a whole document, the statements of a kind balance against what is held of it and what is
reported. -/
theorem balanced_foldlM_place (k : Keyword) {os : List Occurrence}
    (h : (os.foldlM Occurrence.place d).outcome = .ok e) :
    e.held k + accounted k (os.foldlM Occurrence.place d).events =
      d.held k + os.countP (fun o => o.statement.keyword = k) := by
  induction os generalizing d with
  | nil =>
    obtain rfl : d = e := by simpa using h
    rfl
  | cons o os ih =>
    rw [List.foldlM_cons] at h ⊢
    obtain ⟨d', hd', h⟩ := Attempt.outcome_bind_eq_ok.mp h
    rw [Attempt.events_bind, hd', accounted_append, List.countP_cons]
    have hstep := balanced_place hd' k
    have hrun := ih h
    simp only [decide_eq_true_eq]
    omega

lemma isSome_layout_atTop {word : Keyword} {added : Logged Draft} {s : Statement}
    (ha : added.value.layout.isSome =
      (d.layout.isSome || (Occurrence.layout? ⟨[], s⟩).isSome))
    (h : (d.atTop opened word span added).outcome = .ok e) :
    e.layout.isSome = (d.layout.isSome || (Occurrence.layout? ⟨opened, s⟩).isSome) := by
  rw [outcome_atTop] at h
  obtain rfl := Except.ok.inj h
  cases opened with
  | nil => exact ha
  | cons p opened =>
    rw [(Occurrence.offTop_nested p opened s).layout]
    exact (Bool.or_false _).symm

lemma isSome_layout_place {o : Occurrence} (h : (o.place d).outcome = .ok e) :
    e.layout.isSome = (d.layout.isSome || o.layout?.isSome) := by
  obtain ⟨opened, statement⟩ := o
  cases statement with
  | component span id ps =>
    simp only [Occurrence.place, place] at h
    obtain ⟨cs, c, -, rfl, -⟩ := addComponent_eq_ok h
    rw [(@Occurrence.offTop_of_entityId? .component _ _ rfl).layout]
    exact (Bool.or_false _).symm
  | container span id ps body =>
    obtain ⟨cs, c, -, rfl, -⟩ := addContainer_eq_ok h
    rw [(@Occurrence.offTop_of_entityId? .container _ _ rfl).layout]
    exact (Bool.or_false _).symm
  | layout span as =>
    simp only [Occurrence.place, place] at h
    refine isSome_layout_atTop ?_ h
    exact (Bool.or_true _).symm
  | style span name as =>
    simp only [Occurrence.place, place] at h
    refine isSome_layout_atTop ?_ h
    exact (Bool.or_false _).symm
  | relation span source target label =>
    simp only [Occurrence.place, place] at h
    refine isSome_layout_atTop ?_ h
    exact (Bool.or_false _).symm
  | note span target ps =>
    simp only [Occurrence.place, place] at h
    refine isSome_layout_atTop ?_ h
    exact (Bool.or_false _).symm

/-- A layout is there from the first layout at top level on. -/
theorem isSome_layout_foldlM_place {os : List Occurrence}
    (h : (os.foldlM Occurrence.place d).outcome = .ok e) :
    e.layout.isSome = (d.layout.isSome || os.any fun o => o.layout?.isSome) := by
  induction os generalizing d with
  | nil =>
    obtain rfl : d = e := by simpa using h
    exact (Bool.or_false _).symm
  | cons o os ih =>
    rw [List.foldlM_cons] at h
    obtain ⟨d', hd', h⟩ := Attempt.outcome_bind_eq_ok.mp h
    rw [ih h, isSome_layout_place hd', List.any_cons, Bool.or_assoc]

end Draft

namespace Statement

lemma any_layout?_occurrences (s : Statement) :
    (s.occurrences []).any (fun o => o.layout?.isSome) = decide (s.keyword = .layout) := by
  cases s with
  | container span id ps body =>
    have hbody : (occurrencesAll [id.value] body).any (fun o => o.layout?.isSome) = false := by
      rw [List.any_eq_false]
      intro o ho
      simp [(Occurrence.offTop_of_mem_body ho).layout]
    rw [occurrences, List.any_cons, hbody]
    rfl
  | _ => rfl

theorem any_layout?_occurrencesAll (ss : List Statement) :
    (occurrencesAll [] ss).any (fun o => o.layout?.isSome) =
      ss.any (fun s => s.keyword = .layout) := by
  induction ss with
  | nil => rfl
  | cons s ss ih =>
    rw [occurrencesAll, List.any_append, any_layout?_occurrences, ih, List.any_cons]

end Statement

/-- How many declarations of a kind a diagram of these statements holds. It always has a layout, which
is declared if it is not the default for want of one. -/
def Diagram.declared (d : Diagram) (ss : List Statement) : Keyword → ℕ
  | .layout => min 1 (ss.countP fun s => s.keyword = .layout)
  | .style => d.styles.size
  | .component => d.components.size
  | .container => d.containers.size
  | .relation => d.relations.length
  | .note => d.notes.size

lemma Draft.held_eq_declared {d : Draft} {ss : List Statement}
    (h : (placeAll [] .empty ss).outcome = .ok d) (k : Keyword) :
    d.held k = d.toDiagram.declared ss k := by
  cases k with
  | layout =>
    rw [placeAll_eq_foldlM] at h
    have hsome : d.layout.isSome = ss.any fun s => s.keyword = .layout := by
      rw [isSome_layout_foldlM_place h, Statement.any_layout?_occurrencesAll]
      exact Bool.false_or _
    simp only [held, Diagram.declared]
    cases hl : d.layout with
    | none =>
      rw [hl, Option.isSome_none, eq_comm, List.any_eq_false] at hsome
      rw [List.countP_eq_zero.mpr hsome]
      rfl
    | some l =>
      rw [hl, Option.isSome_some, eq_comm, List.any_eq_true] at hsome
      have hpos := List.countP_pos_iff.mpr hsome
      simp only [Option.toList_some, List.length_singleton]
      omega
  | _ => rfl

namespace Diagram

lemma events_parse {source : String} {ss : List Statement} {d : Draft}
    (hss : (parseStatements (tokenize source)).outcome = .ok ss)
    (hd : (Draft.placeAll [] .empty ss).outcome = .ok d) :
    (parse source).events = [.tokenized (tokenize source).length] ++
      (parseStatements (tokenize source)).events ++ [.building ss.length] ++
      (Draft.placeAll [] .empty ss).events ++
      [.built d.styles.size d.components.size d.containers.size d.relations.length d.notes.size,
        .parsed] := by
  simp [parse, buildDiagram, Attempt.events_bind, Attempt.outcome_bind, hss, hd, Except.bind,
    Except.mapError, -bind_pure_comp]

/-- Only the reports of placing the statements account for some of them. -/
lemma accounted_parse {source : String} {ss : List Statement} {d : Draft}
    (hss : (parseStatements (tokenize source)).outcome = .ok ss)
    (hd : (Draft.placeAll [] .empty ss).outcome = .ok d) (k : Keyword) :
    accounted k (parse source).events = accounted k (Draft.placeAll [] .empty ss).events := by
  have hread := accounted_of_quiet (quiet_parseStatements (tokenize source)) k
  have htokenized : accounted k [.tokenized (tokenize source).length] = 0 := rfl
  have hbuilding : accounted k [.building ss.length] = 0 := rfl
  have hbuilt : accounted k [.built d.styles.size d.components.size d.containers.size
    d.relations.length d.notes.size, .parsed] = 0 := rfl
  rw [events_parse hss hd]
  simp only [accounted_append]
  omega

/-- No statement is lost in silence: as many statements of a kind stand in the source, at any depth,
as the diagram has declarations of it and as there are warnings that such a statement replaces an
earlier one or is left out. -/
theorem parse_accounts {source : String} {d : Diagram} (h : (parse source).outcome = .ok d) :
    ∃ ss, (parseStatements (tokenize source)).outcome = .ok ss ∧
      ∀ k, (Statement.occurrencesAll [] ss).countP (fun o => o.statement.keyword = k) =
        d.declared ss k + (parse source).events.countP (fun e => e.WarnsRedeclared k) +
          (parse source).events.countP (fun e => e.WarnsIgnored k) := by
  obtain ⟨ss, hss, e, he, rfl⟩ := parse_eq_ok_iff.mp h
  refine ⟨ss, hss, ?_⟩
  intro k
  have hparse := accounted_parse hss he k
  have hheld := Draft.held_eq_declared he k
  rw [Draft.placeAll_eq_foldlM] at he hparse
  have hrun := Draft.balanced_foldlM_place k he
  have hempty : Draft.empty.held k = 0 := by cases k <;> rfl
  simp only [warnsRedeclared_iff, warnsIgnored_iff]
  rw [accounted] at hparse
  omega

/-- The warnings that a statement of each kind replaces an earlier one or is left out. -/
def warningCounts (es : List Event) : List (ℕ × ℕ) :=
  Keyword.all.map fun k =>
    (es.countP fun e => e.WarnsRedeclared k, es.countP fun e => e.WarnsIgnored k)

/-- `x` moves, `c` is opened again, and what the container says about layout, style and relation is
left out. -/
def crowdedSource : String :=
  "layout
container c { component x { } layout relation x -> c }
style t
container c { style t icon = i }
layout
style t
component x { }"

theorem accounts_of_crowded : ∃ d, (parse crowdedSource).outcome = .ok d ∧
    warningCounts (parse crowdedSource).events =
      [(1, 1), (1, 1), (1, 0), (1, 0), (0, 1), (0, 0)] ∧
    ∃ ss, (parseStatements (tokenize crowdedSource)).outcome = .ok ss ∧
      ∀ k, (Statement.occurrencesAll [] ss).countP (fun o => o.statement.keyword = k) =
        d.declared ss k + (parse crowdedSource).events.countP (fun e => e.WarnsRedeclared k) +
          (parse crowdedSource).events.countP (fun e => e.WarnsIgnored k) := by
  have hrun : (parse crowdedSource).outcome.toOption.any (fun _ => true) = true ∧
      warningCounts (parse crowdedSource).events =
        [(1, 1), (1, 1), (1, 0), (1, 0), (0, 1), (0, 0)] := by
    decide +kernel
  obtain ⟨d, hd, -⟩ := Attempt.exists_eq_ok hrun.1
  exact ⟨d, hd, hrun.2, parse_accounts hd⟩

end Diagram

end ArchDiagram
