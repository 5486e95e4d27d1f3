import ArchDiagram.Proofs.Statement.Occurrence
import ArchDiagram.Proofs.Statement.Reads
import ArchDiagram.Proofs.Token.Order

/-! Statements start at their keywords, and so come in the order of the text: nested ones after the
one around them, and each before its next sibling. -/
namespace ArchDiagram

def tokenStarts (ts : List Token) : List ℕ :=
  ts.map fun t => t.span.start

/-- Where the statements of a list and those nested in them start. -/
def statementStarts (os : List Occurrence) : List ℕ :=
  os.map fun o => o.statement.span.start

namespace Statement

/-- Wherever `ss` stand, they and all that is nested in them start at some of the tokens `used`,
in the order of these tokens. -/
def StartAmong (used : List Token) (ss : List Statement) : Prop :=
  (tokenStarts used).Pairwise (· < ·) →
    ∀ opened, (statementStarts (occurrencesAll opened ss)).Sublist (tokenStarts used)

lemma startAmong_nil (used : List Token) : StartAmong used [] :=
  fun _ _ => List.nil_sublist _

lemma StartAmong.append {used more : List Token} {s : Statement} {ss : List Statement}
    (hs : StartAmong used [s]) (hss : StartAmong more ss) : StartAmong (used ++ more) (s :: ss) := by
  intro hasc opened
  rw [tokenStarts, List.map_append, List.pairwise_append] at hasc
  have h := (hs hasc.1 opened).append (hss hasc.2.1 opened)
  simpa [occurrencesAll, statementStarts, tokenStarts] using h

lemma StartAmong.cons {used : List Token} {ss : List Statement} (t : Token)
    (h : StartAmong used ss) : StartAmong (t :: used) ss := by
  intro hasc opened
  exact (h hasc.of_cons opened).cons _

/-- The statements directly inside a statement. -/
def body : Statement → List Statement
  | .container _ _ _ body => body
  | _ => []

/-- A statement comes before what is nested in it. -/
lemma occurrences_eq (opened : List Id) (s : Statement) :
    ∃ inner, s.occurrences opened = ⟨opened, s⟩ :: occurrencesAll inner s.body := by
  cases s with
  | container span id ps body => exact ⟨id.value :: opened, by rw [occurrences]; rfl⟩
  | _ => exact ⟨opened, by simp [occurrences, body, occurrencesAll]⟩

lemma statementStarts_occurrences (opened : List Id) (s : Statement) :
    ∃ inner, statementStarts (s.occurrences opened) =
      s.span.start :: statementStarts (occurrencesAll inner s.body) := by
  obtain ⟨inner, h⟩ := occurrences_eq opened s
  exact ⟨inner, by rw [h]; rfl⟩

/-- What comes after the keyword at `start`: the statement ends at one of the tokens, or else at its
keyword, and its body is among the tokens. -/
def FollowsKeyword (start : Span) (used : List Token) (s : Statement) : Prop :=
  (∃ stop, s.span = start.union stop ∧ (stop = start ∨ ∃ t ∈ used, stop = t.span)) ∧
    StartAmong used s.body

lemma FollowsKeyword.startAmong {t : Token} {used : List Token} {s : Statement}
    (h : FollowsKeyword t.span used s) : StartAmong (t :: used) [s] := by
  obtain ⟨⟨stop, hspan, hstop⟩, hbody⟩ := h
  intro hasc opened
  obtain ⟨inner, hinner⟩ := statementStarts_occurrences opened s
  obtain ⟨hfirst, hasc⟩ := List.pairwise_cons.mp hasc
  have hstart : s.span.start = t.span.start := by
    rw [hspan, Span.start_union]
    obtain rfl | ⟨u, hu, rfl⟩ := hstop
    · exact Nat.min_self _
    · have hlt : t.span.start < u.span.start := hfirst _ (List.mem_map_of_mem hu)
      omega
  rw [occurrencesAll, occurrencesAll, List.append_nil, hinner, hstart]
  exact (hbody hasc inner).cons_cons _

end Statement

namespace Parser
open Statement

/-- A block ends with a token that was read, and its statements start among those tokens. -/
lemma reads_items {kind : BlockKind} {nested : Parser Statement}
    (hn : Reads nested fun used s => StartAmong used [s]) :
    Reads (items kind nested) fun used b =>
      (∃ t ∈ used, b.close = t.span) ∧ StartAmong used b.body := by
  intro ts b rest h
  rw [items_eq_done_iff] at h
  induction h with
  | @close t _ _ => exact ⟨[t], rfl, ⟨t, by simp, rfl⟩, startAmong_nil _⟩
  | @skipped t _ _ _ _ _ ih =>
    obtain ⟨used, rfl, ⟨u, hu, hclose⟩, hbody⟩ := ih
    exact ⟨t :: used, rfl, ⟨u, by simp [hu], hclose⟩, hbody.cons t⟩
  | @property t v _ _ _ _ _ _ _ ih =>
    obtain ⟨used, rfl, ⟨u, hu, hclose⟩, hbody⟩ := ih
    exact ⟨t :: v :: used, rfl, ⟨u, by simp [hu], hclose⟩, (hbody.cons v).cons t⟩
  | statement _ read _ _ ih =>
    obtain ⟨first, hfirst, hs⟩ := hn _ _ _ read
    obtain ⟨used, rfl, ⟨u, hu, hclose⟩, hbody⟩ := ih
    refine ⟨first ++ used, by rw [hfirst, List.append_assoc], ⟨u, by simp [hu], hclose⟩, ?_⟩
    exact hs.append hbody

lemma reads_block {kind : BlockKind} {nested : Parser Statement}
    (hn : Reads nested fun used s => StartAmong used [s]) :
    Reads (block kind nested) fun used b =>
      (∃ t ∈ used, b.close = t.span) ∧ StartAmong used b.body := by
  refine reads_bind (reads_punctuation _ _) ?_
  rintro _ _ ⟨u, rfl, -, rfl⟩
  refine (reads_items hn).mono ?_
  rintro used b ⟨⟨t, ht, hclose⟩, hbody⟩
  exact ⟨⟨t, by simp [ht], hclose⟩, hbody.cons u⟩

/-- The statements with a block: `make` builds one from its id and its block. -/
lemma reads_blockStatement {kind : BlockKind} {nested : Parser Statement} {start : Span}
    (hn : Reads nested fun used s => StartAmong used [s]) (make : Located Id → Block → Statement)
    (hspan : ∀ id b, (make id b).span = start.union b.close)
    (hbody : ∀ used id b, StartAmong used b.body → StartAmong used (make id b).body) :
    Reads (do let id ← identifier; let b ← block kind nested; return make id b)
      (FollowsKeyword start) := by
  refine reads_bind reads_identifier ?_
  rintro _ id ⟨u, rfl, -⟩
  refine reads_bind (reads_block hn) ?_
  rintro used b ⟨⟨t, ht, hclose⟩, hb⟩
  refine reads_pure ⟨⟨b.close, hspan id b, Or.inr ⟨t, by simp [ht], hclose⟩⟩, ?_⟩
  rw [List.append_nil]
  exact (hbody used id b hb).cons u

lemma lastValue_eq {used : List Token} {as : List Attribute} (start : Span)
    (h : ∀ a ∈ as, ∃ t ∈ used, a.value = t.located) :
    lastValue start as = start ∨ ∃ t ∈ used, lastValue start as = t.span := by
  rw [lastValue]
  cases ha : as.getLast? with
  | none => exact Or.inl rfl
  | some a =>
    obtain ⟨t, ht, hat⟩ := h a (List.mem_of_getLast? ha)
    refine Or.inr ⟨t, ht, ?_⟩
    simp [hat, Token.located]

lemma reads_layout (start : Span) : Reads (layout start) (FollowsKeyword start) := by
  refine reads_bind reads_attributes ?_
  intro used as has
  refine reads_pure ⟨⟨_, rfl, ?_⟩, startAmong_nil _⟩
  rw [List.append_nil]
  exact lastValue_eq start has

lemma reads_style (start : Span) : Reads (style start) (FollowsKeyword start) := by
  refine reads_bind reads_identifier ?_
  rintro _ name ⟨u, rfl, -, rfl⟩
  refine reads_bind reads_attributes ?_
  intro used as has
  refine reads_pure ⟨⟨_, rfl, Or.inr ?_⟩, startAmong_nil _⟩
  obtain h | ⟨t, ht, h⟩ := lastValue_eq u.located.span has
  · exact ⟨u, by simp, h⟩
  · exact ⟨t, by simp [ht], h⟩

lemma reads_relation (start : Span) : Reads (relation start) (FollowsKeyword start) := by
  refine reads_bind reads_identifier ?_
  rintro _ source ⟨u, rfl, -⟩
  refine reads_bind (reads_punctuation _ _) ?_
  rintro _ _ ⟨v, rfl, -⟩
  refine reads_bind reads_identifier ?_
  rintro _ target ⟨w, rfl, -, rfl⟩
  refine reads_bind reads_relationLabel ?_
  intro used label hlabel
  refine reads_pure ⟨⟨_, rfl, Or.inr ?_⟩, startAmong_nil _⟩
  cases label with
  | none => exact ⟨w, by simp, rfl⟩
  | some x =>
    obtain ⟨t, ht, rfl⟩ := hlabel x rfl
    exact ⟨t, by simp [ht], rfl⟩

lemma reads_dispatch {inner : Option (Parser Statement)}
    (hn : ∀ nested, inner = some nested → Reads nested fun used s => StartAmong used [s]) :
    Reads (dispatch inner) fun used s => StartAmong used [s] := by
  have hkey : ∀ {t : Token} {p : Parser Statement}, Reads p (FollowsKeyword t.span) →
      ∀ ts s rest, (p ts).value = .done s rest →
        ∃ used, t :: ts = used ++ rest ∧ StartAmong used [s] := by
    intro t p hp ts s rest h
    obtain ⟨used, rfl, hs⟩ := hp ts s rest h
    exact ⟨t :: used, rfl, hs.startAmong⟩
  intro ts s rest
  cases ts with
  | nil => rintro ⟨⟩
  | cons t ts =>
    simp only [dispatch]
    cases t.kind with
    | keyword word =>
      cases word with
      | layout => exact hkey (reads_layout _) ts s rest
      | style => exact hkey (reads_style _) ts s rest
      | component =>
        refine hkey ?_ ts s rest
        exact reads_blockStatement reads_fail (fun id b => .component (t.span.union b.close) id
          b.properties) (fun _ _ => rfl) (fun used _ _ _ => startAmong_nil used)
      | container =>
        cases inner with
        | none => rintro ⟨⟩
        | some nested =>
          refine hkey ?_ ts s rest
          exact reads_blockStatement (hn nested rfl) (fun id b => .container (t.span.union b.close)
            id b.properties b.body) (fun _ _ => rfl) (fun _ _ _ hb => hb)
      | relation => exact hkey (reads_relation _) ts s rest
      | note =>
        refine hkey ?_ ts s rest
        exact reads_blockStatement reads_fail (fun id b => .note (t.span.union b.close) id
          b.properties) (fun _ _ => rfl) (fun used _ _ _ => startAmong_nil used)
    | _ => rintro ⟨⟩

theorem reads_statement (room : ℕ) :
    Reads (statement room) fun used s => StartAmong used [s] :=
  statement_induction (P := fun p => Reads p fun used s => StartAmong used [s])
    (fun _ => reads_dispatch) room

theorem SequenceRun.startAmong {one : Parser Statement}
    (h : Reads one fun used s => StartAmong used [s]) {ts : List Token} {ss : List Statement}
    (hrun : SequenceRun one ts ss) : StartAmong ts ss := by
  induction hrun with
  | nil => exact startAmong_nil _
  | cons read _ _ ih =>
    obtain ⟨used, hused, hs⟩ := h _ _ _ read
    rw [hused]
    exact hs.append ih

end Parser

/-- The statements of a source, nested ones included, start one after the other. -/
theorem parseStatements_starts {source : String} {ss : List Statement}
    (h : (parseStatements (tokenize source)).outcome = .ok ss) :
    (statementStarts (Statement.occurrencesAll [] ss)).Pairwise (· < ·) := by
  have hasc : (tokenStarts (tokenize source)).Pairwise (· < ·) :=
    List.pairwise_map.mpr (tokenize_between source).starts_lt
  have hrun := parseStatements_eq_ok_iff.mp h
  exact hasc.sublist (hrun.startAmong (Parser.reads_statement maxNesting) hasc [])

end ArchDiagram
