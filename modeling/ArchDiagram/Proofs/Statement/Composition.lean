import ArchDiagram.Proofs.Statement.Completion
import ArchDiagram.Proofs.Statement.Occurrence

/-! Documents one behind the other. Whatever a parser read to the end of its tokens it also reads when
a keyword follows them: attributes, labels and the look ahead of a nested style all end there. So the
statements of the first document stay as they are, and those of the second one follow. -/
namespace ArchDiagram

variable {us : List Token}

namespace Grammar

/-- Tokens that a document can go on with: there are none, or a keyword comes first. -/
def StartsAfresh (us : List Token) : Prop :=
  ∀ t ∈ us.head?, ∃ word, t.kind = .keyword word

lemma keyword?_isSome_iff {t : Token} :
    t.kind.keyword?.isSome = true ↔ ∃ word, t.kind = .keyword word := by
  cases t.kind <;> simp [TokenKind.keyword?]

instance (us : List Token) : Decidable (StartsAfresh us) :=
  decidable_of_iff (∀ t ∈ us.head?, t.kind.keyword?.isSome = true)
    (forall₂_congr fun _ _ => keyword?_isSome_iff)

lemma StartsAfresh.not_attributeAhead (hus : StartsAfresh us) : ¬ AttributeAhead us := by
  rintro ⟨n, e, rest, rfl, hn, -⟩
  obtain ⟨word, hword⟩ := hus n rfl
  simp [IsName, hword] at hn

lemma StartsAfresh.not_colonAhead (hus : StartsAfresh us) : ¬ ColonAhead us := by
  rintro ⟨c, rest, rfl, hc⟩
  obtain ⟨word, hword⟩ := hus c rfl
  simp [hword] at hc

/-- No attribute begins in front of a keyword and ends behind it. -/
lemma attributeAhead_append (hus : StartsAfresh us) {ts : List Token} :
    AttributeAhead (ts ++ us) ↔ AttributeAhead ts := by
  refine ⟨?_, fun ha => ha.append us⟩
  match ts with
  | [] => exact fun ha => absurd ha hus.not_attributeAhead
  | [n] =>
    rintro ⟨_, e, rest, hts, -, he⟩
    obtain ⟨rfl, rfl⟩ := List.cons.inj hts
    obtain ⟨word, hword⟩ := hus e rfl
    simp [hword] at he
  | n :: e :: ts => exact fun ha => attributeAhead_cons_cons.mpr (attributeAhead_cons_cons.mp ha)

lemma colonAhead_append (hus : StartsAfresh us) {ts : List Token} :
    ColonAhead (ts ++ us) ↔ ColonAhead ts := by
  cases ts with
  | nil => simpa using hus.not_colonAhead
  | cons c ts => rw [List.cons_append, colonAhead_cons, colonAhead_cons]

lemma styleAhead_append (hus : StartsAfresh us) (ts : List Token) :
    styleAhead (ts ++ us) = styleAhead ts := by
  rw [Bool.eq_iff_iff]
  cases ts with
  | nil =>
    refine iff_of_false ?_ (by simp [styleAhead])
    intro ha
    cases us with
    | nil => simp [styleAhead] at ha
    | cons k us =>
      obtain ⟨word, hword⟩ := hus k rfl
      have hname := (styleAhead_cons.mp ha).1
      simp [IsName, hword] at hname
  | cons t ts => rw [List.cons_append, styleAhead_cons, styleAhead_cons, attributeAhead_append hus]

/-- A token of a block keeps its role. -/
lemma role_append (hus : StartsAfresh us) (kind : BlockKind) (t : Token) (ts : List Token) :
    kind.role t (ts ++ us) = kind.role t ts := by
  rw [BlockKind.role, BlockKind.role, styleAhead_append hus]

end Grammar

namespace Parser
open Grammar

variable {α β : Type}

/-- What `p` reads it also reads in front of the tokens `us`, which it leaves. -/
def Continues (us : List Token) (p : Parser α) : Prop :=
  ∀ ts a rest, (p ts).value = .done a rest → (p (ts ++ us)).value = .done a (rest ++ us)

lemma continues_pure (a : α) : Continues us (Pure.pure a : Parser α) := by
  intro ts b rest h
  obtain ⟨rfl, rfl⟩ := pure_eq_done_iff.mp h
  exact pure_eq_done_iff.mpr ⟨rfl, rfl⟩

lemma continues_bind {p : Parser α} {f : α → Parser β} (hp : Continues us p)
    (hf : ∀ a, Continues us (f a)) : Continues us (p >>= f) := by
  intro ts b rest h
  obtain ⟨a, mid, ha, hb⟩ := bind_eq_done_iff.mp h
  exact bind_eq_done_iff.mpr ⟨a, mid ++ us, hp _ _ _ ha, hf a _ _ _ hb⟩

lemma continues_next (what : Expectation) (accept : Token → Option α) :
    Continues us (next what accept) := by
  intro ts a rest h
  obtain ⟨t, rfl, ht⟩ := next_eq_done_iff.mp h
  exact next_eq_done_iff.mpr ⟨t, rfl, ht⟩

lemma continues_attributes (hus : StartsAfresh us) : Continues us attributes := by
  intro ts as rest h
  rw [attributes_eq_done_iff] at h ⊢
  induction h with
  | nil behind => exact .nil (mt (attributeAhead_append hus).mp behind)
  | cons name equals value _ ih => exact .cons name equals value ih

lemma continues_relationLabel (hus : StartsAfresh us) : Continues us relationLabel := by
  intro ts label rest h
  obtain ⟨rfl, rfl, hc⟩ | ⟨c, l, rfl, hc, hl, rfl⟩ := relationLabel_eq_done_iff.mp h
  · exact relationLabel_eq_done_iff.mpr (Or.inl ⟨rfl, rfl, mt (colonAhead_append hus).mp hc⟩)
  · exact relationLabel_eq_done_iff.mpr (Or.inr ⟨c, l, rfl, hc, hl, rfl⟩)

/-- Every item of a block keeps its role. -/
theorem continues_items (hus : StartsAfresh us) {kind : BlockKind} {nested : Parser Statement}
    (hn : kind = .container → Continues us nested) : Continues us (items kind nested) := by
  intro ts b rest h
  rw [items_eq_done_iff] at h ⊢
  induction h with
  | close role => exact .close ((role_append hus kind _ _).trans role)
  | skipped role _ ih => exact .skipped ((role_append hus kind _ _).trans role) ih
  | property role value _ ih =>
    exact .property ((role_append hus kind _ (_ :: _)).trans role) value ih
  | @statement t ts s mid _ _ role read le _ ih =>
    have hs := hn (role_eq_statement_iff.mp role).1 _ _ _ read
    exact .statement ((role_append hus kind t ts).trans role) hs (by simpa using le) ih

lemma continues_blockStatement (hus : StartsAfresh us) {kind : BlockKind}
    {nested : Parser Statement} (hn : kind = .container → Continues us nested)
    (make : Located Id → Block → Statement) :
    Continues us (do let id ← identifier; let b ← block kind nested; return make id b) := by
  refine continues_bind (continues_next _ _) fun id => ?_
  refine continues_bind ?_ fun b => continues_pure _
  exact continues_bind (continues_next _ _) fun _ => continues_items hus hn

lemma continues_layout (hus : StartsAfresh us) (start : Span) : Continues us (layout start) :=
  continues_bind (continues_attributes hus) fun _ => continues_pure _

lemma continues_style (hus : StartsAfresh us) (start : Span) : Continues us (style start) := by
  refine continues_bind (continues_next _ _) fun name => ?_
  exact continues_bind (continues_attributes hus) fun _ => continues_pure _

lemma continues_relation (hus : StartsAfresh us) (start : Span) : Continues us (relation start) := by
  refine continues_bind (continues_next _ _) fun source => ?_
  refine continues_bind (continues_next _ _) fun _ => ?_
  refine continues_bind (continues_next _ _) fun target => ?_
  exact continues_bind (continues_relationLabel hus) fun _ => continues_pure _

lemma continues_dispatch (hus : StartsAfresh us) {inner : Option (Parser Statement)}
    (hn : ∀ nested, inner = some nested → Continues us nested) : Continues us (dispatch inner) := by
  intro ts s rest
  cases ts with
  | nil => rintro ⟨⟩
  | cons k ts =>
    simp only [List.cons_append, dispatch]
    cases k.kind with
    | keyword word =>
      cases word with
      | layout => exact continues_layout hus _ _ _ _
      | style => exact continues_style hus _ _ _ _
      | component => exact continues_blockStatement hus (by simp) _ _ _ _
      | container =>
        cases inner with
        | none => rintro ⟨⟩
        | some nested => exact continues_blockStatement hus (fun _ => hn nested rfl) _ _ _ _
      | relation => exact continues_relation hus _ _ _ _
      | note => exact continues_blockStatement hus (by simp) _ _ _ _
    | _ => rintro ⟨⟩

theorem continues_statement (hus : StartsAfresh us) (room : ℕ) : Continues us (statement room) :=
  statement_induction (P := Continues us) (fun _ => continues_dispatch hus) room

/-- Behind the statements of the first tokens come those of the others. -/
theorem SequenceRun.append {one : Parser Statement} (hone : Continues us one) {ts : List Token}
    {ss ss' : List Statement} (h : SequenceRun one ts ss) (h' : SequenceRun one us ss') :
    SequenceRun one (ts ++ us) (ss ++ ss') := by
  induction h with
  | nil => exact h'
  | cons read le _ ih => exact .cons (hone _ _ _ read) (by simpa using le) ih

/-- Behind them comes the fault of the others, too. -/
theorem SequenceRun.append_halt {one : Parser Statement} (hone : Continues us one)
    {ts rest : List Token} {ss : List Statement} {cause : Cause} (h : SequenceRun one ts ss)
    (h' : SequenceHalt one us cause rest) : SequenceHalt one (ts ++ us) cause rest := by
  induction h with
  | nil => exact h'
  | cons read le _ ih => exact .cons (hone _ _ _ read) (by simpa using le) ih

end Parser

namespace SyntaxFault

/-- A fault is located by what is left of the tokens, and at the end by the last of them. -/
lemma locate_append {us : List Token} (hus : us ≠ []) (ts : List Token) (cause : Cause)
    (rest : List Token) : locate (ts ++ us) cause rest = locate us cause rest := by
  cases rest with
  | nil => rw [locate, locate, List.getLast?_append_of_ne_nil _ hus]
  | cons t rest => rfl

end SyntaxFault

/-- Two documents, the second of which starts with a keyword, make up one document: it has the
statements of both, or the fault of the second one. -/
theorem parseStatements_append {ts us : List Token} {ss : List Statement}
    (h : (parseStatements ts).outcome = .ok ss) (hus : Grammar.StartsAfresh us) :
    (parseStatements (ts ++ us)).outcome = (parseStatements us).outcome.map (ss ++ ·) := by
  have hcontinues := Parser.continues_statement hus maxNesting
  have hrun := parseStatements_eq_ok_iff.mp h
  cases hsecond : (parseStatements us).outcome with
  | ok ss' =>
    exact parseStatements_eq_ok_iff.mpr (hrun.append hcontinues (parseStatements_eq_ok_iff.mp hsecond))
  | error fault =>
    obtain ⟨cause, rest, hhalt, rfl⟩ := parseStatements_eq_error_iff.mp hsecond
    have hne : us ≠ [] := by
      rintro rfl
      cases hhalt
    refine parseStatements_eq_error_iff.mpr ⟨cause, rest, hrun.append_halt hcontinues hhalt, ?_⟩
    exact SyntaxFault.locate_append hne ts cause rest

/-- A relation without a label in front of a layout, and in front of a block that is not closed. -/
theorem append_of_unlabelled : ∃ ss ss' fault,
    (parseStatements (tokenize "relation a -> b")).outcome = .ok ss ∧
    (parseStatements (tokenize "layout direction = LR")).outcome = .ok ss' ∧
    (parseStatements (tokenize "component c \x7b")).outcome = .error fault ∧
    fault.diagnostic.code = some .unexpectedEnd ∧
    (parseStatements (tokenize "relation a -> b" ++ tokenize "layout direction = LR")).outcome =
      .ok (ss ++ ss') ∧
    (parseStatements (tokenize "relation a -> b" ++ tokenize "component c \x7b")).outcome =
      .error fault := by
  have hrelation : (parseStatements (tokenize "relation a -> b")).outcome.toOption.any
      (fun ss => ss.length = 1) = true := by decide +kernel
  have hlayout : (parseStatements (tokenize "layout direction = LR")).outcome.toOption.any
      (fun ss => ss.length = 1) = true := by decide +kernel
  obtain ⟨ss, hss, -⟩ := Attempt.exists_eq_ok hrelation
  obtain ⟨ss', hss', -⟩ := Attempt.exists_eq_ok hlayout
  have hfault : (parseStatements (tokenize "component c \x7b")).outcome =
      .error (.endOfInput (.expected .closingBrace) ⟨12, 13⟩) :=
    Attempt.outcome_eq_error (by decide +kernel)
  have hgoes : Grammar.StartsAfresh (tokenize "layout direction = LR") := by decide +kernel
  have hstops : Grammar.StartsAfresh (tokenize "component c \x7b") := by decide +kernel
  refine ⟨ss, ss', _, hss, hss', hfault, rfl, ?_, ?_⟩
  · rw [parseStatements_append hss hgoes, hss']
    rfl
  · rw [parseStatements_append hss hstops, hfault]
    rfl

end ArchDiagram
