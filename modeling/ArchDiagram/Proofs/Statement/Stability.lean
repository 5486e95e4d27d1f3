import ArchDiagram.Proofs.Statement.Completion
import ArchDiagram.Proofs.Statement.Occurrence

/-! Faults are final: what comes behind the token where the parser stopped would not have changed
that. The parser looks ahead, but it settles what it saw before it gets to the token that it refuses;
only an unknown statement may have been about to be an attribute, and then one more token decides. -/
namespace ArchDiagram

namespace Grammar

variable {used : List Token} {t : Token} {more more' : List Token}

/-- Two tokens decide whether an attribute is ahead. -/
lemma AttributeAhead.replace (h : used = [] → IsName t → more'.head? = more.head?)
    (ha : AttributeAhead (used ++ t :: more')) : AttributeAhead (used ++ t :: more) := by
  match used with
  | [] =>
    obtain ⟨n, e, rest, hts, hn, he⟩ := ha
    obtain ⟨rfl, rfl⟩ := List.cons.inj hts
    have hhead := h rfl hn
    cases more with
    | nil => simp at hhead
    | cons u more =>
      obtain rfl : e = u := by simpa using hhead
      exact attributeAhead_cons_cons.mpr ⟨hn, he⟩
  | [u] => exact attributeAhead_cons_cons.mpr (attributeAhead_cons_cons.mp ha)
  | u :: v :: used => exact attributeAhead_cons_cons.mpr (attributeAhead_cons_cons.mp ha)

lemma ColonAhead.replace (hc : ColonAhead (used ++ t :: more')) : ColonAhead (used ++ t :: more) := by
  cases used with
  | nil => exact colonAhead_cons.mpr (colonAhead_cons.mp hc)
  | cons u used => exact colonAhead_cons.mpr (colonAhead_cons.mp hc)

lemma EndsBefore.replace {s : Phrase} (hs : EndsBefore (used ++ t :: more) s)
    (h : used = [] → IsName t → more'.head? = more.head?) : EndsBefore (used ++ t :: more') s :=
  hs.mono (AttributeAhead.replace h) ColonAhead.replace

lemma IsName.ne_keyword (h : IsName t) (word : Keyword) : t.kind ≠ .keyword word := by
  obtain h | h := h <;> simp [h]

end Grammar

namespace Parser
open Grammar

variable {α β : Type}

/-- If `p` stops at one of the tokens `ts`, it stops there with any other tokens behind that one. -/
def FirmOn (p : Parser α) (ts : List Token) : Prop :=
  ∀ cause t more, (p ts).value = .stop cause (t :: more) → ∃ used, ts = used ++ t :: more ∧
    ∀ more', (p (used ++ t :: more')).value = .stop cause (t :: more')

def Firm (p : Parser α) : Prop :=
  ∀ ts, FirmOn p ts

/-- What `p` reads does not depend on what comes behind it. -/
def Blind (p : Parser α) : Prop :=
  ∀ ts a rest, (p ts).value = .done a rest → ∃ used, ts = used ++ rest ∧
    ∀ rest', (p (used ++ rest')).value = .done a rest'

lemma firm_bind {p : Parser α} {f : α → Parser β} (hp : Firm p) (hb : Blind p)
    (hf : ∀ a, Firm (f a)) : Firm (p >>= f) := by
  intro ts cause t more h
  obtain hstop | ⟨a, mid, ha, hstop⟩ := bind_eq_stop_iff.mp h
  · obtain ⟨used, rfl, hused⟩ := hp _ _ _ _ hstop
    exact ⟨used, rfl, fun more' => bind_eq_stop_iff.mpr (Or.inl (hused more'))⟩
  · obtain ⟨first, rfl, hfirst⟩ := hb _ _ _ ha
    obtain ⟨used, rfl, hused⟩ := hf a _ _ _ _ hstop
    refine ⟨first ++ used, (List.append_assoc ..).symm, ?_⟩
    intro more'
    rw [List.append_assoc]
    exact bind_eq_stop_iff.mpr (Or.inr ⟨a, _, hfirst _, hused more'⟩)

lemma firm_next (what : Expectation) (accept : Token → Option α) : Firm (next what accept) := by
  intro ts cause t more h
  obtain ⟨rfl, rfl, hnone⟩ := next_eq_stop_iff.mp h
  refine ⟨[], rfl, ?_⟩
  intro more'
  refine next_eq_stop_iff.mpr ⟨rfl, rfl, ?_⟩
  rintro u us ⟨⟩
  exact hnone t more rfl

lemma blind_next (what : Expectation) (accept : Token → Option α) : Blind (next what accept) := by
  intro ts a rest h
  obtain ⟨t, rfl, ha⟩ := next_eq_done_iff.mp h
  exact ⟨[t], rfl, fun _ => next_eq_done_iff.mpr ⟨t, rfl, ha⟩⟩

lemma firm_relationLabel : Firm relationLabel := by
  intro ts cause t more h
  cases ts with
  | nil => cases h
  | cons c ts =>
    rw [relationLabel] at h
    split_ifs at h with hc
    obtain ⟨used, rfl, hused⟩ := firm_next _ _ _ _ _ _ h
    refine ⟨c :: used, rfl, ?_⟩
    intro more'
    rw [List.cons_append, relationLabel, if_pos hc]
    exact hused more'

/-- Attributes stop behind `name =` at the earliest, whatever comes behind the next token. -/
lemma AttributesHalt.replace {ts rest : List Token} (h : AttributesHalt ts rest) :
    ∃ n e used, ts = n :: e :: (used ++ rest) ∧ ∀ t more, rest = t :: more →
      ∀ more', AttributesHalt (n :: e :: (used ++ t :: more')) (t :: more') := by
  induction h with
  | @value n e rest name equals missing =>
    refine ⟨n, e, [], rfl, ?_⟩
    rintro t more rfl more'
    exact .value name equals missing
  | @cons n e v _ _ name equals value _ ih =>
    obtain ⟨n', e', used, rfl, hused⟩ := ih
    exact ⟨n, e, v :: n' :: e' :: used, rfl,
      fun t more h more' => .cons name equals value (hused t more h more')⟩

lemma firm_attributes : Firm attributes := by
  intro ts cause t more h
  obtain ⟨rfl, hhalt⟩ := attributes_eq_stop_iff.mp h
  obtain ⟨n, e, used, rfl, hused⟩ := hhalt.replace
  exact ⟨n :: e :: used, rfl,
    fun more' => attributes_eq_stop_iff.mpr ⟨rfl, hused t more rfl more'⟩⟩

/-- Nothing stops behind the last part of a statement. -/
lemma firm_return {p : Parser α} (hp : Firm p) (f : α → β) :
    Firm (do let a ← p; return f a) := by
  intro ts cause t more h
  obtain hstop | ⟨a, mid, -, ⟨⟩⟩ := bind_eq_stop_iff.mp h
  obtain ⟨used, rfl, hused⟩ := hp _ _ _ _ hstop
  exact ⟨used, rfl, fun more' => bind_eq_stop_iff.mpr (Or.inl (hused more'))⟩

lemma firm_identifier_bind {f : Located Id → Parser β} (hf : ∀ x, Firm (f x)) :
    Firm (identifier >>= f) :=
  firm_bind (firm_next _ _) (blind_next _ _) hf

lemma firm_punctuation_bind {kind : TokenKind} {what : Expectation} {f : Span → Parser β}
    (hf : ∀ x, Firm (f x)) : Firm (punctuation kind what >>= f) :=
  firm_bind (firm_next _ _) (blind_next _ _) hf

lemma firm_layout (start : Span) : Firm (layout start) :=
  firm_return firm_attributes _

lemma firm_style (start : Span) : Firm (style start) :=
  firm_identifier_bind fun _ => firm_return firm_attributes _

lemma firm_relation (start : Span) : Firm (relation start) :=
  firm_identifier_bind fun _ => firm_punctuation_bind fun _ => firm_identifier_bind fun _ =>
    firm_return firm_relationLabel _

/-- A style statement that has attributes has read one of their names when it stops. -/
lemma style_stop_ahead {start : Span} {ts : List Token} {cause : Cause} {t : Token}
    {more : List Token} (ha : styleAhead ts = true)
    (h : (style start ts).value = .stop cause (t :: more)) :
    ∃ n a e used, ts = n :: a :: e :: (used ++ t :: more) := by
  obtain hstop | ⟨name, mid, hn, hstop⟩ := bind_eq_stop_iff.mp h
  · obtain ⟨-, rfl, hname⟩ := identifier_stop hstop
    exact absurd (styleAhead_cons.mp ha).1 (hname t more rfl)
  · obtain ⟨n, rfl, -⟩ := identifier_eq_done_iff.mp hn
    obtain hstop | ⟨as, mid, -, ⟨⟩⟩ := bind_eq_stop_iff.mp hstop
    obtain ⟨a, e, used, rfl, -⟩ := (attributes_eq_stop_iff.mp hstop).2.replace
    exact ⟨n, a, e, used, rfl⟩

/-- In a container a statement stays one when the tokens behind the one where it stops change. -/
lemma role_statement_replace {room : ℕ} {k : Token} {ts : List Token} {cause : Cause}
    {used : List Token} {t : Token} {more : List Token}
    (hrole : BlockKind.container.role k ts = .statement)
    (h : (statement room (k :: ts)).value = .stop cause (t :: more))
    (hused : k :: ts = used ++ t :: more) (more' : List Token) :
    ∃ us, used ++ t :: more' = k :: us ∧ BlockKind.container.role k us = .statement := by
  obtain ⟨-, word, hk, hstyle⟩ := role_eq_statement_iff.mp hrole
  by_cases hword : word = .style
  · subst hword
    have hahead := hstyle rfl
    rw [statement_keyword hk] at h
    obtain ⟨n, a, e, front, rfl⟩ := style_stop_ahead hahead h
    obtain rfl : used = k :: n :: a :: e :: front :=
      List.append_cancel_right (hused.symm.trans rfl)
    refine ⟨n :: a :: e :: (front ++ t :: more'), rfl, ?_⟩
    refine role_eq_statement_iff.mpr ⟨rfl, .style, hk, fun _ => ?_⟩
    rw [styleAhead_cons, attributeAhead_cons_cons] at hahead ⊢
    exact hahead
  · have hfirst : ∃ us, used ++ t :: more' = k :: us := by
      cases used with
      | nil =>
        obtain ⟨rfl, -⟩ := List.cons.inj hused
        exact ⟨more', rfl⟩
      | cons u used =>
        obtain ⟨rfl, -⟩ := List.cons.inj hused
        exact ⟨used ++ t :: more', rfl⟩
    obtain ⟨us, hus⟩ := hfirst
    exact ⟨us, hus, role_eq_statement_iff.mpr ⟨rfl, word, hk, fun h => absurd h hword⟩⟩

/-- Whatever comes behind `t`, the items in front of it are read and the block stops there. If it stops
at once then not at a name, which could begin an attribute. -/
def HaltsFirmly (kind : BlockKind) (nested : Parser Statement) (ts : List Token) (cause : Cause)
    (t : Token) (more : List Token) : Prop :=
  ∃ used, ts = used ++ t :: more ∧ (used = [] → ¬ IsName t) ∧
    ∀ more', ItemsHalt kind nested (used ++ t :: more') cause (t :: more')

namespace HaltsFirmly

variable {kind : BlockKind} {nested : Parser Statement} {ts more : List Token} {cause : Cause}
  {k t v : Token} {field : Field} {room depth : ℕ}

lemma refused (hrole : kind.role t more = .refused) :
    HaltsFirmly kind nested (t :: more) (.expected .propertyOrClosingBrace) t more := by
  obtain ⟨hk, word, ht, hopens⟩ := role_eq_refused_iff.mp hrole
  refine ⟨[], rfl, fun _ hname => hname.ne_keyword word ht, ?_⟩
  exact fun more' => .refused (role_eq_refused_iff.mpr ⟨hk, word, ht, hopens⟩)

/-- A token that is no value of a property is no name, if that is a style. -/
lemma value (hrole : kind.role k (t :: more) = .property field) (ht : ¬ field.accepts t = true) :
    HaltsFirmly kind nested (k :: t :: more) (.expected field.expectation) t more := by
  refine ⟨[k], rfl, by simp, ?_⟩
  intro more'
  refine .value ?_ (by rintro _ ⟨⟩; exact ht)
  obtain ⟨hf, hnames, -⟩ := role_eq_property_iff.mp hrole
  refine role_eq_property_iff.mpr ⟨hf, hnames, ?_⟩
  intro _ hstyle
  obtain rfl : field = .style := by simpa [Names, hstyle] using hnames
  rw [Bool.eq_false_iff]
  intro hahead
  exact ht (isName_iff.mpr (styleAhead_cons.mp hahead).1)

lemma skipped (h : HaltsFirmly kind nested ts cause t more) (hrole : kind.role k ts = .skipped) :
    HaltsFirmly kind nested (k :: ts) cause t more := by
  obtain ⟨used, rfl, -, hused⟩ := h
  refine ⟨k :: used, rfl, by simp, ?_⟩
  exact fun more' => .skipped (role_eq_skipped_iff.mpr (role_eq_skipped_iff.mp hrole)) (hused more')

lemma property (h : HaltsFirmly kind nested ts cause t more)
    (hrole : kind.role k (v :: ts) = .property field) (hv : field.accepts v = true) :
    HaltsFirmly kind nested (k :: v :: ts) cause t more := by
  obtain ⟨used, rfl, hname, hused⟩ := h
  refine ⟨k :: v :: used, rfl, by simp, ?_⟩
  intro more'
  refine .property ?_ hv (hused more')
  obtain ⟨hf, hnames, -⟩ := role_eq_property_iff.mp hrole
  refine role_eq_property_iff.mpr ⟨hf, hnames, ?_⟩
  intro hk hstyle
  rw [Bool.eq_false_iff]
  intro hahead
  refine not_attributeAhead_of_role hrole hk hstyle (accepts_iff.mp hv) ?_
  exact (styleAhead_cons.mp hahead).2.replace fun he ht => absurd ht (hname he)

/-- A statement that stops was already known to be one. -/
lemma inside (hfirm : Firm (statement room)) (hrole : BlockKind.container.role k ts = .statement)
    (h : (statement room (k :: ts)).value = .stop cause (t :: more)) :
    HaltsFirmly .container (statement room) (k :: ts) cause t more := by
  obtain ⟨used, hts, hused⟩ := hfirm _ _ _ _ h
  refine ⟨used, hts, ?_, ?_⟩
  · rintro rfl hname
    obtain ⟨-, word, hk, -⟩ := role_eq_statement_iff.mp hrole
    obtain ⟨rfl, -⟩ := List.cons.inj hts
    exact hname.ne_keyword word hk
  · intro more'
    obtain ⟨us, hus, hrole'⟩ := role_statement_replace hrole h hts more'
    have hstop := hused more'
    rw [hus] at hstop ⊢
    exact .inside hrole' hstop

/-- A statement that was read is read again, because it ends before all that could come next. -/
lemma behind {s : Statement} {mid : List Token}
    (h : HaltsFirmly .container (statement room) mid cause t more) (hroom : depth + room = maxNesting)
    (hrole : BlockKind.container.role k ts = .statement)
    (hread : (statement room (k :: ts)).value = .done s mid) :
    HaltsFirmly .container (statement room) (k :: ts) cause t more := by
  obtain ⟨used, rfl, hname, hused⟩ := h
  obtain ⟨-, word, hk, -⟩ := role_eq_statement_iff.mp hrole
  obtain ⟨first, hfirst, hs, hends⟩ := obeys_statement hroom _ _ _ hread
  have hne := ne_style_of_role hrole hfirst hs hends
  obtain ⟨k, us, -, rfl, -⟩ := hs.exists_keyword
  obtain ⟨rfl, rfl⟩ := List.cons.inj hfirst
  refine ⟨k :: us ++ used, by simp, by simp, ?_⟩
  intro more'
  obtain ⟨s', hs', -⟩ := hs.read room hroom (used ++ t :: more')
    (hends.replace fun he ht => absurd ht (hname he))
  rw [List.append_assoc]
  refine .statement (role_eq_statement_iff.mpr ⟨rfl, word, hk, ?_⟩) hs' (by simp) (hused more')
  rintro rfl
  exact styleAhead_of_written hs hk hne _

end HaltsFirmly

/-- By induction along the items: one that was read keeps its role, because what it looked ahead to
comes before the token where a later one stops. -/
theorem ItemsHalt.firm {kind : BlockKind} {nested : Parser Statement}
    (hn : kind = .container → ∃ depth room, depth + room = maxNesting ∧
      nested = Parser.statement room ∧ Firm nested) {ts rest : List Token} {cause : Cause}
    (h : ItemsHalt kind nested ts cause rest) {t : Token} {more : List Token}
    (hrest : rest = t :: more) : HaltsFirmly kind nested ts cause t more := by
  induction h with
  | ended => cases hrest
  | refused role =>
    obtain ⟨rfl, rfl⟩ := List.cons.inj hrest
    exact .refused role
  | value role missing =>
    subst hrest
    exact .value role (missing t rfl)
  | inside role stopped =>
    subst hrest
    obtain ⟨rfl, -⟩ := role_eq_statement_iff.mp role
    obtain ⟨depth, room, -, rfl, hfirm⟩ := hn rfl
    exact .inside hfirm role stopped
  | endless role read lt =>
    obtain ⟨rfl, -⟩ := role_eq_statement_iff.mp role
    obtain ⟨depth, room, hroom, rfl, -⟩ := hn rfl
    obtain ⟨first, hfirst, hs, -⟩ := obeys_statement hroom _ _ _ read
    exact absurd (hs.length_le hfirst) (Nat.not_le_of_lt lt)
  | skipped role _ ih => exact (ih hrest).skipped role
  | property role value _ ih => exact (ih hrest).property role value
  | statement role read _ _ ih =>
    obtain ⟨rfl, -⟩ := role_eq_statement_iff.mp role
    obtain ⟨depth, room, hroom, rfl, -⟩ := hn rfl
    exact (ih hrest).behind hroom role read

lemma firm_blockStatement {kind : BlockKind} {nested : Parser Statement}
    (hn : kind = .container → ∃ depth room, depth + room = maxNesting ∧
      nested = statement room ∧ Firm nested) (make : Located Id → Block → Statement) :
    Firm (do let id ← identifier; let b ← block kind nested; return make id b) := by
  refine firm_identifier_bind fun id => firm_return (firm_punctuation_bind fun _ => ?_) (make id)
  intro ts cause t more h
  obtain ⟨used, rfl, -, hused⟩ := (items_eq_stop_iff.mp h).firm hn rfl
  exact ⟨used, rfl, fun more' => items_eq_stop_iff.mpr (hused more')⟩

/-- Only keywords begin a statement. -/
lemma statement_of_ne_keyword {room : ℕ} {k : Token} (hk : ∀ word, k.kind ≠ .keyword word)
    (ts : List Token) : (statement room (k :: ts)).value = .stop .unknownStatement (k :: ts) := by
  have hdispatch : ∀ inner, (dispatch inner (k :: ts)).value = .stop .unknownStatement (k :: ts) := by
    intro inner
    simp only [dispatch]
    cases hkind : k.kind with
    | keyword word => exact absurd hkind (hk word)
    | _ => rfl
  cases room with
  | zero => exact hdispatch none
  | succ room => exact hdispatch (some (statement room))

/-- Behind its keyword a statement is as firm as the parser of that keyword. -/
lemma Firm.behind_keyword {p : Parser Statement} (hp : Firm p) {room : ℕ} {k : Token}
    (hk : ∀ ts, (statement room (k :: ts)).value = (p ts).value) (ts : List Token) :
    FirmOn (statement room) (k :: ts) := by
  intro cause t more h
  rw [hk] at h
  obtain ⟨used, rfl, hused⟩ := hp _ _ _ _ h
  exact ⟨k :: used, rfl, fun more' => (hk _).trans (hused more')⟩

/-- All statements are firm if containers are. -/
lemma firm_statement_of_container {room : ℕ}
    (hc : ∀ k ts, k.kind = .keyword .container → FirmOn (statement room) (k :: ts)) :
    Firm (statement room) := by
  intro ts
  cases ts with
  | nil =>
    intro cause t more h
    cases room <;> cases h
  | cons k ts =>
    by_cases hk : ∃ word, k.kind = .keyword word
    · obtain ⟨word, hk⟩ := hk
      have hread := fun ts => @statement_keyword room k ts word hk
      cases word with
      | layout => exact (firm_layout _).behind_keyword hread ts
      | style => exact (firm_style _).behind_keyword hread ts
      | relation => exact (firm_relation _).behind_keyword hread ts
      | component => exact (firm_blockStatement (by simp) _).behind_keyword hread ts
      | note => exact (firm_blockStatement (by simp) _).behind_keyword hread ts
      | container => exact hc k ts hk
    · rw [not_exists] at hk
      intro cause t more h
      rw [statement_of_ne_keyword hk] at h
      obtain ⟨rfl, hk'⟩ := Outcome.stop.inj h
      obtain ⟨rfl, rfl⟩ := List.cons.inj hk'
      exact ⟨[], rfl, statement_of_ne_keyword hk⟩

theorem firm_statement {room depth : ℕ} (hroom : depth + room = maxNesting) :
    Firm (statement room) := by
  induction room generalizing depth with
  | zero =>
    refine firm_statement_of_container ?_
    intro k ts hk cause t more h
    have hdeep := fun ts => @statement_keyword 0 k ts .container hk
    rw [hdeep] at h
    obtain ⟨rfl, hk'⟩ := Outcome.stop.inj h
    obtain ⟨rfl, rfl⟩ := List.cons.inj hk'
    exact ⟨[], rfl, hdeep⟩
  | succ room ih =>
    refine firm_statement_of_container ?_
    intro k ts hk
    refine (firm_blockStatement ?_ _).behind_keyword (fun ts => statement_keyword hk) ts
    have hinner : depth + 1 + room = maxNesting := by omega
    exact fun _ => ⟨depth + 1, room, hinner, rfl, ih hinner⟩

/-- The statements in front of a fault are read whatever follows it; but behind the last of them a
name is unknown only as long as no `=` follows. -/
theorem SequenceHalt.firm {ts rest : List Token} {cause : Cause}
    (h : SequenceHalt (statement maxNesting) ts cause rest) {t : Token} {more : List Token}
    (hrest : rest = t :: more) :
    ∃ used, ts = used ++ t :: more ∧ (used = [] → IsName t → cause = .unknownStatement) ∧
      ∀ more', (cause = .unknownStatement → IsName t → more'.head? = more.head?) →
        SequenceHalt (statement maxNesting) (used ++ t :: more') cause (t :: more') := by
  induction h with
  | @here k ts cause rest stopped =>
    subst hrest
    obtain ⟨used, hts, hused⟩ := firm_statement (Nat.zero_add _) _ _ _ _ stopped
    refine ⟨used, hts, ?_, ?_⟩
    · rintro rfl hname
      obtain ⟨rfl, rfl⟩ := List.cons.inj hts
      have hunknown := @statement_of_ne_keyword maxNesting k hname.ne_keyword ts
      exact (Outcome.stop.inj (stopped.symm.trans hunknown)).1
    · intro more' _
      have hstop := hused more'
      obtain ⟨u, us, hus⟩ : ∃ u us, used ++ t :: more' = u :: us :=
        List.exists_cons_of_ne_nil (by simp)
      rw [hus] at hstop ⊢
      exact .here hstop
  | endless read lt =>
    obtain ⟨front, hfront, hs, -⟩ := obeys_statement (Nat.zero_add _) _ _ _ read
    exact absurd (hs.length_le hfront) (Nat.not_le_of_lt lt)
  | @cons k _ _ _ _ _ read _ _ ih =>
    obtain ⟨used, rfl, hname, hused⟩ := ih hrest
    obtain ⟨front, hfront, hs, hends⟩ := obeys_statement (Nat.zero_add _) _ _ _ read
    obtain ⟨k, us, -, rfl, -⟩ := hs.exists_keyword
    obtain ⟨rfl, rfl⟩ := List.cons.inj hfront
    refine ⟨k :: us ++ used, by simp, by simp, ?_⟩
    intro more' hmore
    obtain ⟨s', hs', -⟩ := hs.read maxNesting (Nat.zero_add _) (used ++ t :: more')
      (hends.replace fun he hn => hmore (hname he hn) hn)
    rw [List.append_assoc]
    exact .cons hs' (by simp) (hused more' hmore)

end Parser

/-- The index of the token where the parser stops, which is the number of tokens if it misses more
of them; none if the tokens are a document. -/
def faultIndex? (ts : List Token) : Option ℕ :=
  match (Parser.sequence (Parser.statement maxNesting) ts).value with
  | .done _ _ => none
  | .stop _ rest => some (ts.length - rest.length)

lemma faultIndex?_of_stop {used rest : List Token} {cause : Cause}
    (h : Parser.SequenceHalt (Parser.statement maxNesting) (used ++ rest) cause rest) :
    faultIndex? (used ++ rest) = some used.length := by
  rw [faultIndex?, Parser.sequence_eq_stop_iff.mpr h]
  simp

lemma eq_append_cons_of_take_eq {front rest us : List Token} {t : Token}
    (h : us.take (front.length + 1) = (front ++ t :: rest).take (front.length + 1)) :
    ∃ rest', us = front ++ t :: rest' := by
  rw [List.take_length_add_append, List.take_succ_cons, List.take_zero] at h
  refine ⟨us.drop (front.length + 1), ?_⟩
  have hsplit := us.take_append_drop (front.length + 1)
  rw [h, List.append_assoc] at hsplit
  exact hsplit.symm

/-- The code of a fault at a token. -/
def Cause.code : Cause → Code
  | .expected _ => .unexpectedToken
  | .unknownStatement => .unknownStatement
  | .tooDeep => .nestedTooDeeply

namespace SyntaxFault

@[simp] theorem code_locate_nil (tokens : List Token) (cause : Cause) :
    (locate tokens cause []).diagnostic.code = some .unexpectedEnd := rfl

@[simp] theorem code_locate_cons (tokens : List Token) (cause : Cause) (t : Token)
    (rest : List Token) : (locate tokens cause (t :: rest)).diagnostic.code = some cause.code := by
  cases cause <;> rfl

end SyntaxFault

/-- A syntax fault stays the same whatever follows the token it is about; if that token could have
gone on to be an attribute, whatever follows the next one. -/
theorem parseStatements_fault_stable {ts : List Token} {fault : SyntaxFault} {i : ℕ}
    (h : (parseStatements ts).outcome = .error fault) (hi : faultIndex? ts = some i) :
    fault.PointsAt ts i ∧
    (fault.diagnostic.code ∈ [some .unexpectedToken, some .nestedTooDeeply] →
      ∀ us : List Token, us.take (i + 1) = ts.take (i + 1) →
        (parseStatements us).outcome = .error fault ∧ faultIndex? us = some i) ∧
    (fault.diagnostic.code = some .unknownStatement →
      ∀ us : List Token,
        us.take (i + 1) = ts.take (i + 1) ∧ (∀ t ∈ ts[i]?, ¬ Grammar.IsName t) ∨
          us.take (i + 2) = ts.take (i + 2) ∧ i + 1 < ts.length →
        (parseStatements us).outcome = .error fault ∧ faultIndex? us = some i) := by
  obtain ⟨cause, rest, hstop, rfl⟩ := parseStatements_eq_error_iff.mp h
  obtain ⟨used, -, -, rfl, -⟩ := hstop.completed
  obtain rfl : used.length = i := Option.some.inj ((faultIndex?_of_stop hstop).symm.trans hi)
  refine ⟨SyntaxFault.pointsAt_locate used cause rest, ?_⟩
  cases rest with
  | nil => simp
  | cons t more =>
    obtain ⟨front, hfront, -, hfirm⟩ := hstop.firm rfl
    obtain rfl := List.append_cancel_right hfront
    have hsame : ∀ more', (cause = .unknownStatement → Grammar.IsName t → more'.head? = more.head?) →
        (parseStatements (used ++ t :: more')).outcome =
          .error (.locate (used ++ t :: more) cause (t :: more)) ∧
        faultIndex? (used ++ t :: more') = some used.length := by
      intro more' hmore
      have hstop' := hfirm more' hmore
      exact ⟨parseStatements_eq_error_iff.mpr ⟨cause, _, hstop', rfl⟩, faultIndex?_of_stop hstop'⟩
    constructor
    · intro hcode us hus
      obtain ⟨more', rfl⟩ := eq_append_cons_of_take_eq hus
      refine hsame more' ?_
      rintro rfl
      simp [Cause.code] at hcode
    · rintro - us (⟨hus, hname⟩ | ⟨hus, hlt⟩)
      · obtain ⟨more', rfl⟩ := eq_append_cons_of_take_eq hus
        exact hsame more' fun _ hn => absurd hn (hname t (by simp))
      · cases more with
        | nil => simp at hlt
        | cons u more =>
          have hus' : us.take ((used ++ [t]).length + 1) =
              ((used ++ [t]) ++ u :: more).take ((used ++ [t]).length + 1) := by
            simpa using hus
          obtain ⟨more', rfl⟩ := eq_append_cons_of_take_eq hus'
          rw [List.append_assoc]
          exact hsame (u :: more') fun _ _ => rfl

/-- An attribute without a value, of a style that stands in a container. -/
def valuelessSource : String :=
  "container c { style s color = }"

/-- What follows the closing brace makes no difference. -/
theorem fault_stable_of_valueless : ∃ fault,
    (parseStatements (tokenize valuelessSource)).outcome = .error fault ∧
      fault.diagnostic.code = some .unexpectedToken ∧ faultIndex? (tokenize valuelessSource) = some 7 ∧
      (parseStatements (tokenize (valuelessSource ++ " icon = a"))).outcome = .error fault := by
  let brace : Token := ⟨.rightBrace, "\x7d", ⟨30, 31⟩, 1, 31⟩
  have hfault : (parseStatements (tokenize valuelessSource)).outcome =
      .error (.unexpected .attributeValue brace) :=
    Attempt.outcome_eq_error (by decide +kernel)
  have hindex : faultIndex? (tokenize valuelessSource) = some 7 := by decide +kernel
  obtain ⟨-, hstable, -⟩ := parseStatements_fault_stable hfault hindex
  obtain ⟨hsame, -⟩ := hstable List.mem_cons_self (tokenize (valuelessSource ++ " icon = a"))
    (by decide +kernel)
  exact ⟨_, hfault, rfl, hindex, hsame⟩

end ArchDiagram
