import ArchDiagram.Proofs.Statement.Recognition
import ArchDiagram.Token.Lexer

/-! Faults are found as early as possible: what stands in front of a fault could have gone on to be a
document. Wherever the parser stops, the tokens that it has read are completed to what it was
reading, and what was read before stays as it was because nothing that is looked ahead to changes. -/
namespace ArchDiagram

/-- Whether the lexer can give the token. -/
def Token.IsLexed (t : Token) : Prop :=
  ∃ source, t ∈ tokenize source

/-- There are tokens of every kind. -/
lemma exists_lexed (kind : TokenKind) : ∃ t : Token, t.IsLexed ∧ t.kind = kind := by
  have hone : ∀ source : String, (tokenize source).any (·.kind = kind) = true →
      ∃ t : Token, t.IsLexed ∧ t.kind = kind := by
    intro source h
    obtain ⟨t, ht, hk⟩ := List.any_eq_true.mp h
    exact ⟨t, ⟨source, ht⟩, of_decide_eq_true hk⟩
  cases kind with
  | keyword word =>
    apply hone word.text
    cases word <;> decide +kernel
  | property => exact hone "label" (by decide +kernel)
  | identifier => exact hone "a" (by decide +kernel)
  | number => exact hone "1" (by decide +kernel)
  | string => exact hone "\"a\"" (by decide +kernel)
  | color => exact hone "#000000" (by decide +kernel)
  | arrow => exact hone "->" (by decide +kernel)
  | leftBrace => exact hone "\x7b" (by decide +kernel)
  | rightBrace => exact hone "\x7d" (by decide +kernel)
  | colon => exact hone ":" (by decide +kernel)
  | equals => exact hone "=" (by decide +kernel)
  | unknown => exact hone "?" (by decide +kernel)

namespace Grammar

/-- The tokens `more` go on after `used` without a change to what was read before: they are no part
of a statement in front of both. -/
structure Completion (used more : List Token) : Prop where
  ne_nil : more ≠ []
  lexed : ∀ t ∈ more, t.IsLexed
  not_equals : ∀ t ∈ more.head?, t.kind ≠ .equals
  fresh : used = [] → ∀ t ∈ more.head?, ¬ IsName t ∧ t.kind ≠ .colon

namespace Completion

variable {used more rest : List Token}

lemma attributeAhead (h : Completion used more) (ha : AttributeAhead (used ++ more)) :
    AttributeAhead (used ++ rest) := by
  match used with
  | [] =>
    obtain ⟨n, e, ts, hmore, hn, -⟩ := ha
    exact absurd hn (h.fresh rfl n (by simp_all)).1
  | [u] =>
    obtain ⟨n, e, ts, hmore, -, he⟩ := ha
    exact absurd he (h.not_equals e (by simp_all))
  | u :: v :: used => exact attributeAhead_cons_cons.mpr (attributeAhead_cons_cons.mp ha)

lemma colonAhead (h : Completion used more) (hc : ColonAhead (used ++ more)) :
    ColonAhead (used ++ rest) := by
  match used with
  | [] =>
    obtain ⟨c, ts, hmore, hc⟩ := hc
    exact absurd hc (h.fresh rfl c (by simp_all)).2
  | u :: used => exact colonAhead_cons.mpr (colonAhead_cons.mp hc)

lemma endsBefore (h : Completion used more) {s : Phrase} (hs : EndsBefore (used ++ rest) s) :
    EndsBefore (used ++ more) s :=
  hs.mono h.attributeAhead h.colonAhead

/-- After a token that is part of what is read. -/
lemma cons {u x : Token} {xs : List Token} (hl : ∀ t ∈ x :: xs, t.IsLexed) (he : x.kind ≠ .equals) :
    Completion (u :: used) (x :: xs) where
  ne_nil := List.cons_ne_nil _ _
  lexed := hl
  not_equals := by simpa using he
  fresh h := by simp at h

/-- In front of anything that is read. -/
lemma start {x : Token} (hl : x.IsLexed) (hx : x.kind = .rightBrace ∨ ∃ word, x.kind = .keyword word) :
    Completion used [x] := by
  refine ⟨by simp, by simpa using hl, ?_, ?_⟩
  · rintro _ ⟨⟩
    obtain hx | ⟨word, hx⟩ := hx <;> simp [hx]
  · rintro - _ ⟨⟩
    obtain hx | ⟨word, hx⟩ := hx <;> simp [IsName, hx]

lemma prepend (h : Completion used more) {front : List Token} (hf : front ≠ []) :
    Completion (front ++ used) more where
  ne_nil := h.ne_nil
  lexed := h.lexed
  not_equals := h.not_equals
  fresh he := absurd (List.append_eq_nil_iff.mp he).1 hf

lemma append (h : Completion used more) {x : Token} (hx : x.IsLexed) :
    Completion used (more ++ [x]) where
  ne_nil := by simp
  lexed t ht := by
    obtain ht | ht := List.mem_append.mp ht
    · exact h.lexed t ht
    · obtain rfl := List.mem_singleton.mp ht
      exact hx
  not_equals := by
    rw [List.head?_append_of_ne_nil _ h.ne_nil]
    exact h.not_equals
  fresh := by
    rw [List.head?_append_of_ne_nil _ h.ne_nil]
    exact h.fresh

end Completion

end Grammar

namespace Parser
open Grammar

variable {α β : Type}

theorem bind_eq_stop_iff {p : Parser α} {f : α → Parser β} {ts : List Token} {cause : Cause}
    {rest : List Token} : ((p >>= f) ts).value = .stop cause rest ↔
      (p ts).value = .stop cause rest ∨
        ∃ a mid, (p ts).value = .done a mid ∧ (f a mid).value = .stop cause rest := by
  change (Parser.bind p f ts).value = _ ↔ _
  rw [Parser.bind]
  cases hv : (p ts).value with
  | stop cause' mid => simp
  | done a mid => simp

lemma next_eq_stop_iff {what : Expectation} {accept : Token → Option α} {ts : List Token}
    {cause : Cause} {rest : List Token} : (next what accept ts).value = .stop cause rest ↔
      cause = .expected what ∧ rest = ts ∧ ∀ t us, ts = t :: us → accept t = none := by
  cases ts with
  | nil => simp [next, eq_comm]
  | cons t ts =>
    rw [next]
    cases ht : accept t with
    | none => simp [ht, eq_comm]
    | some a => simp [ht]

lemma identifier_stop {ts : List Token} {cause : Cause} {rest : List Token}
    (h : (identifier ts).value = .stop cause rest) :
    cause = .expected .identifier ∧ rest = ts ∧ ∀ n us, ts = n :: us → ¬ IsName n := by
  obtain ⟨hc, hr, hn⟩ := next_eq_stop_iff.mp h
  refine ⟨hc, hr, ?_⟩
  intro n us hts hname
  simpa [isName_iff.mpr hname] using hn n us hts

lemma relationLabel_stop {ts : List Token} {cause : Cause} {rest : List Token}
    (h : (relationLabel ts).value = .stop cause rest) :
    cause = .expected .relationLabel ∧ ∃ c, ts = c :: rest ∧ c.kind = .colon := by
  cases ts with
  | nil => cases h
  | cons c ts =>
    rw [relationLabel] at h
    split_ifs at h with hc
    obtain ⟨hcause, rfl, -⟩ := next_eq_stop_iff.mp h
    exact ⟨hcause, c, rfl, hc⟩

/-- Attributes stop after `name =`, and any name can be the value. -/
theorem AttributesHalt.completed {ts rest : List Token} (h : AttributesHalt ts rest) :
    ∃ used, ts = used ++ rest ∧
      ∀ v : Token, v.kind = .identifier → ∃ a as, Attributes (used ++ [v]) (a :: as) := by
  induction h with
  | @value n e _ name equals _ =>
    refine ⟨[n, e], rfl, ?_⟩
    intro v hv
    exact ⟨_, _, .cons name equals (Or.inl (by simp [hv])) .nil⟩
  | @cons n e v _ _ name equals value _ ih =>
    obtain ⟨used, rfl, hu⟩ := ih
    refine ⟨n :: e :: v :: used, rfl, ?_⟩
    intro w hw
    obtain ⟨a, as, has⟩ := hu w hw
    exact ⟨_, _, .cons name equals value has⟩

/-- What was read when a parser stopped, as a part of the statement `s` inside `depth` containers. -/
structure Interruption (depth : ℕ) (ts : List Token) (cause : Cause) (rest used more : List Token)
    (s : Phrase) : Prop where
  read : ts = used ++ rest
  completion : Completion used more
  written : Written depth (used ++ more) s
  /-- A style without attributes could also be a property. -/
  style : ∀ name, s = .style name [] → ∃ k, ts = k :: rest ∧ k.kind = .keyword .style ∧
    styleAhead rest = false
  unknown : cause = .unknownStatement →
    used = [] ∧ ∀ k us word, ts = k :: us → k.kind ≠ .keyword word

def Interrupted (depth : ℕ) (ts : List Token) (cause : Cause) (rest : List Token) : Prop :=
  ∃ used more s, Interruption depth ts cause rest used more s

/-- Wherever `p` stops, it was reading a statement inside `depth` containers. -/
def Completes (depth : ℕ) (p : Parser Statement) : Prop :=
  ∀ ts cause rest, (p ts).value = .stop cause rest → Interrupted depth ts cause rest

/-- The tokens in front of `rest` are the beginning of a block that others complete. -/
def Closable (kind : BlockKind) (depth : ℕ) (ts rest : List Token) : Prop :=
  ∃ used more ps body, ts = used ++ rest ∧ Completion used more ∧
    Content kind depth (used ++ more) ps body

namespace Closable

variable {kind : BlockKind} {depth : ℕ} {t v : Token} {ts mid rest : List Token} {field : Field}

/-- A block can be closed wherever an item may begin. -/
lemma here (kind : BlockKind) (depth : ℕ) (rest : List Token) : Closable kind depth rest rest := by
  obtain ⟨close, hclose, hbrace⟩ := exists_lexed .rightBrace
  exact ⟨[], [close], _, _, rfl, .start hclose (Or.inl hbrace), .close hbrace⟩

/-- Any name can be the value of a property. -/
lemma value (hrole : kind.role t rest = .property field) : Closable kind depth (t :: rest) rest := by
  obtain ⟨close, hclose, hbrace⟩ := exists_lexed .rightBrace
  obtain ⟨x, hx, hident⟩ := exists_lexed .identifier
  obtain ⟨hf, hname, -⟩ := role_eq_property_iff.mp hrole
  refine ⟨[t], [x, close], [(field, x.value)], [], rfl,
    .cons (by simp [hx, hclose]) (by simp [hident]), .property hf hname ?_ ?_ (.close hbrace)⟩
  · cases field <;> simp [IsFieldValue, IsName, IsValue, hident]
  · rintro - - ⟨n, e, more, ⟨⟩, -⟩

lemma skipped (h : Closable kind depth ts rest) (hrole : kind.role t ts = .skipped) :
    Closable kind depth (t :: ts) rest := by
  obtain ⟨used, more, ps, body, rfl, hm, hc⟩ := h
  exact ⟨t :: used, more, ps, body, rfl, hm.prepend (List.cons_ne_nil t []),
    .stray (role_eq_skipped_iff.mp hrole) hc⟩

lemma property (h : Closable kind depth ts rest) (hrole : kind.role t (v :: ts) = .property field)
    (hv : field.accepts v = true) : Closable kind depth (t :: v :: ts) rest := by
  obtain ⟨used, more, ps, body, rfl, hm, hc⟩ := h
  obtain ⟨hf, hname, -⟩ := role_eq_property_iff.mp hrole
  refine ⟨t :: v :: used, more, _, body, rfl, hm.prepend (List.cons_ne_nil t [v]),
    .property hf hname (accepts_iff.mp hv) ?_ hc⟩
  intro hk ht hahead
  exact not_attributeAhead_of_role hrole hk ht (accepts_iff.mp hv) (hm.attributeAhead hahead)

lemma statement {s : Statement} (h : Closable .container depth mid rest)
    (hrole : BlockKind.container.role t ts = .statement) (hs : Derived depth (t :: ts) s mid) :
    Closable .container depth (t :: ts) rest := by
  obtain ⟨used, more, ps, body, rfl, hm, hc⟩ := h
  obtain ⟨first, hfirst, hs, hends⟩ := hs
  refine ⟨first ++ used, more, ps, s.phrase :: body, by rw [hfirst, List.append_assoc],
    hm.prepend hs.ne_nil, ?_⟩
  rw [List.append_assoc]
  exact .statement hs (ne_style_of_role hrole hfirst hs hends) (hm.endsBefore hends) hc

/-- A statement that is being read is completed, and the block is closed behind it. -/
lemma inside {cause : Cause} (hrole : BlockKind.container.role t ts = .statement)
    (h : Interrupted depth (t :: ts) cause rest) : Closable .container depth (t :: ts) rest := by
  obtain ⟨close, hclose, hbrace⟩ := exists_lexed .rightBrace
  obtain ⟨used, more, s, hi⟩ := h
  obtain ⟨-, word, ht, hstyle⟩ := role_eq_statement_iff.mp hrole
  refine ⟨used, more ++ [close], [], [s], hi.read, hi.completion.append hclose, ?_⟩
  rw [← List.append_assoc]
  refine .statement hi.written ?_ (endsBefore_cons ?_ ?_ s) (.close hbrace)
  · rintro name rfl
    obtain ⟨k, hts, hk, hahead⟩ := hi.style name rfl
    obtain ⟨rfl, rfl⟩ := List.cons.inj hts
    obtain rfl : word = .style := by simpa [hk, eq_comm] using ht
    simp [hstyle rfl] at hahead
  · simp [IsName, hbrace]
  · simp [hbrace]

end Closable

/-- Wherever the items of a block stop, it could still be closed, and what may stand there is known. -/
theorem ItemsHalt.closable {kind : BlockKind} {nested : Parser Statement} {depth : ℕ}
    (hn : kind = .container → Obeys depth nested ∧ Completes depth nested) {ts rest : List Token}
    {cause : Cause} (h : ItemsHalt kind nested ts cause rest) :
    cause ≠ .unknownStatement ∧ Closable kind depth ts rest := by
  induction h with
  | ended => exact ⟨by simp, .here ..⟩
  | refused => exact ⟨by simp, .here ..⟩
  | value role => exact ⟨by simp, .value role⟩
  | @inside t ts cause rest role stopped =>
    obtain ⟨rfl, word, ht, -⟩ := role_eq_statement_iff.mp role
    have hi := (hn rfl).2 _ _ _ stopped
    refine ⟨?_, .inside role hi⟩
    intro hcause
    obtain ⟨used, more, s, hi⟩ := hi
    exact (hi.unknown hcause).2 t ts word rfl ht
  | endless role read lt =>
    obtain ⟨rfl, -⟩ := role_eq_statement_iff.mp role
    obtain ⟨first, hfirst, hs, -⟩ := (hn rfl).1 _ _ _ read
    exact absurd (hs.length_le hfirst) (Nat.not_le_of_lt lt)
  | skipped role _ ih => exact ⟨ih.1, ih.2.skipped role⟩
  | property role value _ ih => exact ⟨ih.1, ih.2.property role value⟩
  | statement role read _ _ ih =>
    obtain ⟨rfl, -⟩ := role_eq_statement_iff.mp role
    exact ⟨ih.1, ih.2.statement role ((hn rfl).1 _ _ _ read)⟩

namespace Interrupted

/-- Where nothing of a statement was read, any statement will do. -/
lemma start (depth : ℕ) {ts : List Token} {cause : Cause}
    (hu : cause = .unknownStatement → ∀ k us word, ts = k :: us → k.kind ≠ .keyword word) :
    Interrupted depth ts cause ts := by
  obtain ⟨k, hk, hlayout⟩ := exists_lexed (.keyword .layout)
  refine ⟨[], [k], .layout [], rfl, .start hk (Or.inr ⟨_, hlayout⟩), .layout hlayout .nil, ?_, ?_⟩
  · rintro name ⟨⟩
  · exact fun h => ⟨rfl, hu h⟩

variable {depth : ℕ} {k : Token} {cause : Cause} {rest more : List Token} {s : Phrase}

/-- Behind the keyword of a statement. -/
lemma behind (used : List Token) (hc : cause ≠ .unknownStatement)
    (hm : Completion (k :: used) more) (hw : Written depth (k :: (used ++ more)) s)
    (hs : ∀ name, s ≠ .style name []) : Interrupted depth (k :: (used ++ rest)) cause rest :=
  ⟨k :: used, more, s, rfl, hm, hw, fun name h => absurd h (hs name), fun h => absurd h hc⟩

end Interrupted

section
variable {depth : ℕ} {k : Token} {ts : List Token} {cause : Cause} {rest : List Token}

lemma layout_stop (hk : k.kind = .keyword .layout)
    (h : (layout k.span ts).value = .stop cause rest) : Interrupted depth (k :: ts) cause rest := by
  obtain ⟨x, hx, hident⟩ := exists_lexed .identifier
  obtain ha | ⟨as, mid, -, ⟨⟩⟩ := bind_eq_stop_iff.mp h
  obtain ⟨rfl, hhalt⟩ := attributes_eq_stop_iff.mp ha
  obtain ⟨used, rfl, hu⟩ := hhalt.completed
  obtain ⟨a, as, has⟩ := hu x hident
  exact .behind used (by simp) (.cons (by simpa using hx) (by simp [hident])) (.layout hk has)
    (by simp)

lemma style_stop (hk : k.kind = .keyword .style)
    (h : (style k.span ts).value = .stop cause rest) : Interrupted depth (k :: ts) cause rest := by
  obtain ⟨x, hx, hident⟩ := exists_lexed .identifier
  have hm : ∀ used, Completion (k :: used) [x] :=
    fun used => .cons (by simpa using hx) (by simp [hident])
  obtain hn | ⟨name, mid, hn, h1⟩ := bind_eq_stop_iff.mp h
  · obtain ⟨rfl, rfl, hname⟩ := identifier_stop hn
    refine ⟨[k], [x], _, rfl, hm [], .style hk (Or.inl hident) .nil, ?_, by simp⟩
    rintro _ -
    refine ⟨k, rfl, hk, ?_⟩
    cases rest with
    | nil => rfl
    | cons n us =>
      rw [Bool.eq_false_iff]
      exact fun hahead => hname n us rfl (styleAhead_cons.mp hahead).1
  · obtain ⟨n, rfl, hname, -⟩ := identifier_eq_done_iff.mp hn
    obtain ha | ⟨as, mid, -, ⟨⟩⟩ := bind_eq_stop_iff.mp h1
    obtain ⟨rfl, hhalt⟩ := attributes_eq_stop_iff.mp ha
    obtain ⟨used, rfl, hu⟩ := hhalt.completed
    obtain ⟨a, as, has⟩ := hu x hident
    exact .behind (n :: used) (by simp) (hm _) (.style hk hname has) (by simp)

lemma relation_stop (hk : k.kind = .keyword .relation)
    (h : (relation k.span ts).value = .stop cause rest) : Interrupted depth (k :: ts) cause rest := by
  obtain ⟨x, hx, hident⟩ := exists_lexed .identifier
  obtain ⟨y, hy, harrow⟩ := exists_lexed .arrow
  obtain ⟨z, hz, hstring⟩ := exists_lexed .string
  have hname : IsName x := Or.inl hident
  obtain hstop | ⟨_, mid, hsource, h1⟩ := bind_eq_stop_iff.mp h
  · obtain ⟨rfl, rfl, -⟩ := identifier_stop hstop
    exact .behind [] (by simp) (.cons (by simp [hx, hy]) (by simp [hident]))
      (.relation hk hname harrow hname) (by simp)
  obtain ⟨a, rfl, ha, -⟩ := identifier_eq_done_iff.mp hsource
  obtain hstop | ⟨_, mid, hto, h2⟩ := bind_eq_stop_iff.mp h1
  · obtain ⟨rfl, rfl, -⟩ := next_eq_stop_iff.mp hstop
    exact .behind [a] (by simp) (.cons (by simp [hx, hy]) (by simp [harrow]))
      (.relation hk ha harrow hname) (by simp)
  obtain ⟨r, rfl, hr, -⟩ := punctuation_eq_done_iff.mp hto
  obtain hstop | ⟨_, mid, htarget, h3⟩ := bind_eq_stop_iff.mp h2
  · obtain ⟨rfl, rfl, -⟩ := identifier_stop hstop
    exact .behind [a, r] (by simp) (.cons (by simp [hx]) (by simp [hident]))
      (.relation hk ha hr hname) (by simp)
  obtain ⟨b, rfl, hb, -⟩ := identifier_eq_done_iff.mp htarget
  obtain hstop | ⟨label, mid, -, ⟨⟩⟩ := bind_eq_stop_iff.mp h3
  obtain ⟨rfl, c, rfl, hc⟩ := relationLabel_stop hstop
  exact .behind [a, r, b, c] (by simp) (.cons (by simp [hz]) (by simp [hstring]))
    (.labelled hk ha hr hb hc hstring) (by simp)

/-- The statements with a block: `make` builds one from its id and its block, and `phrase` is what
it says. -/
lemma blockStatement_stop {kind : BlockKind} {nested : Parser Statement} (inner : ℕ)
    (hn : kind = .container → Obeys inner nested ∧ Completes inner nested)
    (make : Located Id → Block → Statement)
    (phrase : Id → List (Field × String) → List Phrase → Phrase)
    (hstyle : ∀ id ps body name, phrase id ps body ≠ .style name [])
    (hwritten : ∀ {n o : Token} {us ps body}, IsName n → o.kind = .leftBrace →
      Content kind inner us ps body → Written depth (k :: n :: o :: us) (phrase n.value ps body))
    (h : ((do let id ← identifier; let b ← block kind nested; return make id b :
      Parser Statement) ts).value = .stop cause rest) : Interrupted depth (k :: ts) cause rest := by
  obtain ⟨x, hx, hident⟩ := exists_lexed .identifier
  obtain ⟨y, hy, hopen⟩ := exists_lexed .leftBrace
  obtain ⟨z, hz, hclose⟩ := exists_lexed .rightBrace
  obtain hid | ⟨id, mid, hid, hblock⟩ := bind_eq_stop_iff.mp h
  · obtain ⟨rfl, rfl, -⟩ := identifier_stop hid
    exact .behind [] (by simp) (.cons (by simp [hx, hy, hz]) (by simp [hident]))
      (hwritten (Or.inl hident) hopen (.close hclose)) (hstyle _ _ _)
  obtain ⟨n, rfl, hname, -⟩ := identifier_eq_done_iff.mp hid
  obtain hb | ⟨b, mid, -, ⟨⟩⟩ := bind_eq_stop_iff.mp hblock
  obtain ho | ⟨_, mid, ho, hitems⟩ := bind_eq_stop_iff.mp hb
  · obtain ⟨rfl, rfl, -⟩ := next_eq_stop_iff.mp ho
    exact .behind [n] (by simp) (.cons (by simp [hy, hz]) (by simp [hopen]))
      (hwritten hname hopen (.close hclose)) (hstyle _ _ _)
  · obtain ⟨o, rfl, hbrace, -⟩ := punctuation_eq_done_iff.mp ho
    obtain ⟨hcause, used, more, ps, body, rfl, hm, hcontent⟩ :=
      (items_eq_stop_iff.mp hitems).closable hn
    exact .behind (n :: o :: used) hcause (hm.prepend (List.cons_ne_nil k [n, o]))
      (hwritten hname hbrace hcontent) (hstyle _ _ _)

end

theorem completes_dispatch {inner : Option (Parser Statement)} {depth : ℕ}
    (hn : ∀ nested, inner = some nested →
      depth < maxNesting ∧ Obeys (depth + 1) nested ∧ Completes (depth + 1) nested) :
    Completes depth (dispatch inner) := by
  intro ts cause rest
  cases ts with
  | nil =>
    rintro ⟨⟩
    exact .start depth (by simp)
  | cons k ts =>
    simp only [dispatch]
    cases hk : k.kind with
    | keyword word =>
      cases word with
      | layout => exact layout_stop hk
      | style => exact style_stop hk
      | component =>
        refine blockStatement_stop depth (by simp) _ (fun id ps _ => .component id ps) (by simp) ?_
        intro n o us ps body hname ho hcontent
        obtain rfl := hcontent.body_eq_nil (by simp)
        exact .component hk hname ho hcontent
      | container =>
        cases inner with
        | none =>
          rintro ⟨⟩
          exact .start depth (by simp)
        | some nested =>
          obtain ⟨hroom, hnested⟩ := hn nested rfl
          exact blockStatement_stop _ (fun _ => hnested) _ .container (by simp)
            fun hname ho hcontent => .container hk hroom hname ho hcontent
      | relation => exact relation_stop hk
      | note =>
        refine blockStatement_stop depth (by simp) _ (fun id ps _ => .note id ps) (by simp) ?_
        intro n o us ps body hname ho hcontent
        obtain rfl := hcontent.body_eq_nil (by simp)
        exact .note hk hname ho hcontent
    | _ =>
      rintro ⟨⟩
      refine .start depth ?_
      rintro - k' us word ⟨⟩
      simp [hk]

theorem completes_statement {room depth : ℕ} (h : depth + room = maxNesting) :
    Completes depth (statement room) := by
  induction room generalizing depth with
  | zero => exact completes_dispatch (by simp)
  | succ room ih =>
    refine completes_dispatch ?_
    rintro nested ⟨⟩
    exact ⟨by omega, obeys_statement (by omega), ih (by omega)⟩

/-- What was read in front of a fault is the beginning of a document, and all of one if no statement
had begun. -/
theorem SequenceHalt.completed {ts rest : List Token} {cause : Cause}
    (h : SequenceHalt (statement maxNesting) ts cause rest) :
    ∃ used more ss, ts = used ++ rest ∧ (∀ t ∈ more, t.IsLexed) ∧
      Grammar.Document (used ++ more) ss ∧
      (cause = .unknownStatement → ∃ ss, Grammar.Document used ss) := by
  induction h with
  | here stopped =>
    obtain ⟨used, more, s, hi⟩ := completes_statement (Nat.zero_add _) _ _ _ stopped
    have hdoc := Grammar.Document.cons hi.written .nil
    rw [List.append_nil] at hdoc
    refine ⟨used, more, [s], hi.read, hi.completion.lexed, hdoc, ?_⟩
    intro hcause
    rw [(hi.unknown hcause).1]
    exact ⟨[], .nil⟩
  | endless read lt =>
    obtain ⟨front, hfront, hs, -⟩ := obeys_statement (Nat.zero_add _) _ _ _ read
    exact absurd (hs.length_le hfront) (Nat.not_le_of_lt lt)
  | @cons _ _ s _ _ _ read _ _ ih =>
    obtain ⟨used, more, ss, rfl, hlexed, hdoc, hall⟩ := ih
    obtain ⟨front, hfront, hs, -⟩ := obeys_statement (Nat.zero_add _) _ _ _ read
    refine ⟨front ++ used, more, s.phrase :: ss, by rw [hfront, List.append_assoc], hlexed, ?_, ?_⟩
    · rw [List.append_assoc]
      exact .cons hs hdoc
    · intro hcause
      obtain ⟨ss, hss⟩ := hall hcause
      exact ⟨_, .cons hs hss⟩

end Parser

/-- Whether the tokens are those of a document. -/
def Accepted (ts : List Token) : Prop :=
  ∃ ss, (parseStatements ts).outcome = .ok ss

lemma Grammar.Document.accepted {ts : List Token} {ss : List Phrase} (h : Document ts ss) :
    Accepted ts := by
  obtain ⟨found, hfound, -⟩ := h.read
  exact ⟨found, parseStatements_eq_ok_iff.mpr hfound⟩

namespace SyntaxFault

/-- Whether the diagnostic points at the token with this index, or behind the last token if the
input ends too early. -/
def PointsAt (fault : SyntaxFault) (ts : List Token) (i : ℕ) : Prop :=
  if fault.diagnostic.code = some .unexpectedEnd then i = ts.length
  else ∃ t, ts[i]? = some t ∧ fault.diagnostic.labels.map Label.span = [t.span]

lemma pointsAt_locate (used : List Token) (cause : Cause) (rest : List Token) :
    (locate (used ++ rest) cause rest).PointsAt (used ++ rest) used.length := by
  cases rest with
  | nil => exact (if_pos rfl).mpr (by simp)
  | cons t rest => cases cause <;> exact (if_neg nofun).mpr ⟨t, by simp, rfl⟩

lemma PointsAt.unique {fault : SyntaxFault} {ts : List Token} {i j : ℕ}
    (hi : fault.PointsAt ts i) (hj : fault.PointsAt ts j) (h : (ts.map Token.span).Nodup) :
    i = j := by
  rw [PointsAt] at hi hj
  split_ifs at hi hj with hc
  · rw [hi, hj]
  · obtain ⟨t, ht, hspan⟩ := hi
    obtain ⟨u, hu, hspan'⟩ := hj
    have hlt : i < (ts.map Token.span).length := by
      rw [List.length_map]
      exact (List.getElem?_eq_some_iff.mp ht).1
    apply (List.getElem?_inj hlt h).mp
    rw [List.getElem?_map, List.getElem?_map, ht, hu]
    simpa [hspan] using hspan'

lemma cause_eq_of_code {ts : List Token} {cause : Cause} {rest : List Token}
    (h : (locate ts cause rest).diagnostic.code = some .unknownStatement) :
    cause = .unknownStatement := by
  cases rest with
  | nil => cases h
  | cons t rest =>
    cases cause with
    | unknownStatement => rfl
    | _ => cases h

end SyntaxFault

/-- What stands in front of the token that a diagnostic points at can be completed to a document; and
it is a document if the diagnostic is about an unknown statement. -/
theorem parseStatements_fault_completable {ts : List Token} {fault : SyntaxFault}
    (h : (parseStatements ts).outcome = .error fault) :
    ∃ i, fault.PointsAt ts i ∧
      ((ts.map Token.span).Nodup → ∀ j, fault.PointsAt ts j → j = i) ∧
      (∃ more, (∀ t ∈ more, t.IsLexed) ∧ Accepted (ts.take i ++ more)) ∧
      (fault.diagnostic.code = some .unknownStatement → Accepted (ts.take i)) := by
  obtain ⟨cause, rest, hstop, rfl⟩ := parseStatements_eq_error_iff.mp h
  obtain ⟨used, more, ss, rfl, hlexed, hdoc, hall⟩ := hstop.completed
  have hpoints := SyntaxFault.pointsAt_locate used cause rest
  refine ⟨used.length, hpoints, fun hn j hj => hj.unique hpoints hn, ?_, ?_⟩
  · rw [List.take_left]
    exact ⟨more, hlexed, hdoc.accepted⟩
  · intro hcode
    obtain ⟨ss, hss⟩ := hall (SyntaxFault.cause_eq_of_code hcode)
    rw [List.take_left]
    exact hss.accepted

/-- A label without a value. -/
def unlabelledSource : String :=
  "component a { label }"

theorem fault_completable_of_unlabelled : ∃ fault,
    (parseStatements (tokenize unlabelledSource)).outcome = .error fault ∧
      fault.PointsAt (tokenize unlabelledSource) 4 ∧ ∃ more, (∀ t ∈ more, t.IsLexed) ∧
        Accepted ((tokenize unlabelledSource).take 4 ++ more) := by
  let brace : Token := ⟨.rightBrace, "\x7d", ⟨20, 21⟩, 1, 21⟩
  have hrun : (match (parseStatements (tokenize unlabelledSource)).outcome with
      | .ok _ => false
      | .error fault => decide (fault = .unexpected .labelValue brace)) = true := by
    decide +kernel
  have hbrace : (tokenize unlabelledSource)[4]? = some brace := by decide +kernel
  cases hfault : (parseStatements (tokenize unlabelledSource)).outcome with
  | ok ss => simp [hfault] at hrun
  | error fault =>
    rw [hfault] at hrun
    obtain rfl := of_decide_eq_true hrun
    have hpoints : (SyntaxFault.unexpected .labelValue brace).PointsAt
        (tokenize unlabelledSource) 4 := (if_neg nofun).mpr ⟨brace, hbrace, rfl⟩
    obtain ⟨i, -, hunique, hmore, -⟩ := parseStatements_fault_completable hfault
    obtain rfl := hunique (by decide +kernel) 4 hpoints
    exact ⟨_, rfl, hpoints, hmore⟩

end ArchDiagram
