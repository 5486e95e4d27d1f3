import ArchDiagram.Proofs.Nesting.Depth
import ArchDiagram.Proofs.Statement.Stability

/-! The guard against deep nesting. Each call of a parser is followed from the call that reads the
document, and the container blocks that are open are counted on the way. What is counted and the room
that is handed down always make up the limit, so the only way to run out of room is to come to a
container with all the blocks open that may be. -/
namespace ArchDiagram

namespace Parser
open Grammar

variable {α β : Type}

/-- Whatever `p` refuses, it is not one container too many. -/
def Shallow (p : Parser α) : Prop :=
  ∀ ts rest, (p ts).value ≠ .stop .tooDeep rest

lemma shallow_next (what : Expectation) (accept : Token → Option α) :
    Shallow (next what accept) := by
  intro ts rest h
  obtain ⟨hcause, -⟩ := next_eq_stop_iff.mp h
  cases hcause

lemma shallow_pure (a : α) : Shallow (Pure.pure a : Parser α) := by
  rintro ts rest ⟨⟩

lemma shallow_bind {p : Parser α} {f : α → Parser β} (hp : Shallow p) (hf : ∀ a, Shallow (f a)) :
    Shallow (p >>= f) := by
  intro ts rest h
  obtain h | ⟨a, mid, -, h⟩ := bind_eq_stop_iff.mp h
  · exact hp ts rest h
  · exact hf a mid rest h

lemma shallow_attributes : Shallow attributes := by
  intro ts rest h
  obtain ⟨hcause, -⟩ := attributes_eq_stop_iff.mp h
  cases hcause

lemma shallow_relationLabel : Shallow relationLabel := by
  intro ts rest h
  obtain ⟨hcause, -⟩ := relationLabel_stop h
  cases hcause

/-- Only a container has statements among its items. -/
lemma shallow_items {kind : BlockKind} (hk : kind ≠ .container) (nested : Parser Statement) :
    Shallow (items kind nested) := by
  intro ts rest h
  rw [items_eq_stop_iff] at h
  generalize hcause : Cause.tooDeep = cause at h
  induction h with
  | ended | refused _ | value _ _ => cases hcause
  | skipped _ _ ih | property _ _ _ ih => exact ih hcause
  | inside role _ | endless role _ _ | statement role _ _ _ _ =>
    exact absurd (role_eq_statement_iff.mp role).1 hk

lemma shallow_blockStatement {kind : BlockKind} (hk : kind ≠ .container)
    (make : Located Id → Block → Statement) :
    Shallow (do let id ← identifier; let b ← block kind (fail .unknownStatement); return make id b) :=
  shallow_bind (shallow_next _ _) fun _ =>
    shallow_bind (shallow_bind (shallow_next _ _) fun _ => shallow_items hk _) fun _ => shallow_pure _

/-- Only a container can be one too many. -/
lemma container_of_tooDeep {room : ℕ} {ts rest : List Token}
    (h : (statement room ts).value = .stop .tooDeep rest) :
    ∃ k us, ts = k :: us ∧ k.kind = .keyword .container := by
  cases ts with
  | nil => cases room <;> cases h
  | cons k us =>
    refine ⟨k, us, rfl, ?_⟩
    by_cases hk : ∃ word, k.kind = .keyword word
    · obtain ⟨word, hk⟩ := hk
      rw [statement_keyword hk] at h
      cases word with
      | container => exact hk
      | layout => exact absurd h (shallow_bind shallow_attributes (fun _ => shallow_pure _) _ _)
      | style =>
        exact absurd h (shallow_bind (shallow_next _ _) (fun _ =>
          shallow_bind shallow_attributes fun _ => shallow_pure _) _ _)
      | relation =>
        exact absurd h (shallow_bind (shallow_next _ _) (fun _ =>
          shallow_bind (shallow_next _ _) fun _ => shallow_bind (shallow_next _ _) fun _ =>
            shallow_bind shallow_relationLabel fun _ => shallow_pure _) _ _)
      | component => exact absurd h (shallow_blockStatement (by decide) _ _ _)
      | note => exact absurd h (shallow_blockStatement (by decide) _ _ _)
    · rw [not_exists] at hk
      rw [statement_of_ne_keyword hk] at h
      cases h

/-- What is being read: the document, a statement of it, or the items of a container block. -/
inductive Spot where
  | document
  | statement
  | block

/-- The calls that reading `ts` as a document leads to: with `opened` container blocks open, something
is read off the front of the given tokens, and `room` is how many further containers the statements
there may open. -/
inductive Visits (ts : List Token) : (opened room : ℕ) → Spot → List Token → Prop
  | start : Visits ts 0 maxNesting .document ts
  | first {opened room t us} (document : Visits ts opened room .document (t :: us)) :
      Visits ts opened room .statement (t :: us)
  | next {opened room t us s rest} (document : Visits ts opened room .document (t :: us))
      (read : (statement room (t :: us)).value = .done s rest) : Visits ts opened room .document rest
  | enter {opened room k n o us} (here : Visits ts opened (room + 1) .statement (k :: n :: o :: us))
      (keyword : k.kind = .keyword .container) (name : IsName n) (opening : o.kind = .leftBrace) :
      Visits ts (opened + 1) room .block us
  | skip {opened room t us} (block : Visits ts opened room .block (t :: us))
      (role : BlockKind.container.role t us = .skipped) : Visits ts opened room .block us
  | property {opened room t v us f} (block : Visits ts opened room .block (t :: v :: us))
      (role : BlockKind.container.role t (v :: us) = .property f) (value : f.accepts v = true) :
      Visits ts opened room .block us
  | nested {opened room t us} (block : Visits ts opened room .block (t :: us))
      (role : BlockKind.container.role t us = .statement) : Visits ts opened room .statement (t :: us)
  | after {opened room t us s rest} (block : Visits ts opened room .block (t :: us))
      (role : BlockKind.container.role t us = .statement)
      (read : (statement room (t :: us)).value = .done s rest) : Visits ts opened room .block rest

/-- The call stops. -/
def Stops (room : ℕ) (us : List Token) (cause : Cause) (rest : List Token) : Spot → Prop
  | .document => SequenceHalt (statement room) us cause rest
  | .statement => (statement room us).value = .stop cause rest
  | .block => ItemsHalt .container (statement room) us cause rest

/-- Reading a statement takes a token at least. -/
lemma length_le_of_statement {opened room : ℕ} (h : opened + room = maxNesting) {t : Token}
    {us rest : List Token} {s : Statement} (hs : (statement room (t :: us)).value = .done s rest) :
    rest.length ≤ us.length := by
  obtain ⟨used, hused, hw, -⟩ := obeys_statement h _ _ _ hs
  exact hw.length_le hused

/-- A container stops where the items of its block stop. -/
lemma container_stop_of_items {room : ℕ} {k n o : Token} {us rest : List Token} {cause : Cause}
    (hk : k.kind = .keyword .container) (hn : IsName n) (ho : o.kind = .leftBrace)
    (h : ItemsHalt .container (statement room) us cause rest) :
    (statement (room + 1) (k :: n :: o :: us)).value = .stop cause rest := by
  have hname : (identifier (n :: o :: us)).value = .done n.located (o :: us) :=
    identifier_eq_done_iff.mpr ⟨n, rfl, hn, rfl⟩
  have hopen : (punctuation .leftBrace .leftBrace (o :: us)).value = .done o.span us :=
    punctuation_eq_done_iff.mpr ⟨o, rfl, ho, rfl⟩
  rw [statement_keyword hk]
  refine bind_eq_stop_iff.mpr (Or.inr ⟨_, _, hname, bind_eq_stop_iff.mpr (Or.inl ?_)⟩)
  exact bind_eq_stop_iff.mpr (Or.inr ⟨_, us, hopen, items_eq_stop_iff.mpr h⟩)

/-- Where further containers may be opened, one too many is found among the items of a block. -/
lemma items_of_container_tooDeep {room : ℕ} {k : Token} {ts rest : List Token}
    (hk : k.kind = .keyword .container)
    (h : (statement (room + 1) (k :: ts)).value = .stop .tooDeep rest) :
    ∃ n o us, ts = n :: o :: us ∧ IsName n ∧ o.kind = .leftBrace ∧
      ItemsHalt .container (statement room) us .tooDeep rest := by
  rw [statement_keyword hk] at h
  obtain hstop | ⟨id, mid, hname, hrest⟩ := bind_eq_stop_iff.mp h
  · exact absurd hstop (shallow_next _ _ _ _)
  obtain ⟨n, rfl, hn, -⟩ := identifier_eq_done_iff.mp hname
  obtain hblock | ⟨b, mid, -, ⟨⟩⟩ := bind_eq_stop_iff.mp hrest
  obtain hstop | ⟨_, us, hopen, hitems⟩ := bind_eq_stop_iff.mp hblock
  · exact absurd hstop (shallow_next _ _ _ _)
  obtain ⟨o, rfl, ho, -⟩ := punctuation_eq_done_iff.mp hopen
  exact ⟨n, o, us, rfl, hn, ho, items_eq_stop_iff.mp hitems⟩

namespace Visits

variable {ts us rest : List Token} {opened room : ℕ} {spot : Spot} {cause : Cause}

/-- Every block that is open has taken its share of the room. -/
theorem opened_add_room (h : Visits ts opened room spot us) : opened + room = maxNesting := by
  induction h with
  | start => exact Nat.zero_add _
  | first _ ih | next _ _ ih | skip _ _ ih | property _ _ _ ih | nested _ _ ih | after _ _ _ ih =>
    exact ih
  | enter _ _ _ _ ih => omega

/-- Whatever stops a call stops the whole document. -/
theorem stops (h : Visits ts opened room spot us) (hs : Stops room us cause rest spot) :
    SequenceHalt (statement maxNesting) ts cause rest := by
  -- each case shows that the call which led to this one stops in the same way
  induction h with
  | start => exact hs
  | first _ ih => exact ih (.here hs)
  | next hd hread ih =>
    exact ih (.cons hread (length_le_of_statement hd.opened_add_room hread) hs)
  | enter _ hk hn ho ih => exact ih (container_stop_of_items hk hn ho hs)
  | skip _ hrole ih => exact ih (.skipped hrole hs)
  | property _ hrole hv ih => exact ih (.property hrole hv hs)
  | nested _ hrole ih => exact ih (.inside hrole hs)
  | after hb hrole hread ih =>
    exact ih (.statement hrole hread (length_le_of_statement hb.opened_add_room hread) hs)

end Visits

/-- A container comes next, and as many blocks are open as may be. -/
def AtLimit (ts : List Token) (k : Token) (us : List Token) : Prop :=
  k.kind = .keyword .container ∧ ∃ room, Visits ts maxNesting room .statement (k :: us)

/-- A call of this kind, with this room, is refused a container only at the limit. -/
def Guards (ts : List Token) (room : ℕ) (spot : Spot) : Prop :=
  ∀ opened us rest, Visits ts opened room spot us → Stops room us .tooDeep rest spot →
    ∃ k more, rest = k :: more ∧ AtLimit ts k more

section
variable {ts : List Token} {room : ℕ}

lemma guards_block (h : Guards ts room .statement) : Guards ts room .block := by
  intro opened us rest hv hs
  rw [Stops] at hs
  generalize hcause : Cause.tooDeep = cause at hs
  induction hs with
  | ended | refused _ | value _ _ | endless _ _ _ => cases hcause
  | inside role stopped =>
    subst hcause
    exact h _ _ _ (hv.nested role) stopped
  | skipped role _ ih => exact ih (hv.skip role) hcause
  | property role value _ ih => exact ih (hv.property role value) hcause
  | statement role read _ _ ih => exact ih (hv.after role read) hcause

/-- By induction on the room: a container has one less for the statements inside. -/
theorem guards_statement (ts : List Token) (room : ℕ) : Guards ts room .statement := by
  induction room with
  | zero =>
    -- without room every block is open, and the container itself is refused
    intro opened us rest hv hs
    obtain ⟨k, us, rfl, hk⟩ := container_of_tooDeep hs
    obtain rfl : opened = maxNesting := hv.opened_add_room
    rw [Stops, statement_keyword hk] at hs
    cases hs
    exact ⟨k, us, rfl, hk, 0, hv⟩
  | succ room ih =>
    intro opened us rest hv hs
    obtain ⟨k, us, rfl, hk⟩ := container_of_tooDeep hs
    obtain ⟨n, o, us, rfl, hn, ho, hitems⟩ := items_of_container_tooDeep hk hs
    exact guards_block ih _ _ _ (hv.enter hk hn ho) hitems

theorem guards_document (ts : List Token) (room : ℕ) : Guards ts room .document := by
  intro opened us rest hv hs
  rw [Stops] at hs
  generalize hcause : Cause.tooDeep = cause at hs
  induction hs with
  | here stopped =>
    subst hcause
    exact guards_statement ts room _ _ _ hv.first stopped
  | endless _ _ => cases hcause
  | cons read _ _ ih => exact ih (hv.next read) hcause

end

/-- At the limit the whole document stops, in front of the container. -/
lemma AtLimit.stop {ts us : List Token} {k : Token} (h : AtLimit ts k us) :
    SequenceHalt (statement maxNesting) ts .tooDeep (k :: us) := by
  obtain ⟨hk, room, hv⟩ := h
  obtain rfl : room = 0 := Nat.add_eq_left.mp hv.opened_add_room
  exact hv.stops (statement_keyword hk)

end Parser

namespace SyntaxFault

lemma cause_eq_tooDeep {ts rest : List Token} {cause : Cause}
    (h : (locate ts cause rest).diagnostic.code = some .nestedTooDeeply) : cause = .tooDeep := by
  cases rest with
  | nil => cases h
  | cons t rest =>
    rw [code_locate_cons] at h
    cases cause with
    | tooDeep => rfl
    | expected _ | unknownStatement => cases h

end SyntaxFault

/-- Around no statement of a document more containers stand than may be open at once. -/
lemma length_within_le_of_ok {ts : List Token} {ss : List Statement}
    (h : (parseStatements ts).outcome = .ok ss) :
    ∀ o ∈ Statement.occurrencesAll [] ss, o.within.length ≤ maxNesting := by
  have hdoc := (parseStatements_eq_ok_iff.mp h).document
  intro o ho
  have hle := Statement.length_within_le_all [] ss o ho
  rw [List.length_nil, Nat.zero_add] at hle
  exact hle.trans hdoc.heights_le

/-- No more than `maxNesting` container blocks are open at once, and no more containers stand inside
each other; one more is refused exactly where its keyword comes with so many open, whatever follows
the keyword. -/
theorem parseStatements_nesting_guarded (ts : List Token) :
    (∀ opened room spot us, Parser.Visits ts opened room spot us → opened ≤ maxNesting) ∧
    (∀ ss, (parseStatements ts).outcome = .ok ss →
      ∀ o ∈ Statement.occurrencesAll [] ss, o.within.length ≤ maxNesting) ∧
    (∀ fault, (parseStatements ts).outcome = .error fault ∧
        fault.diagnostic.code = some .nestedTooDeeply ↔
      ∃ k us, Parser.AtLimit ts k us ∧ fault = .tooDeep k) ∧
    ∀ k us, Parser.AtLimit ts k us → ∃ used, ts = used ++ k :: us ∧ ∀ us',
      (parseStatements (used ++ k :: us')).outcome = .error (.tooDeep k) ∧
        faultIndex? (used ++ k :: us') = some used.length := by
  refine ⟨?_, fun ss hss => length_within_le_of_ok hss, ?_, ?_⟩
  · intro opened room spot us hv
    have hroom := hv.opened_add_room
    omega
  · intro fault
    constructor
    · rintro ⟨herror, hcode⟩
      obtain ⟨cause, rest, hstop, rfl⟩ := parseStatements_eq_error_iff.mp herror
      obtain rfl := SyntaxFault.cause_eq_tooDeep hcode
      obtain ⟨k, us, rfl, hlimit⟩ := Parser.guards_document ts maxNesting _ _ _ .start hstop
      exact ⟨k, us, hlimit, rfl⟩
    · rintro ⟨k, us, hlimit, rfl⟩
      exact ⟨parseStatements_eq_error_iff.mpr ⟨_, _, hlimit.stop, rfl⟩, rfl⟩
  · intro k us hlimit
    obtain ⟨used, hused, -, hfirm⟩ := hlimit.stop.firm rfl
    refine ⟨used, hused, ?_⟩
    intro us'
    have hstop := hfirm us' nofun
    exact ⟨parseStatements_eq_error_iff.mpr ⟨_, _, hstop, rfl⟩, faultIndex?_of_stop hstop⟩

/-- Containers inside each other, one more than may be open at once. -/
def overTall : List Token :=
  lexFrom 1 0 (Diagram.tower 0 (maxNesting + 1))

/-- The innermost container is refused, also if nothing follows its keyword. -/
theorem nesting_guarded_of_overTall : ∃ used k us,
    overTall = used ++ k :: us ∧ Parser.AtLimit overTall k us ∧ k.line = maxNesting + 1 ∧
      (parseStatements overTall).outcome = .error (.tooDeep k) ∧
      (parseStatements (used ++ [k])).outcome = .error (.tooDeep k) := by
  let keyword : Token := ⟨.keyword .container, "container", ⟨1014, 1023⟩, 65, 1⟩
  have hfault : (parseStatements overTall).outcome = .error (.tooDeep keyword) :=
    Attempt.outcome_eq_error (by decide +kernel)
  obtain ⟨-, -, hexact, hfirm⟩ := parseStatements_nesting_guarded overTall
  obtain ⟨k, us, hlimit, hk⟩ := (hexact _).mp ⟨hfault, rfl⟩
  obtain rfl := SyntaxFault.tooDeep.inj hk
  obtain ⟨used, hused, hsame⟩ := hfirm _ _ hlimit
  exact ⟨used, keyword, us, hused, hlimit, rfl, hfault, (hsame []).1⟩

end ArchDiagram
