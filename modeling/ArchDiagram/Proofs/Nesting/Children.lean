import ArchDiagram.Proofs.Nesting.Forest
import ArchDiagram.Proofs.Statement.Order

/-! The lists of children. They agree with the parents of the entities exactly as long as no entity
is taken off the list along with a namesake; and where no id is shared, a container lists the
entities that were last declared in it, in the order of the source. -/
namespace ArchDiagram
open Declaration

lemma declarations_starts_sublist (os : List Occurrence) :
    ((declarations os).map fun e => e.span.start).Sublist (statementStarts os) := by
  induction os with
  | nil => exact List.Sublist.refl _
  | cons o os ih =>
    obtain ⟨opened, s⟩ := o
    cases s with
    | component span id ps => exact ih.cons_cons span.start
    | container span id ps body => exact ih.cons_cons span.start
    | _ => exact ih.cons _

/-- Declarations come in the order in which they start. -/
theorem sourceDeclarations_ascending (source : String) :
    (sourceDeclarations source).Pairwise fun a b => a.span.start < b.span.start := by
  rw [sourceDeclarations]
  cases h : (parseStatements (tokenize source)).outcome with
  | error fault => exact .nil
  | ok ss =>
    have hs := (parseStatements_starts h).sublist (declarations_starts_sublist _)
    exact List.pairwise_map.mp hs

namespace Declaration

/-- No id is declared both as a component and as a container. -/
def Unshared (es : List Declaration) : Prop :=
  ∀ a ∈ es, ∀ b ∈ es, a.id = b.id → a.kind = b.kind

instance (es : List Declaration) : Decidable (Unshared es) :=
  inferInstanceAs (Decidable (∀ a ∈ es, ∀ b ∈ es, a.id = b.id → a.kind = b.kind))

/-- The last declarations that stand directly in a container, or at top level for `none`, in the
order of the source. -/
def latestIn (es : List Declaration) (parent : Option Id) : List Declaration :=
  (latest es).filter fun e => e.parent = parent

variable {es : List Declaration}

lemma Unshared.not_unlisted (h : Unshared es) (kind : EntityKind) (id : Id) :
    ¬ Unlisted es kind id := by
  rintro ⟨before, f, after, rfl, ⟨rfl, hk, e, g, he, hg, -⟩, -⟩
  obtain ⟨hem, hek, hei⟩ := last?_eq_some he
  obtain ⟨hgm, hgk, hgi⟩ := last?_eq_some hg
  apply hk
  rw [← hek, ← hgk]
  exact h g (by simp [hgm]) e (by simp [hem]) (hgi.trans hei.symm)

lemma Unshared.listed_eq (h : Unshared es) : listed es = latest es := by
  rw [listed, List.filter_eq_self]
  intro e _
  exact decide_eq_true (h.not_unlisted e.kind e.id)

lemma Unshared.listing_eq (h : Unshared es) (c : Id) :
    listing es c = (latestIn es (some c)).map Declaration.id := by
  rw [listing, h.listed_eq, latestIn]

lemma latestIn_sublist (es : List Declaration) (parent : Option Id) :
    (latestIn es parent).Sublist es :=
  List.filter_sublist.trans (latest_sublist es)

/-- Without shared ids the last declarations have distinct ids. -/
lemma Unshared.nodup_latest (h : Unshared es) : ((latest es).map Declaration.id).Nodup := by
  refine List.pairwise_map.mpr ((latest_pairwise es).imp_of_mem ?_)
  intro a b ha hb hne hid
  have hsub := (latest_sublist es).subset
  exact hne ⟨h b (hsub hb) a (hsub ha) hid.symm, hid.symm⟩

lemma Unshared.nodup_latestIn (h : Unshared es) (parent : Option Id) :
    ((latestIn es parent).map Declaration.id).Nodup :=
  h.nodup_latest.sublist (List.filter_sublist.map _)

end Declaration

namespace Diagram

variable {source : String} {d : Diagram}

/-- An id is listed as often as there are entities with it in the container, exactly if none of
them was taken off the list when a namesake was declared again. -/
theorem count_children_eq_iff (h : (parse source).outcome = .ok d) :
    ∀ e ∈ d.containers.entries, ∀ x, e.2.children.count x = d.countIn e.1 x ↔
      ∀ f ∈ named (sourceDeclarations source) x, f.parent = some e.1 →
        ¬ Unlisted (sourceDeclarations source) f.kind x := by
  obtain ⟨hr, -⟩ := parse_reflects h
  rintro ⟨c, k⟩ hk x
  rw [hr.children_eq (OrderedMap.get?_eq_some_iff.mpr hk), hr.countIn_eq]
  exact count_listing_eq_iff _ c x

/-- A component and a container of one name stand in a container, and the component is declared
again at top level. -/
def sharedSource : String :=
  "container p { component x { } container x { } }
component x { }"

/-- The container is taken off the list with the component, though it stays where it was. -/
theorem count_children_ne_of_shared : ∃ d, (parse sharedSource).outcome = .ok d ∧
    ∃ e ∈ d.containers.entries, e.2.children.count "x" ≠ d.countIn e.1 "x" := by
  have hrun : (parse sharedSource).outcome.toOption.any
      (fun d => "p" ∈ d.containers.keys) = true := by
    decide +kernel
  have hunlisted : ¬ ∀ f ∈ named (sourceDeclarations sharedSource) "x", f.parent = some "p" →
      ¬ Unlisted (sourceDeclarations sharedSource) f.kind "x" := by
    decide +kernel
  obtain ⟨d, hd, hkeys⟩ := Attempt.exists_eq_ok hrun
  obtain ⟨⟨c, k⟩, hk, rfl⟩ := List.mem_map.mp (of_decide_eq_true hkeys)
  refine ⟨d, hd, _, hk, fun hcount => hunlisted ?_⟩
  exact (count_children_eq_iff hd _ hk "x").mp hcount

/-- Without shared ids a container lists the entities that were last declared in one of its blocks,
each once, in the order of these declarations. -/
theorem children_eq_latestIn (h : (parse source).outcome = .ok d)
    (hu : Unshared (sourceDeclarations source)) : ∀ e ∈ d.containers.entries,
      e.2.children = (latestIn (sourceDeclarations source) (some e.1)).map Declaration.id ∧
      e.2.children.Nodup ∧
      (latestIn (sourceDeclarations source) (some e.1)).Pairwise
        fun a b => a.span.start < b.span.start := by
  obtain ⟨hr, -⟩ := parse_reflects h
  rintro ⟨c, k⟩ hk
  have hchildren := hr.children_eq (OrderedMap.get?_eq_some_iff.mpr hk)
  rw [hu.listing_eq] at hchildren
  refine ⟨hchildren, ?_, ?_⟩
  · change k.children.Nodup
    rw [hchildren]
    exact hu.nodup_latestIn (some c)
  · exact (sourceDeclarations_ascending source).sublist (latestIn_sublist _ _)

/-- A container moves into another one, where one of its components is declared again. -/
def movedSource : String :=
  "container a { component x { } component y { } }
container b { container a { component x { } } }"

theorem children_eq_of_moved : ∃ d, (parse movedSource).outcome = .ok d ∧
    ∃ e ∈ d.containers.entries, e.1 = "a" ∧ e.2.children = ["y", "x"] := by
  have hrun : (parse movedSource).outcome.toOption.any (fun d => "a" ∈ d.containers.keys) = true := by
    decide +kernel
  have hlatest : (latestIn (sourceDeclarations movedSource) (some "a")).map Declaration.id =
      ["y", "x"] := by
    decide +kernel
  obtain ⟨d, hd, hkeys⟩ := Attempt.exists_eq_ok hrun
  obtain ⟨e, he, hkey⟩ := List.mem_map.mp (of_decide_eq_true hkeys)
  refine ⟨d, hd, e, he, hkey, ?_⟩
  rw [(children_eq_latestIn hd (by decide +kernel) e he).1, hkey, hlatest]

end Diagram

end ArchDiagram
