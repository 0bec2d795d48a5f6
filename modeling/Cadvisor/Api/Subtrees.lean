import Cadvisor.Api.V2

/-!
# One subtree, selected three times

The v1 subcontainers, the recursive v2 requests and the events with subcontainers test
a name in three ways.  All of them select the names whose components go on from the
components asked for.
-/

set_option autoImplicit false

namespace Cadvisor

theorem nameMatches_iff {q : EventQuery} {ev : Event} (anchor : WellNamed q.containerName)
    (named : WellNamed ev.containerName) (sub : q.includeSubcontainers = true) :
    q.nameMatches ev = true ↔
      componentsOf q.containerName <+: componentsOf ev.containerName := by
  obtain ⟨path, pathOk, isAnchor⟩ := anchor
  obtain ⟨whole, wholeOk, isName⟩ := named
  rw [EventQuery.nameMatches, ← isAnchor, ← isName, trimEndMatches_cgroupName pathOk, sub,
    Bool.true_and, Bool.or_eq_true, decide_eq_true_eq, selected_iff pathOk wholeOk,
    componentsOf_cgroupName pathOk, componentsOf_cgroupName wholeOk]

/-- The query anchored at the event's own container: its type and time alone decide. -/
def EventQuery.anchoredAt (q : EventQuery) (name : String) : EventQuery :=
  { q with containerName := name }

theorem matches_iff {q : EventQuery} {ev : Event} :
    q.matches ev = true ↔
      q.nameMatches ev = true ∧ (q.anchoredAt ev.containerName).matches ev = true := by
  have own : (q.anchoredAt ev.containerName).nameMatches ev = true := by
    rw [EventQuery.nameMatches, Bool.or_eq_true]
    exact Or.inl (decide_eq_true rfl)
  have unnamed : (q.anchoredAt ev.containerName).matches ev =
      (if ¬ ev.eventType ∈ q.eventTypes then false
      else if ¬ q.startTime.isZero ∧ ev.timestamp < q.startTime then false
      else if ¬ q.endTime.isZero ∧ q.endTime < ev.timestamp then false
      else true) := by
    rw [EventQuery.matches, if_neg (not_not.mpr own)]
    rfl
  rw [unnamed, EventQuery.matches]
  by_cases named : q.nameMatches ev = true
  · rw [if_neg (not_not.mpr named), and_iff_right named]
  · rw [if_pos named, ite_self, and_iff_left_of_imp]
    · exact ⟨nofun, fun isNamed => absurd isNamed named⟩
    · exact fun isNamed => absurd isNamed named

theorem resolve_recursive {m : Manager} (named : m.WellNamed) {name : String}
    (registered : name ∈ m.containers.names) {opts : V2.RequestOptions}
    (byName : opts.idType = V2.typeName) (recursive : opts.recursive = true) :
    ∃ handles, V2.resolve m name opts = .ok handles ∧
      handles.map ContainerHandle.name = m.subtree name := by
  have known : (m.handle name).isSome = true := (m.containers.get?_isSome name).mpr registered
  obtain ⟨handle, found⟩ := Option.isSome_iff_exists.mp known
  refine ⟨_, ?_, Manager.filter_selected named (named name registered)⟩
  rw [V2.resolve, if_neg (not_not.mpr byName), found]
  exact if_neg (not_not.mpr recursive)

/-- What the three of them select below a registered name, and what is listed as its
children. -/
structure SelectsSubtree (m : Manager) (name : String) : Prop where
  members : ∀ k, k ∈ m.subtree name ↔
    k ∈ m.containers.names ∧ componentsOf name <+: componentsOf k
  subcontainers : ∀ req, ∃ handles : List ContainerHandle,
    m.subcontainersInfo name req = .ok (handles.map fun h => m.assembleInfo h req true) ∧
      handles.map ContainerHandle.name = m.subtree name
  recursive : ∀ opts : V2.RequestOptions, opts.idType = V2.typeName → opts.recursive = true →
    ∃ handles, V2.resolve m name opts = .ok handles ∧
      handles.map ContainerHandle.name = m.subtree name
  events : ∀ (q : EventQuery) (ev : Event), q.containerName = name →
    q.includeSubcontainers = true → ev.containerName ∈ m.containers.names →
      (q.matches ev = true ↔ ev.containerName ∈ m.subtree name ∧
        (q.anchoredAt ev.containerName).matches ev = true)
  children : ∀ k, k ∈ (m.directChildren name).map ContainerReference.name ↔
    k ∈ m.containers.names ∧ ∃ c, componentsOf k = componentsOf name ++ [c]

/-- Every registered name is the top of one subtree, however it is asked for; and the
direct children make a tree of the registered names. -/
theorem subtrees_agree {m : Manager} (named : m.WellNamed) :
    (∀ name ∈ m.containers.names, SelectsSubtree m name) ∧
      ∀ k ∈ m.containers.names, k ≠ "/" → Manager.parentName k ∈ m.containers.names →
        ∃! p, p ∈ m.containers.names ∧
          k ∈ (m.directChildren p).map ContainerReference.name := by
  constructor
  · intro name registered
    have nameOk := named name registered
    refine ⟨fun k => Manager.mem_subtree,
      fun req => Manager.subcontainersInfo_ok named registered req,
      fun opts byName recursive => resolve_recursive named registered byName recursive,
      fun q ev anchor sub member => ?_, fun k => Manager.mem_directChildren named nameOk⟩
    subst anchor
    rw [matches_iff, nameMatches_iff nameOk (named _ member) sub, Manager.mem_subtree,
      and_iff_right member]
  · intro k member notRoot parent
    exact Manager.existsUnique_parent named member notRoot parent

def siblings : Manager :=
  let handleOf (name : String) : ContainerHandle :=
    ⟨name, { name }, {}, TimedStore.new .zero, none, false, none, (0, 0)⟩
  { cfg := ⟨.zero, []⟩
    containers := ⟨["/", "/a", "/ab", "/a/b"].map handleOf, by decide⟩
    machineInfo := { timestamp := GoTime.sinceEpoch 0 }
    events := EventStore.new }

theorem subtrees_agree_siblings :
    "/a/b" ∈ siblings.subtree "/a" ∧ "/ab" ∉ siblings.subtree "/a" ∧
      "/ab" ∈ (siblings.directChildren "/").map ContainerReference.name ∧
      "/a/b" ∉ (siblings.directChildren "/").map ContainerReference.name := by
  have named : siblings.WellNamed := by
    intro k member
    have listed : k ∈ ["/", "/a", "/ab", "/a/b"] := member
    simp only [List.mem_cons, List.not_mem_nil, or_false] at listed
    rcases listed with rfl | rfl | rfl | rfl
    · exact ⟨[], by simp, by decide⟩
    · exact ⟨["a"], by decide, by decide⟩
    · exact ⟨["ab"], by decide, by decide⟩
    · exact ⟨["a", "b"], by decide, by decide⟩
  obtain ⟨selects, _⟩ := subtrees_agree named
  have below := selects "/a" (by decide)
  have root := selects "/" (by decide)
  rw [below.members, below.members, root.children, root.children]
  refine ⟨by decide, by decide, ⟨by decide, "ab", by decide⟩, ?_⟩
  rintro ⟨_, c, deeper⟩
  have depths : (componentsOf "/a/b").length = 2 ∧ (componentsOf "/").length = 0 := by decide
  have lengths := congrArg List.length deeper
  rw [List.length_append, depths.1, depths.2, List.length_singleton] at lengths
  omega

end Cadvisor
