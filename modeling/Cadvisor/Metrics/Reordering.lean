import Cadvisor.Metrics.Exposition

/-!
# The order of the containers

The registry lists its containers in no particular order, and of two series with
one label list the first one pushed is served.  A label list names its container,
so only pushes of one container compete, and their order is the collector's.
-/

set_option autoImplicit false

namespace Cadvisor

open SortedSeq Output

theorem flatMap_eq_of_perm {α β : Type} {g : α → List β} {front back : List α}
    (perm : front.Perm back) (alone : front.Pairwise fun a b => g a = [] ∨ g b = []) :
    front.flatMap g = back.flatMap g := by
  induction perm with
  | nil => rfl
  | cons a rest ih =>
      rw [List.flatMap_cons, List.flatMap_cons, ih alone.of_cons]
  | swap a b rest =>
      have oneEmpty := (List.pairwise_cons.mp alone).1 a (List.mem_cons_self ..)
      rw [List.flatMap_cons, List.flatMap_cons, List.flatMap_cons, List.flatMap_cons]
      rcases oneEmpty with bEmpty | aEmpty
      · rw [bEmpty, List.nil_append, List.nil_append]
      · rw [aEmpty, List.nil_append, List.nil_append]
  | trans first second ihFirst ihSecond =>
      have moved := (first.pairwise_iff fun oneEmpty => oneEmpty.symm).mp alone
      exact (ihFirst alone).trans (ihSecond moved)

namespace Snapshot

/-- The snapshot whose registry lists its containers in another order. -/
def withContainers (snap : Snapshot) (containers : Registry) : Snapshot := { snap with containers }

theorem union_withContainers (snap : Snapshot) {reordered : Registry}
    (same : reordered.handles.Perm snap.containers.handles) (opts : MetricsOpts) :
    (snap.withContainers reordered).union opts = snap.union opts := by
  refine SortedSet.ext_keys fun k => ?_
  unfold union
  rw [SortedSet.mem_keys_ofKeys, SortedSet.mem_keys_ofKeys]
  exact (same.flatMap_right fun h => (ownLabels opts h).keys).mem_iff

theorem containerPushes_withContainers (snap : Snapshot) {reordered : Registry}
    (same : reordered.handles.Perm snap.containers.handles) (opts : MetricsOpts) :
    (snap.withContainers reordered).containerPushes opts = snap.containerPushes opts := by
  have labels : (snap.withContainers reordered).labels opts = snap.labels opts := by
    funext h
    unfold Snapshot.labels
    rw [snap.union_withContainers same]
  funext h
  unfold containerPushes
  rw [labels]
  rfl

theorem id_mem_labels (snap : Snapshot) (opts : MetricsOpts) {h : ContainerHandle}
    (member : h ∈ snap.handles) {p : Push} (pushed : p ∈ snap.containerPushes opts h) :
    ("id", h.name) ∈ p.labels := by
  obtain ⟨r, _, rfl⟩ := List.mem_map.mp pushed
  have isName : (ownLabels opts h).get? "id" = some h.name := ContainerLabels.ownFrom_id ..
  have own : "id" ∈ (ownLabels opts h).keys := by
    rw [← SortedMap.contains_iff_mem_keys, SortedMap.contains, isName]
    rfl
  have inUnion : "id" ∈ (snap.union opts).keys := by
    rw [union, SortedSet.mem_keys_ofKeys]
    exact List.mem_flatMap.mpr ⟨h, member, own⟩
  refine (ContainerLabels.mem_withExtra ..).mpr (Or.inl ?_)
  refine List.mem_map.mpr ⟨"id", inUnion, ?_⟩
  rw [isName]
  rfl

theorem name_eq_of_labels (snap : Snapshot) (opts : MetricsOpts) {a b : ContainerHandle}
    (aMember : a ∈ snap.handles) (bMember : b ∈ snap.handles) {p q : Push}
    (pPushed : p ∈ snap.containerPushes opts a) (qPushed : q ∈ snap.containerPushes opts b)
    (same : p.labels = q.labels) : a.name = b.name := by
  have aName := snap.id_mem_labels opts aMember pPushed
  have bName := snap.id_mem_labels opts bMember qPushed
  rw [← same] at bName
  have nodup : (p.labels.map Prod.fst).Nodup :=
    (snap.containerPushes_shaped opts aMember p pPushed).names_spec.1.imp ne_of_lt
  exact congrArg Prod.snd (List.inj_on_of_nodup_map nodup aName bName rfl)

/-- The series pushed under one family with one label list: one of them is served. -/
def rivals (family : String) (key : List (String ×ₗ String)) (pushes : List Push) :
    List Series :=
  ((pushes.filter fun p => p.family = family).map Push.series).filter fun s => s.key = key

theorem rivals_append (family : String) (key : List (String ×ₗ String))
    (front back : List Push) :
    rivals family key (front ++ back) = rivals family key front ++ rivals family key back := by
  simp [rivals]

theorem rivals_flatMap (family : String) (key : List (String ×ₗ String))
    (handles : List ContainerHandle) (pushesOf : ContainerHandle → List Push) :
    rivals family key (handles.flatMap pushesOf) =
      handles.flatMap fun h => rivals family key (pushesOf h) := by
  unfold rivals
  rw [List.filter_flatMap, List.map_flatMap, List.filter_flatMap]

theorem rivals_alone (snap : Snapshot) (opts : MetricsOpts) (family : String)
    (key : List (String ×ₗ String)) :
    snap.handles.Pairwise fun a b =>
      rivals family key (snap.containerPushes opts a) = [] ∨
        rivals family key (snap.containerPushes opts b) = [] := by
  have distinct : snap.handles.Pairwise fun a b => a.name ≠ b.name :=
    List.pairwise_map.mp snap.containers.nodup
  have pushedBy : ∀ {h : ContainerHandle},
      rivals family key (snap.containerPushes opts h) ≠ [] →
        ∃ p ∈ snap.containerPushes opts h, p.series.key = key := by
    intro h nonempty
    obtain ⟨s, member⟩ := List.exists_mem_of_ne_nil _ nonempty
    obtain ⟨inMap, keyIs⟩ := List.mem_filter.mp member
    obtain ⟨p, inFamily, rfl⟩ := List.mem_map.mp inMap
    exact ⟨p, (List.mem_filter.mp inFamily).1, of_decide_eq_true keyIs⟩
  refine distinct.imp_of_mem fun {a b} aMember bMember different => ?_
  by_contra both
  obtain ⟨aSome, bSome⟩ := not_or.mp both
  obtain ⟨p, pPushed, pKey⟩ := pushedBy aSome
  obtain ⟨q, qPushed, qKey⟩ := pushedBy bSome
  have labels : p.labels = q.labels := (key_eq_iff p.series q.series).mp (pKey.trans qKey.symm)
  exact different (snap.name_eq_of_labels opts aMember bMember pPushed qPushed labels)

theorem rivals_withContainers (snap : Snapshot) {reordered : Registry}
    (same : reordered.handles.Perm snap.containers.handles) (opts : MetricsOpts)
    (family : String) (key : List (String ×ₗ String)) :
    rivals family key ((snap.withContainers reordered).pushes opts) =
      rivals family key (snap.pushes opts) := by
  have containers : reordered.handles.flatMap
        (fun h => rivals family key (snap.containerPushes opts h)) =
      snap.handles.flatMap fun h => rivals family key (snap.containerPushes opts h) :=
    (flatMap_eq_of_perm same.symm (snap.rivals_alone opts family key)).symm
  have shape : ∀ containerPart : List Push,
      rivals family key (snap.versionPush :: containerPart ++
          ⟨"container_scrape_error", [], 0.0, none⟩ :: snap.machinePushes) =
        rivals family key [snap.versionPush] ++ rivals family key containerPart ++
          rivals family key (⟨"container_scrape_error", [], 0.0, none⟩ :: snap.machinePushes) := by
    intro containerPart
    rw [← List.singleton_append, rivals_append, rivals_append]
  calc rivals family key ((snap.withContainers reordered).pushes opts)
      = rivals family key (snap.versionPush ::
          reordered.handles.flatMap (snap.containerPushes opts) ++
            ⟨"container_scrape_error", [], 0.0, none⟩ :: snap.machinePushes) := by
        rw [← snap.containerPushes_withContainers same]
        rfl
    _ = rivals family key (snap.pushes opts) := by
        rw [pushes, shape, shape, rivals_flatMap, rivals_flatMap, containers]

/-- The text of a snapshot does not depend on the order in which the registry lists
its containers. -/
theorem render_withContainers (ryu : Ryu) (snap : Snapshot) (reordered : Registry)
    (same : reordered.handles.Perm snap.containers.handles) (opts : MetricsOpts) (buf : String) :
    (snap.withContainers reordered).render ryu opts buf = snap.render ryu opts buf := by
  have sameBlocks : blocks ((snap.withContainers reordered).pushes opts) =
      blocks (snap.pushes opts) := by
    unfold blocks
    refine List.filterMap_congr fun family _ => ?_
    have sorted : stableSort Series.key
          ((((snap.withContainers reordered).pushes opts).filter fun p =>
            p.family = family.name).map Push.series) =
        stableSort Series.key
          (((snap.pushes opts).filter fun p => p.family = family.name).map Push.series) :=
      stableSort_eq_of_runs fun key => by
        have rival := snap.rivals_withContainers same opts family.name key
        unfold rivals at rival
        convert rival
    have empty : ∀ series : List Series, series = [] ↔ stableSort Series.key series = [] := by
      intro series
      rw [← List.length_eq_zero_iff, ← (stableSort_perm Series.key series).length_eq,
        List.length_eq_zero_iff]
    unfold blockOf written
    simp only [empty (List.map Push.series _), sorted]
  rw [Snapshot.render, Snapshot.render, render_eq_blocks, render_eq_blocks, sameBlocks]

def twiceMounted (name : String) : ContainerHandle where
  name := name
  reference := { name := name }
  spec := { creationTime := GoTime.sinceEpoch 0 }
  store :=
    { buf :=
        [ { timestamp := GoTime.sinceEpoch 0
            filesystem := [{ device := "/dev/sda", limit := 1 }, { device := "/dev/sda" }] } ]
      maxAge := .zero }
  initPid := none
  reportsNetwork := false
  rootfsDiff := none
  fsUsage := (0, 0)

/-- Two such containers, which can be listed in either order. -/
def twiceMountedSnapshot : Snapshot where
  versionInfo := {}
  containers := ⟨[twiceMounted "/a", twiceMounted "/b"], by decide⟩
  machineInfo := { timestamp := GoTime.sinceEpoch 0 }
  now := GoTime.sinceEpoch 0

theorem render_withContainers_twice_mounted :
    (twiceMountedSnapshot.withContainers ⟨[twiceMounted "/b", twiceMounted "/a"], by decide⟩).render
        zeroRyu {} "" = twiceMountedSnapshot.render zeroRyu {} "" :=
  render_withContainers zeroRyu twiceMountedSnapshot _ (List.Perm.swap _ _ _) {} ""

end Snapshot

end Cadvisor
