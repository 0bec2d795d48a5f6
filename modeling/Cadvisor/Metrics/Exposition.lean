import Cadvisor.Metrics.Dimensions
import Cadvisor.Metrics.Series

/-!
# The exposition of a snapshot

Every push has the label names of its family's dimension, so the text is well
formed.  A pushed series is in the text unless its family is one of those that
the family table lacks; they are pushed for containers with a CPU quota.
-/

set_option autoImplicit false

namespace Cadvisor

open SortedSeq Output

/-! ## The names of a dimension -/

theorem extra_names_familyLabel (extra : Extra) : ∀ name ∈ extra.names, FamilyLabel name := by
  have device : FamilyLabel "device" := familyLabel_ofList (by decide)
  cases extra with
  | none => exact List.forall_mem_nil _
  | cpu =>
      refine List.forall_mem_singleton.mpr ?_
      exact familyLabel_ofList (by decide)
  | state =>
      refine List.forall_mem_singleton.mpr ?_
      exact familyLabel_ofList (by decide)
  | failure =>
      refine List.forall_mem_cons.mpr ⟨?_, List.forall_mem_singleton.mpr ?_⟩
      · exact familyLabel_ofList (by decide)
      · exact familyLabel_ofList (by decide)
  | device => exact List.forall_mem_singleton.mpr device
  | operation =>
      refine List.forall_mem_cons.mpr ⟨device, List.forall_mem_cons.mpr ⟨?_,
        List.forall_mem_cons.mpr ⟨?_, List.forall_mem_singleton.mpr ?_⟩⟩⟩
      · exact familyLabel_ofList (by decide)
      · exact familyLabel_ofList (by decide)
      · exact familyLabel_ofList (by decide)
  | interface =>
      refine List.forall_mem_singleton.mpr ?_
      exact familyLabel_ofList (by decide)

theorem extra_names_nodup (extra : Extra) : extra.names.Nodup := by
  cases extra <;> simp [Extra.names]

theorem fixed_names_labelName (own : List String) :
    (∀ name ∈ Dimension.version.names own, LabelName name) ∧
      ∀ name ∈ Dimension.nvm.names own, LabelName name := by
  constructor
  · refine List.forall_mem_cons.mpr ⟨?_, List.forall_mem_cons.mpr ⟨?_, List.forall_mem_cons.mpr
      ⟨?_, List.forall_mem_cons.mpr ⟨?_, List.forall_mem_singleton.mpr ?_⟩⟩⟩⟩
    all_goals exact labelName_ofList (by decide)
  · refine List.forall_mem_cons.mpr ⟨?_, List.forall_mem_cons.mpr ⟨?_, List.forall_mem_cons.mpr
      ⟨?_, List.forall_mem_singleton.mpr ?_⟩⟩⟩
    all_goals exact labelName_ofList (by decide)

theorem fixed_names_sorted (own : List String) :
    (Dimension.version.names own).Pairwise (· < ·) ∧
      (Dimension.nvm.names own).Pairwise (· < ·) := by
  rw [← List.isChain_iff_pairwise, ← List.isChain_iff_pairwise]
  simp only [Dimension.names, List.isChain_cons_cons]
  refine ⟨⟨?_, ?_, ?_, ?_, List.IsChain.singleton _⟩, ?_, ?_, ?_, List.IsChain.singleton _⟩
  all_goals exact Str.ofList_lt (by decide)

theorem machine_names_sublist (own : List String) :
    (Dimension.machine.names own).Sublist (Dimension.nvm.names own) :=
  ((((List.Sublist.refl ["system_uuid"]).cons "mode").cons_cons "machine_id").cons_cons "boot_id")

theorem dimension_names_spec {own : List String} (distinct : own.Nodup)
    (ownKeys : ∀ k ∈ own, OwnKey k) (d : Dimension) :
    (d.names own).Pairwise (· < ·) ∧ ∀ name ∈ d.names own, LabelName name := by
  obtain ⟨versionSorted, nvmSorted⟩ := fixed_names_sorted own
  obtain ⟨versionLegal, nvmLegal⟩ := fixed_names_labelName own
  cases d with
  | version => exact ⟨versionSorted, versionLegal⟩
  | machine =>
      have part := machine_names_sublist own
      exact ⟨nvmSorted.sublist part, fun name member => nvmLegal name (part.subset member)⟩
  | nvm => exact ⟨nvmSorted, nvmLegal⟩
  | bare => exact ⟨List.Pairwise.nil, List.forall_mem_nil _⟩
  | container extra =>
      have legal := extra_names_familyLabel extra
      have nodup : (own ++ extra.names).Nodup := by
        refine List.nodup_append.mpr ⟨distinct, extra_names_nodup extra, ?_⟩
        intro k inOwn name inExtra
        exact (legal name inExtra).2 k (ownKeys k inOwn)
      refine ⟨stableSort_strict nodup, fun name member => ?_⟩
      rcases List.mem_append.mp ((stableSort_perm id _).mem_iff.mp member) with inOwn | inExtra
      · exact (ownKeys name inOwn).labelName
      · exact (legal name inExtra).1

/-! ## The pushes of a snapshot -/

/-- A container whose quota makes the collector push families that have no place
in the table. -/
def PushesUnlisted (opts : MetricsOpts) (h : ContainerHandle) : Prop :=
  opts.enabled "cpu" ∧ QuotaSet h.spec ∧ (h.spec.hasCpu ∨ h.store.latest ≠ none)

theorem gate_shaped {readings : List Reading} {mayMiss : Prop} (opts : MetricsOpts)
    (group : String) (shaped : ∀ r ∈ readings, r.Shaped mayMiss) :
    ∀ r ∈ opts.gate group readings, r.Shaped (opts.enabled group ∧ mayMiss) := by
  unfold MetricsOpts.gate
  split_ifs with on
  · exact fun r member => (shaped r member).mono fun may => ⟨on, may⟩
  · exact List.forall_mem_nil _

theorem latestReadings_shaped (opts : MetricsOpts) (diskMap : SortedMap String DiskInfo)
    (spec : ContainerSpec) (s : ContainerStats) :
    ∀ r ∈ latestReadings opts diskMap spec s, r.Shaped (opts.enabled "cpu" ∧ QuotaSet spec) := by
  have calm : ∀ {group : String} {readings : List Reading},
      (∀ r ∈ readings, r.Shaped False) → ∀ r ∈ opts.gate group readings,
        r.Shaped (opts.enabled "cpu" ∧ QuotaSet spec) :=
    fun shaped r member => (gate_shaped opts _ shaped r member).mono fun may => may.2.elim
  unfold latestReadings
  simp only [List.forall_mem_append]
  refine ⟨⟨⟨⟨⟨⟨?_, ?_⟩, ?_⟩, ?_⟩, ?_⟩, ?_⟩, ?_⟩
  · exact gate_shaped opts "cpu" (cpuReadings_shaped spec s _)
  · exact calm (cpuLoadReadings_shaped s _)
  · exact calm (memoryReadings_shaped s _)
  · exact calm (diskReadings_shaped s _)
  · exact calm (diskIoReadings_shaped diskMap s _)
  · exact calm (networkReadings_shaped s _)
  · exact calm (oomReadings_shaped s _)

namespace Snapshot

theorem readings_shaped (snap : Snapshot) (opts : MetricsOpts) (h : ContainerHandle) :
    ∀ r ∈ snap.readings opts h, r.Shaped (PushesUnlisted opts h) := by
  refine List.forall_mem_append.mpr ⟨fun r member => ?_, ?_⟩
  · refine (specReadings_shaped opts h.spec snap.now r member).mono fun may => ?_
    exact ⟨may.1, may.2.2, Or.inl may.2.1⟩
  · cases latest : h.store.latest with
    | none => exact List.forall_mem_nil _
    | some s =>
        intro r member
        refine (latestReadings_shaped opts _ h.spec s r member).mono fun may => ?_
        exact ⟨may.1, may.2, Or.inr (by simp [latest])⟩

theorem union_ownKey (snap : Snapshot) (opts : MetricsOpts) :
    ∀ k ∈ (snap.union opts).keys, OwnKey k := by
  intro k member
  rw [union, SortedSet.mem_keys_ofKeys] at member
  obtain ⟨h, _, inOwn⟩ := List.mem_flatMap.mp member
  exact ContainerLabels.ownKey_of_mem h.name h.spec h.reference opts k inOwn

/-- A push has the names of a dimension, and it is its family's. -/
def PushShaped (snap : Snapshot) (opts : MetricsOpts) (p : Push) : Prop :=
  ∃ d : Dimension, p.labels.map Prod.fst = d.names (snap.union opts).keys ∧
    ((p.family, d) ∈ dimensions ∨
      (p.family ∈ unlisted ∧ ∃ h ∈ snap.handles, PushesUnlisted opts h))

theorem containerPushes_shaped (snap : Snapshot) (opts : MetricsOpts) {h : ContainerHandle}
    (member : h ∈ snap.handles) : ∀ p ∈ snap.containerPushes opts h, snap.PushShaped opts p := by
  refine List.forall_mem_map.mpr fun r inReadings => ?_
  obtain ⟨extra, names, place⟩ := snap.readings_shaped opts h r inReadings
  refine ⟨Dimension.container extra, ?_, ?_⟩
  · rw [ContainerLabels.withExtra_names, labels, ContainerLabels.names_unioned, names]
    rfl
  · rcases place with listed | ⟨may, missing, _⟩
    · exact Or.inl listed
    · exact Or.inr ⟨missing, h, member, may⟩

theorem machinePushes_shaped (snap : Snapshot) (opts : MetricsOpts) :
    ∀ p ∈ snap.machinePushes, snap.PushShaped opts p := by
  unfold machinePushes
  simp only [List.forall_mem_append]
  refine ⟨⟨?_, ?_⟩, ?_⟩
  · simp only [List.forall_mem_cons]
    refine ⟨?_, ?_, ?_, ?_, ?_, List.forall_mem_nil _⟩
    all_goals
      refine ⟨.machine, rfl, Or.inl ?_⟩
      simp only [dimensions, List.mem_cons, true_or, or_true]
  · refine List.forall_mem_map.mpr fun mode _ => ⟨.nvm, ?_, Or.inl ?_⟩
    · rw [stableSort_map_key]
      exact stableSort_eq_of_perm
        (((List.Perm.swap "mode" "system_uuid" []).cons "machine_id").cons "boot_id")
        ((fixed_names_sorted (snap.union opts).keys).2.imp le_of_lt)
    · simp only [dimensions, List.mem_cons, true_or, or_true]
  · refine List.forall_mem_cons.mpr ⟨⟨.machine, rfl, Or.inl ?_⟩, ?_⟩
    · simp only [dimensions, List.mem_cons, true_or, or_true]
    · refine List.forall_mem_singleton.mpr ⟨.bare, rfl, Or.inl ?_⟩
      simp only [dimensions, List.mem_cons, true_or, or_true]

theorem pushes_shaped (snap : Snapshot) (opts : MetricsOpts) :
    ∀ p ∈ snap.pushes opts, snap.PushShaped opts p := by
  refine List.forall_mem_append.mpr ⟨List.forall_mem_cons.mpr ⟨?_, ?_⟩,
    List.forall_mem_cons.mpr ⟨?_, snap.machinePushes_shaped opts⟩⟩
  · refine ⟨.version, rfl, Or.inl ?_⟩
    simp only [versionPush, dimensions, List.mem_cons, true_or]
  · exact List.forall_mem_flatMap.mpr fun h member => snap.containerPushes_shaped opts member
  · refine ⟨.bare, rfl, Or.inl ?_⟩
    simp only [dimensions, List.mem_cons, true_or, or_true]

theorem PushShaped.names_spec {snap : Snapshot} {opts : MetricsOpts} {p : Push}
    (shaped : snap.PushShaped opts p) :
    (p.labels.map Prod.fst).Pairwise (· < ·) ∧ ∀ label ∈ p.labels, LabelName label.1 := by
  obtain ⟨d, names, _⟩ := shaped
  obtain ⟨sorted, legal⟩ :=
    dimension_names_spec (snap.union opts).keys_nodup (snap.union_ownKey opts) d
  rw [← names] at sorted legal
  exact ⟨sorted, fun label member => legal label.1 (List.mem_map_of_mem member)⟩

theorem PushShaped.plain {snap : Snapshot} {opts : MetricsOpts} {p : Push}
    (shaped : snap.PushShaped opts p) : p.Plain := by
  refine ⟨?_, fun label member => (shaped.names_spec.2 label member).1⟩
  obtain ⟨d, _, listed | ⟨missing, _⟩⟩ := shaped
  · have inTable : p.family ∈ familyNames := dimensions_names ▸ List.mem_map_of_mem listed
    obtain ⟨family, member, sameName⟩ := List.mem_map.mp inTable
    exact sameName ▸ (families_plain family member).1
  · have plain : ∀ name ∈ unlisted, PlainName name := by
      simp only [unlisted, List.forall_mem_cons]
      refine ⟨?_, ?_, ?_, ?_, List.forall_mem_nil _⟩
      all_goals exact plainName_ofList (by decide)
    exact plain p.family missing

theorem PushShaped.names_uniform {snap : Snapshot} {opts : MetricsOpts} {p q : Push}
    (first : snap.PushShaped opts p) (second : snap.PushShaped opts q)
    (same : p.family = q.family) (listed : p.family ∈ familyNames) :
    p.labels.map Prod.fst = q.labels.map Prod.fst := by
  obtain ⟨d, dNames, dPlace⟩ := first
  obtain ⟨e, eNames, ePlace⟩ := second
  have dListed := dPlace.resolve_right fun missing => unlisted_notMem missing.1 listed
  have eListed := ePlace.resolve_right fun missing => unlisted_notMem missing.1 (same ▸ listed)
  have one : d = e := dimension_unique (same ▸ dListed) eListed
  rw [dNames, eNames, one]

/-! ## The text is well formed -/

theorem values_lt {as bs : List (String × String)}
    (names : as.map Prod.fst = bs.map Prod.fst)
    (less : as.map (toLex : String × String → String ×ₗ String) < bs.map toLex) :
    as.map Prod.snd < bs.map Prod.snd := by
  induction as generalizing bs with
  | nil =>
      cases bs with
      | nil => exact absurd less (lt_irrefl _)
      | cons b bs => exact List.nil_lt_cons _ _
  | cons a as ih =>
      cases bs with
      | nil => exact absurd names (List.cons_ne_nil _ _)
      | cons b bs =>
          rw [List.map_cons, List.map_cons] at names less ⊢
          obtain ⟨sameName, restNames⟩ := List.cons.inj names
          rw [List.cons_lt_cons_iff] at less ⊢
          rcases less with first | ⟨same, rest⟩
          · rw [Prod.Lex.toLex_lt_toLex] at first
            rcases first with byName | ⟨_, byValue⟩
            · exact absurd sameName byName.ne
            · exact Or.inl byValue
          · have sameLabel : a = b := toLex.injective same
            exact Or.inr ⟨congrArg Prod.snd sameLabel, ih restNames rest⟩

/-- What a scraper relies on in one family. -/
structure WellFormed (b : Block) : Prop where
  nonempty : b.samples ≠ []
  namesRise : ∀ s ∈ b.samples, (s.labels.map Prod.fst).Pairwise (· < ·)
  namesLegal : ∀ s ∈ b.samples, ∀ label ∈ s.labels, LabelName label.1
  namesUniform : ∀ s ∈ b.samples, ∀ t ∈ b.samples, s.labels.map Prod.fst = t.labels.map Prod.fst
  valuesRise : b.samples.Pairwise fun s t => s.labels.map Prod.snd < t.labels.map Prod.snd

theorem blocks_wellFormed (snap : Snapshot) (opts : MetricsOpts) :
    ∀ b ∈ blocks (snap.pushes opts), WellFormed b := by
  intro b member
  obtain ⟨inTable, someSeries, samplesAre⟩ := (mem_blocks_iff _ b).mp member
  have pushed : ∀ s ∈ b.samples, ∃ p ∈ snap.pushes opts,
      p.family = b.family.name ∧ p.labels = s.labels := by
    intro s inSamples
    obtain ⟨p, inBucket, rfl⟩ := List.mem_map.mp (mem_written (samplesAre ▸ inSamples))
    obtain ⟨inPushes, familyIs⟩ := List.mem_filter.mp inBucket
    exact ⟨p, inPushes, of_decide_eq_true familyIs, rfl⟩
  have uniform : ∀ s ∈ b.samples, ∀ t ∈ b.samples,
      s.labels.map Prod.fst = t.labels.map Prod.fst := by
    intro s inSamples t tInSamples
    obtain ⟨p, pMember, pFamily, pLabels⟩ := pushed s inSamples
    obtain ⟨q, qMember, qFamily, qLabels⟩ := pushed t tInSamples
    rw [← pLabels, ← qLabels]
    refine (snap.pushes_shaped opts p pMember).names_uniform (snap.pushes_shaped opts q qMember)
      (pFamily.trans qFamily.symm) ?_
    exact pFamily ▸ List.mem_map_of_mem inTable
  refine ⟨?_, ?_, ?_, uniform, ?_⟩
  · rw [samplesAre]
    exact written_ne_nil (by simpa using someSeries)
  · intro s inSamples
    obtain ⟨p, pMember, _, pLabels⟩ := pushed s inSamples
    exact pLabels ▸ (snap.pushes_shaped opts p pMember).names_spec.1
  · intro s inSamples
    obtain ⟨p, pMember, _, pLabels⟩ := pushed s inSamples
    exact pLabels ▸ (snap.pushes_shaped opts p pMember).names_spec.2
  · have rising : b.samples.Pairwise fun s t => s.key < t.key := samplesAre ▸ written_sorted _
    exact rising.imp_of_mem fun sMember tMember less => values_lt (uniform _ sMember _ tMember) less

theorem block_lines_oneLine (ryu : Ryu) (snap : Snapshot) (opts : MetricsOpts) :
    ∀ line ∈ (blocks (snap.pushes opts)).flatMap (Block.lines ryu), '\n' ∉ line.toList := by
  refine List.forall_mem_flatMap.mpr fun b member => ?_
  have formed := snap.blocks_wellFormed opts b member
  obtain ⟨namePlain, helpPlain⟩ := families_plain b.family ((mem_blocks_iff _ b).mp member).1
  have name := namePlain.oneLine
  refine List.forall_mem_cons.mpr ⟨?_, List.forall_mem_cons.mpr ⟨?_, ?_⟩⟩
  · simp [name, helpPlain]
  · cases kind : b.family.kind <;> simp [name, Kind.asStr]
  · refine List.forall_mem_map.mpr fun s inSamples => ?_
    exact sampleText_oneLine ryu name
      (fun label inLabels => (formed.namesLegal s inSamples label inLabels).1.oneLine) s.value s.ts

/-- What `render` appends is, line by line, one block for each family that has
samples, in the order of the table, and every block is well formed. -/
theorem render_wellFormed (ryu : Ryu) (snap : Snapshot) (opts : MetricsOpts) (buf : String) :
    let exposition := blocks (snap.pushes opts)
    let text := unlines (exposition.flatMap (Block.lines ryu))
    snap.render ryu opts buf = buf ++ text ∧
      Str.split text '\n' = exposition.flatMap (Block.lines ryu) ++ [""] ∧
      (exposition.map Block.family).Sublist families ∧
      (exposition.map fun b => b.family.name).Nodup ∧
      ∀ b ∈ exposition, WellFormed b := by
  intro exposition text
  have inOrder := blocks_sublist (snap.pushes opts)
  refine ⟨render_eq_blocks ryu (snap.pushes opts) buf,
    split_unlines _ (snap.block_lines_oneLine ryu opts), inOrder, ?_,
    snap.blocks_wellFormed opts⟩
  have names := inOrder.map Family.name
  rw [List.map_map] at names
  exact familyNames_nodup.sublist names

/-! ## Which series are served -/

theorem unlisted_reading (snap : Snapshot) {opts : MetricsOpts} {h : ContainerHandle}
    (pushed : PushesUnlisted opts h) : ∃ r ∈ snap.readings opts h, r.family ∈ unlisted := by
  obtain ⟨cpu, quota, hasCpu | sampled⟩ := pushed
  all_goals have quotaSet : h.spec.cpu.quota ≠ 0 := quota
  · refine ⟨⟨"container_spec_cpu_quota", [], h.spec.cpu.quota.toFloat, none⟩, ?_, ?_⟩
    · refine List.mem_append_left _ ?_
      unfold specReadings
      rw [if_pos ⟨cpu, hasCpu⟩, if_pos quotaSet]
      simp
    · simp only [unlisted, List.mem_cons, true_or, or_true]
  · obtain ⟨s, latest⟩ := Option.ne_none_iff_exists'.mp sampled
    have inCpu : ⟨"container_cpu_cfs_periods_total", [], s.cpu.cfs.periods.toFloat,
        some s.timestamp.timestampMillis⟩ ∈
          cpuReadings h.spec s (some s.timestamp.timestampMillis) := by
      unfold cpuReadings
      rw [if_pos quotaSet]
      simp
    refine ⟨⟨"container_cpu_cfs_periods_total", [], s.cpu.cfs.periods.toFloat,
      some s.timestamp.timestampMillis⟩, List.mem_append_right _ ?_, ?_⟩
    · rw [latest]
      simp [latestReadings, MetricsOpts.gate, cpu, inCpu]
    · simp only [unlisted, List.mem_cons, true_or]

theorem pushes_listed_iff (snap : Snapshot) (opts : MetricsOpts) :
    (∀ p ∈ snap.pushes opts, p.family ∈ familyNames) ↔
      ∀ h ∈ snap.handles, ¬ PushesUnlisted opts h := by
  constructor
  · intro listed h member pushed
    obtain ⟨r, inReadings, missing⟩ := snap.unlisted_reading pushed
    refine unlisted_notMem missing (listed ⟨r.family, (snap.labels opts h).withExtra r.extra,
      r.value, r.ts⟩ ?_)
    refine List.mem_append_left _ (List.mem_cons_of_mem _ (List.mem_flatMap.mpr ⟨h, member, ?_⟩))
    exact List.mem_map_of_mem inReadings
  · intro calm p member
    obtain ⟨d, _, listed | ⟨_, h, inHandles, pushed⟩⟩ := snap.pushes_shaped opts p member
    · exact dimensions_names ▸ List.mem_map_of_mem listed
    · exact absurd pushed (calm h inHandles)

/-- A push is served if and only if its family is in the table. -/
theorem servedOnce_iff (ryu : Ryu) (snap : Snapshot) (opts : MetricsOpts) {p : Push}
    (member : p ∈ snap.pushes opts) :
    ServedOnce ryu (snap.pushes opts) (Str.split (snap.render ryu opts "") '\n') p ↔
      p.family ∈ familyNames := by
  have text : snap.render ryu opts "" =
      unlines ((blocks (snap.pushes opts)).flatMap (Block.lines ryu)) := by
    rw [render, render_eq_blocks, String.empty_append]
  rw [text, split_unlines _ (snap.block_lines_oneLine ryu opts)]
  exact servedOnce_iff_listed ryu (fun q inPushes => (snap.pushes_shaped opts q inPushes).plain)
    member

/-- Every pushed series is served, once and as first pushed, exactly when no
container with a CPU quota has CPU metrics to show. -/
theorem served_iff (ryu : Ryu) (snap : Snapshot) (opts : MetricsOpts) :
    (∀ p ∈ snap.pushes opts,
        ServedOnce ryu (snap.pushes opts) (Str.split (snap.render ryu opts "") '\n') p) ↔
      opts.enabled "cpu" = false ∨ ∀ h ∈ snap.handles, h.spec.cpu.quota ≠ 0 →
        h.spec.hasCpu = false ∧ h.store.latest = none := by
  have listed : (∀ p ∈ snap.pushes opts,
      ServedOnce ryu (snap.pushes opts) (Str.split (snap.render ryu opts "") '\n') p) ↔
        ∀ p ∈ snap.pushes opts, p.family ∈ familyNames :=
    forall₂_congr fun p member => snap.servedOnce_iff ryu opts member
  rw [listed, pushes_listed_iff]
  constructor
  · intro calm
    cases cpu : opts.enabled "cpu" with
    | false => exact Or.inl rfl
    | true =>
        refine Or.inr fun h member quota => ?_
        have quiet : ¬ (h.spec.hasCpu = true ∨ h.store.latest ≠ none) := fun source =>
          calm h member ⟨cpu, quota, source⟩
        obtain ⟨noCpu, noSample⟩ := not_or.mp quiet
        exact ⟨Bool.eq_false_iff.mpr noCpu, not_not.mp noSample⟩
  · intro condition h member pushed
    obtain ⟨cpu, quota, source⟩ := pushed
    rcases condition with disabled | quiet
    · exact absurd cpu (by simp [disabled])
    · obtain ⟨noCpu, noSample⟩ := quiet h member quota
      rcases source with hasCpu | sampled
      · exact absurd hasCpu (by simp [noCpu])
      · exact sampled noSample

/-- One container with a CPU quota, not sampled yet.  Its values are all 0 and 1. -/
def quotaSnapshot : Snapshot where
  versionInfo := {}
  containers :=
    ⟨[ { name := "/"
         reference := { name := "/" }
         spec :=
           { creationTime := GoTime.sinceEpoch 0
             hasCpu := true
             cpu := { limit := 1, quota := 1, period := 1 } }
         store := TimedStore.new ⟨60 * 1000000000, by decide⟩
         initPid := none
         reportsNetwork := true
         rootfsDiff := none
         fsUsage := (0, 0) } ], by simp⟩
  machineInfo := { timestamp := GoTime.sinceEpoch 0 }
  now := GoTime.sinceEpoch 0

def zeroRyu : Ryu := ⟨fun _ => "0.0", fun _ => Str.notMem_ofList (by decide)⟩

/-- The quota is pushed and not served. -/
theorem quota_not_served : ¬ ∀ p ∈ quotaSnapshot.pushes {},
    ServedOnce zeroRyu (quotaSnapshot.pushes {})
      (Str.split (quotaSnapshot.render zeroRyu {} "") '\n') p := by
  intro served
  have listed := (quotaSnapshot.pushes_listed_iff {}).mp fun p member =>
    (quotaSnapshot.servedOnce_iff zeroRyu {} member).mp (served p member)
  refine listed _ (List.mem_singleton.mpr rfl) ⟨rfl, ?_, Or.inl rfl⟩
  exact (by decide : (1 : UInt64) ≠ 0)

end Snapshot

end Cadvisor
