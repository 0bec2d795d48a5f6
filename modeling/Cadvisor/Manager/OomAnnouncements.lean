import Cadvisor.Api.Stream
import Cadvisor.Lib.Polling
import Cadvisor.Manager.Intervals
import Cadvisor.Manager.SpecRefresh

/-!
# Announcing out-of-memory kills

The loops of all containers share the event history and the disk map.  A loop announces
a kill by two events whenever a sample's counter is above that of the loop's sample
before, whatever the other loops do in between and however many samples failed.
-/

set_option autoImplicit false

namespace Cadvisor

open Rises

/-- The loops of the containers and what they share; each has its own copy until its turn. -/
structure Fleet where
  loops : List Housekeeping
  disks : DiskState
  events : EventStore

namespace Fleet

def start (cfg : HousekeepingConfig) (handles : List ContainerHandle) (disks : DiskState)
    (events : EventStore) : Fleet :=
  ⟨handles.map fun handle => Housekeeping.start cfg handle disks events, disks, events⟩

def load (fleet : Fleet) (s : Housekeeping) : Housekeeping :=
  { s with disks := fleet.disks, events := fleet.events }

def save (fleet : Fleet) (i : Nat) (s : Housekeeping) : Fleet :=
  ⟨fleet.loops.set i s, s.disks, s.events⟩

def step (cfg : HousekeepingConfig) (fleet : Fleet) (turn : Nat × Round) : Fleet :=
  match fleet.loops[turn.1]? with
  | none => fleet
  | some s => fleet.save turn.1 (Housekeeping.step cfg (fleet.load s) turn.2)

def run (cfg : HousekeepingConfig) (fleet : Fleet) (turns : List (Nat × Round)) : Fleet :=
  turns.foldl (step cfg) fleet

def Calm (fleet : Fleet) : Prop := ∀ s ∈ fleet.loops, s.status ≠ .panicked

/-- What was sent about a container since `before`. -/
def sentAbout (fleet : Fleet) (before : EventStore) (name : String) : List EventType :=
  ((fleet.events.sent.drop before.sent.length).filter fun e => e.containerName = name).map
    Event.eventType

end Fleet

namespace Housekeeping

def killCounts (s : Housekeeping) : List Nat := s.samples.map fun stats => stats.oomEvents.toNat

def killEvents (name : String) (r : Round) : List Event :=
  [⟨name, r.oomAt, .oom, {}⟩, ⟨name, r.oomKillAt, .oomKill, {}⟩]

theorem recordOom_sent {s : Housekeeping} {r : Round} {stats : ContainerStats}
    {events : EventStore} (recorded : recordOom s r stats = some events) :
    events.sent = s.events.sent ++
      if ∃ p ∈ s.prev, p.oomEvents < stats.oomEvents then killEvents s.handle.name r else [] := by
  unfold recordOom at recorded
  cases isPrev : s.prev with
  | none =>
      simp only [isPrev] at recorded
      cases recorded
      simp
  | some p =>
      simp only [isPrev] at recorded
      by_cases killed : p.oomEvents < stats.oomEvents
      · rw [if_pos killed] at recorded
        obtain ⟨between, first, second⟩ := Option.bind_eq_some_iff.mp recorded
        have firstSent : between.sent = s.events.sent ++ [⟨s.handle.name, r.oomAt, .oom, {}⟩] :=
          @EventStream.recordEvent_sent _ _ ⟨s.handle.name, .oom, r.oomAt⟩ first
        have secondSent :
            events.sent = between.sent ++ [⟨s.handle.name, r.oomKillAt, .oomKill, {}⟩] :=
          @EventStream.recordEvent_sent _ _ ⟨s.handle.name, .oomKill, r.oomKillAt⟩ second
        rw [secondSent, firstSent, List.append_assoc]
        simp [killed, killEvents]
      · rw [if_neg killed] at recorded
        cases recorded
        simp [killed]

/-- What a round without a panic leaves: nothing new, or one more sample. -/
inductive Kept (s next : Housekeeping) (r : Round) : Prop where
  | same (samples : next.samples = s.samples) (prev : next.prev = s.prev)
      (sent : next.events.sent = s.events.sent)
  | sampled (stats : ContainerStats) (samples : next.samples = s.samples ++ [stats])
      (prev : next.prev = some stats)
      (sent : next.events.sent = s.events.sent ++
        if ∃ p ∈ s.prev, p.oomEvents < stats.oomEvents then killEvents s.handle.name r else [])

theorem slowPath_events (s : Housekeeping) (r : Round) : (s.slowPath r).events = s.events := by
  unfold slowPath
  split_ifs <;> rfl

theorem keepSample_kept {cfg : HousekeepingConfig} {s : Housekeeping} {r : Round}
    {stats : ContainerStats} (calm : (keepSample cfg s r stats).status ≠ .panicked) :
    Kept s (keepSample cfg s r stats) r := by
  unfold keepSample at calm ⊢
  cases recorded : recordOom s r stats with
  | none => simp [recorded] at calm
  | some events =>
      simp only [recorded] at calm ⊢
      cases chosen : nextInterval cfg s stats with
      | none => simp [chosen] at calm
      | some interval =>
          simp only [chosen] at calm ⊢
          cases pushed : s.handle.store.push stats with
          | none => simp [pushed] at calm
          | some store => exact .sampled stats rfl rfl (recordOom_sent recorded)

theorem step_kept {cfg : HousekeepingConfig} {s : Housekeeping} {r : Round}
    (calm : (step cfg s r).status ≠ .panicked) : Kept s (step cfg s r) r := by
  by_cases runs : s.status = .running
  · unfold step at calm ⊢
    simp only [runs, ne_eq, not_true_eq_false, if_false] at calm ⊢
    cases sampled : (s.slowPath r).sample cfg r with
    | error e =>
        simp only
        split_ifs
        · exact .same (slowPath_samples s r) (slowPath_prev s r)
            (congrArg EventStore.sent (slowPath_events s r))
        · exact .same (slowPath_samples s r) (slowPath_prev s r)
            (congrArg EventStore.sent (slowPath_events s r))
    | ok result =>
        obtain ⟨stats, disks⟩ := result
        simp only [sampled] at calm ⊢
        cases keepSample_kept calm with
        | same samples prev sent =>
            exact .same (samples.trans (slowPath_samples s r)) (prev.trans (slowPath_prev s r))
              (sent.trans (congrArg EventStore.sent (slowPath_events s r)))
        | sampled stats samples prev sent =>
            have before := congrArg (· ++ [stats]) (slowPath_samples s r)
            refine .sampled stats (samples.trans before) prev (sent.trans ?_)
            rw [slowPath_prev, slowPath_name, slowPath_events]
  · rw [step_stopped cfg r runs]
    exact .same rfl rfl rfl

theorem step_name (cfg : HousekeepingConfig) (s : Housekeeping) (r : Round) :
    (step cfg s r).handle.name = s.handle.name := by
  by_cases runs : s.status = .running
  · exact (step_handle cfg runs r).1
  · rw [step_stopped cfg r runs]

theorem killCounts_concat {s next : Housekeeping} {stats : ContainerStats}
    (samples : next.samples = s.samples ++ [stats]) :
    next.killCounts = s.killCounts ++ [stats.oomEvents.toNat] := by
  rw [killCounts, samples, List.map_append, List.map_singleton, killCounts]

end Housekeeping

namespace Fleet

open Housekeeping (killCounts killEvents Kept)

def announcements (kills : Nat) : List EventType :=
  (List.replicate kills [EventType.oom, EventType.oomKill]).flatten

/-- Each loop remembers its last sample, and what was sent about its container is what
its samples show. -/
structure Accounted (before : EventStore) (names : List String) (fleet : Fleet) : Prop where
  names : fleet.loops.map (fun s => s.handle.name) = names
  sent : before.sent <+: fleet.events.sent
  prev : ∀ s ∈ fleet.loops, s.prev = s.samples.getLast?
  announced : ∀ s ∈ fleet.loops,
    fleet.sentAbout before s.handle.name = announcements (rises s.killCounts)

theorem sentAbout_append {fleet next : Fleet} {before : EventStore} {new : List Event}
    (earlier : before.sent <+: fleet.events.sent)
    (sent : next.events.sent = fleet.events.sent ++ new) (name : String) :
    next.sentAbout before name = fleet.sentAbout before name ++
      (new.filter fun e => e.containerName = name).map Event.eventType := by
  rw [sentAbout, sent, List.drop_append_of_le_length earlier.length_le, List.filter_append,
    List.map_append, sentAbout]

theorem announcements_succ (kills : Nat) :
    announcements (kills + 1) = announcements kills ++ [.oom, .oomKill] := by
  rw [announcements, List.replicate_succ', List.flatten_concat, announcements]

theorem announced_kept {s next : Housekeeping} {r : Round} (kept : Kept s next r)
    (prev : s.prev = s.samples.getLast?) :
    next.prev = next.samples.getLast? ∧ ∃ new, next.events.sent = s.events.sent ++ new ∧
      (∀ e ∈ new, e.containerName = s.handle.name) ∧
      announcements (rises next.killCounts) =
        announcements (rises s.killCounts) ++ new.map Event.eventType := by
  cases kept with
  | same samples prevIs sent =>
      refine ⟨by rw [prevIs, samples, prev], [], by rw [sent, List.append_nil], by simp, ?_⟩
      rw [killCounts, samples, List.map_nil, List.append_nil, killCounts]
  | sampled stats samples prevIs sent =>
      refine ⟨by rw [prevIs, samples, List.getLast?_concat], _, sent, ?_, ?_⟩
      · intro e member
        split_ifs at member
        · rcases List.mem_pair.mp member with rfl | rfl
          · rfl
          · rfl
        · cases member
      · have rose : (∃ last ∈ s.killCounts.getLast?, last < stats.oomEvents.toNat) ↔
            ∃ p ∈ s.prev, p.oomEvents < stats.oomEvents := by
          rw [prev, killCounts, List.getLast?_map]
          simp [UInt64.lt_iff_toNat_lt]
        rw [Housekeeping.killCounts_concat samples, rises_concat]
        by_cases killed : ∃ p ∈ s.prev, p.oomEvents < stats.oomEvents
        · rw [if_pos killed, if_pos (rose.mpr killed), announcements_succ]
          rfl
        · rw [if_neg killed, if_neg (mt rose.mp killed), List.map_nil, List.append_nil]
          rfl

theorem save_accounted {before : EventStore} {names : List String} (distinct : names.Nodup)
    {fleet : Fleet} (inv : Accounted before names fleet) {i : Nat} {s next : Housekeeping}
    (here : fleet.loops[i]? = some s) {r : Round} (named : next.handle.name = s.handle.name)
    (kept : Kept (fleet.load s) next r) : Accounted before names (fleet.save i next) := by
  obtain ⟨inBounds, isLoop⟩ := List.getElem?_eq_some_iff.mp here
  have member : s ∈ fleet.loops := List.mem_of_getElem? here
  obtain ⟨prev, new, sent, own, counted⟩ := announced_kept kept (inv.prev s member)
  have sentIs := @sentAbout_append _ (fleet.save i next) _ _ inv.sent sent
  have sameNames : (fleet.save i next).loops.map (fun s => s.handle.name) = names := by
    have inNames : i < (fleet.loops.map fun s => s.handle.name).length := by
      rwa [List.length_map]
    have same : (fleet.loops.map fun s => s.handle.name)[i] = s.handle.name := by
      rw [List.getElem_map, isLoop]
    rw [save, List.map_set, named, ← same, List.set_getElem_self, inv.names]
  -- A loop of the saved fleet is the one that had its turn, or another with another name.
  have cases : ∀ t ∈ (fleet.save i next).loops,
      t = next ∨ (t ∈ fleet.loops ∧ t.handle.name ≠ s.handle.name) := by
    intro t isOne
    obtain ⟨j, there⟩ := List.mem_iff_getElem?.mp isOne
    rw [save, List.getElem?_set] at there
    split_ifs at there with isTurn
    · exact Or.inl (Option.some.inj there).symm
    · refine Or.inr ⟨List.mem_of_getElem? there, fun sameName => isTurn ?_⟩
      refine (List.getElem?_inj (by rw [← inv.names]; simpa using inBounds) distinct).mp ?_
      rw [← inv.names, List.getElem?_map, List.getElem?_map, here, there]
      exact congrArg some sameName.symm
  constructor
  case names => exact sameNames
  case sent =>
    rw [save, sent]
    exact inv.sent.trans (List.prefix_append _ _)
  case prev =>
    intro t isOne
    rcases cases t isOne with rfl | ⟨old, -⟩
    · exact prev
    · exact inv.prev t old
  case announced =>
    intro t isOne
    rcases cases t isOne with rfl | ⟨old, other⟩
    · have all : new.filter (fun e => e.containerName = t.handle.name) = new :=
        List.filter_eq_self.mpr fun e isNew => decide_eq_true ((own e isNew).trans named.symm)
      rw [sentIs, all, named, inv.announced s member, counted]
      rfl
    · have none : new.filter (fun e => e.containerName = t.handle.name) = [] :=
        List.filter_eq_nil_iff.mpr fun e isNew sameName => other (by
          rw [← of_decide_eq_true sameName]
          exact own e isNew)
      rw [sentIs, none, List.map_nil, List.append_nil, inv.announced t old]

theorem step_accounted {cfg : HousekeepingConfig} {before : EventStore} {names : List String}
    (distinct : names.Nodup) {fleet : Fleet} {turn : Nat × Round}
    (inv : Accounted before names fleet) (calm : (step cfg fleet turn).Calm) :
    Accounted before names (step cfg fleet turn) := by
  unfold step at calm ⊢
  cases here : fleet.loops[turn.1]? with
  | none => exact inv
  | some s =>
      simp only [here] at calm ⊢
      obtain ⟨inBounds, -⟩ := List.getElem?_eq_some_iff.mp here
      have stays : (Housekeeping.step cfg (fleet.load s) turn.2).status ≠ .panicked :=
        calm _ (List.mem_set inBounds _)
      exact save_accounted distinct inv here (Housekeeping.step_name cfg _ turn.2)
        (Housekeeping.step_kept stays)

theorem calm_of_step {cfg : HousekeepingConfig} {fleet : Fleet} {turn : Nat × Round}
    (calm : (step cfg fleet turn).Calm) : fleet.Calm := by
  intro s member panicked
  unfold step at calm
  cases here : fleet.loops[turn.1]? with
  | none => exact calm s (by simpa [here] using member) panicked
  | some t =>
      simp only [here] at calm
      obtain ⟨j, there⟩ := List.mem_iff_getElem?.mp member
      by_cases isTurn : turn.1 = j
      · obtain rfl : s = t := by
          rw [← isTurn, here] at there
          exact (Option.some.inj there).symm
        have stuck : Housekeeping.step cfg (fleet.load s) turn.2 = fleet.load s :=
          Housekeeping.step_stopped cfg turn.2 (by simp [load, panicked])
        obtain ⟨inBounds, -⟩ := List.getElem?_eq_some_iff.mp here
        refine calm (fleet.load s) ?_ panicked
        rw [save, stuck]
        exact List.mem_set inBounds _
      · refine calm s (List.mem_of_getElem? (i := j) ?_) panicked
        rw [save, List.getElem?_set_ne isTurn, there]

theorem run_accounted {cfg : HousekeepingConfig} {before : EventStore} {names : List String}
    (distinct : names.Nodup) (turns : List (Nat × Round)) {fleet : Fleet}
    (inv : Accounted before names fleet) (calm : (run cfg fleet turns).Calm) :
    Accounted before names (run cfg fleet turns) := by
  induction turns using List.reverseRecOn with
  | nil => exact inv
  | append_singleton turns turn ih =>
      have last : run cfg fleet (turns ++ [turn]) = step cfg (run cfg fleet turns) turn :=
        List.foldl_concat ..
      rw [last] at calm ⊢
      exact step_accounted distinct (ih (calm_of_step calm)) calm

/-- However the rounds of the loops are interleaved, what is sent about a container while no
loop panics is an `oom` and an `oomKill` for each rise of the counter between two samples of
its loop in succession.  Where the counter never goes down these are at most the kills since
the first sample, and none only if there were none. -/
theorem kills_announced (cfg : HousekeepingConfig) (handles : List ContainerHandle)
    (distinct : (handles.map ContainerHandle.name).Nodup) (disks : DiskState)
    (events : EventStore) (turns : List (Nat × Round))
    (calm : (run cfg (start cfg handles disks events) turns).Calm) :
    ∀ s ∈ (run cfg (start cfg handles disks events) turns).loops,
      (run cfg (start cfg handles disks events) turns).sentAbout events s.handle.name =
          announcements (rises s.killCounts) ∧
        (s.killCounts.Pairwise (· ≤ ·) → ∀ first ∈ s.killCounts.head?,
          ∀ last ∈ s.killCounts.getLast?,
            first + rises s.killCounts ≤ last ∧ (rises s.killCounts = 0 ↔ first = last)) := by
  intro s member
  have fresh : Accounted events (handles.map ContainerHandle.name)
      (start cfg handles disks events) := by
    constructor
    case names =>
      rw [start, List.map_map]
      rfl
    case sent => exact List.prefix_refl _
    case prev => exact List.forall_mem_map.mpr fun handle _ => rfl
    case announced =>
      refine List.forall_mem_map.mpr fun handle _ => ?_
      rw [sentAbout, start, List.drop_length]
      rfl
  have inv := run_accounted distinct turns fresh calm
  exact ⟨inv.announced s member, fun monotone first isFirst last isLast =>
    rises_of_monotone monotone isFirst isLast⟩

def killedRound (count : String) : Round :=
  Housekeeping.plainRound (some
    { modified := none
      file := fun file =>
        if file = "memory.events" then .content ("oom 9\noom_kill " ++ count ++ "\n")
        else .notFound })

/-- Of two loops one sees two kills at once, between two samples with nothing new. -/
def killedFleet : Fleet :=
  run ⟨1000000000, 60000000000, true, []⟩
    (start ⟨1000000000, 60000000000, true, []⟩
      [Housekeeping.plainStart.handle, { Housekeeping.plainStart.handle with name := "/b" }]
      ⟨none, {}, SortedMap.empty⟩ EventStore.new)
    [(0, killedRound "1"), (1, killedRound "0"), (0, killedRound "1"), (1, killedRound "2"),
      (0, killedRound "1"), (1, killedRound "2")]

theorem kills_announced_two :
    ∃ s ∈ killedFleet.loops, s.handle.name = "/b" ∧
      killedFleet.sentAbout EventStore.new s.handle.name = announcements (rises s.killCounts) ∧
      rises s.killCounts = 1 := by
  have calm : killedFleet.Calm := by
    unfold Calm
    decide +kernel
  have shown : (killedFleet.loops.map fun s => (s.handle.name, rises s.killCounts)) =
      [("/a", 0), ("/b", 1)] := by
    decide +kernel
  have second : ("/b", 1) ∈ killedFleet.loops.map fun s => (s.handle.name, rises s.killCounts) := by
    rw [shown]
    exact List.mem_cons_of_mem _ (List.mem_singleton_self _)
  obtain ⟨s, member, isKilled⟩ := List.mem_map.mp second
  obtain ⟨named, once⟩ := Prod.mk.inj isKilled
  exact ⟨s, member, named, (kills_announced _ _ (by decide) _ _ _ calm s member).1, once⟩

end Fleet

end Cadvisor
