import Cadvisor.Suite.Client

/-!
# Finding a workload's container

The suite starts workloads whose command lines carry a marker each, and asks for the
processes of the containers that were not there before until every marker is found or the
deadline has passed.  No container is claimed for two markers and no marker found twice.
-/

set_option autoImplicit false

namespace Cadvisor

namespace Cad

/-- Whether a command line carries `marker` as a whole argument. -/
def carries (cmd marker : String) : Bool := (Str.splitWhitespace cmd).any (· == marker)

structure Found where
  marker : String
  name : String
  instant : Int

/-- What the client meets in one turn of the loop: the answers to the listing and to each
request for processes, the time after that request, and the time at the end. -/
structure Turn where
  listing : Fetch
  asked : String → Fetch
  visited : String → Int
  ended : Int

def command (p : Value) : String := (asStr (index p "cmd")).getD ""

/-- The marker that the processes of a container claim it for. -/
def claim (markers : List String) (found : List Found) (procs : List Value) : Option String :=
  procs.findSome? fun p => markers.find? fun m =>
    m ∉ found.map Found.marker && carries (command p) m

section

variable (parse : String → Option Value) (markers : List String)

def visit (turn : Turn) (found : List Found) (name : String) : List Found :=
  match ps parse (turn.asked name) name with
  | .error _ => found
  | .ok procs =>
      match claim markers found procs with
      | none => found
      | some m => found ++ [⟨m, name, turn.visited name⟩]

/-- The loop over the fresh names breaks off when all markers are found. -/
def visitAll (turn : Turn) : List Found → List String → List Found
  | found, [] => found
  | found, name :: rest =>
      if found.length = markers.length then found
      else visitAll turn (visit parse markers turn found name) rest

/-- A container is claimed exactly when it is among those found. -/
def fresh (before : List String) (found : List Found) (listed : List String) : List String :=
  sortByName id (listed.dedup.filter fun n => n ∉ before ∧ n ∉ found.map Found.name)

def turnEnd (before : List String) (turn : Turn) (found : List Found) : List Found :=
  match names parse turn.listing with
  | .error _ => found
  | .ok listed => visitAll parse markers turn found (fresh before found listed)

/-- `none` is a loop that goes on behind these turns. -/
def findFrom (before : List String) (deadline : Int) : List Found → List Turn → Option (List Found)
  | _, [] => none
  | found, turn :: later =>
      let now := turnEnd parse markers before turn found
      if now.length = markers.length ∨ deadline ≤ turn.ended then some now
      else findFrom before deadline now later

def find (before : List String) (deadline : Int) (turns : List Turn) : Option (List Found) :=
  findFrom parse markers before deadline [] turns

end

/-! ## What one turn finds -/

def Turn.Lists (parse : String → Option Value) (turn : Turn) (name : String) : Prop :=
  ∃ listed, names parse turn.listing = .ok listed ∧ name ∈ listed

/-- A process of the container, as the turn is told, carries the marker. -/
def Turn.Shows (parse : String → Option Value) (turn : Turn) (name marker : String) : Prop :=
  ∃ procs, ps parse (turn.asked name) name = .ok procs ∧
    ∃ p ∈ procs, carries (command p) marker = true

theorem claim_eq_some {markers : List String} {found : List Found} {procs : List Value}
    {m : String} (claimed : claim markers found procs = some m) :
    m ∈ markers ∧ m ∉ found.map Found.marker ∧ ∃ p ∈ procs, carries (command p) m = true := by
  obtain ⟨p, member, first⟩ := List.exists_of_findSome?_eq_some claimed
  have holds := List.find?_some first
  rw [Bool.and_eq_true, decide_eq_true_iff] at holds
  exact ⟨List.mem_of_find?_eq_some first, holds.1, p, member, holds.2⟩

theorem claim_eq_none {markers : List String} {found : List Found} {procs : List Value}
    (unclaimed : claim markers found procs = none) {m : String} (isMarker : m ∈ markers)
    (open' : m ∉ found.map Found.marker) {p : Value} (member : p ∈ procs) :
    carries (command p) m = false := by
  have none := List.find?_eq_none.mp (List.findSome?_eq_none_iff.mp unclaimed p member) m isMarker
  rw [Bool.and_eq_true, decide_eq_true_iff, not_and, Bool.not_eq_true] at none
  exact none open'

section

variable {parse : String → Option Value} {markers before : List String} {turn : Turn}
  {found : List Found}

/-- The container is found, or shows no marker that is not found. -/
def Spent (parse : String → Option Value) (markers : List String) (turn : Turn)
    (found : List Found) (name : String) : Prop :=
  name ∈ found.map Found.name ∨
    ∀ m ∈ markers, m ∉ found.map Found.marker → ¬ turn.Shows parse name m

theorem Spent.mono {found' : List Found} {name : String} (grows : found ⊆ found')
    (spent : Spent parse markers turn found name) : Spent parse markers turn found' name := by
  rcases spent with claimed | bare
  · exact Or.inl (List.map_subset _ grows claimed)
  · exact Or.inr fun m isMarker open' =>
      bare m isMarker fun already => open' (List.map_subset _ grows already)

/-- A visit adds the container for a marker it shows, or leaves it without one. -/
theorem visit_cases (parse : String → Option Value) (markers : List String) (turn : Turn)
    (found : List Found) (name : String) :
    (∃ m ∈ markers, m ∉ found.map Found.marker ∧ turn.Shows parse name m ∧
        visit parse markers turn found name = found ++ [⟨m, name, turn.visited name⟩]) ∨
      (visit parse markers turn found name = found ∧
        ∀ m ∈ markers, m ∉ found.map Found.marker → ¬ turn.Shows parse name m) := by
  unfold visit
  cases answer : ps parse (turn.asked name) name with
  | error e =>
      refine Or.inr ⟨rfl, fun m _ _ shows' => ?_⟩
      obtain ⟨procs, isOk, _⟩ := shows'
      cases answer.symm.trans isOk
  | ok procs =>
      dsimp only
      cases claimed : claim markers found procs with
      | none =>
          refine Or.inr ⟨rfl, fun m isMarker open' shows' => ?_⟩
          obtain ⟨others, isOk, p, member, carried⟩ := shows'
          cases answer.symm.trans isOk
          rw [claim_eq_none claimed isMarker open' member] at carried
          cases carried
      | some m =>
          obtain ⟨isMarker, open', p, member, carried⟩ := claim_eq_some claimed
          exact Or.inl ⟨m, isMarker, open', ⟨procs, answer, p, member, carried⟩, rfl⟩

theorem visit_grows (turn : Turn) (found : List Found) (name : String) :
    found ⊆ visit parse markers turn found name := by
  rcases visit_cases parse markers turn found name with
    ⟨m, _, _, _, isVisit⟩ | ⟨isVisit, _⟩
  · rw [isVisit]
    exact List.subset_append_left _ _
  · rw [isVisit]
    exact List.Subset.refl _

theorem visit_spent (turn : Turn) (found : List Found) (name : String) :
    Spent parse markers turn (visit parse markers turn found name) name := by
  rcases visit_cases parse markers turn found name with
    ⟨m, _, _, _, isVisit⟩ | ⟨isVisit, bare⟩
  · rw [isVisit]
    exact Or.inl (by simp)
  · rw [isVisit]
    exact Or.inr bare

theorem visitAll_grows (turn : Turn) (fresh : List String) (found : List Found) :
    found ⊆ visitAll parse markers turn found fresh := by
  induction fresh generalizing found with
  | nil => exact List.Subset.refl _
  | cons name rest ih =>
      rw [visitAll]
      split_ifs
      · exact List.Subset.refl _
      · exact List.Subset.trans (visit_grows turn found name) (ih _)

theorem visitAll_spent (turn : Turn) (fresh : List String) (found : List Found) :
    (visitAll parse markers turn found fresh).length = markers.length ∨
      ∀ name ∈ fresh, Spent parse markers turn (visitAll parse markers turn found fresh) name := by
  induction fresh generalizing found with
  | nil => exact Or.inr (List.forall_mem_nil _)
  | cons name rest ih =>
      rw [visitAll]
      split_ifs with all
      · exact Or.inl all
      · rcases ih (visit parse markers turn found name) with done | spent
        · exact Or.inl done
        · refine Or.inr (List.forall_mem_cons.mpr ⟨?_, spent⟩)
          exact (visit_spent turn found name).mono (visitAll_grows turn rest _)

/-! ## What all turns find -/

structure Shown (parse : String → Option Value) (markers before : List String)
    (turns : List Turn) (f : Found) : Prop where
  isMarker : f.marker ∈ markers
  new : f.name ∉ before
  seen : ∃ turn ∈ turns, turn.Lists parse f.name ∧ turn.Shows parse f.name f.marker ∧
    f.instant = turn.visited f.name

/-- The invariant of the loop: markers and containers are matched one to one, and every
match was seen. -/
structure Matched (parse : String → Option Value) (markers before : List String)
    (turns : List Turn) (found : List Found) : Prop where
  markersOnce : (found.map Found.marker).Nodup
  namesOnce : (found.map Found.name).Nodup
  shown : ∀ f ∈ found, Shown parse markers before turns f

theorem Shown.mono {turns turns' : List Turn} {f : Found} (more : turns ⊆ turns')
    (shown : Shown parse markers before turns f) : Shown parse markers before turns' f := by
  obtain ⟨seenAt, member, seen⟩ := shown.seen
  exact ⟨shown.isMarker, shown.new, seenAt, more member, seen⟩

theorem Matched.visit {turns : List Turn} {name : String}
    (matched : Matched parse markers before turns found) (isTurn : turn ∈ turns)
    (lists : turn.Lists parse name) (new : name ∉ before)
    (unclaimed : name ∉ found.map Found.name) :
    Matched parse markers before turns (Cad.visit parse markers turn found name) := by
  rcases visit_cases parse markers turn found name with
    ⟨m, isMarker, open', shows', isVisit⟩ | ⟨isVisit, _⟩
  · rw [isVisit]
    constructor
    · rw [List.map_append, List.map_singleton, ← List.concat_eq_append]
      exact matched.markersOnce.concat open'
    · rw [List.map_append, List.map_singleton, ← List.concat_eq_append]
      exact matched.namesOnce.concat unclaimed
    · intro f member
      rcases List.mem_append.mp member with earlier | isNew
      · exact matched.shown f earlier
      · rw [List.mem_singleton.mp isNew]
        exact ⟨isMarker, new, turn, isTurn, lists, shows', rfl⟩
  · rw [isVisit]
    exact matched

theorem mem_names_visit {name other : String}
    (member : other ∈ (visit parse markers turn found name).map Found.name) :
    other = name ∨ other ∈ found.map Found.name := by
  rcases visit_cases parse markers turn found name with
    ⟨m, _, _, _, isVisit⟩ | ⟨isVisit, _⟩
  · rw [isVisit, List.map_append, List.mem_append, List.map_singleton] at member
    exact member.symm.imp_left List.mem_singleton.mp
  · rw [isVisit] at member
    exact Or.inr member

theorem Matched.visitAll {turns : List Turn} {fresh : List String} (isTurn : turn ∈ turns)
    (once : fresh.Nodup) (fits : ∀ name ∈ fresh, turn.Lists parse name ∧ name ∉ before)
    (matched : Matched parse markers before turns found)
    (unclaimed : ∀ name ∈ fresh, name ∉ found.map Found.name) :
    Matched parse markers before turns (Cad.visitAll parse markers turn found fresh) := by
  induction fresh generalizing found with
  | nil => exact matched
  | cons name rest ih =>
      obtain ⟨notLater, restOnce⟩ := List.nodup_cons.mp once
      obtain ⟨fitsFirst, fitsRest⟩ := List.forall_mem_cons.mp fits
      obtain ⟨unclaimedFirst, unclaimedRest⟩ := List.forall_mem_cons.mp unclaimed
      rw [Cad.visitAll]
      split_ifs
      · exact matched
      · refine ih restOnce fitsRest
          (matched.visit isTurn fitsFirst.1 fitsFirst.2 unclaimedFirst)
          fun other inRest found' => ?_
        rcases mem_names_visit found' with same | earlier
        · exact notLater (same ▸ inRest)
        · exact unclaimedRest other inRest earlier

theorem mem_fresh {listed : List String} {name : String} :
    name ∈ fresh before found listed ↔
      name ∈ listed ∧ name ∉ before ∧ name ∉ found.map Found.name := by
  rw [fresh, mem_sortByName, List.mem_filter, List.mem_dedup, decide_eq_true_iff]

theorem fresh_nodup (before : List String) (found : List Found) (listed : List String) :
    (fresh before found listed).Nodup :=
  (List.mergeSort_perm _ _).nodup_iff.mpr ((List.nodup_dedup _).filter _)

theorem Matched.turnEnd {turns : List Turn} (isTurn : turn ∈ turns)
    (matched : Matched parse markers before turns found) :
    Matched parse markers before turns (Cad.turnEnd parse markers before turn found) := by
  unfold Cad.turnEnd
  cases answer : names parse turn.listing with
  | error e => exact matched
  | ok listed =>
      refine matched.visitAll isTurn (fresh_nodup before found listed) (fun name member => ?_)
        fun name member => (mem_fresh.mp member).2.2
      obtain ⟨inList, new, _⟩ := mem_fresh.mp member
      exact ⟨⟨listed, answer, inList⟩, new⟩

theorem turnEnd_spent (before : List String) (turn : Turn) (found : List Found) :
    (turnEnd parse markers before turn found).length = markers.length ∨
      ∀ name, turn.Lists parse name → name ∉ before →
        Spent parse markers turn (turnEnd parse markers before turn found) name := by
  unfold turnEnd
  cases answer : names parse turn.listing with
  | error e =>
      refine Or.inr fun name lists _ => ?_
      obtain ⟨listed, isOk, _⟩ := lists
      cases answer.symm.trans isOk
  | ok listed =>
      dsimp only
      rcases visitAll_spent turn (fresh before found listed) found with done | spent
      · exact Or.inl done
      · refine Or.inr fun name lists new => ?_
        obtain ⟨others, isOk, inList⟩ := lists
        cases answer.symm.trans isOk
        by_cases claimed : name ∈ found.map Found.name
        · exact Or.inl (List.map_subset _ (visitAll_grows turn _ found) claimed)
        · exact spent name (mem_fresh.mpr ⟨inList, new, claimed⟩)

/-- What the loop returns: a matching that was seen, and either it is full or the deadline has
passed and the last turn had nothing left to claim. -/
theorem findFrom_returns {deadline : Int} {turns seen : List Turn} {result : List Found}
    (matched : Matched parse markers before seen found)
    (returns : findFrom parse markers before deadline found turns = some result) :
    Matched parse markers before (seen ++ turns) result ∧
      (result.length = markers.length ∨ ∃ last ∈ turns, deadline ≤ last.ended ∧
        ∀ name, last.Lists parse name → name ∉ before →
          Spent parse markers last result name) := by
  induction turns generalizing found seen with
  | nil => cases returns
  | cons turn later ih =>
      have isTurn : turn ∈ seen ++ [turn] := List.mem_append_right _ (List.mem_singleton_self _)
      have sofar : Matched parse markers before (seen ++ [turn]) found :=
        { matched with
          shown := fun f member => (matched.shown f member).mono (List.subset_append_left _ _) }
      have now := sofar.turnEnd isTurn
      have regroup : seen ++ turn :: later = seen ++ [turn] ++ later := by
        rw [List.append_assoc, List.singleton_append]
      rw [findFrom] at returns
      rw [regroup]
      split_ifs at returns with stops
      · cases returns
        constructor
        · exact { now with
            shown := fun f member => (now.shown f member).mono (List.subset_append_left _ _) }
        · rcases turnEnd_spent before turn found with done | spent
          · exact Or.inl done
          · rcases stops with full | late
            · exact Or.inl full
            · exact Or.inr ⟨turn, List.mem_cons_self, late, spent⟩
      · obtain ⟨final, ends⟩ := ih now returns
        refine ⟨final, ends.imp_right ?_⟩
        rintro ⟨last, member, ended⟩
        exact ⟨last, List.mem_cons_of_mem _ member, ended⟩

theorem findFrom_isSome {deadline : Int} {turns : List Turn}
    (late : ∃ turn ∈ turns, deadline ≤ turn.ended) (found : List Found) :
    (findFrom parse markers before deadline found turns).isSome := by
  induction turns generalizing found with
  | nil =>
      obtain ⟨_, member, _⟩ := late
      cases member
  | cons turn later ih =>
      rw [findFrom]
      split_ifs with stops
      · rfl
      · apply ih
        obtain ⟨last, member, ended⟩ := late
        rcases List.mem_cons.mp member with rfl | inLater
        · exact absurd (Or.inr ended) stops
        · exact ⟨last, inLater, ended⟩

theorem Matched.full {turns : List Turn} (matched : Matched parse markers before turns found)
    (full : found.length = markers.length) : ∀ m ∈ markers, m ∈ found.map Found.marker := by
  have within : found.map Found.marker ⊆ markers := by
    intro m member
    obtain ⟨f, inFound, rfl⟩ := List.mem_map.mp member
    exact (matched.shown f inFound).isMarker
  have some' : (found.map Found.marker).Subperm markers :=
    List.subperm_of_subset matched.markersOnce within
  have all := some'.perm_of_length_le (by rw [List.length_map, full])
  exact fun m isMarker => all.mem_iff.mpr isMarker

end

end Cad

end Cadvisor
