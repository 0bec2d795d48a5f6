import Cadvisor.Manager.Lifecycle

/-!
# The order of creation and deletion events

A call changes the registry in one step and broadcasts what it did in a later one, so
two calls for one name can broadcast in the other order than they changed the
registry.  The events come in turn where no call overtakes another.
-/

set_option autoImplicit false

namespace Cadvisor

/-! ## Two kinds in turn -/

section

variable {α : Type}

/-- `due`, then `after`, then `due` again, up to any point. -/
def InTurn (due after : α) : List α → Prop
  | [] => True
  | x :: rest => x = due ∧ InTurn after due rest

/-- Whose turn it is can be told from the numbers of both kinds. -/
theorem inTurn_concat [DecidableEq α] {due after : α} (different : due ≠ after) (xs : List α) :
    (InTurn due after (xs ++ [due]) ↔
      InTurn due after xs ∧ (xs.count due : Int) - xs.count after = 0) ∧
    (InTurn due after (xs ++ [after]) ↔
      InTurn due after xs ∧ (xs.count due : Int) - xs.count after = 1) := by
  induction xs generalizing due after with
  | nil => simp [InTurn, Ne.symm different]
  | cons x rest ih =>
      obtain ⟨ihAfter, ihDue⟩ := ih different.symm
      simp only [List.cons_append, InTurn, and_assoc]
      constructor
      · refine and_congr_right fun isDue => ihDue.trans (and_congr_right fun _ => ?_)
        rw [isDue, List.count_cons_self, List.count_cons_of_ne different]
        omega
      · refine and_congr_right fun isDue => ihAfter.trans (and_congr_right fun _ => ?_)
        rw [isDue, List.count_cons_self, List.count_cons_of_ne different]
        omega

theorem inTurn_of_append {due after : α} {xs ys : List α}
    (inTurn : InTurn due after (xs ++ ys)) : InTurn due after xs := by
  induction xs generalizing due after with
  | nil => trivial
  | cons x rest ih => exact ⟨inTurn.1, ih inTurn.2⟩

end

theorem EventStore.keep_sent {store events : EventStore} {event : Event}
    (kept : store.keep event = some events) : events.sent = store.sent := by
  simp only [EventStore.keep] at kept
  split at kept
  · cases kept
  · rw [Option.some.injEq] at kept
    rw [← kept]

namespace Lifecycle

def isAbout (name : String) (event : Event) : Bool :=
  event.containerName = name ∧
    (event.eventType = .containerCreation ∨ event.eventType = .containerDeletion)

def announced (s : Lifecycle) (name : String) : List EventType :=
  (s.manager.events.sent.filter (isAbout name)).map Event.eventType

/-- The call has inserted a handle and will broadcast that. -/
def owesCreation (name : String) : Call → Bool
  | .add other _ (.send _) => other = name
  | _ => false

def owesDeletion (name : String) : Call → Bool
  | .remove other (.abort _) => other = name
  | .remove other .send => other = name
  | _ => false

/-- By how many the creations still owed outnumber the deletions, less one if the name
is registered. -/
def balance (s : Lifecycle) (name : String) : Int :=
  s.calls.countP (owesCreation name) - s.calls.countP (owesDeletion name) -
    if name ∈ s.names then 1 else 0

/-- A creation is broadcast only while as many creations are owed as deletions, and one
more if the name is registered; a deletion only while one less than that is owed. -/
def Orderly (name : String) (s : Lifecycle) : Action → Prop
  | .proceed i _ =>
      match s.calls[i]? with
      | some (.add other _ (.send _)) => other = name → s.balance name = 0
      | some (.remove other .send) => other = name → s.balance name = -1
      | _ => True
  | _ => True

/-! ## What one step does -/

def owed (name : String) (call : Call) : Option EventType :=
  if owesCreation name call then some .containerCreation
  else if owesDeletion name call then some .containerDeletion
  else none

/-- What call `i` has changed about the name and not broadcast yet. -/
def unsent (s : Lifecycle) (name : String) (i : Nat) : Option EventType :=
  s.calls[i]?.bind (owed name)

def broadcasts (s : Lifecycle) (name : String) : Action → Bool
  | .proceed i _ =>
      match s.calls[i]? with
      | some (.add other _ (.send _)) => other = name
      | some (.remove other .send) => other = name
      | _ => false
  | _ => false

/-- What call `i` does to the name in one step. -/
inductive Turn (name : String) (s next : Lifecycle) (i : Nat) (sends : Prop) : Prop where
  | silent (notSend : ¬ sends) (announced : next.announced name = s.announced name)
      (names : name ∈ next.names ↔ name ∈ s.names) (unsent : next.unsent name = s.unsent name)
  | changed (notSend : ¬ sends) (announced : next.announced name = s.announced name)
      (names : name ∈ next.names ↔ name ∉ s.names) (idle : s.unsent name i = none)
      (unsent : next.unsent name = Function.update (s.unsent name) i
        (some (if name ∈ s.names then .containerDeletion else .containerCreation)))
  | sent (isSend : sends) (kind : EventType) (due : s.unsent name i = some kind)
      (announced : next.announced name = s.announced name ++ [kind])
      (names : name ∈ next.names ↔ name ∈ s.names)
      (unsent : next.unsent name = Function.update (s.unsent name) i none)

theorem unsent_of_call {s : Lifecycle} {i : Nat} {call : Call} (name : String)
    (here : s.calls[i]? = some call) : s.unsent name i = owed name call := by
  rw [unsent, here, Option.bind_some]

theorem unsent_goOn {s : Lifecycle} {i : Nat} {call : Call} (here : s.calls[i]? = some call)
    (name : String) (next : Call) :
    (s.goOn i next).unsent name = Function.update (s.unsent name) i (owed name next) := by
  have inside : i < s.calls.length := (List.getElem?_eq_some_iff.mp here).1
  funext j
  rw [Function.update_apply]
  split_ifs with same
  · simp [unsent, goOn, same, inside]
  · simp [unsent, goOn, Ne.symm same]

theorem unsent_goOn_same {s : Lifecycle} {i : Nat} {call : Call}
    (here : s.calls[i]? = some call) {name : String} (next : Call)
    (same : owed name next = owed name call) :
    (s.goOn i next).unsent name = s.unsent name := by
  rw [unsent_goOn here, same, ← unsent_of_call name here, Function.update_eq_self]

theorem unsent_append (s : Lifecycle) {call : Call} {name : String}
    (nothing : owed name call = none) :
    Lifecycle.unsent { s with calls := s.calls ++ [call] } name = s.unsent name := by
  funext j
  unfold unsent
  rcases Nat.lt_trichotomy j s.calls.length with before | rfl | behind
  · rw [List.getElem?_append_left before]
  · simp [nothing]
  · rw [List.getElem?_eq_none (by simp; omega), List.getElem?_eq_none (Nat.le_of_lt behind)]

theorem announced_congr {s next : Lifecycle} (name : String)
    (same : next.manager.events.sent = s.manager.events.sent) :
    next.announced name = s.announced name := by
  unfold announced
  rw [same]

theorem announced_send (s : Lifecycle) (event : Event) (name : String) :
    (s.withEvents (s.manager.events.send event)).announced name = s.announced name ++
      if isAbout name event then [event.eventType] else [] := by
  unfold announced withEvents EventStore.send
  rw [List.filter_append, List.map_append]
  refine congrArg (s.announced name ++ ·) ?_
  cases about : isAbout name event <;> simp [about]

theorem announced_send_about (s : Lifecycle) {event : Event} {name : String}
    (about : isAbout name event = true) :
    (s.withEvents (s.manager.events.send event)).announced name =
      s.announced name ++ [event.eventType] := by
  rw [announced_send, if_pos about]

theorem announced_send_other (s : Lifecycle) {event : Event} {name : String}
    (other : event.containerName ≠ name) :
    (s.withEvents (s.manager.events.send event)).announced name = s.announced name := by
  have notAbout : isAbout name event = false := decide_eq_false fun about => other about.1
  rw [announced_send, notAbout, if_neg Bool.false_ne_true, List.append_nil]

theorem addStep_turn {s next : Lifecycle} {answers : Answers} {i : Nat} {other : String}
    {recordCreation : Bool} {stage : AddNext other} (name : String)
    (here : s.calls[i]? = some (.add other recordCreation stage))
    (records : other = name → recordCreation = true)
    (step : s.addStep answers i other recordCreation stage = some next) :
    Turn name s next i (s.broadcasts name (.proceed i answers) = true) := by
  have quiet : (∀ created, stage ≠ .send created) →
      ¬ s.broadcasts name (.proceed i answers) = true := by
    intro notSend
    simp only [broadcasts, here]
    cases stage <;> first | exact Bool.false_ne_true | exact absurd rfl (notSend _)
  have stays : ∀ stage' : AddNext other, (∀ created, stage ≠ .send created) →
      (∀ created, stage' ≠ .send created) →
      (s.goOn i (.add other recordCreation stage')).unsent name = s.unsent name := by
    intro stage' notSend notSend'
    have nothing : owed name (.add other recordCreation stage) = none := by
      cases stage <;> first | rfl | exact absurd rfl (notSend _)
    have nothing' : owed name (.add other recordCreation stage') = none := by
      cases stage' <;> first | rfl | exact absurd rfl (notSend' _)
    exact unsent_goOn_same here _ (nothing'.trans nothing.symm)
  cases stage with
  | check =>
      simp only [addStep] at step
      split_ifs at step
      all_goals
        cases step
        exact .silent (quiet (by simp)) rfl Iff.rfl (stays _ (by simp) (by simp))
  | buildSpec =>
      simp only [addStep] at step
      split at step
      all_goals
        cases step
        exact .silent (quiet (by simp)) rfl Iff.rfl (stays _ (by simp) (by simp))
  | inspect spec =>
      cases step
      exact .silent (quiet (by simp)) rfl Iff.rfl (stays _ (by simp) (by simp))
  | insert handle named =>
      simp only [addStep] at step
      split at step
      · cases step
        exact .silent (quiet (by simp)) rfl Iff.rfl (stays _ (by simp) (by simp))
      · rename_i containers inserted
        cases step
        obtain ⟨absent, namesAre⟩ := Registry.insertNew_eq_some inserted
        rw [named] at absent namesAre
        have moved := unsent_goOn (s := s.withContainers containers) here name
          (.add other recordCreation (if recordCreation then .send handle.spec.creationTime
            else .spawn))
        have member : name ∈ containers.names ↔ name = other ∨ name ∈ s.names := by
          rw [namesAre, List.mem_cons]
          rfl
        by_cases same : other = name
        · have unknown : name ∉ s.names := same ▸ absent
          have now : name ∈ containers.names := member.mpr (Or.inl same.symm)
          refine .changed (quiet (by simp)) rfl (iff_of_true now unknown)
            (unsent_of_call name here) (moved.trans ?_)
          rw [if_neg unknown]
          exact congrArg (Function.update _ i) (by simp [owed, owesCreation, records same, same])
        · refine .silent (quiet (by simp)) rfl (member.trans (or_iff_right (Ne.symm same)))
            (unsent_goOn_same (s := s.withContainers containers) here _ ?_)
          cases recordCreation <;> simp [owed, owesCreation, owesDeletion, same]
  | send created =>
      cases step
      let event : Event :=
        { containerName := other, timestamp := created, eventType := .containerCreation }
      by_cases same : other = name
      · have about : isAbout name event = true := decide_eq_true ⟨same, Or.inl rfl⟩
        refine .sent ?_ .containerCreation ?_ (s.announced_send_about about) Iff.rfl
          (unsent_goOn here name (.add other recordCreation (.keep event)))
        · simp [broadcasts, here, same]
        · rw [unsent_of_call name here]
          simp [owed, owesCreation, same]
      · refine .silent ?_ (s.announced_send_other same) Iff.rfl
          (unsent_goOn_same here (.add other recordCreation (.keep event)) ?_)
        · simp [broadcasts, here, same]
        · simp [owed, owesCreation, owesDeletion, same]
  | keep event =>
      simp only [addStep] at step
      split at step
      · cases step
      · rename_i events kept
        cases step
        exact .silent (quiet (by simp)) (announced_congr name (EventStore.keep_sent kept)) Iff.rfl
          (stays _ (by simp) (by simp))
  | spawn =>
      cases step
      exact .silent (quiet (by simp)) rfl Iff.rfl
        (stays (.store s.tasks.length) (by simp) (by simp))
  | store task =>
      cases step
      exact .silent (quiet (by simp)) rfl Iff.rfl (stays .returned (by simp) (by simp))
  | returned => cases step

theorem removeStep_turn {s next : Lifecycle} {answers : Answers} {i : Nat} {other : String}
    {stage : RemoveNext} (name : String) (here : s.calls[i]? = some (.remove other stage))
    (step : s.removeStep answers i other stage = some next) :
    Turn name s next i (s.broadcasts name (.proceed i answers) = true) := by
  have quiet : stage ≠ .send → ¬ s.broadcasts name (.proceed i answers) = true := by
    intro notSend
    simp only [broadcasts, here]
    cases stage <;> first | exact Bool.false_ne_true | exact absurd rfl notSend
  cases stage with
  | unregister =>
      simp only [removeStep] at step
      split at step
      · cases step
        exact .silent (quiet (by simp)) rfl Iff.rfl (unsent_goOn_same here _ rfl)
      · rename_i handle found
        cases step
        have registered : other ∈ s.names :=
          (s.manager.containers.get?_isSome other).mp (by rw [found]; rfl)
        have member := s.manager.containers.mem_names_remove other name
        have moved := unsent_goOn (s := s.withContainers (s.manager.containers.remove other)) here
          name (.remove other (.abort (s.holder other)))
        by_cases same : name = other
        · have known : name ∈ s.names := same ▸ registered
          refine .changed (quiet (by simp)) rfl (iff_of_false ?_ (not_not_intro known))
            (unsent_of_call name here) (moved.trans ?_)
          · exact fun kept => (member.mp kept).2 same
          · rw [if_pos known]
            exact congrArg (Function.update _ i)
              (by simp [owed, owesCreation, owesDeletion, same])
        · refine .silent (quiet (by simp)) rfl (member.trans (and_iff_left same))
            (unsent_goOn_same (s := s.withContainers (s.manager.containers.remove other)) here _ ?_)
          simp [owed, owesCreation, owesDeletion, Ne.symm same]
  | abort handle =>
      cases step
      obtain ⟨sameCalls, sameManager⟩ := s.takeTask_frame handle
      have here' : (s.takeTask handle).calls[i]? = some (.remove other (.abort handle)) :=
        sameCalls ▸ here
      have sameUnsent : (s.takeTask handle).unsent name = s.unsent name := by
        unfold unsent
        rw [sameCalls]
      refine .silent (quiet (by simp))
        (announced_congr name (congrArg (fun m => m.events.sent) sameManager)) ?_
        ((unsent_goOn_same here' (.remove other .send) rfl).trans sameUnsent)
      change name ∈ (s.takeTask handle).manager.containers.names ↔ _
      rw [sameManager]
      rfl
  | send =>
      cases step
      let event : Event :=
        { containerName := other, timestamp := answers.now, eventType := .containerDeletion }
      by_cases same : other = name
      · have about : isAbout name event = true := decide_eq_true ⟨same, Or.inr rfl⟩
        refine .sent ?_ .containerDeletion ?_ (s.announced_send_about about) Iff.rfl
          (unsent_goOn here name (.remove other (.keep event)))
        · simp [broadcasts, here, same]
        · rw [unsent_of_call name here]
          simp [owed, owesCreation, owesDeletion, same]
      · refine .silent ?_ (s.announced_send_other same) Iff.rfl
          (unsent_goOn_same here (.remove other (.keep event)) ?_)
        · simp [broadcasts, here, same]
        · simp [owed, owesCreation, owesDeletion, same]
  | keep event =>
      simp only [removeStep] at step
      split at step
      · cases step
      · rename_i events kept
        cases step
        exact .silent (quiet (by simp)) (announced_congr name (EventStore.keep_sent kept)) Iff.rfl
          (unsent_goOn_same here _ rfl)
  | returned => cases step

theorem addStep_calls {s next : Lifecycle} {answers : Answers} {i : Nat} {other : String}
    {recordCreation : Bool} {stage : AddNext other}
    (step : s.addStep answers i other recordCreation stage = some next) :
    ∃ stage', next.calls = s.calls.set i (.add other recordCreation stage') := by
  cases stage with
  | check =>
      simp only [addStep] at step
      split_ifs at step <;> (cases step; exact ⟨_, rfl⟩)
  | buildSpec =>
      simp only [addStep] at step
      split at step <;> (cases step; exact ⟨_, rfl⟩)
  | insert handle named =>
      simp only [addStep] at step
      split at step <;> (cases step; exact ⟨_, rfl⟩)
  | keep event =>
      simp only [addStep] at step
      split at step
      · cases step
      · cases step
        exact ⟨_, rfl⟩
  | inspect spec => cases step; exact ⟨_, rfl⟩
  | send created => cases step; exact ⟨_, rfl⟩
  | spawn => cases step; exact ⟨_, rfl⟩
  | store task => cases step; exact ⟨_, rfl⟩
  | returned => cases step

theorem removeStep_calls {s next : Lifecycle} {answers : Answers} {i : Nat} {other : String}
    {stage : RemoveNext} (step : s.removeStep answers i other stage = some next) :
    ∃ stage', next.calls = s.calls.set i (.remove other stage') := by
  cases stage with
  | unregister =>
      simp only [removeStep] at step
      split at step <;> (cases step; exact ⟨_, rfl⟩)
  | abort handle =>
      cases step
      exact ⟨.send, congrArg (List.set · i _) (s.takeTask_frame handle).1⟩
  | send => cases step; exact ⟨_, rfl⟩
  | keep event =>
      simp only [removeStep] at step
      split at step
      · cases step
      · cases step
        exact ⟨_, rfl⟩
  | returned => cases step

theorem countP_goOn {s : Lifecycle} {i : Nat} {call : Call} (here : s.calls[i]? = some call)
    (p : Call → Bool) (next : Call) : ((s.goOn i next).calls.countP p : Int) =
      s.calls.countP p - (p call).toNat + (p next).toNat := by
  obtain ⟨inside, isCall⟩ := List.getElem?_eq_some_iff.mp here
  have counted : (p call).toNat ≤ s.calls.countP p := by
    cases holds : p call with
    | false => exact Nat.zero_le _
    | true => exact List.countP_pos_iff.mpr ⟨call, List.mem_of_getElem? here, holds⟩
  have changed : (s.calls.set i next).countP p = _ := List.countP_set inside
  rw [isCall] at changed
  have one : ∀ b : Bool, (if b = true then 1 else 0) = b.toNat := by decide
  rw [one, one] at changed
  change ((s.calls.set i next).countP p : Int) = _
  omega

def owes (name : String) (call : Call) : Int :=
  (owesCreation name call).toNat - (owesDeletion name call).toNat

/-- A step says nothing about the name, or announces its creation or its deletion. -/
inductive Outcome (name : String) (s next : Lifecycle) (orderly : Prop) : Prop where
  | silent (announced : next.announced name = s.announced name)
      (balance : next.balance name = s.balance name) (always : orderly)
  | created (announced : next.announced name = s.announced name ++ [.containerCreation])
      (balance : next.balance name = s.balance name - 1) (inTurn : orderly ↔ s.balance name = 0)
  | deleted (announced : next.announced name = s.announced name ++ [.containerDeletion])
      (balance : next.balance name = s.balance name + 1) (inTurn : orderly ↔ s.balance name = -1)

theorem owes_eq (name : String) (call : Call) : owes name call =
    (owed name call).elim 0 fun kind => if kind = .containerCreation then 1 else -1 := by
  unfold owes owed
  cases creates : owesCreation name call with
  | false => cases owesDeletion name call <;> rfl
  | true =>
      have noDeletion : owesDeletion name call = false := by
        cases call with
        | add other recordCreation stage => rfl
        | remove other stage => cases creates
      rw [noDeletion]
      rfl

theorem balance_of_calls {s next : Lifecycle} {i : Nat} {call call' : Call}
    (here : s.calls[i]? = some call) (name : String) (callsAre : next.calls = s.calls.set i call') :
    next.balance name = s.balance name - owes name call + owes name call' +
      (if name ∈ s.names then 1 else 0) - if name ∈ next.names then 1 else 0 := by
  have creations := countP_goOn here (owesCreation name) call'
  have deletions := countP_goOn here (owesDeletion name) call'
  have sameCalls : next.calls = (s.goOn i call').calls := callsAre
  unfold balance owes
  rw [sameCalls, creations, deletions]
  omega

theorem balance_append (s : Lifecycle) {call : Call} (name : String)
    (nothing : owesCreation name call = false ∧ owesDeletion name call = false) :
    Lifecycle.balance { s with calls := s.calls ++ [call] } name = s.balance name := by
  have sameNames : Lifecycle.names { s with calls := s.calls ++ [call] } = s.names := rfl
  unfold balance
  rw [sameNames, List.countP_append, List.countP_append]
  simp [nothing]

theorem orderly_of_silent {s : Lifecycle} {name : String} {i : Nat} {answers : Answers}
    (silent : ¬ s.broadcasts name (.proceed i answers) = true) :
    Orderly name s (.proceed i answers) := by
  unfold broadcasts at silent
  unfold Orderly
  dsimp only at silent ⊢
  split
  · rename_i other _ _ here
    rw [here] at silent
    exact fun same => absurd (decide_eq_true same) silent
  · rename_i other here
    rw [here] at silent
    exact fun same => absurd (decide_eq_true same) silent
  · trivial

theorem Turn.outcome {s next : Lifecycle} {name : String} {i : Nat} {answers : Answers}
    {call call' : Call} (turn : Turn name s next i (s.broadcasts name (.proceed i answers) = true))
    (here : s.calls[i]? = some call) (callsAre : next.calls = s.calls.set i call') :
    Outcome name s next (Orderly name s (.proceed i answers)) := by
  have inside : i < s.calls.length := (List.getElem?_eq_some_iff.mp here).1
  have before := owes_eq name call
  have after := owes_eq name call'
  have moved := balance_of_calls here name callsAre
  have isOwed : next.unsent name i = owed name call' := by
    rw [unsent, callsAre, List.getElem?_set_self inside, Option.bind_some]
  rw [← unsent_of_call name here] at before
  rw [← isOwed] at after
  cases turn with
  | silent notSend announced names unsent =>
      refine .silent announced (moved.trans ?_) (orderly_of_silent notSend)
      have sameOwes : owes name call' = owes name call := by rw [after, before, unsent]
      have sameNames : (if name ∈ next.names then (1 : Int) else 0) =
          if name ∈ s.names then 1 else 0 := if_congr names rfl rfl
      rw [sameOwes, sameNames]
      omega
  | changed notSend announced names idle unsent =>
      refine .silent announced (moved.trans ?_) (orderly_of_silent notSend)
      rw [unsent, Function.update_self] at after
      rw [idle] at before
      by_cases known : name ∈ s.names
      · have gone : name ∉ next.names := fun now => names.mp now known
        simp [before, after, known, gone]
      · have now : name ∈ next.names := names.mpr known
        simp [before, after, known, now]
  | sent isSend kind due announced names unsent =>
      have sameNames : (if name ∈ next.names then (1 : Int) else 0) =
          if name ∈ s.names then 1 else 0 := if_congr names rfl rfl
      rw [unsent, Function.update_self] at after
      rw [due] at before
      have lost : next.balance name = s.balance name - owes name call := by
        rw [moved, sameNames, after]
        simp
      rw [unsent_of_call name here] at due
      unfold broadcasts at isSend
      dsimp only at isSend
      rw [here] at isSend
      split at isSend
      · rename_i other _ _ isCall
        cases isCall
        have same : other = name := of_decide_eq_true isSend
        have isCreation : kind = .containerCreation := by
          simpa [owed, owesCreation, same] using due.symm
        rw [isCreation] at announced before
        refine .created announced (by rw [lost, before]; rfl) ?_
        simp [Orderly, here, same]
      · rename_i other isCall
        cases isCall
        have same : other = name := of_decide_eq_true isSend
        have isDeletion : kind = .containerDeletion := by
          simpa [owed, owesCreation, owesDeletion, same] using due.symm
        rw [isDeletion] at announced before
        refine .deleted announced (by rw [lost, before]; simp) ?_
        simp [Orderly, here, same]
      · cases isSend

def Records (name : String) (s : Lifecycle) : Prop :=
  ∀ recordCreation stage, Call.add name recordCreation stage ∈ s.calls → recordCreation = true

theorem Records.append {s : Lifecycle} {name : String} (records : Records name s) {call : Call}
    (adds : ∀ recordCreation stage, call = .add name recordCreation stage →
      recordCreation = true) :
    Records name { s with calls := s.calls ++ [call] } := by
  intro recorded stage member
  rcases List.mem_append.mp member with old | new
  · exact records recorded stage old
  · exact adds recorded stage (List.mem_singleton.mp new).symm

theorem step_outcome {s next : Lifecycle} {a : Action} {name : String} (records : Records name s)
    (adds : ∀ recordCreation, a = .add name recordCreation → recordCreation = true)
    (step : s.step a = some next) :
    Outcome name s next (Orderly name s a) ∧ Records name next := by
  cases a with
  | add other recordCreation =>
      cases step
      refine ⟨.silent rfl (s.balance_append name ⟨rfl, rfl⟩) trivial, records.append ?_⟩
      intro recorded stage isNew
      cases isNew
      exact adds recordCreation rfl
  | remove other =>
      cases step
      refine ⟨.silent rfl (s.balance_append name ⟨rfl, rfl⟩) trivial, records.append ?_⟩
      intro recorded stage impossible
      cases impossible
  | proceed i answers =>
      simp only [Lifecycle.step] at step
      split at step
      · cases step
      · rename_i other recordCreation stage here
        have recordsHere : other = name → recordCreation = true := by
          rintro rfl
          exact records recordCreation stage (List.mem_of_getElem? here)
        obtain ⟨_, callsAre⟩ := addStep_calls step
        refine ⟨(addStep_turn name here recordsHere step).outcome here callsAre,
          fun recorded stage' member => ?_⟩
        rw [callsAre] at member
        rcases List.mem_or_eq_of_mem_set member with old | new
        · exact records recorded stage' old
        · cases new
          exact recordsHere rfl
      · rename_i other stage here
        obtain ⟨_, callsAre⟩ := removeStep_calls step
        refine ⟨(removeStep_turn name here step).outcome here callsAre,
          fun recorded stage' member => ?_⟩
        rw [callsAre] at member
        rcases List.mem_or_eq_of_mem_set member with old | new
        · exact records recorded stage' old
        · cases new

/-! ## Runs -/

/-- What has been announced and what is still owed add up to the registry. -/
def Accounted (name : String) (s : Lifecycle) : Prop :=
  ((s.announced name).count .containerCreation : Int) -
    (s.announced name).count .containerDeletion + s.balance name = 0

theorem run_inTurn {name : String} {actions : List Action} {s final : Lifecycle}
    (adds : ∀ recordCreation, Action.add name recordCreation ∈ actions → recordCreation = true)
    (records : Records name s) (accounted : Accounted name s)
    (run : Run.exec step s actions = some final) :
    InTurn .containerCreation .containerDeletion (final.announced name) ↔
      InTurn .containerCreation .containerDeletion (s.announced name) ∧
        Run.Allowed step (Orderly name) s actions := by
  induction actions generalizing s with
  | nil =>
      cases run
      exact (and_iff_left trivial).symm
  | cons a rest ih =>
      rw [Run.exec_cons, Option.bind_eq_some_iff] at run
      obtain ⟨next, stepIs, restRun⟩ := run
      obtain ⟨outcome, nextRecords⟩ := step_outcome records
        (fun recordCreation same => adds recordCreation (same ▸ List.mem_cons_self ..)) stepIs
      rw [Run.allowed_cons stepIs]
      have restAdds := fun recordCreation member =>
        adds recordCreation (List.mem_cons_of_mem a member)
      have different : EventType.containerCreation ≠ .containerDeletion := by decide
      obtain ⟨creates, deletes⟩ := inTurn_concat different (s.announced name)
      unfold Accounted at accounted
      cases outcome with
      | silent announced balance always =>
          have restIs := ih restAdds nextRecords
            (by unfold Accounted; rw [announced, balance, accounted]) restRun
          rw [announced] at restIs
          rw [restIs, and_iff_right always]
      | created announced balance inTurn =>
          have restAccounted : Accounted name next := by
            have own : [EventType.containerCreation].count .containerCreation = 1 := rfl
            have others : [EventType.containerCreation].count .containerDeletion = 0 := rfl
            unfold Accounted
            rw [announced, balance, List.count_append, List.count_append, own, others]
            omega
          have due : s.balance name = 0 ↔ ((s.announced name).count .containerCreation : Int) -
              (s.announced name).count .containerDeletion = 0 := by omega
          have restIs := ih restAdds nextRecords restAccounted restRun
          rw [announced, creates, and_assoc, ← due, ← inTurn] at restIs
          exact restIs
      | deleted announced balance inTurn =>
          have restAccounted : Accounted name next := by
            have own : [EventType.containerDeletion].count .containerDeletion = 1 := rfl
            have others : [EventType.containerDeletion].count .containerCreation = 0 := rfl
            unfold Accounted
            rw [announced, balance, List.count_append, List.count_append, own, others]
            omega
          have due : s.balance name = -1 ↔ ((s.announced name).count .containerCreation : Int) -
              (s.announced name).count .containerDeletion = 1 := by omega
          have restIs := ih restAdds nextRecords restAccounted restRun
          rw [announced, deletes, and_assoc, ← due, ← inTurn] at restIs
          exact restIs

/-- The events of a name come in turn, a creation first, in exactly the runs in which
each is broadcast in an orderly step. -/
theorem announced_inTurn_iff {cfg : ManagerConfig} {machineInfo : MachineInfo} (name : String)
    {actions : List Action} {final : Lifecycle}
    (adds : ∀ recordCreation, Action.add name recordCreation ∈ actions → recordCreation = true)
    (run : Run.exec step (new cfg machineInfo) actions = some final) :
    InTurn .containerCreation .containerDeletion (final.announced name) ↔
      Run.Allowed step (Orderly name) (new cfg machineInfo) actions := by
  have noCalls : Records name (new cfg machineInfo) := by
    intro recordCreation stage member
    cases member
  have nothing : Accounted name (new cfg machineInfo) := by
    simp [Accounted, balance, announced, new, names, Registry.names, EventStore.new]
  exact (run_inTurn adds noCalls nothing run).trans (and_iff_right trivial)

theorem announced_inTurn_iff_readded :
    ∃ final, Run.exec step (new ⟨⟨120 * 1000000000, by decide⟩, []⟩ {})
        (.add "/a" true :: proceeding [0, 0, 0, 0, 0] ++ .remove "/a" :: proceeding [1, 1, 1] ++
          .add "/a" true :: proceeding [2, 2, 2, 2, 2, 0]) = some final ∧
      final.announced "/a" = [.containerCreation, .containerDeletion, .containerCreation] ∧
      (InTurn .containerCreation .containerDeletion (final.announced "/a") ↔
        Run.Allowed step (Orderly "/a") (new ⟨⟨120 * 1000000000, by decide⟩, []⟩ {})
          (.add "/a" true :: proceeding [0, 0, 0, 0, 0] ++ .remove "/a" :: proceeding [1, 1, 1] ++
            .add "/a" true :: proceeding [2, 2, 2, 2, 2, 0])) :=
  ⟨_, rfl, by decide, announced_inTurn_iff "/a" (by simp [proceeding]) rfl⟩

/-- The removal of `/a` broadcasts before the call that has added it does. -/
theorem deletion_announced_first :
    ∃ final, Run.exec step (new ⟨⟨120 * 1000000000, by decide⟩, []⟩ {})
        (.add "/a" true :: proceeding [0, 0, 0, 0] ++
          .remove "/a" :: proceeding [1, 1, 1, 1] ++ proceeding [0, 0, 0, 0]) = some final ∧
      final.announced "/a" = [.containerDeletion, .containerCreation] ∧
      ¬ InTurn .containerCreation .containerDeletion (final.announced "/a") := by
  refine ⟨_, rfl, by decide, fun inTurn => ?_⟩
  cases inTurn.1

/-! ## Calls that broadcast in the order of their changes -/

/-- The calls that have changed the registry about the name and not broadcast that, the
oldest change first, after one more step. -/
def waitingAfter (name : String) (waiting : List Nat) (s next : Lifecycle) : Action → List Nat
  | .proceed i answers =>
      if s.broadcasts name (.proceed i answers) then waiting.tail
      else if name ∈ next.names ↔ name ∈ s.names then waiting
      else waiting ++ [i]
  | _ => waiting

def FirstOut (name : String) (waiting : List Nat) (s : Lifecycle) : Action → Prop
  | .proceed i answers =>
      s.broadcasts name (.proceed i answers) = true → waiting.head? = some i
  | _ => True

def InOrder (name : String) : List Nat → Lifecycle → List Action → Prop
  | _, _, [] => True
  | waiting, s, a :: rest =>
      FirstOut name waiting s a ∧
        ∀ next, s.step a = some next → InOrder name (waitingAfter name waiting s next a) next rest

/-- What has been announced, and behind it what the waiting calls will. -/
def line (s : Lifecycle) (name : String) (waiting : List Nat) : List EventType :=
  s.announced name ++ waiting.filterMap (s.unsent name)

structure Lined (name : String) (waiting : List Nat) (s : Lifecycle) : Prop where
  inTurn : InTurn .containerCreation .containerDeletion (s.line name waiting)
  registered : ((s.line name waiting).count .containerCreation : Int) -
    (s.line name waiting).count .containerDeletion = if name ∈ s.names then 1 else 0
  owing : ∀ i ∈ waiting, s.unsent name i ≠ none
  nodup : waiting.Nodup

theorem filterMap_update {f : Nat → Option EventType} {i : Nat} (x : Option EventType)
    {waiting : List Nat} (absent : i ∉ waiting) :
    waiting.filterMap (Function.update f i x) = waiting.filterMap f :=
  List.filterMap_congr fun _ member =>
    Function.update_of_ne (ne_of_mem_of_not_mem member absent) ..

theorem Lined.same {name : String} {waiting : List Nat} {s next : Lifecycle}
    (lined : Lined name waiting s) (announced : next.announced name = s.announced name)
    (names : name ∈ next.names ↔ name ∈ s.names) (unsent : next.unsent name = s.unsent name) :
    Lined name waiting next := by
  have sameLine : next.line name waiting = s.line name waiting := by
    rw [line, announced, unsent]
    rfl
  refine ⟨sameLine ▸ lined.inTurn, ?_, unsent ▸ lined.owing, lined.nodup⟩
  rw [sameLine, lined.registered]
  exact if_congr names.symm rfl rfl

theorem Lined.turn {name : String} {waiting : List Nat} {s next : Lifecycle} {i : Nat}
    {answers : Answers} (lined : Lined name waiting s)
    (turn : Turn name s next i (s.broadcasts name (.proceed i answers) = true))
    (firstOut : FirstOut name waiting s (.proceed i answers)) :
    Lined name (waitingAfter name waiting s next (.proceed i answers)) next := by
  obtain ⟨inTurn, registered, owing, nodup⟩ := lined
  have different : EventType.containerCreation ≠ .containerDeletion := by decide
  cases turn with
  | silent notSend announced names unsent =>
      rw [waitingAfter, if_neg notSend, if_pos names]
      exact Lined.same ⟨inTurn, registered, owing, nodup⟩ announced names unsent
  | changed notSend announced names idle unsent =>
      have absent : i ∉ waiting := fun member => owing i member idle
      have longer : next.line name (waiting ++ [i]) = s.line name waiting ++
          [if name ∈ s.names then .containerDeletion else .containerCreation] := by
        rw [line, announced, unsent, List.filterMap_append, filterMap_update _ absent, line,
          List.append_assoc]
        simp
      have notSame : ¬ (name ∈ next.names ↔ name ∈ s.names) := by
        rw [names]
        exact not_iff_self
      obtain ⟨creates, deletes⟩ := inTurn_concat different (s.line name waiting)
      rw [waitingAfter, if_neg notSend, if_neg notSame]
      refine ⟨?_, ?_, fun j member => ?_, ?_⟩
      · rw [longer]
        by_cases known : name ∈ s.names
        · rw [if_pos known] at registered ⊢
          exact deletes.mpr ⟨inTurn, registered⟩
        · rw [if_neg known] at registered ⊢
          exact creates.mpr ⟨inTurn, registered⟩
      · rw [longer, List.count_append, List.count_append]
        by_cases known : name ∈ s.names
        · rw [if_pos known] at registered ⊢
          rw [if_neg fun now => names.mp now known]
          simp
          omega
        · rw [if_neg known] at registered ⊢
          rw [if_pos (names.mpr known)]
          simp
          omega
      · rw [unsent, Function.update_apply]
        by_cases same : j = i
        · rw [if_pos same]
          exact Option.some_ne_none _
        · rw [if_neg same]
          rcases List.mem_append.mp member with old | new
          · exact owing j old
          · exact absurd (List.mem_singleton.mp new) same
      · exact List.nodup_append.mpr ⟨nodup, List.nodup_singleton i, by
          rintro j member k isNew rfl
          exact absent (List.mem_singleton.mp isNew ▸ member)⟩
  | sent isSend kind due announced names unsent =>
      obtain ⟨others, isWaiting⟩ := List.head?_eq_some_iff.mp (firstOut isSend)
      subst isWaiting
      obtain ⟨absent, restNodup⟩ := List.nodup_cons.mp nodup
      have sameLine : next.line name others = s.line name (i :: others) := by
        rw [line, announced, unsent, filterMap_update _ absent, line,
          List.filterMap_cons_some due, List.append_assoc, List.singleton_append]
      rw [waitingAfter, if_pos isSend, List.tail_cons]
      refine ⟨sameLine ▸ inTurn, ?_, fun j member => ?_, restNodup⟩
      · rw [sameLine, registered]
        exact if_congr names.symm rfl rfl
      · rw [unsent, Function.update_of_ne (ne_of_mem_of_not_mem member absent)]
        exact owing j (List.mem_cons_of_mem i member)

theorem step_lined {name : String} {waiting : List Nat} {s next : Lifecycle} {a : Action}
    (records : Records name s) (lined : Lined name waiting s)
    (firstOut : FirstOut name waiting s a) (step : s.step a = some next) :
    Lined name (waitingAfter name waiting s next a) next := by
  cases a with
  | add other recordCreation =>
      cases step
      exact lined.same rfl Iff.rfl (s.unsent_append rfl)
  | remove other =>
      cases step
      exact lined.same rfl Iff.rfl (s.unsent_append rfl)
  | proceed i answers =>
      simp only [Lifecycle.step] at step
      split at step
      · cases step
      · rename_i other recordCreation stage here
        have recordsHere : other = name → recordCreation = true := by
          rintro rfl
          exact records recordCreation stage (List.mem_of_getElem? here)
        exact lined.turn (addStep_turn name here recordsHere step) firstOut
      · rename_i other stage here
        exact lined.turn (removeStep_turn name here step) firstOut

theorem run_lined {name : String} {actions : List Action} {waiting : List Nat}
    {s final : Lifecycle}
    (adds : ∀ recordCreation, Action.add name recordCreation ∈ actions → recordCreation = true)
    (records : Records name s) (lined : Lined name waiting s)
    (ordered : InOrder name waiting s actions) (run : Run.exec step s actions = some final) :
    ∃ stillWaiting, Lined name stillWaiting final := by
  induction actions generalizing s waiting with
  | nil =>
      cases run
      exact ⟨waiting, lined⟩
  | cons a rest ih =>
      rw [Run.exec_cons, Option.bind_eq_some_iff] at run
      obtain ⟨next, stepIs, restRun⟩ := run
      obtain ⟨firstOut, restOrdered⟩ := ordered
      obtain ⟨-, nextRecords⟩ := step_outcome records
        (fun recordCreation same => adds recordCreation (same ▸ List.mem_cons_self ..)) stepIs
      exact ih (fun recordCreation member => adds recordCreation (List.mem_cons_of_mem a member))
        nextRecords (step_lined records lined firstOut stepIs) (restOrdered next stepIs) restRun

/-- Calls that broadcast in the order in which they have changed the registry announce a
name's creations and deletions in turn. -/
theorem announced_inTurn_of_inOrder {cfg : ManagerConfig} {machineInfo : MachineInfo}
    {name : String} {actions : List Action} {final : Lifecycle}
    (adds : ∀ recordCreation, Action.add name recordCreation ∈ actions → recordCreation = true)
    (ordered : InOrder name [] (new cfg machineInfo) actions)
    (run : Run.exec step (new cfg machineInfo) actions = some final) :
    InTurn .containerCreation .containerDeletion (final.announced name) := by
  have noCalls : Records name (new cfg machineInfo) := by
    intro recordCreation stage member
    cases member
  have lined : Lined name [] (new cfg machineInfo) := by
    constructor <;> simp [line, announced, new, names, Registry.names, EventStore.new, InTurn]
  obtain ⟨stillWaiting, finalLined⟩ := run_lined adds noCalls lined ordered run
  exact inTurn_of_append finalLined.inTurn

end Lifecycle

end Cadvisor
