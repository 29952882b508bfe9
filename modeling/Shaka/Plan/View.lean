import Shaka.Core.PlanSpec
import Mathlib.Data.List.Nodup

namespace Shaka.Plan
open Shaka.Core

-- What a stored plan is about, apart from how it is stored: the state of the
-- plan and of each step, the attempts made at each step, the changes of state
-- recorded so far, each under its idempotency key, and how often a state was
-- overwritten without a record.

inductive Change where
  | plan (target : PlanState)
  | step (stepId : PlanStepId) (target : PlanStepState)
  deriving DecidableEq, Repr

structure Event where
  key : String
  change : Change
  time : Time
  deriving DecidableEq, Repr

structure View where
  plan : PlanState
  steps : PlanStepId → Option PlanStepState
  attempts : PlanStepId → Nat
  events : List Event
  overwrites : Nat

def View.keys (v : View) : List String := v.events.map (·.key)

inductive Write where
  | plan (key : String) (target : PlanState) (time : Time)
  | step (key : String) (stepId : PlanStepId) (target : PlanStepState) (time : Time)
  | attempt (stepId : PlanStepId)
  | overwritePlan
  | overwriteStep (stepId : PlanStepId)
  deriving DecidableEq, Repr

def Write.event? : Write → Option Event
  | .plan key target time => some ⟨key,.plan target,time⟩
  | .step key stepId target time => some ⟨key,.step stepId target,time⟩
  | .attempt _ | .overwritePlan | .overwriteStep _ => none

def View.setStep (v : View) (stepId : PlanStepId) (target : PlanStepState) :
    PlanStepId → Option PlanStepState :=
  fun x => if x = stepId then some target else v.steps x

def View.write (v : View) : Write → View
  | .plan key target time => {v with plan:=target,events:=v.events ++ [⟨key,.plan target,time⟩]}
  | .step key stepId target time => {v with
      steps:=v.setStep stepId target,events:=v.events ++ [⟨key,.step stepId target,time⟩]}
  | .attempt stepId => {v with attempts:=fun x => if x = stepId then v.attempts x + 1 else v.attempts x}
  | .overwritePlan => {v with plan:=.unknown,overwrites:=v.overwrites + 1}
  | .overwriteStep stepId => {v with steps:=v.setStep stepId .unknown,overwrites:=v.overwrites + 1}

def View.writes (v : View) (ws : List Write) : View := ws.foldl View.write v

def eventsOf (ws : List Write) : List Event := ws.filterMap Write.event?

def keysOf (ws : List Write) : List String := (eventsOf ws).map (·.key)

-- The keys that the writes record are new and distinct.
def Fresh (v : View) (ws : List Write) : Prop := (keysOf ws).Nodup ∧ ∀ key ∈ keysOf ws, key ∉ v.keys

@[simp] theorem writes_nil (v : View) : v.writes [] = v := rfl

@[simp] theorem writes_cons (v : View) (w : Write) (ws : List Write) :
    v.writes (w :: ws) = (v.write w).writes ws := rfl

@[simp] theorem writes_append (v : View) (first second : List Write) :
    v.writes (first ++ second) = (v.writes first).writes second := List.foldl_append ..

@[simp] theorem write_plan (v : View) (key : String) (target : PlanState) (time : Time) :
    (v.write (.plan key target time)).plan = target := rfl
@[simp] theorem write_plan_steps (v : View) (key : String) (target : PlanState) (time : Time) :
    (v.write (.plan key target time)).steps = v.steps := rfl
@[simp] theorem write_plan_attempts (v : View) (key : String) (target : PlanState) (time : Time) :
    (v.write (.plan key target time)).attempts = v.attempts := rfl
@[simp] theorem write_plan_overwrites (v : View) (key : String) (target : PlanState) (time : Time) :
    (v.write (.plan key target time)).overwrites = v.overwrites := rfl
@[simp] theorem write_step_plan (v : View) (key : String) (stepId : PlanStepId) (target : PlanStepState)
    (time : Time) : (v.write (.step key stepId target time)).plan = v.plan := rfl
@[simp] theorem write_step (v : View) (key : String) (stepId x : PlanStepId) (target : PlanStepState)
    (time : Time) : (v.write (.step key stepId target time)).steps x =
      if x = stepId then some target else v.steps x := rfl
@[simp] theorem write_step_attempts (v : View) (key : String) (stepId : PlanStepId) (target : PlanStepState)
    (time : Time) : (v.write (.step key stepId target time)).attempts = v.attempts := rfl
@[simp] theorem write_step_overwrites (v : View) (key : String) (stepId : PlanStepId) (target : PlanStepState)
    (time : Time) : (v.write (.step key stepId target time)).overwrites = v.overwrites := rfl
@[simp] theorem write_attempt_plan (v : View) (stepId : PlanStepId) :
    (v.write (.attempt stepId)).plan = v.plan := rfl
@[simp] theorem write_attempt_steps (v : View) (stepId : PlanStepId) :
    (v.write (.attempt stepId)).steps = v.steps := rfl
@[simp] theorem write_attempt (v : View) (stepId x : PlanStepId) :
    (v.write (.attempt stepId)).attempts x = if x = stepId then v.attempts x + 1 else v.attempts x := rfl
@[simp] theorem write_attempt_overwrites (v : View) (stepId : PlanStepId) :
    (v.write (.attempt stepId)).overwrites = v.overwrites := rfl

theorem write_events (v : View) (w : Write) : (v.write w).events = v.events ++ eventsOf [w] := by
  cases w <;> simp [View.write,eventsOf,Write.event?]

theorem writes_events (ws : List Write) (v : View) : (v.writes ws).events = v.events ++ eventsOf ws := by
  induction ws generalizing v with
  | nil => simp [eventsOf]
  | cons w rest ih =>
    rw [writes_cons,ih,write_events,List.append_assoc]
    simp [eventsOf,List.filterMap_cons]
    cases w.event? <;> rfl

theorem writes_keys (ws : List Write) (v : View) : (v.writes ws).keys = v.keys ++ keysOf ws := by
  simp [View.keys,keysOf,writes_events]

@[simp] theorem eventsOf_nil : eventsOf [] = [] := rfl
@[simp] theorem eventsOf_plan (key : String) (target : PlanState) (time : Time) (ws : List Write) :
    eventsOf (.plan key target time :: ws) = ⟨key,.plan target,time⟩ :: eventsOf ws := rfl
@[simp] theorem eventsOf_step (key : String) (stepId : PlanStepId) (target : PlanStepState) (time : Time)
    (ws : List Write) : eventsOf (.step key stepId target time :: ws) =
      ⟨key,.step stepId target,time⟩ :: eventsOf ws := rfl
@[simp] theorem eventsOf_attempt (stepId : PlanStepId) (ws : List Write) :
    eventsOf (.attempt stepId :: ws) = eventsOf ws := rfl
@[simp] theorem eventsOf_overwritePlan (ws : List Write) : eventsOf (.overwritePlan :: ws) = eventsOf ws :=
  rfl
@[simp] theorem eventsOf_overwriteStep (stepId : PlanStepId) (ws : List Write) :
    eventsOf (.overwriteStep stepId :: ws) = eventsOf ws := rfl
@[simp] theorem eventsOf_append (first second : List Write) :
    eventsOf (first ++ second) = eventsOf first ++ eventsOf second := List.filterMap_append ..

theorem Fresh.append {v : View} {first second : List Write} :
    Fresh v (first ++ second) ↔ Fresh v first ∧ Fresh (v.writes first) second := by
  simp only [Fresh,keysOf,eventsOf_append,List.map_append,List.nodup_append,List.mem_append,View.keys,
    writes_events]
  constructor
  · rintro ⟨⟨one,two,apart⟩,old⟩
    exact ⟨⟨one,fun key present => old key (.inl present)⟩,two,fun key present already =>
      already.elim (old key (.inr present)) fun early => apart key early key present rfl⟩
  · rintro ⟨⟨one,old⟩,two,later⟩
    refine ⟨⟨one,two,fun key early other present same => later other present (.inr (same ▸ early))⟩,?_⟩
    rintro key (early | late)
    · exact old key early
    · exact fun already => later key late (.inl already)

-- A loop that moves a set of steps to one state.
def stepWrites (ids : List PlanStepId) (target : PlanStepState) (key : PlanStepId → String) (time : Time) :
    List Write := ids.map fun stepId => .step (key stepId) stepId target time

@[simp] theorem stepWrites_plan (ids : List PlanStepId) (v : View) :
    (v.writes (stepWrites ids target key time)).plan = v.plan := by
  induction ids generalizing v with
  | nil => rfl
  | cons stepId rest ih => exact ih (v.write (.step (key stepId) stepId target time))

@[simp] theorem stepWrites_attempts (ids : List PlanStepId) (v : View) :
    (v.writes (stepWrites ids target key time)).attempts = v.attempts := by
  induction ids generalizing v with
  | nil => rfl
  | cons stepId rest ih => exact ih (v.write (.step (key stepId) stepId target time))

@[simp] theorem stepWrites_overwrites (ids : List PlanStepId) (v : View) :
    (v.writes (stepWrites ids target key time)).overwrites = v.overwrites := by
  induction ids generalizing v with
  | nil => rfl
  | cons stepId rest ih => exact ih (v.write (.step (key stepId) stepId target time))

@[simp] theorem stepWrites_steps (ids : List PlanStepId) (v : View) (x : PlanStepId) :
    (v.writes (stepWrites ids target key time)).steps x = if x ∈ ids then some target else v.steps x := by
  induction ids generalizing v with
  | nil => simp [stepWrites]
  | cons stepId rest ih =>
    have step := ih (v.write (.step (key stepId) stepId target time))
    simp only [stepWrites,List.map_cons,writes_cons] at step ⊢
    rw [step,write_step]
    by_cases here : x = stepId <;> by_cases later : x ∈ rest <;> simp [here,later]

-- The plan states that a list of writes goes through.

def Write.target? : Write → Option PlanState
  | .plan _ target _ => some target
  | _ => none

def targetsOf (ws : List Write) : List PlanState := ws.filterMap Write.target?

@[simp] theorem targetsOf_nil : targetsOf [] = [] := rfl
@[simp] theorem targetsOf_plan (key : String) (target : PlanState) (time : Time) (ws : List Write) :
    targetsOf (.plan key target time :: ws) = target :: targetsOf ws := rfl
@[simp] theorem targetsOf_step (key : String) (stepId : PlanStepId) (target : PlanStepState) (time : Time)
    (ws : List Write) : targetsOf (.step key stepId target time :: ws) = targetsOf ws := rfl
@[simp] theorem targetsOf_attempt (stepId : PlanStepId) (ws : List Write) :
    targetsOf (.attempt stepId :: ws) = targetsOf ws := rfl
@[simp] theorem targetsOf_append (first second : List Write) :
    targetsOf (first ++ second) = targetsOf first ++ targetsOf second := List.filterMap_append ..

@[simp] theorem targetsOf_stepWrites (ids : List PlanStepId) :
    targetsOf (stepWrites ids target key time) = [] := by
  simp [targetsOf,stepWrites,Write.target?]

theorem mem_targetsOf {ws : List Write} {event : Event} {target : PlanState} (written : event ∈ eventsOf ws)
    (change : event.change = .plan target) : target ∈ targetsOf ws := by
  obtain ⟨w,listed,made⟩ := List.mem_filterMap.mp written
  refine List.mem_filterMap.mpr ⟨w,listed,?_⟩
  cases w <;> simp only [Write.event?,Option.some.injEq,reduceCtorEq] at made
  all_goals subst made
  all_goals cases change
  rfl

-- Plan states in the order of a plan's life; no transition goes back to an
-- earlier stage of its admission.
def stage : PlanState → Nat
  | .draft => 0
  | .proposed => 1
  | .validated => 2
  | .awaitingApproval => 3
  | .approved => 4
  | _ => 5

theorem stage_permits {origin target : PlanState} (permitted : origin.permits target = true) :
    stage origin ≤ stage target ∧ (stage origin = stage target → stage origin = 5) := by
  cases origin <;> cases target <;> first | (cases permitted; done) | decide

end Shaka.Plan
