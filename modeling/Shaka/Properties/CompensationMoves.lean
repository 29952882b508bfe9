import Shaka.Plan.Lifecycle
import Shaka.Plan.Coherence

namespace Shaka.Properties
open Shaka.Core Queue Plan

variable {encoding : Encoding} {spec : PlanSpec} {f : Flow} {v : View} {x y : PlanStepId}
  {sources targets : List PlanStepId} {now : Time}

-- A step that has not run yet, or is to run again.
def Waits (v : View) (x : PlanStepId) : Prop := v.steps x = some .pending ∨ v.steps x = some .ready

-- The step compensates one that is being compensated.
def Compensator (spec : PlanSpec) (v : View) (x : PlanStepId) : Prop :=
  ∃ y, v.steps y = some .compensating ∧ Compensates spec y x

-- What holds of a plan while it is being compensated: each of these steps waits, or is the one that runs, and
-- all that it depends on has succeeded, runs, or is another of them.
structure UnderCompensation (spec : PlanSpec) (f : Flow) : Prop where
  busy : ∃ x, Compensator spec f.view x
  waits : ∀ x, Compensator spec f.view x → Waits f.view x ∨ f.lease.planStep = some x
  needs : ∀ step ∈ spec.steps, Compensator spec f.view step.stepId → ∀ need ∈ step.dependsOn,
    f.view.steps need = some .succeeded ∨ f.lease.planStep = some need ∨ Compensator spec f.view need

-- Between any two operations: what is compensated says by which step, and the plan can go on.
structure Proceeding (spec : PlanSpec) (f : Flow) : Prop where
  declared : ∀ y, f.view.steps y = some .compensating → ∃ x, Compensates spec y x
  under : f.view.plan = .compensating → UnderCompensation spec f

-- A step that a decision takes up, or that an earlier decision did.
def Source (v : View) (sources : List PlanStepId) (y : PlanStepId) : Prop :=
  y ∈ sources ∨ v.steps y = some .compensating

-- The steps that a decision moves, as it moves them into a compensation that can go on.
structure Undertakes (spec : PlanSpec) (v : View) (sources targets : List PlanStepId) : Prop where
  declared : ∀ y ∈ sources, ∃ x, Compensates spec y x
  settled : ∀ y ∈ sources, ¬ Waits v y
  waits : ∀ x y, Source v sources y → Compensates spec y x → Waits v x ∨ x ∈ targets
  needs : ∀ step ∈ spec.steps, (∃ y, Source v sources y ∧ Compensates spec y step.stepId) →
    ∀ need ∈ step.dependsOn,
    (v.steps need = some .succeeded ∧ need ∉ sources) ∨ ∃ y, Source v sources y ∧ Compensates spec y need

def ServingAct (spec : PlanSpec) (v : View) : Act → Prop
  | .compensate _ sources targets => v.plan = .unknown → Undertakes spec v sources targets
  | _ => True

-- Whatever becomes `Compensating` otherwise was so before.
theorem Proceeding.forward {f' : Flow} (proceeding : Proceeding spec f)
    (plan : f'.view.plan ≠ .compensating)
    (steps : ∀ y, f'.view.steps y = some .compensating → f.view.steps y = some .compensating) :
    Proceeding spec f' :=
  ⟨fun y found => proceeding.declared y (steps y found),fun compensating => absurd compensating plan⟩

theorem compensates_unique (distinct : spec.stepIds.Nodup) {z : PlanStepId} (one : Compensates spec y x)
    (two : Compensates spec y z) : x = z := by
  obtain ⟨step,listed,rfl,declared⟩ := one
  obtain ⟨step',listed',same,declared'⟩ := two
  rw [same_step distinct listed' listed same,declared] at declared'
  exact Option.some.inj declared'

-- A claim takes one of the steps that wait.
theorem claimed_proceeding {token : LeaseToken} {leaseUntil : Time} (claimable : Plan.Claimable spec f x)
    (coherent : Coherent f) (proceeding : Proceeding spec f) : Proceeding spec
      (f.after (claimWrites encoding f.view x now) ⟨.running,false,some x,some token,some leaseUntil⟩) := by
  obtain ⟨status,_,plan,waiting,_⟩ := claimable
  have free := coherent.unbound (by rw [status]; rfl)
  have other : ∀ y, ((f.view.writes (claimWrites encoding f.view x now)).steps y = some .compensating ↔
      f.view.steps y = some .compensating) := fun y => by
    rw [claimWrites_steps]
    split
    · next same =>
      subst same
      rcases waiting with pending | ready <;> simp [*]
    · rfl
  have compensator : ∀ z, Compensator spec (f.view.writes (claimWrites encoding f.view x now)) z ↔
      Compensator spec f.view z := fun z => by
    simp only [Compensator,other]
  refine ⟨fun y found => proceeding.declared y ((other y).mp found),fun compensating => ?_⟩
  have before : f.view.plan = .compensating := by
    simp only [after_view,claimWrites_plan] at compensating
    split at compensating
    · cases compensating
    · exact compensating
  obtain ⟨busy,waits,needs⟩ := proceeding.under before
  refine ⟨busy.imp fun z => (compensator z).mpr,fun z target => ?_,fun step listed target need needed => ?_⟩
  · have held := (waits z ((compensator z).mp target)).resolve_right (by simp [free])
    by_cases same : z = x
    · exact .inr (same ▸ rfl)
    · left
      simpa only [Waits,after_view,claimWrites_steps,if_neg same] using held
  · rcases needs step listed ((compensator _).mp target) need needed with done | held | another
    · left
      rw [after_view,claimWrites_steps,if_neg]
      · exact done
      · rintro rfl
        rcases waiting with pending | ready <;> simp_all
    · rw [free] at held
      cases held
    · exact .inr (.inr ((compensator _).mpr another))

-- The step that ran has compensated the steps that name it, and others are left.
section Compensated
variable (distinct : spec.stepIds.Nodup) (working : Working f x) (plan : f.view.plan = .compensating)
  (named : ∀ y, y ∈ sources ↔ f.view.steps y = some .compensating ∧ Compensates spec y x)

theorem left_steps (y : PlanStepId) :
    (f.view.writes (succeededWrite encoding f.view x now :: compensatedWrites encoding now sources)).steps y =
      if y ∈ sources then some .compensated else if y = x then some .succeeded else f.view.steps y := by
  simp

include working in
theorem compensating_left (y : PlanStepId) :
    (f.view.writes (succeededWrite encoding f.view x now :: compensatedWrites encoding now sources)).steps y =
      some .compensating ↔ f.view.steps y = some .compensating ∧ y ∉ sources := by
  rw [left_steps]
  by_cases listed : y ∈ sources
  · simp [listed]
  by_cases same : y = x
  · rw [if_neg listed,if_pos same,same]
    simp [working.running]
  · simp [listed,same]

include distinct working named in
-- What is left waits for other steps.
theorem compensators_left (z : PlanStepId) :
    Compensator spec (f.view.writes (succeededWrite encoding f.view x now :: compensatedWrites encoding now
      sources)) z ↔ Compensator spec f.view z ∧ z ≠ x := by
  constructor
  · rintro ⟨y,found,declares⟩
    obtain ⟨before,unlisted⟩ := (compensating_left working y).mp found
    exact ⟨⟨y,before,declares⟩,fun same => unlisted ((named y).mpr ⟨before,same ▸ declares⟩)⟩
  · rintro ⟨⟨y,before,declares⟩,other⟩
    refine ⟨y,(compensating_left working y).mpr ⟨before,fun listed => other ?_⟩,declares⟩
    exact compensates_unique distinct declares ((named y).mp listed).2

include distinct working plan named in
theorem compensated_proceeding (more : ∃ y, f.view.steps y = some .compensating ∧ y ∉ sources)
    (proceeding : Proceeding spec f) : Proceeding spec
      (f.after (succeededWrite encoding f.view x now :: compensatedWrites encoding now sources)
        (.free .queued false)) := by
  have left := @compensators_left encoding _ _ _ _ now distinct working named
  obtain ⟨_,waits,needs⟩ := proceeding.under plan
  refine ⟨fun y found => proceeding.declared y ((compensating_left working y).mp found).1,
    fun _ => ⟨?_,fun z target => ?_,?_⟩⟩
  · obtain ⟨y,before,unlisted⟩ := more
    obtain ⟨z,declares⟩ := proceeding.declared y before
    exact ⟨z,(left z).mpr ⟨⟨y,before,declares⟩,fun same => unlisted ((named y).mpr ⟨before,same ▸ declares⟩)⟩⟩
  · obtain ⟨before,other⟩ := (left z).mp target
    have held := (waits z before).resolve_right (by rw [working.step]; simpa using other.symm)
    have unlisted : z ∉ sources := fun listed => by
      have found := ((named z).mp listed).1
      rcases held with pending | ready <;> simp_all
    left
    simpa only [Waits,after_view,left_steps,if_neg unlisted,if_neg other] using held
  · intro step listed target need needed
    obtain ⟨before,_⟩ := (left _).mp target
    by_cases same : need = x
    · left
      have unlisted : need ∉ sources := fun among => by
        have found := ((named need).mp among).1
        rw [same,working.running] at found
        cases found
      rw [after_view,left_steps,if_neg unlisted,if_pos same]
    · rcases needs step listed before need needed with done | held | another
      · left
        have unlisted : need ∉ sources := fun among => by
          have found := ((named need).mp among).1
          simp_all
        rw [after_view,left_steps,if_neg unlisted,if_neg same]
        exact done
      · rw [working.step] at held
        exact absurd (Option.some.inj held).symm same
      · exact .inr (.inr ((left need).mpr ⟨another,same⟩))

end Compensated

-- A decision that serves the plan.
theorem decided_proceeding {own : String} {keyed keyed' : PlanStepId → String}
    (apart : ∀ x ∈ targets, x ∉ sources ∧ (f.view.steps x = some .unknown ∨ f.view.steps x = some .failed))
    (found : ∃ y, Source f.view sources y) (serves : Undertakes spec f.view sources targets)
    (proceeding : Proceeding spec f) : Proceeding spec (f.after (stepWrites sources .compensating keyed now ++
      (stepWrites targets .ready keyed' now ++ [.plan own .compensating now])) (.free .queued false)) := by
  have steps :
      ∀ y, (f.after (stepWrites sources .compensating keyed now ++ (stepWrites targets .ready keyed' now ++
      [.plan own .compensating now])) (.free .queued false)).view.steps y =
        if y ∈ targets then some .ready else if y ∈ sources then some .compensating else f.view.steps y :=
        fun y => by
    simp
  have compensating :
      ∀ y, (f.after (stepWrites sources .compensating keyed now ++ (stepWrites targets .ready keyed' now ++
      [.plan own .compensating now])) (.free .queued false)).view.steps y = some .compensating ↔
        Source f.view sources y := fun y => by
    rw [steps,Source]
    by_cases target : y ∈ targets
    · obtain ⟨unlisted,state⟩ := apart y target
      rcases state with state | state <;> simp [target,unlisted,state]
    · by_cases listed : y ∈ sources <;> simp [target,listed]
  have compensator : ∀ z, Compensator spec (f.after (stepWrites sources .compensating keyed now ++
      (stepWrites targets .ready keyed' now ++ [.plan own .compensating now])) (.free .queued false)).view z ↔
        ∃ y, Source f.view sources y ∧ Compensates spec y z := fun z => by
    simp only [Compensator,compensating]
  have declared : ∀ y, Source f.view sources y → ∃ x, Compensates spec y x := fun y source =>
    source.elim (serves.declared y) (proceeding.declared y)
  refine ⟨fun y found => declared y ((compensating y).mp found),fun _ => ⟨?_,fun z target => ?_,?_⟩⟩
  · obtain ⟨y,source⟩ := found
    obtain ⟨x,declares⟩ := declared y source
    exact ⟨x,(compensator x).mpr ⟨y,source,declares⟩⟩
  · obtain ⟨y,source,declares⟩ := (compensator z).mp target
    left
    rw [Waits,steps]
    rcases serves.waits z y source declares with waits | moved
    · have unmoved : z ∉ targets := fun among => by
        obtain ⟨_,state⟩ := apart z among
        rcases waits with pending | ready <;> simp_all
      rw [if_neg unmoved,if_neg fun listed => serves.settled z listed waits]
      exact waits
    · exact .inr (if_pos moved)
  · intro step listed target need needed
    rcases serves.needs step listed ((compensator _).mp target) need needed with ⟨done,unlisted⟩ | another
    · left
      have unmoved : need ∉ targets := fun among => by
        obtain ⟨_,state⟩ := apart need among
        simp_all
      rw [steps,if_neg unmoved,if_neg unlisted]
      exact done
    · exact .inr (.inr ((compensator need).mpr another))

theorem move_proceeding {act : Act} {ws : List Write} {lease : Lease} (distinct : spec.stepIds.Nodup)
    (coherent : Coherent f) (move : Move encoding spec act f ws lease) (serving : ServingAct spec f.view act)
    (proceeding : Proceeding spec f) : Proceeding spec (f.after ws lease) := by
  cases move with
  | claimed claimable => exact claimed_proceeding claimable coherent proceeding
  | sourcesCompensated working plan _ named more =>
    exact compensated_proceeding distinct working plan named more proceeding
  | compensating plan _ _ _ apart found => exact decided_proceeding apart found (serving plan) proceeding
  | cancelAgain => exact ⟨proceeding.declared,fun compensating => by
      obtain ⟨busy,waits,needs⟩ := proceeding.under compensating
      exact ⟨busy,waits,needs⟩⟩
  | unknownExpired _ plan => exact proceeding.forward (by simp [plan]) fun _ found => found
  | stepSucceeded _ plan | stepRetried _ plan =>
    refine proceeding.forward (by simp [plan]) fun y found => ?_
    simp at found
    grind
  | planSucceeded | planCompensated | compensationFailed | planFailed | interrupted | cancelQueued | cancelRunning
    | leaseExpired | resumed | unknownCancelled | restarted =>
    refine proceeding.forward (by simp) fun y found => ?_
    simp at found
    grind

end Shaka.Properties
