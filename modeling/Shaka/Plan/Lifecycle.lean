import Shaka.Plan.View
import Shaka.Plan.StoreKeys
import Shaka.Queue.Records

namespace Shaka.Plan
open Shaka.Core Queue

-- The life of a planned task: what its row says about the lease, together with
-- the view of its plan.

structure Lease where
  status : TaskStatus
  cancelRequested : Bool
  planStep : Option PlanStepId
  leaseToken : Option LeaseToken
  leaseUntil : Option Time

def leaseOf (row : TaskRecord) : Lease :=
  ⟨row.status,row.cancelRequested,row.planStepId,row.leaseToken,row.leaseUntil⟩

def Lease.free (status : TaskStatus) (cancelRequested : Bool) : Lease :=
  ⟨status,cancelRequested,none,none,none⟩

structure Flow where
  lease : Lease
  view : View

def Flow.after (f : Flow) (ws : List Write) (lease : Lease) : Flow := ⟨lease,f.view.writes ws⟩

@[simp] theorem after_lease (f : Flow) (ws : List Write) (lease : Lease) :
    (f.after ws lease).lease = lease := rfl
@[simp] theorem after_view (f : Flow) (ws : List Write) (lease : Lease) :
    (f.after ws lease).view = f.view.writes ws := rfl

-- Who makes a move, with what the guards of later results speak about.
inductive Act where
  | claim (stepId : PlanStepId)
  | finish (time : Time)
  | cancel
  | recover (time : Time)
  | resume (key : String)
  | compensate (key : String) (sources targets : List PlanStepId)
  | cancelUnknown (key : String)
  | restart

section Writes
variable (encoding : Encoding) (v : View) (x : PlanStepId) (now : Time)

def claimNumber : Nat := min (v.attempts x + 1) maxU32

def claimWrites : List Write :=
  (if v.plan = .approved then [.plan ((StoreKey.step .claimPlan x).text encoding) .running now] else []) ++
  ((if v.steps x = some .pending then
    [.step ((StoreKey.attempt .claimReady x (claimNumber v x)).text encoding) x .ready now] else []) ++
  [.step ((StoreKey.attempt .claimRunning x (claimNumber v x)).text encoding) x .running now,.attempt x])

@[simp] def succeededWrite : Write :=
  .step ((StoreKey.attempt .finishSucceeded x (v.attempts x)).text encoding) x .succeeded now

@[simp] def failedWrite : Write :=
  .step ((StoreKey.attempt .finishFailed x (v.attempts x)).text encoding) x .failed now

@[simp] def retryWrite : Write :=
  .step ((StoreKey.attempt .retryReady x (v.attempts x)).text encoding) x .ready now

@[simp] def planWrite (mark : PlanMark) (target : PlanState) : Write :=
  .plan ((StoreKey.plan mark).text encoding) target now

@[simp] def compensatedWrites (sources : List PlanStepId) : List Write :=
  stepWrites sources .compensated (fun source => (StoreKey.step .source source).text encoding) now

@[simp] def cancelledWrites (ids : List PlanStepId) : List Write :=
  stepWrites ids .cancelled (fun id => (StoreKey.step .cancelled id).text encoding) now

@[simp] def unknownWrites : List Write :=
  [.plan ((StoreKey.planUnknown now).text encoding) .unknown now,
    .step ((StoreKey.stepUnknown x now).text encoding) x .unknown now]

end Writes

-- A worker holds the lease of step `x`, and nobody asked to cancel.
structure Working (f : Flow) (x : PlanStepId) : Prop where
  status : f.lease.status = .running
  uncancelled : f.lease.cancelRequested = false
  step : f.lease.planStep = some x
  running : f.view.steps x = some .running

structure Claimable (spec : PlanSpec) (f : Flow) (x : PlanStepId) : Prop where
  status : f.lease.status = .queued
  uncancelled : f.lease.cancelRequested = false
  plan : f.view.plan = .approved ∨ f.view.plan = .running ∨ f.view.plan = .compensating
  state : f.view.steps x = some .pending ∨ f.view.steps x = some .ready
  ready : ∃ step ∈ spec.steps, step.stepId = x ∧ ∀ dependency ∈ step.dependsOn,
    f.view.steps dependency = some .succeeded

-- The plan declares `x` as the compensation of `y`.
def Compensates (spec : PlanSpec) (y x : PlanStepId) : Prop :=
  ∃ step ∈ spec.steps, step.stepId = y ∧ step.compensationStepId = some x

def Unsettled (state : PlanStepState) : Prop :=
  state = .running ∨ state = .cancelRequested ∨ state = .compensating ∨ state = .unknown

-- The moves of the code: who, from where, what is written, and the lease after it.
inductive Move (encoding : Encoding) (spec : PlanSpec) : Act → Flow → List Write → Lease → Prop
  | claimed : Claimable spec f x → Move encoding spec (.claim x) f (claimWrites encoding f.view x now)
      ⟨.running,false,some x,some token,some leaseUntil⟩
  | stepSucceeded : Working f x → f.view.plan = .running →
      Move encoding spec (.finish now) f [succeededWrite encoding f.view x now] (.free .queued false)
  | planSucceeded : Working f x → f.view.plan = .running →
      (∀ y state, f.view.steps y = some state → y = x ∨ state = .succeeded) →
      Move encoding spec (.finish now) f
        [succeededWrite encoding f.view x now,planWrite encoding now .finishSucceeded .succeeded]
        (.free .succeeded false)
  | sourcesCompensated : Working f x → f.view.plan = .compensating → sources.Nodup →
      (∀ y, y ∈ sources ↔ f.view.steps y = some .compensating ∧ Compensates spec y x) →
      (∃ y, f.view.steps y = some .compensating ∧ y ∉ sources) →
      Move encoding spec (.finish now) f
        (succeededWrite encoding f.view x now :: compensatedWrites encoding now sources) (.free .queued false)
  | planCompensated : Working f x → f.view.plan = .compensating → sources.Nodup →
      (∀ y, y ∈ sources ↔ f.view.steps y = some .compensating) →
      Move encoding spec (.finish now) f
        (succeededWrite encoding f.view x now :: (compensatedWrites encoding now sources ++
          [planWrite encoding now .compensated .compensated])) (.free .failed false)
  | compensationFailed : Working f x → f.view.plan = .compensating →
      Move encoding spec (.finish now) f
        (failedWrite encoding f.view x now :: unknownWrites encoding x now) (.free .failed false)
  | stepRetried : Working f x → f.view.plan = .running →
      Move encoding spec (.finish now) f
        [failedWrite encoding f.view x now,retryWrite encoding f.view x now] (.free .queued false)
  | planFailed : Working f x → f.view.plan = .running →
      Move encoding spec (.finish now) f
        [failedWrite encoding f.view x now,planWrite encoding now .finishFailed .failed] (.free .failed false)
  | interrupted : f.lease.status = .cancelRequested → f.lease.planStep = some x →
      f.view.steps x = some .running → f.view.plan = .cancelRequested →
      Move encoding spec (.finish now) f (unknownWrites encoding x now) (.free .cancelled true)
  | cancelQueued : f.lease.status = .queued → (f.view.plan = .approved ∨ f.view.plan = .running) → ids.Nodup →
      (∀ y, y ∈ ids ↔ f.view.steps y = some .pending ∨ f.view.steps y = some .ready) →
      Move encoding spec .cancel f
        (planWrite encoding now .cancelRequested .cancelRequested :: (cancelledWrites encoding now ids ++
          [planWrite encoding now .cancelCompleted .cancelled]))
        {f.lease with status:=.cancelled,cancelRequested:=true}
  | cancelRunning : f.lease.status = .running → f.view.plan = .running →
      Move encoding spec .cancel f [planWrite encoding now .cancelRequested .cancelRequested]
        {f.lease with status:=.cancelRequested,cancelRequested:=true}
  | cancelAgain : f.lease.status = .cancelRequested →
      Move encoding spec .cancel f [] {f.lease with cancelRequested:=true}
  | leaseExpired : f.lease.status.isLeased = true → f.lease.planStep = some x →
      f.view.steps x = some .running →
      f.view.plan = .running ∨ f.view.plan = .compensating ∨ f.view.plan = .cancelRequested →
      Move encoding spec (.recover now) f (unknownWrites encoding x now)
        (.free (if f.lease.cancelRequested then .cancelled else .failed) f.lease.cancelRequested)
  | unknownExpired : f.lease.status.isLeased = true → f.view.plan = .unknown →
      Move encoding spec (.recover now) f []
        (.free (if f.lease.cancelRequested then .cancelled else .failed) f.lease.cancelRequested)
  | resumed : f.view.plan = .unknown → ids.Nodup → (∀ y, y ∈ ids ↔ f.view.steps y = some .unknown) →
      Move encoding spec (.resume key) f
        (stepWrites ids .ready (fun x => s!"{key}:step:{x.text}") now ++ [.plan key .running now])
        (.free .queued false)
  | compensating : f.view.plan = .unknown → sources.Nodup → targets.Nodup →
      (∀ y ∈ sources, f.view.steps y = some .succeeded ∨ f.view.steps y = some .failed ∨
        f.view.steps y = some .unknown) →
      (∀ y ∈ targets, y ∉ sources ∧ (f.view.steps y = some .unknown ∨ f.view.steps y = some .failed)) →
      (∃ y, y ∈ sources ∨ f.view.steps y = some .compensating) →
      Move encoding spec (.compensate key sources targets) f
        (stepWrites sources .compensating (fun x => s!"{key}:source:{x.text}") now ++
          (stepWrites targets .ready (fun x => s!"{key}:target:{x.text}") now ++
            [.plan key .compensating now])) (.free .queued false)
  | unknownCancelled : f.view.plan = .unknown →
      (∀ y state, f.view.steps y = some state → ¬ Unsettled state) →
      Move encoding spec (.cancelUnknown key) f [.plan key .cancelled now] (.free .cancelled true)
  | restarted : f.view.plan = .running ∨ f.view.plan = .compensating ∨ f.view.plan = .cancelRequested →
      ids.Nodup → (∀ y, y ∈ ids ↔ f.view.steps y = some .running ∨ f.view.steps y = some .cancelRequested ∨
        f.view.steps y = some .compensating) →
      Move encoding spec .restart f (.plan key .unknown now :: stepWrites ids .unknown keyOf now) f.lease

end Shaka.Plan
