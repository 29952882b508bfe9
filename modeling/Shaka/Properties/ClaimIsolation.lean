import Shaka.Properties.ClaimSelection
import Shaka.Properties.FreshKeys
import Shaka.Store.Inspections
import Shaka.Store.Turns

namespace Shaka.Properties
open Shaka.Core Queue Plan Store CheckedSteps GuardedRuns

variable {encoding : StoreEncoding} {s s' : QueueStore} {planContext : PlanClaimContext}
  {now leaseFor leaseUntil : Time} {task other : TaskRecord} {rows rows' : PlanRows} {step step' : PlanStep}

-- The step of a planned task that a claim would bind, with the rows of its plan.
structure Selected (encoding : StoreEncoding) (s : QueueStore) (planContext : PlanClaimContext) (now : Time)
    (task : TaskRecord) (rows : PlanRows) (step : PlanStep) : Prop where
  named : planKeyOf task = some (rows.plan.planId,rows.plan.revision)
  stored : s.plans.lookup (rows.plan.planId,rows.plan.revision) = some rows
  granted : Granted encoding ⟨rows,s.nextUuid⟩ task (referenceOf rows) (effectiveContext planContext task)
    now step

-- A task without a plan, or one with a step that a claim would bind.
def Offers (encoding : StoreEncoding) (s : QueueStore) (planContext : PlanClaimContext) (now : Time)
    (task : TaskRecord) :
    Prop :=
  task.planId = none ∨ ∃ rows step, Selected encoding s planContext now task rows step

-- The keys under which the claim of a step is recorded are not in the journal of its plan.
def Recordable (encoding : StoreEncoding) (now : Time) (rows : PlanRows) (step : PlanStep) : Prop :=
  rows.attemptsOf step.stepId ≤ maxU32 ∧
    Fresh (view rows) (claimWrites encoding.toEncoding (view rows) step.stepId now)

-- What a claim of the task writes is accepted: its attempt can be counted, and the step of its plan recorded.
def Writable (encoding : StoreEncoding) (s : QueueStore) (planContext : PlanClaimContext) (now : Time)
    (task : TaskRecord) : Prop :=
  task.attempts < maxU32 ∧
    ∀ rows step, Selected encoding s planContext now task rows step → Recordable encoding now rows step

-- A claim does not fail, and hands out a task whenever one is due and claimable.
def Isolated (encoding : StoreEncoding) (s : QueueStore) (planContext : PlanClaimContext)
    (now leaseFor : Time) : Prop :=
  ∃ answer s', claimNextWithPlanContext encoding s now leaseFor planContext = .ok (answer,s') ∧
    ∀ task, Due s now task → Claimable encoding s planContext now task → answer.isSome = true

-- One of the tasks that a claim reads is claimable, if any due task is.
def WithinReach (encoding : StoreEncoding) (s : QueueStore) (planContext : PlanClaimContext) (now : Time) :
    Prop :=
  ∀ task, Due s now task → Claimable encoding s planContext now task →
    ∃ other ∈ claimCandidates s now, Claimable encoding s planContext now other

-- What is written for the first of these tasks that offers a claim is accepted.
structure Unobstructed (encoding : StoreEncoding) (s : QueueStore) (planContext : PlanClaimContext)
    (now : Time) : Prop where
  first : ∀ ahead task rest, claimCandidates s now = ahead ++ task :: rest →
    (∀ other ∈ ahead, ¬ Offers encoding s planContext now other) → Offers encoding s planContext now task →
    Writable encoding s planContext now task
  near : WithinReach encoding s planContext now

theorem Selected.unique (selected : Selected encoding s planContext now task rows step)
    (selected' : Selected encoding s planContext now task rows' step') : rows' = rows ∧ step' = step := by
  have key := selected.named.symm.trans selected'.named
  have stored := selected'.stored
  rw [← Option.some.inj key,selected.stored] at stored
  obtain rfl := Option.some.inj stored
  exact ⟨rfl,Option.some.inj (selected'.granted.selected.symm.trans selected.granted.selected)⟩

theorem Selected.planned (selected : Selected encoding s planContext now task rows step) :
    task.planId.isSome = true := by
  have named := selected.named
  unfold planKeyOf at named
  split at named
  · next planId _ => rw [planId]; rfl
  · cases named

-- Once a step is selected, all that is left is to bind it.
theorem granted_binds {tx : PlanTx} {reference : PlanTaskReference} {claimContext : PlanClaimContext}
    (granted : Granted encoding tx task reference claimContext now step) :
    preparePlannedClaimTx encoding tx task reference claimContext now = (do
      let tx' ← bindStepTx encoding tx (snapshotOf tx.rows) tx.rows.stepStates step claimContext now
      pure (some (step,tx'))) := by
  obtain ⟨loaded,taskId,mode,unbound,claimable,states,preflight,selected⟩ := granted
  simp only [preparePlannedClaimTx,loaded,ok_bind]
  rw [require_pos _ (show (snapshotOf tx.rows).taskId = task.taskId ∧ (snapshotOf tx.rows).mode = .dryRun from
    ⟨taskId,mode⟩),ok_bind,require_pos _ unbound,ok_bind,if_neg (by simpa using claimable),states,ok_bind]
  simp only [preflight,selected]
  rfl

-- A claim hands out a task that it could prepare and lease.
theorem claimFirst_hands {bound : Option (PlanId × PlanStep)} {store : QueueStore} {claimed : TaskRecord}
    (prepared : prepareCandidate encoding s task planContext now = .ok (some (task,bound,store)))
    (lease : leaseTask encoding store task bound leaseUntil now = .ok (claimed,s')) :
    claimFirst encoding s planContext leaseUntil now [task] = .ok (some claimed,s') := by
  simp only [claimFirst,prepared,ok_bind,lease]
  rfl

-- A planned task finds its plan, and is in order for a claim.
theorem due_planned (sound : Sound encoding s) (hex : ∀ text, isSha256Text (encoding.sha256Hex text) = true)
    (due : Due s now task) (planned : task.planId ≠ none) : ∃ rows,
    planKeyOf task = some (rows.plan.planId,rows.plan.revision) ∧
    s.plans.lookup (rows.plan.planId,rows.plan.revision) = some rows ∧
    taskReference task = .ok (referenceOf rows) ∧
    Filed encoding (rows.plan.planId,rows.plan.revision) rows ∧ Joined task rows ∧
    task.planStepId = none := by
  obtain ⟨planId,someId⟩ := Option.ne_none_iff_exists'.mp planned
  have rowed := sound.rowed _ _ due.1
  obtain ⟨revision,someRevision⟩ := Option.isSome_iff_exists.mp (rowed.revision.trans (by rw [someId]; rfl))
  obtain ⟨rows,stored,joined,coherent⟩ :=
    sound.joined _ _ (planId,revision) due.1 (by simp [planKeyOf,someId,someRevision])
  have filed := sound.filed _ _ stored
  obtain ⟨rfl,rfl⟩ := (⟨filed.planId.symm,filed.revision.symm⟩ : planId = rows.plan.planId ∧
      revision = rows.plan.revision)
  refine ⟨rows,by simp [planKeyOf,someId,someRevision],stored,?_,filed,joined,?_⟩
  · rw [taskReference,joined.planId,joined.revision,joined.digest]
    exact filed.reference (require_pos _ (hex _))
  · have queued := due.2
    simp only [isDue,Bool.and_eq_true,beq_iff_eq] at queued
    exact coherent.unbound (by rw [flowOf,leaseOf,queued.1.1]; rfl)

theorem selected_binds (sound : Sound encoding s) (digest : SoundDigest planContext.stateDigest)
    (selected : Selected encoding s planContext now task rows step) :
    (∃ tx', bindStepTx encoding ⟨rows,s.nextUuid⟩ (snapshotOf rows) rows.stepStates step
      (effectiveContext planContext task) now = .ok tx') ↔ Recordable encoding now rows step := by
  constructor
  · rintro ⟨tx',ok⟩
    exact ⟨@bindStepTx_counted encoding ⟨rows,s.nextUuid⟩ now tx' step _ ok,(bindStepTx_writes.ran ok).fresh⟩
  · rintro ⟨counted,fresh⟩
    obtain ⟨present,waiting,_⟩ := selected.granted.step
    have filed := sound.filed _ _ selected.stored
    have structured := filed.structured
    simp only [PlanSpec.validateStructure,bind_ok,require_ok,exists_const] at structured
    have key := validateStructure_ids filed.structured step.stepId (List.mem_map_of_mem present)
    exact @bindStepTx_done encoding ⟨rows,s.nextUuid⟩ now step (effectiveContext planContext task)
      ⟨waiting,counted,structured.1,validatePlanKey_short key,fresh⟩ digest

-- What a claim makes of a due task.
section Reading
variable (sound : Sound encoding s) (hex : ∀ text, isSha256Text (encoding.sha256Hex text) = true)
  (tenants : NamedOwners s)
  (due : Due s now task)
include sound tenants due

theorem due_loaded : liftCore (TenantId.new task.tenantId.text) = .ok task.tenantId ∧
    loadTask encoding s task.taskId task.tenantId = .ok task :=
  ⟨liftCore_ok.mpr (tenants _ _ due.1),loadTask_ok.mpr ⟨due.1,rfl,(sound.rowed _ _ due.1).checked⟩⟩

theorem prepare_direct (direct : task.planId = none) :
    prepareCandidate encoding s task planContext now = .ok (some (task,none,s)) := by
  obtain ⟨tenant,loaded⟩ := due_loaded sound tenants due
  rw [prepareCandidate,tenant,ok_bind,loaded,ok_bind,if_neg (by simp [direct])]
  rfl

include hex

theorem prepare_planned (named : planKeyOf task = some (rows.plan.planId,rows.plan.revision))
    (stored : s.plans.lookup (rows.plan.planId,rows.plan.revision) = some rows) :
    prepareCandidate encoding s task planContext now = (do
      match ← preparePlannedClaimTx encoding ⟨rows,s.nextUuid⟩ task (referenceOf rows)
        (effectiveContext planContext task) now with
      | some (step,tx) => pure (some (task,some (rows.plan.planId,step),
          s.storePlan (rows.plan.planId,rows.plan.revision) tx))
      | none => pure none) := by
  obtain ⟨tenant,loaded⟩ := due_loaded sound tenants due
  have planned : task.planId ≠ none := fun direct => by simp [planKeyOf,direct] at named
  obtain ⟨rows',named',stored',reference,_⟩ := due_planned sound hex due planned
  rw [← Option.some.inj (named.symm.trans named'),stored] at stored'
  obtain rfl := Option.some.inj stored'
  have begun : s.beginPlan encoding (referenceOf rows) = .ok ⟨rows,s.nextUuid⟩ :=
    bind_ok.mpr ⟨rows,orFail_ok.mpr stored,rfl⟩
  rw [prepareCandidate,tenant,ok_bind,loaded,ok_bind,if_pos (Option.isSome_iff_ne_none.mpr planned),
    reference,ok_bind]
  simp only [begun,ok_bind]
  rfl

theorem prepare_selected (selected : Selected encoding s planContext now task rows step) :
    prepareCandidate encoding s task planContext now = (do
      let tx ← bindStepTx encoding ⟨rows,s.nextUuid⟩ (snapshotOf rows) rows.stepStates step
        (effectiveContext planContext task) now
      pure (some (task,some (rows.plan.planId,step),
          s.storePlan (rows.plan.planId,rows.plan.revision) tx))) := by
  rw [prepare_planned sound hex tenants due selected.named selected.stored,granted_binds selected.granted]
  cases bindStepTx encoding ⟨rows,s.nextUuid⟩ (snapshotOf rows) rows.stepStates step
    (effectiveContext planContext task) now <;> rfl

-- A claim passes over a task exactly when it offers none.
theorem prepare_skips : prepareCandidate encoding s task planContext now = .ok none ↔
    ¬ Offers encoding s planContext now task := by
  constructor
  · rintro skipped (direct | ⟨rows,step,selected⟩)
    · cases skipped.symm.trans (prepare_direct sound tenants due direct)
    · rw [prepare_selected sound hex tenants due selected] at skipped
      obtain ⟨tx,_,none⟩ := bind_ok.mp skipped
      cases none
  · intro unoffered
    have planned : task.planId ≠ none := fun direct => unoffered (.inl direct)
    obtain ⟨rows,named,stored,reference,filed,joined,unbound⟩ := due_planned sound hex due planned
    have passes := @unready_blocked encoding now task ⟨rows,s.nextUuid⟩ (referenceOf rows)
      (effectiveContext planContext task) (filed.loads joined) ⟨joined.taskId,
        joined.mode⟩ unbound filed.loadStepStates
      fun step granted => unoffered (.inr ⟨rows,step,named,stored,granted⟩)
    rw [prepare_planned sound hex tenants due named stored,passes]
    rfl

-- A claim hands out a task that it offers exactly when it can write what it has to.
theorem claimFirst_serves (digest : SoundDigest planContext.stateDigest)
    (offers : Offers encoding s planContext now task) :
    (∃ claimed s', claimFirst encoding s planContext leaseUntil now [task] = .ok (some claimed,s')) ↔
      Writable encoding s planContext now task := by
  have queued : task.status = .queued := by
    have due := due.2
    simp only [isDue,Bool.and_eq_true,beq_iff_eq] at due
    exact due.1.1
  have checked := (sound.rowed _ _ due.1).checked
  constructor
  · rintro ⟨claimed,s',ok⟩
    obtain ⟨preparation,prepared,ok⟩ := bind_ok.mp ok
    split at ok
    · cases ok
    next task' bound store =>
    obtain ⟨⟨leased,next⟩,lease,_⟩ := bind_ok.mp ok
    obtain ⟨found,_,_,outcome⟩ := prepareCandidate_parts prepared
    obtain rfl := Option.some.inj (due.1.symm.trans found)
    have kept : store.tasks.lookup task.taskId = some task := by
      rcases outcome with ⟨_,_,rfl⟩ | ⟨_,_,_,_,_,_,_,_,rfl⟩ <;> exact found
    obtain ⟨row,rfl,accepted,_⟩ := leaseTask_parts kept lease
    refine ⟨leaseRow_counted queued accepted,fun rows step selected => ?_⟩
    rw [prepare_selected sound hex tenants due selected] at prepared
    obtain ⟨tx',ran,_⟩ := bind_ok.mp prepared
    exact (selected_binds sound digest selected).mp ⟨tx',ran⟩
  · rintro ⟨few,recordable⟩
    rcases offers with direct | ⟨rows,step,selected⟩
    · have accepted := @leaseRow_checked task ⟨s.nextUuid⟩ none leaseUntil now checked queued few
          fun _ bound => by cases bound
      exact ⟨_,_,claimFirst_hands (prepare_direct sound tenants due direct) (leaseTask_done due.1 accepted)⟩
    · obtain ⟨tx',ran⟩ := (selected_binds sound digest selected).mpr (recordable rows step selected)
      have key := validateStructure_ids (sound.filed _ _ selected.stored).structured step.stepId
        (List.mem_map_of_mem selected.granted.step.1)
      have accepted := @leaseRow_checked task ⟨tx'.nextUuid⟩ (some step.stepId) leaseUntil now checked
        queued few fun _ bound => Option.some.inj bound ▸ ⟨key,selected.planned⟩
      have prepared :
          prepareCandidate encoding s task planContext now = .ok (some (task,some (rows.plan.planId,step),
          s.storePlan (rows.plan.planId,rows.plan.revision) tx')) := by
        rw [prepare_selected sound hex tenants due selected,ran]
        rfl
      exact ⟨_,_,claimFirst_hands prepared (@leaseTask_done encoding (s.storePlan (rows.plan.planId,
        rows.plan.revision) tx') task (some (rows.plan.planId,step)) leaseUntil now due.1 accepted)⟩

-- The task on which a claim fails offered one.
theorem fails_offers {error : QueueError} (digest : SoundDigest planContext.stateDigest)
    (fails : Fails encoding s planContext leaseUntil now task error) :
    Offers encoding s planContext now task ∧ ¬ Writable encoding s planContext now task := by
  have offers : Offers encoding s planContext now task := by
    by_contra unoffered
    have skipped := (prepare_skips sound hex tenants due).mpr unoffered
    simp only [Fails,claimFirst,skipped,ok_bind] at fails
    cases fails
  refine ⟨offers,fun writable => ?_⟩
  obtain ⟨claimed,s',served⟩ := (claimFirst_serves sound hex tenants due digest offers).mpr writable
  cases served.symm.trans fails

end Reading

-- Two ways of finding the first element of a list that is wanted.
theorem first_unique {α : Type} {wanted : α → Prop} {items ahead ahead' rest rest' : List α} {a b : α}
    (order : items = ahead ++ a :: rest) (order' : items = ahead' ++ b :: rest')
    (before : ∀ c ∈ ahead, ¬ wanted c) (before' : ∀ c ∈ ahead', ¬ wanted c) (here : wanted a)
    (here' : wanted b) : a = b := by
  rcases List.append_eq_append_iff.mp (order.symm.trans order') with ⟨more,rfl,same⟩ | ⟨more,rfl,same⟩
  · cases more with
    | nil => exact (List.cons.inj same).1
    | cons c more =>
      obtain ⟨rfl,_⟩ := List.cons.inj same
      exact absurd here (before' a (by simp))
  · cases more with
    | nil => exact (List.cons.inj same).1.symm
    | cons c more =>
      obtain ⟨rfl,_⟩ := List.cons.inj same
      exact absurd here' (before b (by simp))

-- Where every act so far found its keys unused, and the claim does, the binding of a step is recorded.
theorem keyed_recordable (clock : Function.Injective encoding.rfc3339) (run : Run encoding (Keyed encoding) s)
    (keyed : Keyed encoding s (.claim now leaseFor planContext)) (due : Due s now task)
    (selected : Selected encoding s planContext now task rows step) : Recordable encoding now rows step := by
  have kept := pair_kept (run_spent clock run) due.1 selected.named selected.stored
  have counted := (keyed.2 (.claim step.stepId) task rows
    ⟨due.1,⟨_,selected.named,selected.stored⟩,⟨step.stepId,rfl⟩,due.2⟩ trivial).1
  have move := @Move.claimed encoding.toEncoding _ _ _ now ⟨0⟩ now (selected.granted.claimable_step due.2)
  exact ⟨Nat.le_of_lt counted,move.fresh clock (fun x state found =>
    kept.filed.plain found) counted kept.spent rfl⟩

theorem isolated_iff (hex : ∀ text, isSha256Text (encoding.sha256Hex text) = true)
    (run : Run encoding Ordinary s) (positive : 0 < leaseFor)
    (digest : SoundDigest planContext.stateDigest) :
    Isolated encoding s planContext now leaseFor ↔ Unobstructed encoding s planContext now := by
  have sound := (run_steady run ordinary_safe).sound
  have tenants := run_owners run
  have keyed : ∀ taskId task, s.tasks.lookup taskId = some task → task.taskId = taskId :=
    fun taskId task found => (sound.rowed taskId task found).taskId
  have whole : claimNextWithPlanContext encoding s now leaseFor planContext =
      claimFirst encoding s planContext (now + leaseFor) now (claimCandidates s now) := by
    rw [claimNextWithPlanContext,require_pos _ positive,ok_bind]
  have unoffered : ∀ skipped candidate rest, claimCandidates s now = skipped ++ candidate :: rest →
      (∀ other ∈ skipped, prepareCandidate encoding s other planContext now = .ok none) →
      ∀ other ∈ skipped, ¬ Offers encoding s planContext now other :=
      fun skipped candidate rest order skips other listed =>
    (prepare_skips sound hex tenants (candidate_due keyed (by simp [order,listed]))).mp (skips other listed)
  rw [Isolated,whole]
  constructor
  · rintro ⟨answer,s',ok,hands⟩
    have parts := claimFirst_parts ok
    refine ⟨fun ahead task rest order before offers => ?_,fun task due claimable => ?_⟩
    · have due := candidate_due keyed (show task ∈ claimCandidates s now by simp [order])
      rcases parts with ⟨_,_,skips⟩ | ⟨skipped,candidate,later,_,bound,store,claimed,found,skips,
        preparation,lease,_⟩
      · exact absurd offers ((prepare_skips sound hex tenants due).mp (skips task (by simp [order])))
      have chosen := candidate_due keyed (show candidate ∈ claimCandidates s now by simp [found])
      have wanted : Offers encoding s planContext now candidate := by
        by_contra none
        rw [(prepare_skips sound hex tenants chosen).mpr none] at preparation
        cases preparation
      obtain rfl := first_unique order found before (unoffered _ _ _ found skips) offers wanted
      refine (@claimFirst_serves _ _ _ _ (now + leaseFor) _ sound hex tenants due digest offers).mp
        ⟨claimed,s',?_⟩
      exact bind_ok.mpr ⟨_,preparation,bind_ok.mpr ⟨_,lease,rfl⟩⟩
    · have handed := hands task due claimable
      rcases parts with ⟨rfl,_⟩ | ⟨skipped,candidate,later,row,bound,store,claimed,found,skips,
        preparation,lease,_⟩
      · cases handed
      have listed : candidate ∈ claimCandidates s now := by simp [found]
      refine ⟨candidate,listed,?_⟩
      obtain ⟨present,_,_,outcome⟩ := prepareCandidate_parts preparation
      obtain rfl := Option.some.inj ((candidate_due keyed listed).1.symm.trans present)
      rcases outcome with ⟨direct,_⟩ | ⟨reference,rows,step,tx',named,stored,granted,_⟩
      · exact .inl direct
      · exact .inr ⟨reference,rows,step,tx',named,stored,granted⟩
  · rintro ⟨first,near⟩
    cases ran : claimFirst encoding s planContext (now + leaseFor) now (claimCandidates s now) with
    | error error =>
      obtain ⟨skipped,candidate,rest,order,skips,fails⟩ := claimFirst_error ran
      have due := candidate_due keyed (show candidate ∈ claimCandidates s now by simp [order])
      obtain ⟨offers,unwritable⟩ := fails_offers sound hex tenants due digest fails
      exact absurd (first skipped candidate rest order (unoffered _ _ _ order skips) offers) unwritable
    | ok outcome =>
      obtain ⟨answer,s'⟩ := outcome
      refine ⟨answer,s',rfl,fun task due claimable => ?_⟩
      obtain ⟨other,listed,served⟩ := near task due claimable
      rcases claimFirst_parts ran with ⟨_,_,skips⟩ | ⟨_,_,_,_,_,_,_,_,_,_,_,rfl⟩
      · exact absurd served (skipped_blocked (candidate_due keyed listed) (skips other listed))
      · rfl

-- In every state of a run a claim does not fail, and hands out a task whenever one is due and claimable,
-- exactly where what it writes for the first task that it can offer is accepted, and one of the tasks that
-- it reads is claimable if any is. The former holds where every act of the run found its keys unused.
theorem claim_isolated (hex : ∀ text, isSha256Text (encoding.sha256Hex text) = true)
    (run : Run encoding Ordinary s) (positive : 0 < leaseFor)
    (digest : SoundDigest planContext.stateDigest) :
    (Isolated encoding s planContext now leaseFor ↔ Unobstructed encoding s planContext now) ∧
    (Function.Injective encoding.rfc3339 → Run encoding (Keyed encoding) s →
      Keyed encoding s (.claim now leaseFor planContext) → (∀ task, Due s now task → task.attempts < maxU32) →
      (Isolated encoding s planContext now leaseFor ↔ WithinReach encoding s planContext now)) := by
  have isolated := @isolated_iff encoding s planContext now leaseFor hex run positive digest
  refine ⟨isolated,fun clock fresh keyed few => isolated.trans ⟨Unobstructed.near,fun near => ⟨?_,near⟩⟩⟩
  intro ahead task rest order _ _
  have rowed := (run_steady run ordinary_safe).sound.rowed
  have due := candidate_due (fun taskId task found => (rowed taskId task found).taskId)
    (show task ∈ claimCandidates s now by simp [order])
  exact ⟨few task due,fun rows step => keyed_recordable clock fresh keyed due⟩

-- An operator resumes a plan under the key that the next claim of its step records. A direct task waits
-- behind it.
def reservedRun : List Operation := trialOpen 7 [trialStep "a" [] none] ++
  [trialClaim 2,.recoverExpiredLeases (second 5),trialSubmit 8 false (second 5),
    trialResolve 7 .resume "claim:running:a:2" 6]

theorem claim_isolated_reserved : Run trialEncoding Ordinary (trial reservedRun) ∧
    claimNext trialEncoding (trial reservedRun) (second 7) (second 1) =
      .error (.sqlite .uniqueTransitionKey) ∧
    (∃ task, Due (trial reservedRun) (second 7) task ∧
      Claimable trialEncoding (trial reservedRun) .default (second 7) task) ∧
    ¬ Isolated trialEncoding (trial reservedRun) .default (second 7) (second 1) := by
  have refused : claimNext trialEncoding (trial reservedRun) (second 7) (second 1) =
      .error (.sqlite .uniqueTransitionKey) := by
    have evaluated : (match claimNext trialEncoding (trial reservedRun) (second 7) (second 1) with
        | .error e => e == .sqlite .uniqueTransitionKey
        | .ok _ => false) = true := by decide +kernel
    cases outcome : claimNext trialEncoding (trial reservedRun) (second 7) (second 1) with
    | error e =>
      rw [outcome] at evaluated
      exact congrArg _ (by simpa using evaluated)
    | ok answer =>
      rw [outcome] at evaluated
      cases evaluated
  refine ⟨ordinary_run rfl,refused,?_,?_⟩
  · have listed : ((trial reservedRun).tasks.lookup ⟨8⟩).map (fun task =>
        (decide (task.taskId = ⟨8⟩) && isDue (second 7) task,task.planId)) = some (true,
          none) := by decide +kernel
    obtain ⟨task,found,checked⟩ := Option.map_eq_some_iff.mp listed
    obtain ⟨due,direct⟩ := Prod.mk.inj checked
    rw [Bool.and_eq_true,decide_eq_true_eq] at due
    exact ⟨task,⟨due.1 ▸ found,due.2⟩,.inl direct⟩
  · rintro ⟨answer,s',ok,_⟩
    cases ok.symm.trans refused

-- Digests that are hexadecimal whatever they are taken of.
def shownDigest (text : String) : String :=
  if isSha256Text (trialEncoding.sha256Hex text) then trialEncoding.sha256Hex text else trialDigest 0

theorem shownDigest_hex (text : String) : isSha256Text (shownDigest text) = true := by
  unfold shownDigest
  split
  · assumption
  · decide +kernel

def hexEncoding : StoreEncoding := {trialEncoding with sha256Hex := shownDigest}

def openedStore : QueueStore := play (exec hexEncoding) .empty (trialOpen 7 [trialStep "a" [] none])

theorem openedStore_isolated : Isolated hexEncoding openedStore .default (second 2) (second 1) := by
  have handed : (claimNext hexEncoding openedStore (second 2) (second 1)).toOption.map (fun answer =>
      answer.1.isSome) = some true := by decide +kernel
  cases ran : claimNext hexEncoding openedStore (second 2) (second 1) with
  | error e =>
    rw [ran] at handed
    cases handed
  | ok answer =>
    rw [ran] at handed
    exact ⟨answer.1,answer.2,ran,fun _ _ _ => Option.some.inj handed⟩

theorem claim_isolated_opened : Unobstructed hexEncoding openedStore .default (second 2) ∧
    WithinReach hexEncoding openedStore .default (second 2) := by
  have isolated := @claim_isolated hexEncoding openedStore .default (second 2) (second 1) shownDigest_hex
    (ordinary_run rfl) (by decide) (fun _ given => by cases given)
  have fresh : Run hexEncoding (Keyed hexEncoding) openedStore :=
    play_reaches (admitted_always trialOpen_keyed)
  have few : openedStore.taskRows.all (fun task => decide (task.attempts < maxU32)) = true := by
    decide +kernel
  refine ⟨isolated.1.mp openedStore_isolated,
    (isolated.2 trial_clock fresh (keyed_claim (by decide +kernel)) ?_).mp
    openedStore_isolated⟩
  exact fun task due => of_decide_eq_true (List.all_eq_true.mp few task (mem_taskRows.mpr ⟨_,due.1⟩))

end Shaka.Properties
