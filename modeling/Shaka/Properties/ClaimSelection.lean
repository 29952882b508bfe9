import Shaka.Properties.ClaimSafety

namespace Shaka.Properties
open Shaka.Core Queue Plan Store CheckedSteps

variable {encoding : StoreEncoding} {s s' : QueueStore} {planContext : PlanClaimContext}
  {now leaseFor leaseUntil : Time} {task other : TaskRecord}

-- The row of a task that is queued, not cancelled and due.
def Due (s : QueueStore) (now : Time) (task : TaskRecord) : Prop :=
  s.tasks.lookup task.taskId = some task ∧ isDue now task = true

-- A task without a plan, or one for which a claim would bind a step.
def Claimable (encoding : StoreEncoding) (s : QueueStore) (planContext : PlanClaimContext) (now : Time)
    (task : TaskRecord) : Prop :=
  task.planId = none ∨ ∃ reference rows step tx', taskReference task = .ok reference ∧
    s.plans.lookup (reference.planId,reference.revision) = some rows ∧
    preparePlannedClaimTx encoding ⟨rows,s.nextUuid⟩ task reference (effectiveContext planContext task) now =
      .ok (some (step,tx'))

-- As many tasks as a claim reads are due, come before this one and are not claimable.
def BehindBlocked (encoding : StoreEncoding) (s : QueueStore) (planContext : PlanClaimContext) (now : Time)
    (task : TaskRecord) : Prop :=
  ∃ ahead : List TaskRecord, ahead.Nodup ∧ ahead.length = claimLimit ∧
    ∀ other ∈ ahead, Due s now other ∧ claimOrder other task ∧ ¬ Claimable encoding s planContext now other

-- A claim fails on this task alone.
def Fails (encoding : StoreEncoding) (s : QueueStore) (planContext : PlanClaimContext) (leaseUntil now : Time)
    (task : TaskRecord) (error : QueueError) : Prop :=
  claimFirst encoding s planContext leaseUntil now [task] = .error error

instance : Std.Total claimOrder := ⟨fun left right => by
  unfold claimOrder Time at *
  omega⟩

instance : IsTrans TaskRecord claimOrder := ⟨fun first second third => by
  unfold claimOrder Time at *
  omega⟩

theorem claimCandidates_sorted : (claimCandidates s now).Pairwise claimOrder :=
  (List.pairwise_insertionSort claimOrder _).sublist (List.take_sublist _ _)

theorem taskRows_nodup (keyed : ∀ taskId task, s.tasks.lookup taskId = some task → task.taskId = taskId) :
    s.taskRows.Nodup := by
  have ids : s.taskRows.map (·.taskId) = s.tasks.entries.keys := by
    simp only [QueueStore.taskRows,List.map_map,List.keys]
    refine List.map_congr_left fun entry listed => ?_
    exact keyed entry.1 entry.2 (AList.mem_lookup_iff.mpr listed)
  apply List.Nodup.of_map
  rw [ids]
  exact s.tasks.nodupKeys

-- A due task that is no candidate comes after a full list of them.
theorem candidates_first (due : Due s now task) : task ∈ claimCandidates s now ∨
    ((claimCandidates s now).length = claimLimit ∧ ∀ other ∈ claimCandidates s now,
      claimOrder other task) := by
  have sorted := List.pairwise_insertionSort claimOrder (s.taskRows.filter (isDue now))
  have listed : task ∈ (s.taskRows.filter (isDue now)).insertionSort claimOrder :=
    (List.mem_insertionSort _).mpr (List.mem_filter.mpr ⟨mem_taskRows.mpr ⟨_,due.1⟩,due.2⟩)
  unfold claimCandidates
  rw [← List.take_append_drop claimLimit (List.insertionSort claimOrder _)] at listed sorted
  rcases List.mem_append.mp listed with early | late
  · exact .inl early
  · have long := List.length_pos_of_mem late
    rw [List.length_drop] at long
    refine .inr ⟨?_,fun other chosen => (List.pairwise_append.mp sorted).2.2 other chosen task late⟩
    rw [List.length_take]
    omega

theorem candidate_due (keyed : ∀ taskId task, s.tasks.lookup taskId = some task → task.taskId = taskId)
    (listed : task ∈ claimCandidates s now) : Due s now task :=
  ⟨candidate_listed keyed listed,(mem_claimCandidates listed).2⟩

-- The loop skips only a task of a plan for which no step can be bound.
theorem skipped_blocked (due : Due s now task)
    (skipped : prepareCandidate encoding s task planContext now = .ok none) :
    ¬ Claimable encoding s planContext now task := by
  simp only [prepareCandidate,bind_ok] at skipped
  obtain ⟨_,_,row,loaded,skipped⟩ := skipped
  obtain rfl := Option.some.inj (due.1.symm.trans (loadTask_ok.mp loaded).1)
  split at skipped
  · next planned =>
    obtain ⟨reference,named,tx,begun,preparation,ran,skipped⟩ := by simpa only [bind_ok] using skipped
    obtain ⟨rows,stored,rfl⟩ := beginPlan_ok begun
    rintro (direct | ⟨reference',rows',step,tx',named',stored',granted⟩)
    · simp [direct] at planned
    · obtain rfl := Except.ok.inj (named.symm.trans named')
      obtain rfl := Option.some.inj (stored.symm.trans stored')
      obtain rfl := Except.ok.inj (ran.symm.trans granted)
      cases skipped
  · cases skipped

theorem claimFirst_error {candidates : List TaskRecord} {error : QueueError}
    (failed : claimFirst encoding s planContext leaseUntil now candidates = .error error) :
    ∃ skipped candidate rest, candidates = skipped ++ candidate :: rest ∧
      (∀ other ∈ skipped, prepareCandidate encoding s other planContext now = .ok none) ∧
      Fails encoding s planContext leaseUntil now candidate error := by
  induction candidates with
  | nil => cases failed
  | cons candidate rest ih =>
    cases prepared : prepareCandidate encoding s candidate planContext now with
    | error raised =>
      refine ⟨[],candidate,rest,rfl,by simp,?_⟩
      simpa only [Fails,claimFirst,prepared,error_bind] using failed
    | ok preparation =>
      cases preparation with
      | none =>
        simp only [claimFirst,prepared,ok_bind] at failed
        obtain ⟨skipped,other,later,order,skips,fails⟩ := ih failed
        exact ⟨candidate :: skipped,other,later,by simp [order],by simpa [prepared] using skips,fails⟩
      | some found =>
        refine ⟨[],candidate,rest,rfl,by simp,?_⟩
        simpa only [Fails,claimFirst,prepared,ok_bind] using failed

-- The first candidate that is not skipped comes before every claimable task.
theorem first_precedes {skipped rest : List TaskRecord}
    (order : claimCandidates s now = skipped ++ task :: rest)
    (skips : ∀ other ∈ skipped, prepareCandidate encoding s other planContext now = .ok none)
    (due : Due s now other) (claimable : Claimable encoding s planContext now other) :
    claimOrder task other := by
  rcases candidates_first due with listed | ⟨_,later⟩
  · rw [order] at listed
    rcases List.mem_append.mp listed with early | late
    · exact absurd claimable (skipped_blocked due (skips other early))
    · have sorted := @claimCandidates_sorted s now
      rw [order] at sorted
      rcases List.mem_cons.mp late with same | behind
      · rw [same]
        exact (Std.Total.total (r := claimOrder) task task).elim id id
      · exact List.rel_of_pairwise_cons (List.pairwise_append.mp sorted).2.1 behind
  · exact later task (by simp [order])

-- A claim hands out the first of the claimable tasks. It finds none only if each of them stands
-- behind a full list of tasks that are not claimable, and fails on a task that comes before them all.
theorem claim_selection (keyed : ∀ taskId task, s.tasks.lookup taskId = some task → task.taskId = taskId) :
    (∀ s', claimNextWithPlanContext encoding s now leaseFor planContext = .ok (none,s') →
      ∀ task, Due s now task → Claimable encoding s planContext now task →
      BehindBlocked encoding s planContext now task) ∧
    (∀ claimed s', claimNextWithPlanContext encoding s now leaseFor planContext = .ok (some claimed,s') →
      ∃ task, Due s now task ∧ Claimable encoding s planContext now task ∧ claimed.taskId = task.taskId ∧
        ∀ other, Due s now other → Claimable encoding s planContext now other → claimOrder task other) ∧
    ∀ error, claimNextWithPlanContext encoding s now leaseFor planContext = .error error → leaseFor ≤ 0 ∨
      ∃ task, Due s now task ∧ Fails encoding s planContext (now + leaseFor) now task error ∧
        ∀ other, Due s now other → Claimable encoding s planContext now other → claimOrder task other := by
  refine ⟨fun s' ok task due claimable => ?_,fun claimed s' ok => ?_,fun error failed => ?_⟩
  · simp only [claimNextWithPlanContext,bind_ok,require_ok,exists_const] at ok
    rcases claimFirst_parts ok.2 with ⟨_,_,skips⟩ | ⟨_,_,_,_,_,_,_,_,_,_,_,handed⟩
    · have blocked : ∀ other ∈ claimCandidates s now, ¬ Claimable encoding s planContext now other :=
        fun other listed => skipped_blocked (candidate_due keyed listed) (skips other listed)
      rcases candidates_first due with listed | ⟨full,later⟩
      · exact absurd claimable (blocked task listed)
      · refine ⟨claimCandidates s now,?_,full,fun other listed =>
          ⟨candidate_due keyed listed,later other listed,blocked other listed⟩⟩
        have rows : (s.taskRows.filter (isDue now)).Nodup := (taskRows_nodup keyed).filter _
        exact ((List.perm_insertionSort claimOrder _).nodup_iff.mpr rows).sublist (List.take_sublist _ _)
    · cases handed
  · simp only [claimNextWithPlanContext,bind_ok,require_ok,exists_const] at ok
    rcases claimFirst_parts ok.2 with ⟨none,_⟩ |
      ⟨skipped,candidate,rest,task,bound,prepared,leased,order,skips,preparation,lease,handed⟩
    · cases none
    obtain rfl := Option.some.inj handed
    have due := candidate_due keyed (show candidate ∈ claimCandidates s now by simp [order])
    obtain ⟨found,_,_,outcome⟩ := prepareCandidate_parts preparation
    obtain rfl := Option.some.inj (due.1.symm.trans found)
    refine ⟨candidate,due,?_,?_,fun other => first_precedes order skips⟩
    · rcases outcome with ⟨direct,_⟩ | ⟨reference,rows,step,tx',named,stored,granted,_⟩
      · exact .inl direct
      · exact .inr ⟨reference,rows,step,tx',named,stored,granted⟩
    · have kept : prepared.tasks.lookup candidate.taskId = some candidate := by
        rcases outcome with ⟨_,_,rfl⟩ | ⟨_,_,_,_,_,_,_,_,rfl⟩ <;> exact found
      obtain ⟨row,rfl,_,_,rfl⟩ := leaseTask_parts kept lease
      exact leaseRow_taskId
  · by_cases positive : 0 < leaseFor
    · simp only [claimNextWithPlanContext,require_pos _ positive,ok_bind] at failed
      obtain ⟨skipped,candidate,rest,order,skips,fails⟩ := claimFirst_error failed
      have due := candidate_due keyed (show candidate ∈ claimCandidates s now by simp [order])
      exact .inr ⟨candidate,due,fails,fun other => first_precedes order skips⟩
    · exact .inl (not_lt.mp positive)

-- A plan whose steps are not ready is passed over.
theorem unready_blocked {tx : PlanTx} {reference : PlanTaskReference} {claimContext : PlanClaimContext}
    (loaded : loadPlanTx encoding tx.rows task.tenantId reference = .ok (snapshotOf tx.rows))
    (owned : (snapshotOf tx.rows).taskId = task.taskId ∧ (snapshotOf tx.rows).mode = .dryRun)
    (unbound : task.planStepId = none) (read : loadStepStatesTx tx.rows = .ok tx.rows.stepStates)
    (unready : ∀ step, ¬ Granted encoding tx task reference claimContext now step) :
    preparePlannedClaimTx encoding tx task reference claimContext now = .ok none := by
  simp only [preparePlannedClaimTx,loaded,ok_bind]
  rw [require_pos _ owned,ok_bind,require_pos _ unbound,ok_bind]
  split
  · rfl
  next claimable =>
  rw [read,ok_bind]
  split
  · rfl
  next preflight =>
  split
  · rfl
  next step selected =>
    exact absurd ⟨loaded,owned.1,owned.2,unbound,by simpa using claimable,read,by simpa using preflight,
      selected⟩ (unready step)

-- The tasks of sixty-four revisions of a plan wait for a closed circuit, and a direct task behind them.

def waitingStep : PlanStep := {trialStep "a" [] none with preconditions:=[.circuitClosed]}

def guardedRows (number : Nat) : PlanRows :=
  ⟨trialAdmin.tenantId,trialDigest 7,{trialPlan 7 [waitingStep] with taskId:=⟨number⟩,revision:=number + 1},.approved,
    (∅ : AList fun _ : PlanStepId => PlanStepRow).insert waitingStep.stepId (newStepRow waitingStep),
    [],[],[],0⟩

def waitingTask (number : Nat) (reference : Option PlanTaskReference) (created : Time) : TaskRecord :=
  let envelope : TaskEnvelope := ⟨⟨number⟩,trialAdmin.tenantId,trialAdmin.operatorId,.default,true,
    .fromPrincipal trialAdmin⟩
  newTask ⟨0,trialAdmin,s!"task-{number}","fingerprint",envelope,0,1,reference,none⟩ envelope created

def guardedTask (number : Nat) : TaskRecord :=
  waitingTask number (some ⟨⟨7⟩,number + 1,trialDigest 7⟩) (second 1)

def directTask : TaskRecord := waitingTask 64 none (second 2)

-- A table of the rows with the numbers below `count`.
def numbered {α β : Type} [DecidableEq α] (key : Nat → α) (row : Nat → β) : Nat → AList fun _ : α => β
  | 0 => ∅
  | count + 1 => (numbered key row count).insert (key count) (row count)

theorem numbered_lookup {α β : Type} [DecidableEq α] {key : Nat → α} {row : Nat → β}
    (apart : Function.Injective key) {count : Nat} {a : α} {b : β} :
    (numbered key row count).lookup a = some b ↔ ∃ n < count, a = key n ∧
    b = row n := by
  induction count with
  | zero => simp [numbered]
  | succ count ih =>
    by_cases same : a = key count
    · subst same
      simp only [numbered,AList.lookup_insert,Option.some.injEq]
      constructor
      · rintro rfl
        exact ⟨count,by omega,rfl,rfl⟩
      · rintro ⟨n,_,key,rfl⟩
        rw [apart key]
    · simp only [numbered,AList.lookup_insert_ne same,ih]
      constructor
      · rintro ⟨n,below,found⟩
        exact ⟨n,by omega,found⟩
      · rintro ⟨n,below,found⟩
        refine ⟨n,?_,found⟩
        have other : n ≠ count := fun last => same (last ▸ found.1)
        omega

def crowdedStore : QueueStore where
  sessions := ∅
  limits := ∅
  rateWindows := ∅
  tasks := (numbered TaskId.mk guardedTask claimLimit).insert ⟨64⟩ directTask
  plans := numbered (fun number => (⟨7⟩,number + 1)) guardedRows claimLimit
  nextUuid := 0

theorem crowdedStore_tasks {taskId : TaskId} (found : crowdedStore.tasks.lookup taskId = some task) :
    task.taskId = taskId ∧ (task = directTask ∨ ∃ number < claimLimit, task = guardedTask number) := by
  by_cases direct : taskId = ⟨64⟩
  · subst direct
    obtain rfl := Option.some.inj ((AList.lookup_insert _).symm.trans found)
    exact ⟨rfl,.inl rfl⟩
  · rw [crowdedStore,AList.lookup_insert_ne direct] at found
    obtain ⟨number,below,rfl,rfl⟩ := (numbered_lookup fun _ _ same => TaskId.mk.inj same).mp found
    exact ⟨rfl,.inr ⟨number,below,rfl⟩⟩

theorem guarded_waits {number : Nat} (below : number < claimLimit) :
    prepareCandidate trialEncoding crowdedStore (guardedTask number) .default now = .ok none := by
  have tenant : TenantId.new trialAdmin.tenantId.text = .ok trialAdmin.tenantId := by decide +kernel
  have listed : crowdedStore.tasks.lookup ⟨number⟩ = some (guardedTask number) := by
    have differs : TaskId.mk number ≠ ⟨64⟩ := fun same => absurd (TaskId.mk.inj same) (Nat.ne_of_lt below)
    rw [crowdedStore,AList.lookup_insert_ne differs]
    exact (numbered_lookup fun _ _ same => TaskId.mk.inj same).mpr ⟨number,below,rfl,rfl⟩
  have checked : checkTaskRow (guardedTask number) = .ok () := by
    simp only [checkTaskRow,bind_ok,require_ok,checkOption_ok,exists_const]
    refine ⟨fun revision given => ?_,(fun _ given => by cases given),⟨rfl,rfl,fun given => by cases given⟩,?_⟩
    · obtain rfl : number + 1 = revision := Option.some.inj given
      unfold claimLimit maxU32 at *
      omega
    · exact (by decide : (-2147483648 ≤ (0 : Int) ∧ (0 : Int) ≤ 2147483647) ∧ 0 ≤ maxU32 ∧ 1 ≤ maxU32 ∧ 1 ≠ 0 ∧ 1 ≤ 10)
  have loaded : loadTask trialEncoding crowdedStore ⟨number⟩ trialAdmin.tenantId = .ok (guardedTask number) :=
    loadTask_ok.mpr ⟨listed,rfl,checked⟩
  have hashed : isSha256Text (trialDigest 7) = true := by decide +kernel
  have named : taskReference (guardedTask number) = .ok ⟨⟨7⟩,number + 1,trialDigest 7⟩ := by
    show PlanTaskReference.new _ _ _ = _
    rw [PlanTaskReference.new,require_pos _ (Nat.succ_ne_zero number),ok_bind,Queue.validateSha256,
      require_pos _ hashed]
    rfl
  have stored : crowdedStore.plans.lookup (⟨7⟩,number + 1) = some (guardedRows number) :=
    (numbered_lookup fun _ _ same => Nat.succ.inj (Prod.mk.inj same).2).mpr ⟨number,below,rfl,rfl⟩
  have snapshot : loadPlanTx trialEncoding (guardedRows number) trialAdmin.tenantId ⟨⟨7⟩,number + 1,trialDigest 7⟩ =
      .ok (snapshotOf (guardedRows number)) := by
    refine loadPlanTx_ok.mpr ⟨rfl,rfl,rfl,rfl,rfl,rfl,rfl,?_,?_⟩
    · rfl
    · refine require_pos _ ?_
      simp only [snapshotOf,guardedRows,trialPlan,trialDigest,PlanSpec.calculateDigest,trialEncoding]
  have blocked := @unready_blocked trialEncoding now (guardedTask number) ⟨guardedRows number,0⟩
    ⟨⟨7⟩,number + 1,trialDigest 7⟩ (effectiveContext .default (guardedTask number)) snapshot ⟨rfl,rfl⟩ rfl rfl
    fun step granted => ?_
  · have opened : crowdedStore.beginPlan trialEncoding ⟨⟨7⟩,number + 1,trialDigest 7⟩ = .ok ⟨guardedRows number,0⟩ := by
      simp only [QueueStore.beginPlan,stored]
      rfl
    have scope : liftCore (TenantId.new (guardedTask number).tenantId.text) = .ok trialAdmin.tenantId :=
      congrArg liftCore tenant
    have read : loadTask trialEncoding crowdedStore (guardedTask number).taskId trialAdmin.tenantId =
      .ok (guardedTask number) := loaded
    have planned : (guardedTask number).planId.isSome = true := rfl
    unfold effectiveContext at blocked
    simp only [prepareCandidate,scope,read,named,opened,ok_bind]
    rw [if_pos planned,blocked]
    rfl
  · obtain ⟨among,_,_,ready⟩ := granted.step
    obtain rfl := List.mem_singleton.mp among
    have distinct : (guardedRows number).plan.stepIds.Nodup := List.nodup_singleton _
    have closed := stepReady_conditions distinct (List.mem_singleton_self _) ready .circuitClosed
        (List.mem_singleton_self _)
    cases closed

theorem claimFirst_skips {candidates : List TaskRecord}
    (skips : ∀ candidate ∈ candidates, prepareCandidate encoding s candidate planContext now = .ok none) :
    claimFirst encoding s planContext leaseUntil now candidates = .ok (none,s) := by
  induction candidates with
  | nil => rfl
  | cons candidate rest ih =>
    simp only [claimFirst,skips candidate List.mem_cons_self,ok_bind]
    exact ih fun other listed => skips other (List.mem_cons_of_mem _ listed)

theorem claim_skips (positive : 0 < leaseFor)
    (skips : ∀ candidate ∈ claimCandidates s now, prepareCandidate encoding s candidate planContext now =
      .ok none) : claimNextWithPlanContext encoding s now leaseFor planContext = .ok (none,s) := by
  rw [claimNextWithPlanContext,require_pos _ positive,ok_bind]
  exact claimFirst_skips skips

theorem crowdedStore_keyed :
    ∀ taskId task, crowdedStore.tasks.lookup taskId = some task → task.taskId = taskId :=
  fun _ _ found => (crowdedStore_tasks found).1

-- The direct task is younger than the others, which fill the list of a claim.
theorem directTask_left : directTask ∉ claimCandidates crowdedStore (second 3) := by
  intro chosen
  have count : (crowdedStore.taskRows.filter (isDue (second 3))).length = claimLimit + 1 := by decide +kernel
  have sorted := List.pairwise_insertionSort claimOrder (crowdedStore.taskRows.filter (isDue (second 3)))
  have perm := List.perm_insertionSort claimOrder (crowdedStore.taskRows.filter (isDue (second 3)))
  have nodup := perm.nodup_iff.mpr ((taskRows_nodup crowdedStore_keyed).filter _)
  unfold claimCandidates at chosen
  rw [← List.take_append_drop claimLimit (List.insertionSort claimOrder _)] at sorted nodup
  have long : 0 < ((List.insertionSort claimOrder (crowdedStore.taskRows.filter (isDue (second 3)))).drop
      claimLimit).length := by
    rw [List.length_drop,perm.length_eq,count]
    omega
  obtain ⟨other,late⟩ := List.exists_mem_of_length_pos long
  have order := (List.pairwise_append.mp sorted).2.2 directTask chosen other late
  have listed := (List.mem_filter.mp (perm.mem_iff.mp (List.mem_of_mem_drop late))).1
  obtain ⟨taskId,found⟩ := mem_taskRows.mp listed
  rcases (crowdedStore_tasks found).2 with rfl | ⟨number,_,rfl⟩
  · exact List.disjoint_of_nodup_append nodup chosen late
  · have older : ¬ ((0 : Int) < 0 ∨ (0 : Int) = 0 ∧ second 2 ≤ second 1) := by decide
    exact absurd order older

theorem crowdedStore_unserved :
    claimNext trialEncoding crowdedStore (second 3) (second 1) = .ok (none,crowdedStore) := by
  have positive : 0 < second 1 := by decide
  refine claim_skips positive fun candidate listed => ?_
  rcases (crowdedStore_tasks (candidate_listed crowdedStore_keyed listed)).2 with rfl | ⟨number,below,rfl⟩
  · exact absurd listed directTask_left
  · exact guarded_waits below

theorem directTask_due : Due crowdedStore (second 3) directTask :=
  ⟨AList.lookup_insert _,by decide⟩

-- A direct task is due, and the claim finds none.
theorem claim_selection_unserved :
    claimNext trialEncoding crowdedStore (second 3) (second 1) = .ok (none,crowdedStore) ∧
    Due crowdedStore (second 3) directTask ∧ directTask.planId = none :=
  ⟨crowdedStore_unserved,directTask_due,rfl⟩

theorem claim_selection_behind : BehindBlocked trialEncoding crowdedStore .default (second 3) directTask := by
  have selection := @claim_selection trialEncoding crowdedStore .default (second 3) (second 1)
      crowdedStore_keyed
  exact selection.1 _ crowdedStore_unserved _ directTask_due (.inl rfl)

end Shaka.Properties
