import Shaka.Properties.Quotas

namespace Shaka.Properties
open Shaka.Core Queue Plan Store CheckedSteps GuardedRuns

variable {encoding : StoreEncoding} {s s' : QueueStore} {tenantId : TenantId} {limits : TenantLimits}
  {row row' : TaskRecord}

def isActiveOf (tenantId : TenantId) (row : TaskRecord) : Bool :=
  row.tenantId == tenantId && row.status.isActive

def activeCount (s : QueueStore) (tenantId : TenantId) : Nat :=
  (s.taskRows.filter (isActiveOf tenantId)).length

-- A task comes back from an inactive status only by a resolution of its plan.
theorem rowStep_active {op : Operation} (step : RowStep op row row') (active : row'.status.isActive = true) :
    row.status.isActive = true ∨ ∃ request now, op = .resolvePlanUnknown request now ∧
    request.decision ≠ .cancel := by
  have open_ : ∀ status : TaskStatus, status.isTerminal = false → status.isActive = true := by
    intro status
    cases status <;> decide
  cases step with
  | claimed due =>
    simp only [isDue,Bool.and_eq_true,beq_iff_eq] at due
    rw [due.1.1]
    exact .inl rfl
  | finished unfinished => exact .inl (open_ _ unfinished)
  | cancelled unfinished => exact .inl (open_ _ unfinished)
  | recovered expired | expired expired =>
    simp only [isExpired,Bool.and_eq_true] at expired
    refine .inl (open_ _ ?_)
    cases status : row.status <;> simp_all [TaskStatus.isLeased,TaskStatus.isTerminal]
  | @resolved request =>
    refine .inr ⟨_,_,rfl,fun cancel => ?_⟩
    simp [resolvedRow,cancel,unbindStep,releaseRow,TaskStatus.isActive] at active

-- Whenever a plan in `Unknown` may be put back to work while its task is
-- inactive, the tenant has room for one more active task.
def ReopensWithin (tenantId : TenantId) (limits : TenantLimits) (s : QueueStore) : Operation → Prop
  | .resolvePlanUnknown request _ => request.decision ≠ .cancel → ∀ taskId row key rows,
      s.tasks.lookup taskId = some row → row.tenantId = tenantId → row.planId = some request.planId →
      row.status.isActive = false → planKeyOf row = some key → s.plans.lookup key = some rows →
      rows.state = .unknown → activeCount s tenantId < limits.maxActiveTasks
  | op => FixedLimits tenantId limits s op

theorem activeCount_le (was : ∀ taskId row', s'.tasks.lookup taskId = some row' →
    isActiveOf tenantId row' = true →
    ∃ row, s.tasks.lookup taskId = some row ∧ isActiveOf tenantId row = true) :
    activeCount s' tenantId ≤ activeCount s tenantId := Tables.count_le (isActiveOf tenantId) was

theorem activeCount_insert {taskId : TaskId} (tasks : s'.tasks = s.tasks.insert taskId row) :
    activeCount s' tenantId ≤ activeCount s tenantId + 1 := by
  have grown := @Tables.count_insert_le _ _ _ s.tasks (isActiveOf tenantId) taskId row
  rwa [← tasks] at grown

theorem exec_active (linked : Linked encoding s) (op : Operation)
    (within : ReopensWithin tenantId limits s op)
    (bounded : activeCount s tenantId ≤ limits.maxActiveTasks) :
    activeCount (exec encoding s op) tenantId ≤ limits.maxActiveTasks := by
  have steady : (∀ request clock, op ≠ .submit request clock) →
      (∀ taskId row row', s.tasks.lookup taskId = some row →
        (exec encoding s op).tasks.lookup taskId = some row' →
        RowStep op row row' → isActiveOf tenantId row' = true → isActiveOf tenantId row = true) →
      activeCount (exec encoding s op) tenantId ≤ limits.maxActiveTasks := by
    intro submits kept
    refine le_trans (activeCount_le fun taskId row' found active => ?_) bounded
    have change := exec_rows linked op taskId
    have kept := kept taskId
    rw [found] at change kept
    generalize s.tasks.lookup taskId = was at change kept ⊢
    cases change with
    | kept => exact ⟨row',rfl,active⟩
    | entered => exact absurd rfl (submits _ _)
    | stepped step => exact ⟨_,rfl,kept _ _ rfl rfl step active⟩
  have ordinary : (∀ request now, op = .resolvePlanUnknown request now → request.decision = .cancel) →
      ∀ taskId row row', s.tasks.lookup taskId = some row →
      (exec encoding s op).tasks.lookup taskId = some row' →
        RowStep op row row' → isActiveOf tenantId row' = true → isActiveOf tenantId row = true := by
    intro cancels taskId row row' _ _ step active
    simp only [isActiveOf,Bool.and_eq_true,beq_iff_eq] at active ⊢
    refine ⟨step.identity.tenantId ▸ active.1,(rowStep_active step active.2).resolve_right ?_⟩
    rintro ⟨request,now,rfl,reopens⟩
    exact reopens (cancels request now rfl)
  cases op with
  | submit request clock =>
    rcases submission_cases encoding s request clock with ⟨_,same⟩ | ⟨found,admitted,envelope,_,submitted⟩
    · rw [same]
      exact bounded
    obtain ⟨kept,_,tasks,_⟩ := submitted.tables
    by_cases own : request.principal.tenantId = tenantId
    · have fixed : found = limits := within own found (own ▸ submitted.limited)
      have quotas := submitted.quotas
      simp only [checkTaskQuotas,bind_ok,require_ok,exists_const] at quotas
      have room : activeCount admitted tenantId < limits.maxActiveTasks := by
        rw [← own,← fixed]
        exact quotas.1
      have same : activeCount admitted tenantId = activeCount s tenantId := by
        simp only [activeCount,QueueStore.taskRows,kept]
      exact le_trans (activeCount_insert tasks) (by omega)
    · refine le_trans (activeCount_le fun taskId row' present active => ?_) bounded
      rw [tasks,lookup_insert_eq] at present
      split at present
      · cases present
        simp [isActiveOf,newTask,own] at active
      · exact ⟨row',present,active⟩
  | resolvePlanUnknown request now =>
    by_cases cancel : request.decision = .cancel
    · exact steady (by simp) (ordinary fun _ _ same => by cases same; exact cancel)
    rcases exec_cases encoding s (.resolvePlanUnknown request now) with same | ok
    · rw [same]
      exact bounded
    obtain ⟨answer,ok⟩ := storeOf_ok.mp ok
    rcases resolve_rows linked ok with same | ⟨key,rows,row,loaded,unknown,found,refers,tenant,planId,tasks⟩
    · rw [same]
      exact bounded
    by_cases active : isActiveOf tenantId row = true
    · refine steady (by simp) fun taskId row₁ row₂ was now _ active' => ?_
      by_cases moved : taskId = row.taskId
      · subst moved
        obtain rfl := Option.some.inj (found.symm.trans was)
        exact active
      · rw [tasks,AList.lookup_insert_ne moved] at now
        obtain rfl := Option.some.inj (was.symm.trans now)
        exact active'
    by_cases own : row.tenantId = tenantId
    · have inactive : row.status.isActive = false := by simpa [isActiveOf,own] using active
      have room := within cancel row.taskId row key rows found own planId inactive refers loaded.stored
          unknown
      exact le_trans (activeCount_insert tasks) room
    · refine steady (by simp) fun taskId row₁ row₂ was now step active' => ?_
      by_cases moved : taskId = row.taskId
      · subst moved
        obtain rfl := Option.some.inj (found.symm.trans was)
        simp [isActiveOf,step.identity.tenantId,own] at active'
      · rw [tasks,AList.lookup_insert_ne moved] at now
        obtain rfl := Option.some.inj (was.symm.trans now)
        exact active'
  | _ => exact steady (by simp) (ordinary (by simp))

theorem active_bounded (run : Run encoding (ReopensWithin tenantId limits) s) :
    activeCount s tenantId ≤ limits.maxActiveTasks :=
  run.invariant_under (motive := fun s => activeCount s tenantId ≤ limits.maxActiveTasks)
    (fun _ reached => run_linked reached) (Nat.zero_le _)
    fun _ op linked bounded within => exec_active linked op within bounded

-- A plan is interrupted and resumed by an operator.

def interruptedRun : List Operation :=
  trialOpen 7 [trialStep "a" [] none] ++ [trialClaim 2,.recoverExpiredLeases (second 5)]

theorem active_bounded_resumed :
    (∃ task, (trial (interruptedRun ++ [trialResolve 7 .resume "repair" 6])).tasks.lookup
      ⟨7⟩ = some task ∧ task.status = .queued) ∧
    activeCount (trial (interruptedRun ++ [trialResolve 7 .resume "repair" 6])) trialAdmin.tenantId ≤ 32 := by
  constructor
  · have status :
        ((trial (interruptedRun ++ [trialResolve 7 .resume "repair" 6])).tasks.lookup ⟨7⟩).map (·.status) =
        some .queued := by decide +kernel
    simpa using status
  refine @active_bounded trialEncoding _ trialAdmin.tenantId defaultLimits
    (play_reaches (admitted_append ?_ ?_))
  · refine ⟨trivial,trivial,trivial,fun _ found limited => ?_,trivial,trivial,trivial⟩
    have default :
        (trial [.bootstrapPrincipal trialAdmin,.createSession trialAdmin]).limits.lookup trialAdmin.tenantId =
        some defaultLimits := by decide +kernel
    exact Option.some.inj (limited.symm.trans default)
  · refine ⟨fun _ _ _ _ _ _ _ _ _ _ _ _ => ?_,trivial⟩
    have idle : activeCount (trial interruptedRun) trialAdmin.tenantId < 32 := by decide +kernel
    exact idle

-- One active task is allowed; while the first waits for its operator a second
-- one is submitted, and then the first is resumed.

def oneTask : TenantLimits := {defaultLimits with maxActiveTasks:=1}

def waitingRun : List Operation :=
  [.bootstrapPrincipal trialAdmin,.createSession trialAdmin,.setLimits trialAdmin.tenantId oneTask,
    .savePlan (trialPlan 7 [trialStep "a" [] none]),trialSubmit 7 true (second 1),trialClaim 2,
    .recoverExpiredLeases (second 5)]

def crowdedRun : List Operation :=
  waitingRun ++ [trialSubmit 8 false (second 5),trialResolve 7 .resume "repair" 6]

theorem limits_known {found : TenantLimits} (known : s.limits.lookup tenantId = some limits)
    (same : s.limits.lookup tenantId = some found) : found = limits := Option.some.inj (same.symm.trans known)

theorem active_bounded_crowded : ¬ ∀ s, Run trialEncoding (FixedLimits trialAdmin.tenantId oneTask) s →
    activeCount s trialAdmin.tenantId ≤ oneTask.maxActiveTasks := by
  intro bounded
  have opened : (trial (waitingRun.take 4)).limits.lookup trialAdmin.tenantId = some oneTask := by
    decide +kernel
  have waiting : (trial waitingRun).limits.lookup trialAdmin.tenantId = some oneTask := by decide +kernel
  have run : Run trialEncoding (FixedLimits trialAdmin.tenantId oneTask) (trial crowdedRun) := by
    refine play_reaches (admitted_append ?_ ?_)
    · exact ⟨trivial,trivial,trivial,trivial,fun _ _ => limits_known opened,trivial,trivial,trivial⟩
    · exact ⟨fun _ _ => limits_known waiting,trivial,trivial⟩
  have crowded : activeCount (trial crowdedRun) trialAdmin.tenantId = 2 := by decide +kernel
  have most := bounded _ run
  rw [crowded] at most
  exact absurd most (by decide)

end Shaka.Properties
