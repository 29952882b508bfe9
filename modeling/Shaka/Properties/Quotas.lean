import Shaka.Store.Registry
import Shaka.Library.Tables
import Mathlib.Algebra.Order.BigOperators.Group.List
import Mathlib.Algebra.Order.Ring.Nat

namespace Shaka.Properties
open Shaka.Core Queue Plan Store CheckedSteps GuardedRuns

variable {encoding : StoreEncoding} {s s' : QueueStore} {tenantId : TenantId} {limits : TenantLimits}

-- One submission that was answered with `Created`.
structure Creation where
  tenantId : TenantId
  createdAt : Time
  cost : Nat

def creationsOf (encoding : StoreEncoding) (s : QueueStore) : Operation → List Creation
  | .submit request clock => match submitTaskGoverned encoding s request clock with
    | .ok ((.created,_),_) =>
      [⟨request.principal.tenantId,clock.now,request.envelope.budget.maxCostMicrounits⟩]
    | _ => []
  | _ => []

-- A run that keeps account of the submissions it created.
def countedExec (encoding : StoreEncoding) (state : QueueStore × List Creation) (op : Operation) :
    QueueStore × List Creation :=
  (exec encoding state.1 op,creationsOf encoding state.1 op ++ state.2)

abbrev CountedRun (encoding : StoreEncoding) (allowed : QueueStore → Operation → Prop) :=
  Reaches (countedExec encoding) (fun state op => allowed state.1 op) (.empty,[])

theorem countedRun_plain {allowed : QueueStore → Operation → Prop} {state : QueueStore × List Creation}
    (run : CountedRun encoding allowed state) : Run encoding allowed state.1 := by
  induction run with
  | start => exact .start
  | step _ guard ih => exact .step ih guard

-- A submission creates a task and is counted, or it leaves the store alone.
theorem submission_cases (encoding : StoreEncoding) (s : QueueStore) (request : SubmitRequest)
    (clock : SubmitClock) :
    (creationsOf encoding s (.submit request clock) = [] ∧ exec encoding s (.submit request clock) = s) ∨
    ∃ limits admitted envelope, creationsOf encoding s (.submit request clock) =
        [⟨request.principal.tenantId,clock.now,request.envelope.budget.maxCostMicrounits⟩] ∧
      Submitted encoding s (exec encoding s (.submit request clock)) request clock limits admitted
        envelope := by
  cases outcome : submitTaskGoverned encoding s request clock with
  | error e =>
    exact .inl ⟨by simp [creationsOf,outcome],by simp [exec,commit,transaction,outcome,storeOf,Except.map]⟩
  | ok result =>
    obtain ⟨⟨kind,record⟩,s'⟩ := result
    have after : exec encoding s (.submit request clock) = s' :=
      @exec_ok encoding s s' (.submit request clock) () (storeOf_ok.mpr ⟨_,outcome⟩)
    rw [after]
    rcases submit_parts outcome with ⟨existing,same⟩ | ⟨limits,admitted,envelope,answer,submitted⟩
    · cases existing
      exact .inl ⟨by simp [creationsOf,outcome],same⟩
    · cases answer
      exact .inr ⟨limits,admitted,envelope,by simp [creationsOf,outcome],submitted⟩

def creationOf (row : TaskRecord) :
    Creation := ⟨row.tenantId,row.createdAt,row.envelope.budget.maxCostMicrounits⟩

-- The tasks of the store are the submissions created so far.
theorem exec_creations (linked : Linked encoding s) (op : Operation) :
    ((exec encoding s op).taskRows.map creationOf).Perm (creationsOf encoding s op ++
      s.taskRows.map creationOf) := by
  have others : (∀ request clock, op ≠ .submit request clock) →
      ((exec encoding s op).taskRows.map creationOf).Perm (s.taskRows.map creationOf) := by
    intro submits
    refine Tables.values_map_perm creationOf fun taskId => ?_
    have change := exec_rows linked op taskId
    generalize s.tasks.lookup taskId = was at change
    generalize (exec encoding s op).tasks.lookup taskId = now at change
    cases change with
    | kept => rfl
    | entered => exact absurd rfl (submits _ _)
    | stepped step =>
      have same := step.identity
      simp [creationOf,same.tenantId,same.createdAt,same.envelope]
  cases op with
  | submit request clock =>
    rcases submission_cases encoding s request clock with ⟨none,same⟩ | ⟨limits,admitted,envelope,counted,
      submitted⟩
    · rw [none,same]
      exact .refl _
    · obtain ⟨_,absent,tasks,_⟩ := submitted.tables
      have rows : (exec encoding s (.submit request clock)).taskRows =
          newTask request envelope clock.now :: s.taskRows := by
        rw [show (exec encoding s (.submit request clock)).taskRows = Tables.values _ from rfl,tasks]
        exact Tables.values_insert absent _
      have created : creationOf (newTask request envelope clock.now) =
          ⟨request.principal.tenantId,clock.now,request.envelope.budget.maxCostMicrounits⟩ := by
        rw [← submitted.budget]
        rfl
      rw [rows,counted,List.map_cons,List.singleton_append,created]
  | _ => exact others (by simp)

-- Windows.

theorem windowCount_countSubmission (s : QueueStore) (principal : Principal) (now : Time) (scope : String)
    (start : Time) : windowCount s scope start + (if scope = s!"tenant:{principal.tenantId.text}:submit" ∧
        start = fixedWindowStart now limits.windowSeconds then 1 else 0) ≤
      windowCount (countSubmission s principal limits now) scope start := by
  simp only [countSubmission,submitScopes,List.foldl_cons,List.foldl_nil,windowCount_countRequest,
    Prod.mk.injEq]
  omega

-- No operation takes a request out of its window.
theorem exec_windows (encoding : StoreEncoding) (s : QueueStore) (op : Operation) (scope : String)
    (start : Time) : windowCount s scope start ≤ windowCount (exec encoding s op) scope start := by
  have change := exec_registry encoding s op
  generalize exec encoding s op = s' at change
  cases change with
  | kept same => exact (windowCount_registry same scope start).ge
  | bootstrapped _ made | limited _ made | opened made =>
    rw [made]
    exact le_refl _
  | counted _ counted =>
    rw [windowCount_registry counted]
    exact le_trans (Nat.le_add_right _ _) (windowCount_countSubmission _ _ _ _ _)

def inWindow (tenantId : TenantId) (limits : TenantLimits) (start : Time) (creation : Creation) : Bool :=
  creation.tenantId == tenantId && fixedWindowStart creation.createdAt limits.windowSeconds == start

def onDay (tenantId : TenantId) (day : Time) (creation : Creation) : Bool :=
  creation.tenantId == tenantId && dayStart creation.createdAt == day

-- The limits of the tenant are the same whenever it submits.
def FixedLimits (tenantId : TenantId) (limits : TenantLimits) (s : QueueStore) : Operation → Prop
  | .submit request _ => request.principal.tenantId = tenantId →
      ∀ found, s.limits.lookup tenantId = some found → found = limits
  | _ => True

-- What the account of a run has to do with the store and the limits.
structure Accounted (tenantId : TenantId) (limits : TenantLimits) (state : QueueStore × List Creation) :
    Prop where
  rows : (state.1.taskRows.map creationOf).Perm state.2
  windows : ∀ start, state.2.countP (inWindow tenantId limits start) ≤
    windowCount state.1 s!"tenant:{tenantId.text}:submit" start
  requests : ∀ start, state.2.countP (inWindow tenantId limits start) ≤ limits.requestsPerWindow
  costs : ∀ creation ∈ state.2, creation.cost ≤ maxExecutionCostMicrounits
  daily : ∀ day, state.2.countP (onDay tenantId day) ≤ limits.maxDailyTasks
  dailyCost : ∀ day, ((state.2.filter (onDay tenantId day)).map (·.cost)).sum ≤ limits.maxDailyCostMicrounits

-- Sums below the bound of `u64` are exact.
theorem saturating_sum (costs : List Nat) (total : Nat) (small : total + costs.sum ≤ 18446744073709551615) :
    costs.foldl saturatingAddU64 total = total + costs.sum := by
  induction costs generalizing total with
  | nil => rfl
  | cons cost rest ih =>
    rw [List.sum_cons] at small ⊢
    rw [List.foldl_cons,show saturatingAddU64 total cost = total + cost by unfold saturatingAddU64; omega,
      ih _ (by omega)]
    omega

theorem dayStart_le (now : Time) : dayStart now ≤ now := by
  have positive := Int.emod_nonneg now (show (86400 * nanosPerSecond : Int) ≠ 0 by decide)
  exact Int.sub_le_self now positive

-- What the quota checks say of the creations of the day, before this one.
theorem quotas_daily {now : Time} {cost : Nat} {ledger : List Creation}
    (rows : (s.taskRows.map creationOf).Perm ledger) (costs : ∀ creation ∈ ledger,
      creation.cost ≤ maxExecutionCostMicrounits) (cheap : cost ≤ maxExecutionCostMicrounits)
    (valid : validateLimits limits = .ok ()) (quotas : checkTaskQuotas s limits tenantId now cost = .ok ()) :
    ledger.countP (onDay tenantId (dayStart now)) < limits.maxDailyTasks ∧
    ((ledger.filter (onDay tenantId (dayStart now))).map (·.cost)).sum + cost ≤
      limits.maxDailyCostMicrounits := by
  simp only [checkTaskQuotas,bind_ok,require_ok,exists_const] at quotas
  obtain ⟨_,daily,dailyCost⟩ := quotas
  simp only [validateLimits,bind_ok,require_ok,exists_const] at valid
  obtain ⟨_,⟨_,few⟩,_⟩ := valid
  have sub : (s.taskRows.filter fun row => onDay tenantId (dayStart now) (creationOf row)).Sublist
      (tenantTasksSince s tenantId (dayStart now)) := by
    refine List.monotone_filter_right _ fun row today => ?_
    simp only [onDay,creationOf,Bool.and_eq_true,beq_iff_eq] at today
    simp only [Bool.and_eq_true,beq_iff_eq,decide_eq_true_eq]
    exact ⟨today.1,today.2 ▸ dayStart_le row.createdAt⟩
  have listed : (ledger.filter (onDay tenantId (dayStart now))).Perm
      ((s.taskRows.filter fun row => onDay tenantId (dayStart now) (creationOf row)).map creationOf) := by
    simpa [List.filter_map,Function.comp_def] using rows.symm.filter (onDay tenantId (dayStart now))
  have spent : ∀ row ∈ tenantTasksSince s tenantId (dayStart now),
      row.envelope.budget.maxCostMicrounits ≤ maxExecutionCostMicrounits := fun row today =>
    costs (creationOf row) (rows.mem_iff.mp (List.mem_map_of_mem (List.mem_of_mem_filter today)))
  constructor
  · rw [List.countP_eq_length_filter,listed.length_eq,List.length_map]
    exact lt_of_le_of_lt sub.length_le daily
  · have bounded :
        ((tenantTasksSince s tenantId (dayStart now)).map (·.envelope.budget.maxCostMicrounits)).sum ≤
        (tenantTasksSince s tenantId (dayStart now)).length * maxExecutionCostMicrounits := by
      have := List.sum_le_card_nsmul ((tenantTasksSince s tenantId (dayStart now)).map
        (·.envelope.budget.maxCostMicrounits)) maxExecutionCostMicrounits (by simpa using spent)
      simpa using this
    have most : (tenantTasksSince s tenantId (dayStart now)).length * maxExecutionCostMicrounits ≤
        1000000 * maxExecutionCostMicrounits := Nat.mul_le_mul_right _ (by omega)
    have exact_ := saturating_sum ((tenantTasksSince s tenantId (dayStart now)).map
      (·.envelope.budget.maxCostMicrounits)) 0 (by unfold maxExecutionCostMicrounits at *; omega)
    rw [List.foldl_map] at exact_
    rw [exact_] at dailyCost
    have less : ((ledger.filter (onDay tenantId (dayStart now))).map (·.cost)).sum ≤
        ((tenantTasksSince s tenantId (dayStart now)).map (·.envelope.budget.maxCostMicrounits)).sum := by
      rw [(listed.map (·.cost)).sum_nat,List.map_map]
      exact (sub.map _).sum_le_sum fun _ _ => Nat.zero_le _
    unfold saturatingAddU64 maxExecutionCostMicrounits at *
    omega

-- A creation of another tenant, or none at all, is not in the tenant's account.
theorem Accounted.aside {ledger new : List Creation} (accounted : Accounted tenantId limits (s,ledger))
    (rows : (s'.taskRows.map creationOf).Perm (new ++ ledger))
    (windows : ∀ scope start, windowCount s scope start ≤ windowCount s' scope start)
    (foreign : ∀ creation ∈ new, creation.tenantId ≠ tenantId)
    (costs : ∀ creation ∈ new, creation.cost ≤ maxExecutionCostMicrounits) :
    Accounted tenantId limits (s',new ++ ledger) := by
  have uncounted : ∀ start, new.countP (inWindow tenantId limits start) = 0 := fun start =>
    List.countP_eq_zero.mpr fun creation listed => by simp [inWindow,foreign creation listed]
  have untimed : ∀ day, new.filter (onDay tenantId day) = [] := fun day =>
    List.filter_eq_nil_iff.mpr fun creation listed => by simp [onDay,foreign creation listed]
  refine ⟨rows,fun start => ?_,fun start => ?_,fun creation listed => ?_,fun day => ?_,fun day => ?_⟩
  · simp only [List.countP_append,uncounted,Nat.zero_add]
    exact le_trans (accounted.windows start) (windows _ start)
  · simp only [List.countP_append,uncounted,Nat.zero_add]
    exact accounted.requests start
  · exact (List.mem_append.mp listed).elim (costs creation) (accounted.costs creation)
  · rw [List.countP_eq_length_filter,List.filter_append,untimed,List.nil_append,
      ← List.countP_eq_length_filter]
    exact accounted.daily day
  · rw [List.filter_append,untimed,List.nil_append]
    exact accounted.dailyCost day

theorem validateSubmit_cost {request : SubmitRequest} {u : Unit} (valid : validateSubmit request = .ok u) :
    request.envelope.budget.maxCostMicrounits ≤ maxExecutionCostMicrounits := by
  simp only [validateSubmit,bind_ok,require_ok,liftCore_ok,exists_const] at valid
  obtain ⟨_,_,_,_,_,_,_,_,budget,_⟩ := valid
  exact (validateBudget_ok.mp budget).2.2.2

-- A creation of the tenant passed its checks.
theorem Accounted.created {ledger : List Creation} {request : SubmitRequest} {clock : SubmitClock}
    {admitted : QueueStore} {envelope : TaskEnvelope} (accounted : Accounted tenantId limits (s,ledger))
    (valid : LimitsValid s) (submitted : Submitted encoding s s' request clock limits admitted envelope)
    (own : request.principal.tenantId = tenantId)
    (rows : (s'.taskRows.map creationOf).Perm
      (⟨tenantId,clock.now,request.envelope.budget.maxCostMicrounits⟩ :: ledger)) :
    Accounted tenantId limits (s',⟨tenantId,clock.now,request.envelope.budget.maxCostMicrounits⟩ ::
      ledger) := by
  subst own
  obtain ⟨kept,_,_,counted⟩ := submitted.tables
  have cheap := validateSubmit_cost submitted.valid
  have before : (admitted.taskRows.map creationOf).Perm ledger := by
    rw [show admitted.taskRows = s.taskRows from congrArg (fun t => t.entries.map (·.2)) kept]
    exact accounted.rows
  obtain ⟨daily,dailyCost⟩ := quotas_daily before accounted.costs cheap (valid _ _ submitted.limited)
      submitted.quotas
  have room := submitted.windows s!"tenant:{request.principal.tenantId.text}:submit" (by simp [submitScopes])
  have earlier : ∀ start, ledger.countP (inWindow request.principal.tenantId limits start) ≤
      windowCount s s!"tenant:{request.principal.tenantId.text}:submit" start := accounted.windows
  have grown := fun start => @windowCount_countSubmission limits s request.principal clock.now
    s!"tenant:{request.principal.tenantId.text}:submit" start
  refine ⟨rows,fun start => ?_,fun start => ?_,fun creation listed => ?_,fun day => ?_,fun day => ?_⟩
  · rw [windowCount_registry counted]
    refine le_trans ?_ (grown start)
    have earlier := earlier start
    rw [List.countP_cons]
    by_cases same : start = fixedWindowStart clock.now limits.windowSeconds
    · simp only [same,and_self,if_true]
      rw [same] at earlier
      split <;> omega
    · have apart : inWindow request.principal.tenantId limits start
          ⟨request.principal.tenantId,clock.now,request.envelope.budget.maxCostMicrounits⟩ = false := by
        simp [inWindow,Ne.symm same]
      simp only [apart,Bool.false_eq_true,if_false]
      omega
  · rw [List.countP_cons]
    split
    · next same =>
      simp only [inWindow,beq_self_eq_true,Bool.true_and,beq_iff_eq] at same
      have earlier := earlier start
      rw [← same] at earlier ⊢
      omega
    · exact accounted.requests start
  · rcases List.mem_cons.mp listed with rfl | earlier
    · exact cheap
    · exact accounted.costs creation earlier
  · rw [List.countP_cons]
    split
    · next today =>
      simp only [onDay,beq_self_eq_true,Bool.true_and,beq_iff_eq] at today
      rw [← today]
      omega
    · exact accounted.daily day
  · rw [List.filter_cons]
    split
    · next today =>
      simp only [onDay,beq_self_eq_true,Bool.true_and,beq_iff_eq] at today
      simp only [List.map_cons,List.sum_cons,← today]
      omega
    · exact accounted.dailyCost day

theorem exec_accounted {ledger : List Creation} (linked : Linked encoding s) (valid : LimitsValid s)
    (op : Operation) (fixed : FixedLimits tenantId limits s op)
    (accounted : Accounted tenantId limits (s,ledger)) :
    Accounted tenantId limits (exec encoding s op,creationsOf encoding s op ++ ledger) := by
  have rows := (exec_creations linked op).trans (List.Perm.append_left _ accounted.rows)
  have windows := exec_windows encoding s op
  by_cases submits : ∃ request clock, op = .submit request clock
  · obtain ⟨request,clock,rfl⟩ := submits
    rcases submission_cases encoding s request clock with ⟨none,_⟩ | ⟨found,admitted,envelope,counted,
      submitted⟩
    · rw [none] at rows ⊢
      exact accounted.aside rows windows (by simp) (by simp)
    · rw [counted] at rows ⊢
      by_cases own : request.principal.tenantId = tenantId
      · obtain rfl := fixed own found (own ▸ submitted.limited)
        rw [own] at rows ⊢
        exact accounted.created valid submitted own rows
      · exact accounted.aside rows windows (by simpa using own)
          (by simpa using validateSubmit_cost submitted.valid)
  · have none : creationsOf encoding s op = [] := by
      cases op with
      | submit request clock => exact absurd ⟨request,clock,rfl⟩ submits
      | _ => rfl
    rw [none] at rows ⊢
    exact accounted.aside rows windows (by simp) (by simp)

theorem run_accounted {state : QueueStore × List Creation}
    (run : CountedRun encoding (FixedLimits tenantId limits) state) : Accounted tenantId limits state := by
  have established : ∀ reached, CountedRun encoding (FixedLimits tenantId limits) reached →
      Linked encoding reached.1 ∧ LimitsValid reached.1 :=
    fun _ earlier => ⟨run_linked (countedRun_plain earlier),run_limits (countedRun_plain earlier)⟩
  refine run.invariant_under established ?_
    fun state op known accounted fixed => exec_accounted known.1 known.2 op fixed accounted
  exact ⟨.refl _,fun _ => Nat.zero_le _,fun _ => Nat.zero_le _,by simp,fun _ => Nat.zero_le _,fun _ =>
    Nat.zero_le _⟩

theorem admission_quotas {ledger : List Creation}
    (run : CountedRun encoding (FixedLimits tenantId limits) (s,ledger)) :
    (∀ start, ledger.countP (inWindow tenantId limits start) ≤ limits.requestsPerWindow) ∧
    (∀ day, ledger.countP (onDay tenantId day) ≤ limits.maxDailyTasks) ∧
    (∀ day, ((ledger.filter (onDay tenantId day)).map (·.cost)).sum ≤ limits.maxDailyCostMicrounits) ∧
    ∀ request clock, (∀ record, (commit (submitTaskGoverned encoding · request clock) s).1 ≠ .ok (.created,
      record)) → (commit (submitTaskGoverned encoding · request clock) s).2 = s := by
  have accounted := run_accounted run
  refine ⟨accounted.requests,accounted.daily,accounted.dailyCost,fun request clock uncreated => ?_⟩
  unfold commit at uncreated ⊢
  cases outcome : submitTaskGoverned encoding s request clock with
  | error e => simp [outcome]
  | ok result =>
    obtain ⟨⟨kind,record⟩,s'⟩ := result
    simp only [outcome] at uncreated ⊢
    rcases submit_parts outcome with ⟨_,same⟩ | ⟨_,_,_,answer,_⟩
    · exact same
    · cases answer
      exact absurd rfl (uncreated _)

-- The account of one submission under the limits that a new tenant is given.
theorem admission_quotas_created :
    (play (countedExec trialEncoding) (.empty,[]) (trialDirect 7)).2.length = 1 ∧
    ∀ start, (play (countedExec trialEncoding) (.empty,[]) (trialDirect 7)).2.countP
      (inWindow trialAdmin.tenantId defaultLimits start) ≤ 120 := by
  have run : CountedRun trialEncoding (FixedLimits trialAdmin.tenantId defaultLimits)
      (play (countedExec trialEncoding) (.empty,[]) (trialDirect 7)) := by
    refine play_reaches ⟨trivial,trivial,fun _ found limited => ?_,trivial⟩
    have default :
        (trial [.bootstrapPrincipal trialAdmin,.createSession trialAdmin]).limits.lookup trialAdmin.tenantId =
        some defaultLimits := by decide +kernel
    exact Option.some.inj (limited.symm.trans default)
  exact ⟨by decide +kernel,(admission_quotas run).1⟩

end Shaka.Properties
