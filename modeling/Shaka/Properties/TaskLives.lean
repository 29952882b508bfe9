import Shaka.Properties.FinishReplays

namespace Shaka.Properties
open Shaka.Core Queue Plan Store CheckedSteps GuardedRuns

variable {encoding : StoreEncoding} {s s' : QueueStore} {row row' : TaskRecord} {taskId : TaskId}
  {op : Operation}

-- How often an operation, and the operations one after the other, hand the task to a worker.
def started (encoding : StoreEncoding) (taskId : TaskId) (s : QueueStore) : Operation → Nat
  | .claim now leaseFor planContext =>
    match claimNextWithPlanContext encoding s now leaseFor planContext with
    | .ok (some task,_) => if task.taskId = taskId then 1 else 0
    | _ => 0
  | _ => 0

def starts (encoding : StoreEncoding) (taskId : TaskId) : QueueStore → List Operation → Nat
  | _,[] => 0
  | s,op :: rest => started encoding taskId s op + starts encoding taskId (exec encoding s op) rest

-- The times that a task was started, as its row counts them; a task that is not there was never started.
def attemptsOf (taskId : TaskId) (s : QueueStore) : Nat := ((s.tasks.lookup taskId).map (·.attempts)).getD 0

theorem rowStep_attempts (step : RowStep op row row')
    (unclaimed : ∀ now leaseFor planContext, op ≠ .claim now leaseFor planContext) :
    row'.attempts = row.attempts := by
  cases step with
  | claimed => exact absurd rfl (unclaimed _ _ _)
  | finished _ _ _ ended => exact ended.identity.2.1
  | cancelled => exact (cancelRow_identity _ row).2.1
  | recovered => exact (recoverDirect_identity _ row).2.1
  | expired => rfl
  | resolved => exact (resolvedRow_identity _ _ row).2.1

theorem claim_attempts {now leaseFor : Time} {planContext : PlanClaimContext} (linked : Linked encoding s)
    (taskId : TaskId) : attemptsOf taskId (exec encoding s (.claim now leaseFor planContext)) =
      attemptsOf taskId s + started encoding taskId s (.claim now leaseFor planContext) := by
  cases ran : claimNextWithPlanContext encoding s now leaseFor planContext with
  | error e =>
    have still : exec encoding s (.claim now leaseFor planContext) = s := by
      rw [exec,commit,transaction,ran]
      rfl
    rw [still,started,ran]
    rfl
  | ok answer =>
    obtain ⟨handed,next⟩ := answer
    have moved : exec encoding s (.claim now leaseFor planContext) = next :=
      @exec_ok encoding s next (.claim now leaseFor planContext) () (storeOf_ok.mpr ⟨handed,ran⟩)
    rw [moved,started,ran]
    rcases claim_rows linked ran with ⟨rfl,rfl⟩ | ⟨row,token,stepId,scope,found,due,_,_,tasks,rfl⟩
    · rfl
    · rw [attemptsOf,tasks,lookup_insert_eq,leaseRow_due due]
      by_cases same : taskId = row.taskId
      · subst same
        simp only [if_true,attemptsOf,found,Option.map_some,Option.getD_some]
      · simp only [if_neg same,if_neg (Ne.symm same),attemptsOf,Nat.add_zero]

-- The row of a task counts its starts.
theorem exec_attempts (linked : Linked encoding s) (op : Operation) (taskId : TaskId) :
    attemptsOf taskId (exec encoding s op) = attemptsOf taskId s + started encoding taskId s op := by
  have other : (∀ now leaseFor planContext, op ≠ .claim now leaseFor planContext) →
      attemptsOf taskId (exec encoding s op) = attemptsOf taskId s := by
    intro unclaimed
    have change := exec_rows linked op taskId
    unfold attemptsOf
    generalize s.tasks.lookup taskId = was at change
    generalize (exec encoding s op).tasks.lookup taskId = now at change
    cases change with
    | kept => rfl
    | entered => rfl
    | stepped step => exact rowStep_attempts step unclaimed
  cases op with
  | claim => exact claim_attempts linked taskId
  | _ => exact other fun _ _ _ same => nomatch same

theorem play_attempts (linked : Linked encoding s) (operations : List Operation) (taskId : TaskId) :
    attemptsOf taskId (play (exec encoding) s operations) = attemptsOf taskId s + starts encoding taskId s
      operations := by
  induction operations generalizing s with
  | nil => rfl
  | cons op rest ih =>
    change attemptsOf taskId (play (exec encoding) (exec encoding s op) rest) = _
    rw [ih (exec_linked linked op),exec_attempts linked op taskId,starts,Nat.add_assoc]

theorem play_row (linked : Linked encoding s) (operations : List Operation)
    (found : s.tasks.lookup taskId = some row) :
    ∃ row', (play (exec encoding) s operations).tasks.lookup taskId = some row' ∧ SameIdentity row row' ∧
      (row.status.isTerminal = true → (∀ op ∈ operations, ¬ Resolves row op) → row' = row) := by
  induction operations generalizing s row with
  | nil => exact ⟨row,found,SameIdentity.refl row,fun _ _ => rfl⟩
  | cons op rest ih =>
    obtain ⟨row₁,found₁,same₁,final₁⟩ : ∃ row₁, (exec encoding s op).tasks.lookup taskId = some row₁ ∧
        SameIdentity row row₁ ∧ (row.status.isTerminal = true → ¬ Resolves row op → row₁ = row) := by
      have change := exec_rows linked op taskId
      rw [found] at change
      generalize after : (exec encoding s op).tasks.lookup taskId = now at change
      cases change with
      | kept => exact ⟨row,rfl,SameIdentity.refl row,fun _ _ => rfl⟩
      | stepped step =>
        exact ⟨_,rfl,step.identity,fun terminal closed => absurd (rowStep_terminal step terminal) closed⟩
    obtain ⟨row₂,found₂,same₂,final₂⟩ := ih (exec_linked linked op) found₁
    refine ⟨row₂,found₂,same₁.trans same₂,fun terminal closed => ?_⟩
    have first := final₁ terminal (closed op List.mem_cons_self)
    rw [first] at final₂
    exact final₂ terminal fun other later => closed other (List.mem_cons_of_mem _ later)

-- Whatever the operations: a task that was submitted is never lost and stays what was submitted, its row
-- counts how often it was handed to a worker, and once it has ended nothing of its row changes, whoever
-- comes late, unless an operator decides on the plan that it is for.
theorem task_lives (first later : List Operation)
    (found : (play (exec encoding) .empty first).tasks.lookup taskId = some row) :
    row.attempts = starts encoding taskId .empty first ∧
    ∃ row', (play (exec encoding) .empty (first ++ later)).tasks.lookup taskId = some row' ∧
    SameIdentity row row' ∧
      row'.attempts = row.attempts + starts encoding taskId (play (exec encoding) .empty first) later ∧
      (row.status.isTerminal = true → (∀ op ∈ later, ¬ Resolves row op) → row' = row) := by
  have empty : Linked encoding .empty := linked_consistent.mpr empty_consistent
  have linked : Linked encoding (play (exec encoding) .empty first) :=
    @run_linked encoding _ (fun _ _ => True) (play_reaches (admitted_always fun _ _ _ => trivial))
  have counted := play_attempts empty first taskId
  rw [attemptsOf,found] at counted
  have split :
      play (exec encoding) .empty (first ++ later) = play (exec encoding)
      (play (exec encoding) .empty first) later :=
    List.foldl_append
  obtain ⟨row',found',same,final⟩ := play_row linked later found
  have onward := play_attempts linked later taskId
  rw [attemptsOf,attemptsOf,found,found'] at onward
  refine ⟨counted.trans (Nat.zero_add _),row',split ▸ found',same,onward,final⟩

-- A task that has succeeded; its worker reports again, and it is cancelled too late.
def endedTask : List Operation := trialDirect 7 ++ [trialClaim 2,trialFinish 7 1 2 none]

def lateCalls : List Operation := [trialFinish 7 1 2 (some "tarde"),trialCancel 7 3,trialClaim 4]

theorem task_lives_ended : ∃ row, (trial endedTask).tasks.lookup ⟨7⟩ = some row ∧ row.attempts = 1 ∧
    (trial (endedTask ++ lateCalls)).tasks.lookup ⟨7⟩ = some row := by
  have ended : ((trial endedTask).tasks.lookup ⟨7⟩).map (·.status) = some .succeeded ∧
      starts trialEncoding ⟨7⟩ .empty endedTask = 1 := by decide +kernel
  obtain ⟨row,found,status⟩ := Option.map_eq_some_iff.mp ended.1
  obtain ⟨counted,row',found',_,_,final⟩ := task_lives endedTask lateCalls found
  obtain rfl := final (by rw [status]; rfl) (by
    intro op late
    simp only [lateCalls,List.mem_cons,List.not_mem_nil,or_false] at late
    rcases late with rfl | rfl | rfl <;> exact not_false)
  exact ⟨row',found,counted.trans ended.2,found'⟩

end Shaka.Properties
