import Shaka.Store.Linked
import Shaka.Store.Registry
import Shaka.Plan.Turns

namespace Shaka.Store
open Shaka.Core Queue Plan CheckedSteps GuardedRuns

variable {encoding : StoreEncoding} {s s' : QueueStore} {key : PlanKey}

-- Plans that no task refers to, over runs of all operations.

def Unreferred (s : QueueStore) (key : PlanKey) : Prop :=
  ∀ taskId task, s.tasks.lookup taskId = some task → planKeyOf task ≠ some key

-- What an operation can make of such a plan.
inductive LoneChange (encoding : StoreEncoding) : Option PlanRows → PlanRows → Prop
  | kept : LoneChange encoding (some rows) rows
  | saved : plan.validateStructure = .ok () → insertSteps plan.steps ∅ = .ok steps →
      LoneChange encoding none (freshRows plan steps)
  | decided : Decided encoding rows rows' row → LoneChange encoding (some rows) rows'
  | quarantined : rows'.state = .unknown → LoneChange encoding (some rows) rows'

variable {rows rows' : PlanRows}

-- A row refers to the plan that it was submitted for.
theorem exec_unreferred (linked : Linked encoding s) (op : Operation)
    (unreferred : Unreferred (exec encoding s op) key) :
    Unreferred s key := by
  intro taskId task found refers
  have change := exec_rows linked op taskId
  rw [found] at change
  generalize now : (exec encoding s op).tasks.lookup taskId = after at change
  cases change with
  | kept => exact unreferred taskId task now refers
  | stepped step =>
    refine unreferred taskId _ now ?_
    rw [← refers,planKeyOf,planKeyOf,step.identity.planId,step.identity.planRevision]

-- A transaction on the plan of a task leaves the others alone.
theorem unreferred_kept {taskId : TaskId} {task : TaskRecord} {reference : PlanTaskReference} {tx' : PlanTx}
    (unreferred : Unreferred s key) (found : s.tasks.lookup taskId = some task)
    (named : taskReference task = .ok reference)
    (plans : s'.plans = s.plans.insert (reference.planId,reference.revision) tx'.rows) :
    s'.plans.lookup key = s.plans.lookup key := by
  rw [plans,lookup_insert_eq,if_neg]
  rintro rfl
  exact unreferred taskId task found (taskReference_key named)

theorem updateTask_unreferred {update : TaskUpdate}
    (keeps : ∀ row, planKeyOf (update.set row) = planKeyOf row) (unreferred : Unreferred s key) :
    Unreferred (s.updateTask update) key := by
  intro taskId task found refers
  unfold QueueStore.updateTask at found
  split at found
  · next row stored =>
    split at found
    · rw [lookup_insert_eq] at found
      split at found
      · cases found
        exact unreferred _ row stored (keeps row ▸ refers)
      · exact unreferred taskId task found refers
    · exact unreferred taskId task found refers
  · exact unreferred taskId task found refers

theorem recoverCandidate_unreferred {now : Time} {candidate : TaskRecord} (unreferred : Unreferred s key)
    (ok : recoverCandidate encoding now s candidate = .ok s') :
    Unreferred s' key ∧ s'.plans.lookup key = s.plans.lookup key := by
  obtain ⟨task,found,⟨_,rfl⟩ | ⟨reference,rows,tx',update,named,_,ran,rfl⟩⟩ := recoverCandidate_parts ok
  · refine ⟨updateTask_unreferred (fun row => ?_) unreferred,by rw [updateTask_plans]⟩
    unfold recoverDirect taskUpdate
    simp only
    split <;> rfl
  · simp only [recoverExpiredPlanLeaseTx,bind_ok,pure_ok,Prod.mk.injEq] at ran
    obtain ⟨_,_,_,_,_,rfl⟩ := ran
    exact ⟨@updateTask_unreferred (s.storePlan _ tx') _ _ (fun row => rfl) unreferred,
      unreferred_kept unreferred found named (updateTask_plans _ _)⟩

theorem overwriteUnknown_state (rows : PlanRows) : (overwriteUnknown rows).state = .unknown := by
  have kept : ∀ (active : StepStates) (rows : PlanRows),
      (active.foldl (fun rows entry => rows.setStep entry.1 .unknown) rows).state = rows.state := by
    intro active
    induction active with
    | nil => exact fun _ => rfl
    | cons entry rest ih => exact fun rows => (ih _).trans (updateStep_state rows)
  exact kept _ _

theorem recoverUnknownTx_state {tx tx' : PlanTx} {plan : PlanSpec} {state : PlanState} {active : StepStates}
    {now : Time} (ok : recoverUnknownTx encoding tx plan state active now = .ok tx') :
    tx'.rows.state = .unknown := by
  unfold recoverUnknownTx at ok
  split at ok
  · next unknown =>
    cases ok
    exact unknown
  · simp only [bind_ok,require_ok,exists_const,pure_ok] at ok
    obtain ⟨_,_,_,_,rfl⟩ := ok
    exact overwriteUnknown_state _

theorem forceUnknownTx_state (tx : PlanTx) (now : Time) : (forceUnknownTx tx now).rows.state = .unknown := by
  unfold forceUnknownTx
  dsimp only
  split <;> exact overwriteUnknown_state _

theorem exec_lone (linked : Linked encoding s) (op : Operation)
    (unreferred : Unreferred (exec encoding s op) key)
    (stored : (exec encoding s op).plans.lookup key = some rows') :
    LoneChange encoding (s.plans.lookup key) rows' := by
  have before := exec_unreferred linked op unreferred
  have kept : (exec encoding s op).plans.lookup key = s.plans.lookup key →
      LoneChange encoding (s.plans.lookup key) rows' := fun same => by
    rw [← same,stored]
    exact .kept
  rcases exec_cases encoding s op with same | ok
  · exact kept (by rw [same])
  generalize exec encoding s op = s' at ok unreferred stored kept
  cases op with
  | bootstrapPrincipal principal =>
    simp only [transaction,bootstrapPrincipal,bind_ok] at ok
    obtain ⟨_,_,_,_,ok⟩ := ok
    split at ok <;> cases ok <;> exact kept rfl
  | setLimits tenantId limits =>
    simp only [transaction,storeOf_ok,setLimits,bind_ok,pure_ok,Prod.mk.injEq] at ok
    obtain ⟨_,_,_,_,_,_,rfl⟩ := ok
    exact kept rfl
  | createSession principal =>
    cases ok
    exact kept rfl
  | savePlan plan =>
    obtain ⟨answer,ok⟩ := storeOf_ok.mp ok
    rcases savePlan_parts ok with rfl | ⟨steps,structured,_,absent,inserted,rfl⟩
    · exact kept rfl
    · rw [lookup_insert_eq] at stored
      split at stored
      · next same =>
        cases stored
        rw [same,absent]
        exact .saved structured inserted
      · rw [stored]
        exact .kept
  | submit request clock =>
    obtain ⟨answer,ok⟩ := storeOf_ok.mp ok
    rcases submit_parts ok with ⟨_,rfl⟩ | ⟨limits,admitted,envelope,_,submitted⟩
    · exact kept rfl
    obtain ⟨_,_,_,_,⟨approvalId,admission⟩,_,_,_,_,_,rfl⟩ := submitted
    unfold admitReference at admission
    split at admission
    · cases admission
      exact kept rfl
    · next reference named =>
      obtain ⟨tx,_,admission⟩ := bind_ok.mp admission
      obtain ⟨⟨_,tx'⟩,_,same⟩ := bind_ok.mp admission
      cases same
      refine kept (AList.lookup_insert_ne ?_)
      rintro rfl
      exact unreferred envelope.taskId _ (AList.lookup_insert _) (by simp [planKeyOf,newTask,named])
  | approvePlan principal approval idempotencyKey now =>
    obtain ⟨answer,ok⟩ := storeOf_ok.mp ok
    rcases approvePlan_parts ok with rfl | ⟨rows,tx',found,_,decided,rfl⟩
    · exact kept rfl
    · rw [QueueStore.storePlan,lookup_insert_eq] at stored
      split at stored
      · next same =>
        cases stored
        rw [same,found]
        exact .decided decided
      · rw [stored]
        exact .kept
  | claim now leaseFor planContext =>
    obtain ⟨answer,ok⟩ := storeOf_ok.mp ok
    simp only [claimNextWithPlanContext,bind_ok,require_ok,exists_const] at ok
    rcases claimFirst_parts ok.2 with ⟨_,rfl,_⟩ | ⟨_,candidate,_,task,bound,prepared,claimed,_,_,
      preparation,leased,_⟩
    · exact kept rfl
    have plans : s'.plans = prepared.plans := by
      simp only [leaseTask,bind_ok,pure_ok,Prod.mk.injEq] at leased
      obtain ⟨_,_,_,rfl⟩ := leased
      exact updateTask_plans _ _
    obtain ⟨found,_,_,⟨_,_,rfl⟩ | ⟨reference,rows,step,tx',named,_,_,_,rfl⟩⟩ :=
      prepareCandidate_parts preparation
    · exact kept (by rw [plans])
    · exact kept (unreferred_kept before found named plans)
  | finish taskId tenantId leaseToken report now planContext =>
    obtain ⟨answer,ok⟩ := storeOf_ok.mp ok
    rcases finish_parts ok with rfl | ⟨task,found,_,_,_,_,⟨_,rfl⟩ | ⟨reference,rows,outcome,tx',update,
      named,_,_,rfl⟩⟩
    · exact kept rfl
    · exact kept (by rw [updateTask_plans])
    · exact kept (unreferred_kept before found named (updateTask_plans _ _))
  | requestCancel taskId tenantId now =>
    obtain ⟨answer,ok⟩ := storeOf_ok.mp ok
    rcases requestCancel_parts ok with ⟨_,rfl⟩ | ⟨task,found,_,_,⟨_,rfl⟩ | ⟨reference,rows,tx',named,_,_,rfl⟩⟩
    · exact kept rfl
    · exact kept (by rw [updateTask_plans])
    · exact kept (unreferred_kept before found named (updateTask_plans _ _))
  | recoverExpiredLeases now =>
    obtain ⟨answer,ok⟩ := storeOf_ok.mp ok
    simp only [recoverExpiredLeases,bind_ok,pure_ok,Prod.mk.injEq] at ok
    obtain ⟨_,ran,_,rfl⟩ := ok
    have swept := foldEach_preserves (motive := fun s' => Unreferred s' key ∧
      s'.plans.lookup key = s.plans.lookup key) (fun _ _ _ _ untouched ran => by
        obtain ⟨again,same⟩ := recoverCandidate_unreferred untouched.1 ran
        exact ⟨again,same.trans untouched.2⟩) ⟨before,rfl⟩ ran
    exact kept swept.2
  | resolvePlanUnknown request now =>
    obtain ⟨answer,ok⟩ := storeOf_ok.mp ok
    rcases resolvePlanUnknown_parts ok with rfl | ⟨key',rows,task,tx',noted,update,resolution⟩
    · exact kept rfl
    · refine kept ?_
      rw [resolution.stored,updateTask_plans,QueueStore.storePlan,lookup_insert_eq,if_neg]
      rintro rfl
      exact before _ task resolution.listed resolution.refers
  | resumePlan tenantId planId now =>
    cases ok
    rcases resumePlan_parts encoding s tenantId planId now with same | ⟨key',rows,loaded,resumption⟩
    · exact kept (by rw [same])
    generalize (resumePlan encoding s tenantId planId now).2 = s' at resumption stored
    have replaced : ∀ tx :
        PlanTx, tx.rows.state = .unknown → (s.storePlan key' tx).plans.lookup key = some rows' →
        LoneChange encoding (s.plans.lookup key) rows' := by
      intro tx unknown stored
      rw [QueueStore.storePlan,lookup_insert_eq] at stored
      split at stored
      · next same =>
        cases stored
        rw [same,loaded.stored]
        exact .quarantined unknown
      · rw [stored]
        exact .kept
    cases resumption with
    | quarantined => exact replaced _ (forceUnknownTx_state _ _) stored
    | recovered _ _ ok => exact replaced _ (recoverUnknownTx_state ok) stored

-- The keys under which decisions and admissions are recorded.
def Decisive (key : String) : Prop := key.toList.head? = some 'a'

theorem Decisive.append {stem tail : String} (decisive : Decisive stem) : Decisive (stem ++ tail) := by
  rw [Decisive,String.toList_append,List.head?_append,decisive]
  rfl

theorem decisive_stems : Decisive "approval:proposed:" ∧ Decisive "approval:validated:" ∧
    Decisive "approval:approved:" ∧ Decisive "approval:rejected:" ∧ Decisive "admission:proposed" ∧
    Decisive "admission:validated" ∧ Decisive "admission:approved" := by
  unfold Decisive
  decide +kernel

theorem approvalKey_decisive (id : String) (state : PlanState) : Decisive (approvalKey id state) := by
  obtain ⟨proposed,validated,approved,rejected,_⟩ := decisive_stems
  unfold approvalKey
  split
  · exact .append proposed
  · exact .append validated
  · exact .append approved
  · exact .append rejected

theorem admissionKey_decisive (state : PlanState) : Decisive (admissionKey state) := by
  obtain ⟨_,_,_,_,proposed,validated,approved⟩ := decisive_stems
  unfold admissionKey
  split
  · exact proposed
  · exact validated
  · exact approved

theorem admissionWrites_keys {key : PlanState → String} {now : Time} {state : PlanState} {used : String}
    (listed : used ∈ keysOf (admissionWrites key now state)) : ∃ target, used = key target := by
  cases state <;> simp only [admissionWrites,keysOf,eventsOf_plan,eventsOf_nil,List.map_cons,List.map_nil,
    List.mem_cons,List.not_mem_nil,or_false] at listed
  case draft => rcases listed with same | same | same <;> exact ⟨_,same⟩
  case proposed => rcases listed with same | same <;> exact ⟨_,same⟩
  all_goals exact ⟨_,listed⟩

theorem decisionWrites_decisive {encoding : Encoding} {approval : PlanApproval} {now : Time}
    {state : PlanState} {used : String}
    (listed : used ∈ keysOf (decisionWrites encoding approval now state)) :
    Decisive used := by
  unfold decisionWrites at listed
  split at listed
  · split at listed
    · cases listed
    · obtain ⟨target,rfl⟩ := admissionWrites_keys listed
      exact approvalKey_decisive _ _
  · obtain rfl := List.mem_singleton.mp listed
    exact approvalKey_decisive _ _

-- Nothing has been run of a plan, and only decisions are recorded of it.
structure Unstarted (rows : PlanRows) : Prop where
  pending : ∀ x state, rows.stepState x = some state → state = .pending
  attempts : ∀ x, rows.attemptsOf x = 0
  limits : ∀ x row, rows.steps.lookup x = some row → row.maxAttempts ≤ maxU32
  keys : ∀ key ∈ (view rows).keys, Decisive key

theorem freshRows_unstarted {plan : PlanSpec} {steps : AList fun _ : PlanStepId => PlanStepRow}
    (structured : plan.validateStructure = .ok ()) (inserted : insertSteps plan.steps ∅ = .ok steps) :
    Unstarted (freshRows plan steps) := by
  obtain ⟨_,pending,attempts,transitions,_⟩ := freshRows_saved inserted
  refine ⟨pending,attempts,fun x row found => ?_,?_⟩
  · obtain ⟨step,listed,_,rfl⟩ := ((insertSteps_ok inserted).2 x row found).resolve_left (by simp)
    have valid := ((validateStructure_steps structured).2.2 step listed).1
    simp only [PlanStep.validate,bind_ok,require_ok,exists_const] at valid
    obtain ⟨_,_,_,_,⟨_,few⟩,_⟩ := valid
    exact few.trans (by decide)
  · rw [view_keys,transitions]
    simp

theorem Unstarted.written {ws : List Write} (unstarted : Unstarted rows) (edits : Edits encoding {rows with
    approvals:=approvals} rows') (reached : view rows' = (view rows).writes ws)
    (steps : ((view rows).writes ws).steps = (view rows).steps)
    (attempts : ((view rows).writes ws).attempts = (view rows).attempts)
    (decisive : ∀ used ∈ keysOf ws, Decisive used) : Unstarted rows' := by
  refine ⟨?_,?_,fun x row stored => ?_,?_⟩
  · rw [← view_steps,reached,steps]
    exact unstarted.pending
  · rw [← view_attempts,reached,attempts]
    exact unstarted.attempts
  · have same := edits.same.limits x
    rw [stored] at same
    obtain ⟨old,stored',equal⟩ := Option.map_eq_some_iff.mp same.symm
    exact le_of_eq_of_le equal.symm (unstarted.limits x old stored')
  · rw [reached,writes_keys]
    intro used listed
    rcases List.mem_append.mp listed with before | now
    · exact unstarted.keys used before
    · exact decisive used now

theorem decisionWrites_attempts {v : View} {encoding : Encoding} {approval : PlanApproval} {now : Time}
    {state : PlanState} : (v.writes (decisionWrites encoding approval now state)).attempts = v.attempts := by
  unfold decisionWrites
  split
  · split <;> simp
  · rfl

theorem Unstarted.decided {row : PlanApprovalRow} (unstarted : Unstarted rows)
    (decided : Decided encoding rows rows' row) : Unstarted rows' :=
  unstarted.written decided.edits decided.reached decisionWrites_steps decisionWrites_attempts
    fun _ listed => decisionWrites_decisive listed

-- A plan without a task is unstarted, unless a recovery has quarantined it.
def Unstirred (s : QueueStore) : Prop := ∀ key rows, s.plans.lookup key = some rows → Unreferred s key →
  rows.state = .unknown ∨ Unstarted rows

theorem run_unstirred {allowed : QueueStore → Operation → Prop} (run : Run encoding allowed s) :
    Unstirred s := by
  refine run.invariant_under (fun _ reached => run_linked reached) (fun key rows found => by cases found)
    fun s op linked unstirred _ key rows' stored unreferred => ?_
  have before := exec_unreferred linked op unreferred
  have change := exec_lone linked op unreferred stored
  generalize was : s.plans.lookup key = old at change
  cases change with
  | kept => exact unstirred key rows' was before
  | saved structured inserted => exact .inr (freshRows_unstarted structured inserted)
  | decided decided =>
    rcases unstirred key _ was before with unknown | unstarted
    · rcases decided.undecided with undecided | quiet
      · rw [unknown] at undecided
        cases undecided
      · refine .inl ?_
        rw [← view_plan,decided.reached,decisionWrites]
        simp [quiet.1,quiet.2,unknown]
    · exact .inr (unstarted.decided decided)
  | quarantined unknown => exact .inl unknown

-- The keys of a run of a step are of another kind.
theorem turnKeys_undecisive {encoding : Encoding} {x : PlanStepId} {stored : StoreKey}
    (listed : stored ∈ turnKeys x) : ¬ Decisive (stored.text encoding) := by
  simp only [turnKeys,List.mem_cons,List.not_mem_nil,or_false] at listed
  rcases listed with rfl | rfl | rfl | rfl <;> simp [Decisive,StoreKey.text,KeyKind.stem,String.toList_append]

theorem finishKey_undecisive {encoding : Encoding} :
    ¬ Decisive ((StoreKey.plan .finishSucceeded).text encoding) := by
  simp [Decisive,StoreKey.text,KeyKind.stem]

-- Its admission makes of such a plan one of which every step is left.
theorem Unstarted.underway {tx : PlanTx} {principal : Principal} {envelope : TaskEnvelope}
    {reference : PlanTaskReference} {verifyNow now : Time} (unstarted : Unstarted rows)
    (filed : Filed encoding key rows)
    (verified : Verified encoding rows principal envelope reference verifyNow)
    (edits : Edits encoding rows tx.rows)
    (reached : view tx.rows = (view rows).writes (admissionWrites admissionKey now rows.state)) :
    Underway encoding [] tx.rows := by
  have state : tx.rows.state = .approved := by
    rw [← view_plan,reached]
    exact admissionWrites_plan verified.admissible
  have plan := edits.same.plan
  have listed : tx.rows.steps.keys.Perm tx.rows.plan.stepIds := by
    rw [plan]
    exact edits.same.keys.trans filed.steps
  obtain ⟨pending,attempts,limits,keys⟩ :=
    @Unstarted.written encoding rows tx.rows rows.approvals _ unstarted edits
    reached (admissionWrites_steps _ _ _) (admissionWrites_attempts _ _ _) fun used written => by
      obtain ⟨target,rfl⟩ := admissionWrites_keys written
      exact admissionKey_decisive target
  obtain ⟨structured,clean,_⟩ := verify_executable.mp verified.preflight
  have sealed_ : Sealed encoding rows := ⟨structured,clean⟩
  refine ⟨sealed_.restated plan (by rw [state]; rfl),listed,state,fun x planned => ?_,fun x _ =>
    attempts x,limits,
    fun x _ _ stored among used => turnKeys_undecisive among (keys _ used),fun stored among used => ?_⟩
  · have present : x ∈ tx.rows.steps := AList.mem_keys.mpr (listed.mem_iff.mpr planned)
    obtain ⟨row,stored⟩ := Option.isSome_iff_exists.mp (AList.lookup_isSome.mpr present)
    have found : tx.rows.stepState x = some row.state := by rw [PlanRows.stepState,stored]; rfl
    rw [found,pending x _ found]
    simp
  · rw [List.mem_singleton.mp among] at used
    exact finishKey_undecisive (keys _ used)

-- A tenant with limits is one whose name is accepted.
def NamedTenants (s : QueueStore) : Prop :=
  ∀ tenantId limits, s.limits.lookup tenantId = some limits → TenantId.new tenantId.text = .ok tenantId

theorem run_tenants {allowed : QueueStore → Operation → Prop} (run : Run encoding allowed s) :
    NamedTenants s := by
  refine run.invariant (fun tenantId limits found => by cases found) fun s op named _ => ?_
  have same : ∀ s', s'.limits = s.limits → NamedTenants s' := fun s' limits tenantId found => by
    rw [limits]
    exact named tenantId found
  have inserted : ∀ s' tenantId limits, TenantId.new tenantId.text = .ok tenantId →
      s'.limits = s.limits.insert tenantId limits → NamedTenants s' := by
    intro s' tenantId limits valid made other limits' found
    rw [made,lookup_insert_eq] at found
    split at found
    · next here => rw [here]; exact valid
    · exact named other limits' found
  rcases exec_cases encoding s op with stays | ok
  · rw [stays]
    exact named
  have change := exec_registry encoding s op
  generalize exec encoding s op = s' at change ok
  cases change with
  | kept kept => exact same s' (congrArg (·.2.1) kept)
  | @bootstrapped principal _ made =>
    obtain ⟨_,checked,_⟩ := bind_ok.mp ok
    refine inserted s' _ _ ?_ (by rw [made])
    have checked := require_ok.mp checked
    unfold TenantId.new
    rw [if_neg (by simp [checked])]
  | @limited limits tenantId _ made =>
    obtain ⟨_,ok⟩ := storeOf_ok.mp ok
    simp only [setLimits,bind_ok,orFail_ok] at ok
    obtain ⟨_,_,_,found,_⟩ := ok
    exact inserted s' _ _ (named _ _ found) (by rw [made])
  | opened made => exact same s' (by rw [made])
  | counted _ counted => exact same s' (congrArg (·.2.1) counted)

-- So is the tenant of every task.
def NamedOwners (s : QueueStore) : Prop :=
  ∀ taskId task, s.tasks.lookup taskId = some task → TenantId.new task.tenantId.text = .ok task.tenantId

theorem run_owners {allowed : QueueStore → Operation → Prop} (run : Run encoding allowed s) :
    NamedOwners s := by
  have known : ∀ s, Run encoding allowed s → NamedTenants s ∧ Linked encoding s :=
    fun _ reached => ⟨run_tenants reached,run_linked reached⟩
  refine run.invariant_under known (fun taskId task found => by cases found)
    fun s op ⟨tenants,linked⟩ named _ taskId task found => ?_
  rcases exec_cases encoding s op with stays | ok
  · exact named taskId task (stays ▸ found)
  have change := exec_rows linked op taskId
  rw [found] at change
  generalize was : s.tasks.lookup taskId = old at change
  cases change with
  | kept => exact named taskId task was
  | stepped step =>
    rw [step.identity.tenantId]
    exact named taskId _ was
  | entered =>
    obtain ⟨answer,ok⟩ := storeOf_ok.mp ok
    rcases submit_parts ok with ⟨_,same⟩ | ⟨limits,admitted,envelope,_,submitted⟩
    · rw [same,was] at found
      cases found
    · exact tenants _ _ submitted.limited

end Shaka.Store
