import Shaka.Plan.AdmissionMoves
import Shaka.Plan.ResolutionMoves
import Shaka.Queue.Operations

namespace Shaka.Store
open Shaka.Core Queue Plan CheckedSteps

theorem lookup_insert_eq {α β : Type} [DecidableEq α] (m : AList fun _ : α => β) (k x : α) (v : β) :
    (m.insert k v).lookup x = if x = k then some v else m.lookup x := by
  split
  · next same => subst same; exact AList.lookup_insert m
  · next other => exact AList.lookup_insert_ne other

-- A table that is as it was but for one row.
def Sets {α β : Type} [DecidableEq α] (before after : AList fun _ : α => β) (k : α) (v : β) : Prop :=
  ∀ x, after.lookup x = if x = k then some v else before.lookup x

theorem sets_insert {α β : Type} [DecidableEq α] {before after : AList fun _ : α => β} {k : α} {v : β}
    (changed : after = before.insert k v) : Sets before after k v := fun x => by rw [changed,lookup_insert_eq]

def planKeyOf (task : TaskRecord) : Option PlanKey :=
  match task.planId,task.planRevision with
  | some planId,some revision => some (planId,revision)
  | _,_ => none

-- What a stored plan keeps from the moment it was saved.
structure Filed (encoding : StoreEncoding) (key : PlanKey) (rows : PlanRows) : Prop where
  planId : rows.plan.planId = key.1
  revision : rows.plan.revision = key.2
  tenantId : rows.tenantId = rows.plan.tenantId
  digest : rows.digest = rows.plan.digest
  structured : rows.plan.validateStructure = .ok ()
  sealed : rows.plan.verifyDigest encoding.toEncoding = .ok ()
  steps : rows.steps.keys.Perm rows.plan.stepIds
  compensations : ∀ x row, rows.steps.lookup x = some row → ∃ step ∈ rows.plan.steps, step.stepId = x ∧
    row.compensationStepId = step.compensationStepId

-- The reference to it is one that is accepted, when digests are hexadecimal.
theorem Filed.reference {encoding : StoreEncoding} {key : PlanKey} {rows : PlanRows}
    (filed : Filed encoding key rows)
    (hex : Queue.validateSha256 (rows.plan.calculateDigest encoding.toEncoding) "plan_digest" = .ok ()) :
    PlanTaskReference.new rows.plan.planId rows.plan.revision rows.plan.digest =
      .ok ⟨rows.plan.planId,rows.plan.revision,rows.plan.digest⟩ := by
  have structured := filed.structured
  simp only [PlanSpec.validateStructure,bind_ok,require_ok,exists_const] at structured
  rw [PlanTaskReference.new,require_pos _ structured.1,ok_bind,require_ok.mp filed.sealed,hex]
  rfl

-- A row of the task table on its own.
structure Rowed (id : TaskId) (task : TaskRecord) : Prop where
  taskId : task.taskId = id
  checked : checkTaskRow task = .ok ()
  revision : task.planRevision.isSome = task.planId.isSome
  digest : task.planDigest.isSome = task.planId.isSome
  direct : task.planId = none → task.planStepId = none

-- A task and the plan that it refers to.
structure Joined (task : TaskRecord) (rows : PlanRows) : Prop where
  taskId : rows.plan.taskId = task.taskId
  tenantId : rows.plan.tenantId = task.tenantId
  planId : task.planId = some rows.plan.planId
  revision : task.planRevision = some rows.plan.revision
  digest : task.planDigest = some rows.plan.digest
  mode : rows.plan.mode = .dryRun

-- A property of planned tasks with their plans, and one of plans without a task,
-- hold all over the database.
structure Consistent (encoding : StoreEncoding) (Pair : TaskRecord → PlanRows → Prop) (Lone : PlanRows → Prop)
    (s : QueueStore) : Prop where
  filed : ∀ key rows, s.plans.lookup key = some rows → Filed encoding key rows
  rowed : ∀ id task, s.tasks.lookup id = some task → Rowed id task
  joined : ∀ id task key, s.tasks.lookup id = some task → planKeyOf task = some key →
    ∃ rows, s.plans.lookup key = some rows ∧ Joined task rows ∧ Pair task rows
  lone : ∀ key rows, s.plans.lookup key = some rows →
    (∀ id task, s.tasks.lookup id = some task → planKeyOf task ≠ some key) → Lone rows

theorem Consistent.weaken {encoding : StoreEncoding} {Pair Pair' : TaskRecord → PlanRows → Prop}
    {Lone Lone' : PlanRows → Prop} (consistent : Consistent encoding Pair Lone s)
    (pair : ∀ task rows, Pair task rows → Pair' task rows) (lone : ∀ rows, Lone rows → Lone' rows) :
    Consistent encoding Pair' Lone' s := by
  refine ⟨consistent.filed,consistent.rowed,fun id task key found refers => ?_,fun key rows stored alone =>
    ?_⟩
  · obtain ⟨rows,stored,joined,holds⟩ := consistent.joined id task key found refers
    exact ⟨rows,stored,joined,pair task rows holds⟩
  · exact lone rows (consistent.lone key rows stored alone)

-- A plan as `save_plan` stores it.
structure Saved (rows : PlanRows) : Prop where
  state : rows.state = rows.plan.state
  pending : ∀ x state, rows.stepState x = some state → state = .pending
  attempts : ∀ x, rows.attemptsOf x = 0
  transitions : rows.transitions = []
  checkpoints : rows.checkpoints = []
  approvals : rows.approvals = []
  overwrites : rows.rawOverwrites = 0

-- A decision on a plan: its row, then what it writes.
structure Decided (encoding : StoreEncoding) (rows rows' : PlanRows) (row : PlanApprovalRow) : Prop where
  undecided : isUndecided rows.state = true ∨ (row.approval.decision = .approved ∧ row.approval.stepId.isSome)
  valid : row.approval.decision = .approved → row.approval.stepId = none →
    ValidApproval row.approval (snapshotOf rows) row.createdAt
  edits : Edits encoding {rows with approvals:=rows.approvals ++ [row]} rows'
  reached : view rows' = (view rows).writes (decisionWrites encoding.toEncoding row.approval row.createdAt
    rows.state)

structure Admitted (encoding : StoreEncoding) (task : TaskRecord) (rows rows' : PlanRows)
    (verifyNow now : Time) : Prop where
  lease : leaseOf task = .free .queued false
  admissible : isAdmissible rows.state = true
  preflight : isExecutable encoding (snapshotOf rows)
    (preflightContext (loadApprovalsTx rows (snapshotOf rows)) verifyNow) = true
  edits : Edits encoding rows rows'
  reached : view rows' = (view rows).writes (admissionWrites admissionKey now rows.state)

structure Moved (encoding : StoreEncoding) (act : Act) (task task' : TaskRecord) (rows rows' : PlanRows) :
    Prop where
  move : ∃ ws, Move encoding.toEncoding rows.plan act (flowOf task rows) ws (leaseOf task') ∧
    view rows' = (view rows).writes ws
  edits : Edits encoding rows rows'
  planId : task'.planId = task.planId
  planRevision : task'.planRevision = task.planRevision

-- What one operation, or one iteration of its loop, makes of the database. The
-- act of a move on a task and its plan is one that is permitted there.
inductive Advance (encoding : StoreEncoding) (permitted : Act → TaskRecord → PlanRows → Prop) :
    QueueStore → QueueStore → Prop
  | aside : s'.tasks = s.tasks → (∀ key, s'.plans.lookup key = s.plans.lookup key) →
      Advance encoding permitted s s'
  | saved : s.plans.lookup key = none → Filed encoding key rows → Saved rows → s'.tasks = s.tasks →
      s'.plans = s.plans.insert key rows → Advance encoding permitted s s'
  | decided : s.plans.lookup key = some rows → Decided encoding rows rows' row → s'.tasks = s.tasks →
      s'.plans = s.plans.insert key rows' → Advance encoding permitted s s'
  | direct : Rowed taskId task → task.planId = none →
      (∀ old, s.tasks.lookup taskId = some old → old.planId = none) →
      s'.tasks = s.tasks.insert taskId task → s'.plans = s.plans → Advance encoding permitted s s'
  | admitted : s.tasks.lookup taskId = none → s.plans.lookup key = some rows → Rowed taskId task →
      planKeyOf task = some key → Joined task rows → Admitted encoding task rows rows' verifyNow now →
      s'.tasks = s.tasks.insert taskId task → s'.plans = s.plans.insert key rows' →
      Advance encoding permitted s s'
  | moved : s.tasks.lookup taskId = some task → planKeyOf task = some key → s.plans.lookup key = some rows →
      Rowed taskId task' → Joined task' rows → Moved encoding act task task' rows rows' →
      permitted act task rows →
      Sets s.tasks s'.tasks taskId task' → s'.plans = s.plans.insert key rows' →
      Advance encoding permitted s s'

theorem Advance.weaken {encoding : StoreEncoding} {permitted wider : Act → TaskRecord → PlanRows → Prop}
    (advance : Advance encoding permitted s s')
    (included : ∀ act task rows, permitted act task rows → wider act task rows) :
    Advance encoding wider s s' := by
  cases advance with
  | aside tasks plans => exact .aside tasks plans
  | saved absent filed saved tasks plans => exact .saved absent filed saved tasks plans
  | decided found decided tasks plans => exact .decided found decided tasks plans
  | direct rowed unplanned old tasks plans => exact .direct rowed unplanned old tasks plans
  | admitted absent found rowed key joined admitted tasks plans =>
    exact .admitted absent found rowed key joined admitted tasks plans
  | moved found key stored rowed joined moved may tasks plans =>
    exact .moved found key stored rowed joined moved (included _ _ _ may) tasks plans

theorem Filed.same {encoding : StoreEncoding} {key : PlanKey} {rows rows' : PlanRows}
    (filed : Filed encoding key rows) (plan : rows'.plan = rows.plan)
    (tenantId : rows'.tenantId = rows.tenantId)
    (digest : rows'.digest = rows.digest) (keys : rows'.steps.keys.Perm rows.steps.keys)
    (compensations : ∀ x, (rows'.steps.lookup x).map (·.compensationStepId) =
      (rows.steps.lookup x).map (·.compensationStepId)) : Filed encoding key rows' := by
  obtain ⟨planId,revision,tenant,sum,structured,sealed,steps,declared⟩ := filed
  refine ⟨?_,?_,?_,?_,?_,?_,?_,fun x row found => ?_⟩ <;> simp only [plan,tenantId,digest]
  all_goals first | assumption | skip
  · exact keys.trans steps
  · have same := compensations x
    rw [found] at same
    obtain ⟨old,stored,equal⟩ := Option.map_eq_some_iff.mp same.symm
    obtain ⟨step,listed,named,own⟩ := declared x old stored
    exact ⟨step,listed,named,equal.symm.trans own⟩

theorem Filed.columned {encoding : StoreEncoding} {key : PlanKey} {rows : PlanRows}
    (filed : Filed encoding key rows) : Columned rows := by
  intro x row found compensation
  obtain ⟨step,listed,rfl,own⟩ := filed.compensations x row found
  rw [own]
  constructor
  · exact fun declared => ⟨step,listed,rfl,declared⟩
  · rintro ⟨other,present,same,declared⟩
    rwa [same_step (validateStructure_steps filed.structured).2.1 listed present same.symm]

theorem Filed.edits {encoding : StoreEncoding} {key : PlanKey} {rows rows' : PlanRows}
    (filed : Filed encoding key rows) (same : SameSpec rows rows') : Filed encoding key rows' := by
  exact filed.same same.plan same.tenantId same.digest same.keys same.compensations

theorem SameSpec.decided {rows rows' : PlanRows} {approvals : List PlanApprovalRow}
    (same : SameSpec {rows with approvals:=approvals} rows') : rows'.plan = rows.plan ∧
      rows'.tenantId = rows.tenantId ∧ rows'.digest = rows.digest ∧ rows'.steps.keys.Perm rows.steps.keys ∧
      ∀ x, (rows'.steps.lookup x).map (·.compensationStepId) = (rows.steps.lookup x).map
        (·.compensationStepId) :=
  ⟨same.plan,same.tenantId,same.digest,same.keys,same.compensations⟩

theorem Joined.same {task : TaskRecord} {rows rows' : PlanRows} (joined : Joined task rows)
    (plan : rows'.plan = rows.plan) : Joined task rows' := by
  obtain ⟨taskId,tenantId,planId,revision,digest,mode⟩ := joined
  refine ⟨?_,?_,?_,?_,?_,?_⟩ <;> rw [plan] <;> assumption

theorem Joined.task {task task' : TaskRecord} {rows : PlanRows} (joined : Joined task rows)
    (taskId : task'.taskId = task.taskId) (tenantId : task'.tenantId = task.tenantId)
    (planId : task'.planId = task.planId) (revision : task'.planRevision = task.planRevision)
    (digest : task'.planDigest = task.planDigest) : Joined task' rows :=
  ⟨joined.taskId.trans taskId.symm,joined.tenantId.trans tenantId.symm,planId.trans joined.planId,
    revision.trans joined.revision,digest.trans joined.digest,joined.mode⟩

theorem Joined.key {task : TaskRecord} {rows : PlanRows} (joined : Joined task rows) :
    planKeyOf task = some (rows.plan.planId,rows.plan.revision) := by
  simp [planKeyOf,joined.planId,joined.revision]

-- The properties that every advance keeps.
structure Preserved (encoding : StoreEncoding) (permitted : Act → TaskRecord → PlanRows → Prop)
    (Pair : TaskRecord → PlanRows → Prop) (Lone : PlanRows → Prop) : Prop where
  saved : ∀ key rows, Filed encoding key rows → Saved rows → Lone rows
  decidedLone : ∀ key rows rows' row, Filed encoding key rows → Decided encoding rows rows' row → Lone rows →
    Lone rows'
  decidedPair : ∀ key task rows rows' row, Filed encoding key rows → Joined task rows →
    Decided encoding rows rows' row → Pair task rows → Pair task rows'
  admitted : ∀ key task rows rows' verifyNow now, Filed encoding key rows → Joined task rows →
    Admitted encoding task rows rows' verifyNow now → Lone rows → Pair task rows'
  moved : ∀ key act task task' rows rows', Filed encoding key rows → Joined task rows →
    Moved encoding act task task' rows rows' → permitted act task rows → Pair task rows → Pair task' rows'

-- Two tasks never refer to one plan.
theorem Consistent.sole {encoding : StoreEncoding} {Pair : TaskRecord → PlanRows → Prop}
    {Lone : PlanRows → Prop} (consistent : Consistent encoding Pair Lone s)
    (one : s.tasks.lookup a = some task) (two : s.tasks.lookup b = some other)
    (key : planKeyOf task = some shared) (key' : planKeyOf other = some shared) : a = b := by
  obtain ⟨rows,found,joined,_⟩ := consistent.joined a task shared one key
  obtain ⟨rows',found',joined',_⟩ := consistent.joined b other shared two key'
  obtain rfl := Option.some.inj (found.symm.trans found')
  rw [← (consistent.rowed a task one).taskId,← (consistent.rowed b other two).taskId,← joined.taskId,
    joined'.taskId]

-- A change of one plan that keeps what it was saved with.
theorem Filed.insert {encoding : StoreEncoding} {plans plans' : AList fun _ : PlanKey => PlanRows}
    {key : PlanKey} {rows' : PlanRows}
    (filed : ∀ key rows, plans.lookup key = some rows → Filed encoding key rows)
    (changed : plans' = plans.insert key rows') (next : Filed encoding key rows') :
    ∀ key rows, plans'.lookup key = some rows → Filed encoding key rows := by
  intro other rows found
  rw [changed,lookup_insert_eq] at found
  split at found
  · next same => cases found; exact same ▸ next
  · exact filed other rows found

theorem Rowed.insert {tasks tasks' : AList fun _ : TaskId => TaskRecord} {taskId : TaskId}
    {task' : TaskRecord} (rowed : ∀ taskId task, tasks.lookup taskId = some task → Rowed taskId task)
    (changed : Sets tasks tasks' taskId task') (next : Rowed taskId task') :
    ∀ taskId task, tasks'.lookup taskId = some task → Rowed taskId task := by
  intro other task found
  rw [changed] at found
  split at found
  · next same => cases found; exact same ▸ next
  · exact rowed other task found

section Advance
variable {encoding : StoreEncoding} {permitted : Act → TaskRecord → PlanRows → Prop}
  {Pair : TaskRecord → PlanRows → Prop} {Lone : PlanRows → Prop} {s s' : QueueStore} {key : PlanKey}
  {taskId : TaskId} {task : TaskRecord} {rows rows' : PlanRows}

theorem Consistent.saved (consistent : Consistent encoding Pair Lone s) (absent : s.plans.lookup key = none)
    (filed : Filed encoding key rows) (alone : Lone rows) (tasks : s'.tasks = s.tasks)
    (plans : s'.plans = s.plans.insert key rows) : Consistent encoding Pair Lone s' := by
  refine ⟨Filed.insert consistent.filed plans filed,by rw [tasks]; exact consistent.rowed,?_,?_⟩
  · intro taskId task shared found refers
    rw [tasks] at found
    obtain ⟨rows',stored,joined,pair⟩ := consistent.joined taskId task shared found refers
    refine ⟨rows',?_,joined,pair⟩
    rw [plans,lookup_insert_eq,if_neg (fun same => by rw [same,absent] at stored; cases stored)]
    exact stored
  · intro other rows' stored unreferred
    rw [plans,lookup_insert_eq] at stored
    rw [tasks] at unreferred
    split at stored
    · cases stored; exact alone
    · exact consistent.lone other rows' stored unreferred

-- The rows of one plan change while no task does.
theorem Consistent.replaced (consistent : Consistent encoding Pair Lone s)
    (found : s.plans.lookup key = some rows) (filed : Filed encoding key rows')
    (plan : rows'.plan = rows.plan) (alone : Lone rows → Lone rows')
    (paired : ∀ task, Joined task rows → Pair task rows → Pair task rows') (tasks : s'.tasks = s.tasks)
    (plans : s'.plans = s.plans.insert key rows') : Consistent encoding Pair Lone s' := by
  refine ⟨Filed.insert consistent.filed plans filed,by rw [tasks]; exact consistent.rowed,?_,?_⟩
  · intro taskId task shared present refers
    rw [tasks] at present
    obtain ⟨old,stored,joined,pair⟩ := consistent.joined taskId task shared present refers
    rw [plans,lookup_insert_eq]
    split
    · next same =>
      obtain rfl := Option.some.inj (found.symm.trans (same ▸ stored))
      exact ⟨rows',rfl,joined.same plan,paired task joined pair⟩
    · exact ⟨old,stored,joined,pair⟩
  · intro other old stored unreferred
    rw [plans,lookup_insert_eq] at stored
    rw [tasks] at unreferred
    split at stored
    · next same =>
      cases stored
      exact alone (consistent.lone key rows found (same ▸ unreferred))
    · exact consistent.lone other old stored unreferred

theorem Consistent.direct (consistent : Consistent encoding Pair Lone s) (rowed : Rowed taskId task)
    (unplanned : task.planId = none) (old : ∀ old, s.tasks.lookup taskId = some old → old.planId = none)
    (tasks : s'.tasks = s.tasks.insert taskId task) (plans : s'.plans = s.plans) :
    Consistent encoding Pair Lone s' := by
  refine ⟨by rw [plans]; exact consistent.filed,Rowed.insert consistent.rowed (sets_insert tasks) rowed,?_,?_⟩
  · intro other task' shared present refers
    rw [tasks,lookup_insert_eq] at present
    rw [plans]
    split at present
    · cases present
      simp [planKeyOf,unplanned] at refers
    · exact consistent.joined other task' shared present refers
  · intro shared rows stored unreferred
    rw [plans] at stored
    refine consistent.lone shared rows stored fun other task' present refers => ?_
    by_cases same : other = taskId
    · subst same
      simp [planKeyOf,old task' present] at refers
    · exact unreferred other task' (by rw [tasks,lookup_insert_eq,if_neg same]; exact present) refers

-- A task and the plan it refers to change together; nothing else refers to it.
theorem Consistent.paired (consistent : Consistent encoding Pair Lone s)
    (found : s.plans.lookup key = some rows)
    (rowed : Rowed taskId task) (refers : planKeyOf task = some key) (joined : Joined task rows')
    (pair : Pair task rows') (filed : Filed encoding key rows')
    (only : ∀ other task', s.tasks.lookup other = some task' → planKeyOf task' = some key → other = taskId)
    (old : ∀ task', s.tasks.lookup taskId = some task' → planKeyOf task' = some key)
    (tasks : Sets s.tasks s'.tasks taskId task) (plans : s'.plans = s.plans.insert key rows') :
    Consistent encoding Pair Lone s' := by
  refine ⟨Filed.insert consistent.filed plans filed,Rowed.insert consistent.rowed tasks rowed,?_,?_⟩
  · intro other task' shared present refers'
    rw [tasks] at present
    rw [plans,lookup_insert_eq]
    split at present
    · cases present
      obtain rfl := Option.some.inj (refers.symm.trans refers')
      exact ⟨rows',by rw [if_pos rfl],joined,pair⟩
    · next different =>
      obtain ⟨rows'',stored,joined',pair'⟩ := consistent.joined other task' shared present refers'
      have apart : shared ≠ key := by
        rintro rfl
        exact different (only other task' present refers')
      rw [if_neg apart]
      exact ⟨rows'',stored,joined',pair'⟩
  · intro shared rows'' stored unreferred
    rw [plans,lookup_insert_eq] at stored
    split at stored
    · next same =>
      exact absurd (same ▸ refers) (unreferred taskId task (by rw [tasks,if_pos rfl]))
    · next different =>
      refine consistent.lone shared rows'' stored fun other task' present refers' => ?_
      by_cases same : other = taskId
      · subst same
        exact different (Option.some.inj (refers'.symm.trans (old task' present)))
      · exact unreferred other task' (by rw [tasks,if_neg same]; exact present) refers'

-- A plan names the one task that can refer to it.
theorem Consistent.named (consistent : Consistent encoding Pair Lone s)
    (found : s.plans.lookup key = some rows) (rowed : Rowed taskId task) (joined : Joined task rows) :
    ∀ other task', s.tasks.lookup other = some task' → planKeyOf task' = some key → other = taskId := by
  intro other task' present refers
  obtain ⟨rows',stored,joined',_⟩ := consistent.joined other task' key present refers
  obtain rfl := Option.some.inj (found.symm.trans stored)
  rw [← (consistent.rowed other task' present).taskId,← joined'.taskId,joined.taskId,rowed.taskId]

theorem Consistent.advance (preserved : Preserved encoding permitted Pair Lone)
    (consistent : Consistent encoding Pair Lone s) (advance : Advance encoding permitted s s') :
    Consistent encoding Pair Lone s' := by
  cases advance with
  | aside tasks plans =>
    obtain ⟨filed,rowed,joined,lone⟩ := consistent
    exact ⟨by simpa only [plans] using filed,by rwa [tasks],by simpa only [tasks,plans] using joined,
      by simpa only [tasks,plans] using lone⟩
  | saved absent filed saved tasks plans =>
    exact consistent.saved absent filed (preserved.saved _ _ filed saved) tasks plans
  | decided found decided tasks plans =>
    have filed := consistent.filed _ _ found
    have same := SameSpec.decided decided.edits.same
    refine consistent.replaced found ?_ same.1 (preserved.decidedLone _ _ _ _ filed decided)
      (fun task joined => preserved.decidedPair _ _ _ _ _ filed joined decided) tasks plans
    obtain ⟨plan,tenantId,digest,keys,compensations⟩ := same
    exact filed.same plan tenantId digest keys compensations
  | direct rowed unplanned old tasks plans => exact consistent.direct rowed unplanned old tasks plans
  | admitted absent found rowed refers joined admitted tasks plans =>
    have filed := consistent.filed _ _ found
    have same := admitted.edits.same
    have only := consistent.named found rowed joined
    refine consistent.paired found rowed refers (joined.same same.plan) ?_ (filed.edits same) only ?_
      (sets_insert tasks) plans
    · refine preserved.admitted _ _ _ _ _ _ filed joined admitted (consistent.lone _ _ found ?_)
      intro other task' present refers'
      rw [only other task' present refers',absent] at present
      cases present
    · intro task' present
      rw [absent] at present
      cases present
  | moved found refers stored rowed joined moved may tasks plans =>
    have filed := consistent.filed _ _ stored
    obtain ⟨rows',stored',joined',pair⟩ := consistent.joined _ _ _ found refers
    obtain rfl := Option.some.inj (stored.symm.trans stored')
    have same := moved.edits.same
    refine consistent.paired stored rowed ?_ (joined.same same.plan)
      (preserved.moved _ _ _ _ _ _ filed joined' moved may pair) (filed.edits same) ?_ ?_ tasks plans
    · rw [← refers,planKeyOf,planKeyOf,moved.planId,moved.planRevision]
    · exact fun other task' present refers' => consistent.sole present found refers' refers
    · intro task' present
      obtain rfl := Option.some.inj (found.symm.trans present)
      exact refers

end Advance

end Shaka.Store
