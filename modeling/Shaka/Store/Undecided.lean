import Shaka.Store.Refusals
import Shaka.Store.Unstarted

namespace Shaka.Store
open Shaka.Core Queue Plan CheckedSteps GuardedRuns

variable {encoding : StoreEncoding} {s s' : QueueStore} {key : PlanKey} {rows rows' : PlanRows}

-- A plan that awaits its decision has no task and no journal yet, and nothing that lets it through.
structure Awaiting (s : QueueStore) (key : PlanKey) (rows : PlanRows) : Prop where
  unreferred : Unreferred s key
  unrecorded : rows.transitions = []
  unreleased : ∀ row ∈ rows.approvals, ¬ Releases row

def AwaitsDecisions (s : QueueStore) : Prop :=
  ∀ key rows, s.plans.lookup key = some rows → isUndecided rows.state = true → Awaiting s key rows

-- The admission that enters a task decides on its plan.
theorem Submitted.approves {request : SubmitRequest} {clock : SubmitClock} {limits : TenantLimits}
    {admitted : QueueStore} {envelope : TaskEnvelope} {reference : PlanTaskReference}
    (submitted : Submitted encoding s s' request clock limits admitted envelope)
    (named : request.planReference = some reference) :
    ∃ rows, s'.plans.lookup (reference.planId,reference.revision) = some rows ∧ rows.state = .approved := by
  obtain ⟨_,admission⟩ := submitted.admission
  simp only [admitReference,named,bind_ok,pure_ok,Prod.mk.injEq] at admission
  obtain ⟨tx,begun,⟨_,tx'⟩,recorded,_,stored⟩ := admission
  obtain ⟨rows,_,rfl⟩ := beginPlan_ok begun
  obtain ⟨_,ran,rfl,verified⟩ := recordPlanAdmissionTx_writes.done _ recorded
  refine ⟨tx'.rows,?_,?_⟩
  · rw [submitted.inserted,← stored]
    exact AList.lookup_insert _
  · rw [← view_plan,ran.reached]
    exact admissionWrites_plan verified.admissible

theorem exec_entered {request : SubmitRequest} {clock : SubmitClock} {envelope : TaskEnvelope}
    (absent : s.tasks.lookup taskId = none)
    (entered : (exec encoding s (.submit request clock)).tasks.lookup taskId =
      some (newTask request envelope clock.now))
    (refers : planKeyOf (newTask request envelope clock.now) = some key) :
    ∃ rows, (exec encoding s (.submit request clock)).plans.lookup key = some rows ∧
    rows.state = .approved := by
  rcases exec_cases encoding s (.submit request clock) with same | ok
  · rw [same,absent] at entered
    cases entered
  obtain ⟨answer,ok⟩ := storeOf_ok.mp ok
  rcases submit_parts ok with ⟨_,same⟩ | ⟨limits,admitted,inserted,_,submitted⟩
  · rw [same,absent] at entered
    cases entered
  cases named : request.planReference with
  | none => simp [planKeyOf,newTask,named] at refers
  | some reference =>
    simp only [planKeyOf,newTask,named,Option.map_some,Option.some.injEq] at refers
    rw [← refers]
    exact submitted.approves named

-- A plan that a task refers to was decided on.
theorem exec_undecided (linked : Linked encoding s) (awaits : AwaitsDecisions s) (op : Operation)
    (stored : (exec encoding s op).plans.lookup key = some rows')
    (undecided : isUndecided rows'.state = true) : Unreferred (exec encoding s op) key := by
  intro taskId task found refers
  have referred : ∀ row, s.tasks.lookup taskId = some row → planKeyOf row ≠ some key := by
    intro row was refers
    obtain ⟨rows,before,_⟩ := linked.joined taskId row key was refers
    have decided : isUndecided rows.state = false := by
      rw [← Bool.not_eq_true]
      exact fun open_ => (awaits key rows before open_).unreferred taskId row was refers
    have after := ((exec_transacts encoding s op).settled key rows rows' before stored).state decided
    exact absurd (after.symm.trans undecided) (by decide)
  have change := exec_rows linked op taskId
  rw [found] at change
  generalize was : s.tasks.lookup taskId = old at change
  cases change with
  | kept => exact referred task was refers
  | stepped step =>
    refine referred _ was ?_
    rw [← refers,planKeyOf,planKeyOf,step.identity.planId,step.identity.planRevision]
  | entered =>
    obtain ⟨rows,now,approved⟩ := exec_entered was found refers
    rw [← Option.some.inj (stored.symm.trans now)] at approved
    rw [approved] at undecided
    cases undecided

theorem Saved.awaiting (saved : Saved rows) (unreferred : Unreferred s key) : Awaiting s key rows :=
  ⟨unreferred,saved.transitions,by simp [saved.approvals]⟩

theorem exec_awaits (linked : Linked encoding s) (awaits : AwaitsDecisions s) (op : Operation) :
    AwaitsDecisions (exec encoding s op) := by
  intro key rows' stored undecided
  have unreferred := exec_undecided linked awaits op stored undecided
  have change := exec_lone linked op unreferred stored
  generalize was : s.plans.lookup key = old at change
  cases change with
  | kept =>
    obtain ⟨_,unrecorded,unreleased⟩ := awaits key rows' was undecided
    exact ⟨unreferred,unrecorded,unreleased⟩
  | saved structured inserted => exact (freshRows_saved inserted).awaiting unreferred
  | decided decided =>
    obtain ⟨same,before⟩ := decided_undecided decided undecided
    obtain ⟨_,unrecorded,unreleased⟩ := awaits key _ was before
    refine ⟨unreferred,?_,fun row listed releases => ?_⟩
    · have events := congrArg View.events same
      simpa [view,unrecorded] using events
    · rw [decided_approvals decided,List.mem_append,List.mem_singleton] at listed
      rcases listed with before | rfl
      · exact unreleased row before releases
      · rw [decided_approves decided releases.1 releases.2] at undecided
        cases undecided
  | quarantined unknown =>
    rw [unknown] at undecided
    cases undecided

theorem run_awaits {allowed : QueueStore → Operation → Prop} (run : Run encoding allowed s) :
    AwaitsDecisions s := by
  refine run.invariant_under (fun _ reached => run_linked reached) (fun key rows found => by cases found)
    fun s op linked awaits _ => exec_awaits linked awaits op

-- An approval of such a plan cannot be refused, one append after the other.

section Approval
variable {tx : PlanTx} {plan : PlanSpec} {now : Time}

theorem appendWhen_done {origin target state : PlanState} {tag : String} (labelled : Labelled tag)
    (revision : plan.revision ≠ 0) (permitted : origin.permits target = true)
    (current : tx.rows.state = state)
    (fresh : Fresh (view tx.rows) (if state = origin then [.plan tag target now] else [])) :
    ∃ tx', appendWhen encoding plan origin target tag now tx state = .ok (tx',if state = origin then target
      else state) ∧ tx'.rows.state = (if state = origin then target else state) ∧
      view tx'.rows = (view tx.rows).writes (if state = origin then [.plan tag target now] else []) := by
  unfold appendWhen
  split
  · next same =>
    rw [if_pos same] at fresh
    obtain ⟨tx',ran⟩ := @appendPlan_done encoding tx plan _ now origin target labelled revision fresh.plan
      (current.trans same) permitted
    have reached := (appendPlan_writes.ran ran).reached
    refine ⟨tx',by rw [ran]; rfl,?_,reached⟩
    rw [← view_plan,reached]
    rfl
  · exact ⟨tx,rfl,current,rfl⟩

theorem approvalKey_labelled {id : String} (short : id.utf8ByteSize ≤ 36) (state : PlanState) :
    Labelled (approvalKey id state) := by
  have stem : ∀ stem ∈ ["approval:proposed:","approval:validated:","approval:approved:","approval:rejected:"],
      blank stem = false ∧ stem.utf8ByteSize ≤ 32 := by decide +kernel
  have labelled :
      ∀ stem ∈ ["approval:proposed:","approval:validated:","approval:approved:","approval:rejected:"],
      Labelled (stem ++ id) := fun text listed =>
      labelled_append (stem text listed).1 (by have := (stem text listed).2; omega)
  unfold approvalKey
  split
  · exact labelled "approval:proposed:" (by simp)
  · exact labelled "approval:validated:" (by simp)
  · exact labelled "approval:approved:" (by simp)
  · exact labelled "approval:rejected:" (by simp)

theorem decideApprovalTx_done {approval : PlanApproval} (undecided : isUndecided tx.rows.state = true)
    (unrecorded : (view tx.rows).keys = []) (approved : approval.decision = .approved)
    (whole : approval.stepId = none) (revision : tx.rows.plan.revision ≠ 0)
    (short : (encoding.uuidText approval.approvalId).utf8ByteSize ≤ 36) :
    ∃ tx', decideApprovalTx encoding tx (snapshotOf tx.rows) approval now = .ok (.approved,tx') := by
  have labelled := approvalKey_labelled short
  have fresh := @admissionWrites_fresh (approvalKey (encoding.uuidText approval.approvalId)) now _
      unrecorded (approvalKey_apart _)
  rw [admissionWrites_appends,Fresh.append,Fresh.append] at fresh
  obtain ⟨freshProposed,freshValidated,freshApproved⟩ := fresh
  obtain ⟨proposed,ran,state,reached⟩ :=
    @appendWhen_done encoding tx (snapshotOf tx.rows) now .draft .proposed _ _
    (labelled .proposed) revision rfl rfl freshProposed
  rw [view_plan,← reached] at freshValidated freshApproved
  obtain ⟨validated,ran',state',reached'⟩ :=
    @appendWhen_done encoding proposed (snapshotOf tx.rows) now .proposed
    .validated _ _ (labelled .validated) revision rfl state freshValidated
  rw [← reached'] at freshApproved
  have awaiting : validated.rows.state = .validated ∨ validated.rows.state = .awaitingApproval := by
    rw [state']
    cases current : tx.rows.state <;> simp_all [isUndecided]
  rw [← state',if_pos awaiting] at freshApproved
  obtain ⟨decided,ran''⟩ := @appendPlan_done encoding validated (snapshotOf tx.rows) _ now _ .approved
    (labelled .approved) revision freshApproved.plan rfl
      (by rcases awaiting with same | same <;> rw [same] <;> rfl)
  refine ⟨decided,?_⟩
  unfold decideApprovalTx
  simp only [approved,whole,Option.isSome_none,Bool.false_eq_true,if_false]
  refine bind_ok.mpr ⟨_,ran,bind_ok.mpr ⟨_,ran',?_⟩⟩
  rw [← state',require_pos _ awaiting,ok_bind]
  exact bind_ok.mpr ⟨_,ran'',rfl⟩

theorem decideApprovalTx_decided {approval : PlanApproval} (decided : isUndecided tx.rows.state = false)
    (approved : approval.decision = .approved) (whole : approval.stepId = none) :
    decideApprovalTx encoding tx (snapshotOf tx.rows) approval now =
      .error (.invalidInput "plano não está aguardando aprovação") := by
  unfold decideApprovalTx
  simp only [approved,whole,Option.isSome_none,Bool.false_eq_true,if_false]
  cases state : tx.rows.state <;> simp_all [isUndecided,appendWhen,require]

end Approval

end Shaka.Store
