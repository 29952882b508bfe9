import Shaka.Queue.Marking
import Shaka.Store.Inspections

namespace Shaka.Properties
open Shaka.Core Queue Plan Store CheckedSteps

variable {encoding : StoreEncoding} {s s' : QueueStore} {initial : ReducerState}

-- Where the validated transition to `unknown` is open, or not needed.

def PlanRecordable (rows : PlanRows) : Prop := rows.state = .unknown ∨ rows.state.permits .unknown = true

def StepRecordable (rows : PlanRows) (stepId : Option PlanStepId) : Prop :=
  ∀ x ∈ stepId, ∀ current, rows.stepState x = some current → current = .unknown ∨
    current.permits .unknown = true

-- The fold of the transition log is what the rows of the plan say.
def Folded (initial : ReducerState) (rows : PlanRows) : Prop :=
  foldEach applyTransitionState initial rows.transitions = .ok rows.reducer

theorem journaled_folded {rows : PlanRows} (journaled : JournaledFrom encoding initial rows) :
    Folded initial rows := by
  obtain ⟨cursor,scanned,state⟩ := journaled
  have states := foldEach_mapError_ok.mp (LinkedJournal.fold_states scanned)
  rw [state] at states
  exact states

theorem diagnose_none {rows : PlanRows} : diagnose encoding (snapshotOf rows) (reducerRowsOf rows) = none ↔
    JournaledFrom encoding (initialReducer rows.plan) rows ∧ Numbered rows := by
  unfold diagnose JournaledFrom Numbered
  have replay : replayTransitions encoding (snapshotOf rows) (reducerRowsOf rows).transitions =
      LinkedJournal.scan (transitionJournal encoding) .chain (initialReducer rows.plan) rows.transitions :=
      rfl
  have stored : (⟨(reducerRowsOf rows).planState,(reducerRowsOf rows).stepStates⟩ : ReducerState) =
      rows.reducer := rfl
  have checkpoints : (reducerRowsOf rows).checkpoints = rows.checkpoints := rfl
  rw [replay,stored,checkpoints]
  cases LinkedJournal.scan (transitionJournal encoding) .chain (initialReducer rows.plan)
    rows.transitions with
  | error fault => simp
  | ok cursor => by_cases state : cursor.state = rows.reducer <;> simp [state]

-- A transition of a step leaves the plan state that is folded from the log.
theorem appendStep_folds {tx tx' : PlanTx} {plan : PlanSpec} {x : PlanStepId} {origin target : PlanStepState}
    {key : String} {now : Time} {after : ReducerState}
    (ok : appendStepTransitionTx encoding tx plan x origin target key now = .ok tx')
    (folded : foldEach applyTransitionState initial tx'.rows.transitions = .ok after) :
    ∃ before, foldEach applyTransitionState initial tx.rows.transitions = .ok before ∧
      after.plan = before.plan ∧ tx'.rows.state = tx.rows.state := by
  obtain ⟨transition,entity,_,_,_,_,_,appending⟩ := appendTransitionTx_ok ok
  obtain ⟨rows,applied,rfl⟩ := appending.written
  rw [(applyTransitionTx_same applied).2.1,foldEach_append,bind_ok] at folded
  obtain ⟨before,prefix_,rest⟩ := folded
  rw [foldEach_cons,bind_ok] at rest
  obtain ⟨next,took,last⟩ := rest
  cases last
  obtain ⟨_,planned,_⟩ | ⟨stepId,current,target,_,named,_,fromState,toState,_,rfl⟩ :=
    applyTransitionTx_ok applied
  · exact absurd (planned.symm.trans entity) (by decide)
  · simp only [applyTransitionState,entity,fromState,toState,named,orFail_ok,bind_ok,require_ok,pure_ok,
      exists_const] at took
    obtain ⟨_,_,_,_,_,_,_,rfl⟩ := took
    exact ⟨before,prefix_,rfl,updateStep_state _⟩

section Mark
variable {tx tx' : PlanTx} {plan : PlanSpec} {stepId : Option PlanStepId} {digest : Option String}
  {now : Time}

theorem markNamedStep_folds {after : ReducerState}
    (ok : markNamedStepUnknownTx encoding tx plan stepId now = .ok tx')
    (folded : foldEach applyTransitionState initial tx'.rows.transitions = .ok after) :
    ∃ before, foldEach applyTransitionState initial tx.rows.transitions = .ok before ∧
      after.plan = before.plan ∧ tx'.rows.state = tx.rows.state := by
  unfold markNamedStepUnknownTx markStepStateUnknownTx at ok
  split at ok
  · split at ok
    · cases ok; exact ⟨after,folded,rfl,rfl⟩
    split at ok
    · cases ok; exact ⟨after,folded,rfl,rfl⟩
    split at ok
    · exact appendStep_folds ok folded
    · next x _ _ _ _ _ =>
      cases ok
      have transitions : (tx.rows.setStep x .unknown).transitions = tx.rows.transitions :=
        updateStep_transitions _
      exact ⟨after,transitions ▸ folded,rfl,updateStep_state _⟩
  · cases ok; exact ⟨after,folded,rfl,rfl⟩

theorem markPlanState_numbered (ok : markPlanStateUnknownTx encoding tx plan now = .ok tx')
    (numbered : Numbered tx.rows) : Numbered tx'.rows := by
  unfold markPlanStateUnknownTx at ok
  split at ok
  · cases ok; exact numbered
  split at ok
  · exact (Edit.append ok).numbered numbered
  · cases ok; exact (@Edit.overwritePlan encoding _).numbered numbered

theorem markNamedStep_numbered (ok : markNamedStepUnknownTx encoding tx plan stepId now = .ok tx')
    (numbered : Numbered tx.rows) : Numbered tx'.rows := by
  unfold markNamedStepUnknownTx markStepStateUnknownTx at ok
  split at ok
  · split at ok
    · cases ok; exact numbered
    split at ok
    · cases ok; exact numbered
    split at ok
    · exact (Edit.append ok).numbered numbered
    · cases ok; exact (@Edit.overwriteStep encoding _ _).numbered numbered
  · cases ok; exact numbered

-- The validated transitions keep the journal, and the overwrites are not in it.

theorem markPlanState_journaled (ok : markPlanStateUnknownTx encoding tx plan now = .ok tx')
    (recordable : PlanRecordable tx.rows) (journaled : JournaledFrom encoding initial tx.rows) :
    JournaledFrom encoding initial tx'.rows ∧ tx'.rows.stepStates = tx.rows.stepStates := by
  unfold markPlanStateUnknownTx at ok
  split at ok
  · cases ok; exact ⟨journaled,rfl⟩
  next known =>
  rw [if_pos (recordable.resolve_left known)] at ok
  obtain ⟨transition,entity,_,_,_,_,_,appending⟩ := appendTransitionTx_ok ok
  refine ⟨append_journaledFrom appending journaled,?_⟩
  obtain ⟨rows,applied,rfl⟩ := appending.written
  obtain ⟨_,_,_,_,_,rfl⟩ | ⟨_,_,_,stepped,_⟩ := applyTransitionTx_ok applied
  · rfl
  · exact absurd (stepped.symm.trans entity) (by decide)

theorem markNamedStep_journaled (ok : markNamedStepUnknownTx encoding tx plan stepId now = .ok tx')
    (recordable : StepRecordable tx.rows stepId) (journaled : JournaledFrom encoding initial tx.rows) :
    JournaledFrom encoding initial tx'.rows := by
  unfold markNamedStepUnknownTx markStepStateUnknownTx at ok
  split at ok
  · next x =>
    split at ok
    · cases ok; exact journaled
    next current found =>
    split at ok
    · cases ok; exact journaled
    next known =>
    rw [if_pos ((recordable x rfl current found).resolve_left known)] at ok
    obtain ⟨transition,_,_,_,_,_,_,appending⟩ := appendTransitionTx_ok ok
    exact append_journaledFrom appending journaled
  · cases ok; exact journaled

theorem markPlanState_recordable {folded : ReducerState}
    (ok : markPlanStateUnknownTx encoding tx plan now = .ok tx') (before : Folded initial tx.rows)
    (after : foldEach applyTransitionState initial tx'.rows.transitions = .ok folded)
    (same : folded.plan = tx'.rows.state) : PlanRecordable tx.rows := by
  by_contra unrecordable
  obtain ⟨known,closed⟩ := not_or.mp unrecordable
  unfold markPlanStateUnknownTx at ok
  rw [if_neg known,if_neg closed] at ok
  cases ok
  -- the log still says what the plan state was before it was overwritten
  rw [show foldEach applyTransitionState initial tx.rows.transitions = .ok tx.rows.reducer from before]
    at after
  cases after
  exact known same

theorem markNamedStep_recordable (ok : markNamedStepUnknownTx encoding tx plan stepId now = .ok tx')
    (before : Folded initial tx.rows) (after : Folded initial tx'.rows) : StepRecordable tx.rows stepId := by
  intro x named current found
  obtain rfl := Option.mem_def.mp named
  by_contra unrecordable
  obtain ⟨known,closed⟩ := not_or.mp unrecordable
  unfold markNamedStepUnknownTx markStepStateUnknownTx at ok
  simp only [found,if_neg known,if_neg closed,Except.ok.injEq] at ok
  subst ok
  have transitions : (tx.rows.setStep x .unknown).transitions = tx.rows.transitions :=
    updateStep_transitions _
  have logged : foldEach applyTransitionState initial (tx.rows.setStep x .unknown).transitions = _ := after
  rw [transitions] at logged
  have states : tx.rows.stepStates = (tx.rows.setStep x .unknown).stepStates :=
    congrArg ReducerState.steps (Except.ok.inj (before.symm.trans logged))
  have entry := congrArg (List.lookup x) states
  rw [lookup_stepStates,lookup_stepStates,stepState_setStep,if_pos rfl,found] at entry
  exact known (Option.some.inj entry)

end Mark

theorem markPlanUnknownTx_folds {tx tx' : PlanTx} {plan : PlanSpec} {stepId : Option PlanStepId}
    {digest : Option String} {now : Time}
    (ok : markPlanUnknownTx encoding tx plan stepId digest now = .ok tx')
    (journaled : JournaledFrom encoding initial tx.rows) (numbered : Numbered tx.rows) :
    (PlanRecordable tx.rows ∧ StepRecordable tx.rows stepId → JournaledFrom encoding initial tx'.rows ∧
      Numbered tx'.rows) ∧
    (Folded initial tx'.rows → PlanRecordable tx.rows ∧ StepRecordable tx.rows stepId) := by
  simp only [markPlanUnknownTx,bind_ok] at ok
  obtain ⟨marked,planned,named,stepped,noted⟩ := ok
  obtain rfl := insertCheckpointTx_ok noted
  constructor
  · rintro ⟨planRecordable,stepRecordable⟩
    obtain ⟨first,states⟩ := markPlanState_journaled planned planRecordable journaled
    have steps : StepRecordable marked.rows stepId := fun x listed current found =>
      stepRecordable x listed current (by rw [← lookup_stepStates,← states,lookup_stepStates]; exact found)
    obtain ⟨cursor,scanned,state⟩ := markNamedStep_journaled stepped steps first
    exact ⟨⟨cursor,scanned,state⟩,
      checkpoint_numbered (markNamedStep_numbered stepped (markPlanState_numbered planned numbered)) _ rfl⟩
  · intro folded
    have after : Folded initial named.rows := folded
    -- the plan state that is logged is the one from before the step was marked
    obtain ⟨before,logged,same,state⟩ := markNamedStep_folds stepped after
    have planRecordable : PlanRecordable tx.rows :=
      markPlanState_recordable planned (journaled_folded journaled) logged (same.symm.trans state)
    obtain ⟨first,states⟩ := markPlanState_journaled planned planRecordable journaled
    have stepRecordable := markNamedStep_recordable stepped (journaled_folded first) after
    exact ⟨planRecordable,fun x listed current found => stepRecordable x listed current
      (by rw [← lookup_stepStates,states,lookup_stepStates]; exact found)⟩

-- The latest revision of a plan is the one that no other of the tenant's exceeds.
theorem latestPlan_iff {planId : PlanId} {tenantId : TenantId} {key : PlanKey} {rows : PlanRows} :
    latestPlan s planId tenantId = some (key,rows) ↔ s.plans.lookup key = some rows ∧ key.1 = planId ∧
      rows.tenantId = tenantId ∧ ∀ other rows', s.plans.lookup other = some rows' → other.1 = planId →
        rows'.tenantId = tenantId → other.2 ≤ key.2 := by
  have bound : ∀ key rows, latestPlan s planId tenantId = some (key,rows) →
      ∀ other rows', s.plans.lookup other = some rows' → other.1 = planId → rows'.tenantId = tenantId →
        other.2 ≤ key.2 := by
    intro key rows latest other rows' stored same tenant
    have listed : (⟨other,rows'⟩ : Sigma fun _ : PlanKey => PlanRows) ∈ (s.plans.entries.filter fun entry =>
        entry.1.1 == planId && entry.2.tenantId == tenantId).insertionSort fun left right =>
            right.1.2 ≤ left.1.2 :=
      (List.mem_insertionSort _).mpr
        (List.mem_filter.mpr ⟨AList.mem_lookup_iff.mp stored,by simp [same,tenant]⟩)
    have ordered := List.pairwise_insertionSort (fun left right : Sigma fun _ : PlanKey => PlanRows =>
      right.1.2 ≤ left.1.2) (s.plans.entries.filter fun entry =>
        entry.1.1 == planId && entry.2.tenantId == tenantId)
    unfold latestPlan at latest
    generalize List.insertionSort (fun left right : Sigma fun _ : PlanKey => PlanRows => right.1.2 ≤ left.1.2)
      (s.plans.entries.filter fun entry => entry.1.1 == planId && entry.2.tenantId == tenantId) = sorted
      at latest listed ordered
    cases sorted with
    | nil => cases listed
    | cons first rest =>
      obtain ⟨rfl,rfl⟩ := Prod.ext_iff.mp (Option.some.inj latest)
      rcases List.mem_cons.mp listed with rfl | later
      · exact Nat.le_refl _
      · exact List.rel_of_pairwise_cons ordered later
  constructor
  · intro latest
    obtain ⟨stored,same,tenant⟩ := latestPlan_found latest
    exact ⟨stored,same,tenant,bound key rows latest⟩
  · rintro ⟨stored,rfl,rfl,greatest⟩
    obtain ⟨⟨key',rows'⟩,latest⟩ := latestPlan_some stored
    obtain ⟨stored',same,tenant⟩ := latestPlan_found latest
    have revision := Nat.le_antisymm (greatest key' rows' stored' same tenant)
        (bound key' rows' latest key rows stored rfl rfl)
    obtain rfl : key' = key := Prod.ext same revision
    rw [stored] at stored'
    rw [latest,Option.some.inj stored']

theorem markPlanUnknown_parts {tenantId : TenantId} {planId : PlanId} {stepId : Option PlanStepId}
    {stateDigest : Option String} {now : Time} {u : Unit}
    (ok : markPlanUnknown encoding s tenantId planId stepId stateDigest now = .ok (u,s')) :
    ∃ key rows tx, Loaded s planId tenantId key rows ∧
      markPlanUnknownTx encoding ⟨rows,s.nextUuid⟩ (snapshotOf rows) stepId stateDigest now = .ok tx ∧
      s' = s.storePlan key tx := by
  simp only [markPlanUnknown,bind_ok,orFail_ok,pure_ok,Prod.mk.injEq,true_and] at ok
  obtain ⟨_,_,plan,found,rows',stored,tx,marked,rfl⟩ := ok
  obtain ⟨key,rows,loaded,rfl⟩ := loadPlan_parts found
  rw [loaded.revision] at stored ⊢
  have same : rows' = rows :=
    Option.some.inj ((Option.filter_eq_some_iff.mp stored).1.symm.trans loaded.stored)
  exact ⟨key,rows,tx,loaded,same ▸ marked,rfl⟩

theorem mark_unknown_replays (encoding : StoreEncoding) (s : QueueStore) (tenantId : TenantId)
    (planId : PlanId) (stepId : Option PlanStepId) (stateDigest : Option String) (now : Time) :
    (∀ e, (commit (fun s => markPlanUnknown encoding s tenantId planId stepId stateDigest now) s).1 =
      .error e →
      (commit (fun s => markPlanUnknown encoding s tenantId planId stepId stateDigest now) s).2 = s) ∧
    ∀ s' key rows, Loaded s planId tenantId key rows →
      diagnose encoding (snapshotOf rows) (reducerRowsOf rows) = none →
      markPlanUnknown encoding s tenantId planId stepId stateDigest now = .ok ((),s') →
      ∃ rows', s'.plans.lookup key = some rows' ∧
        (Folded (initialReducer rows'.plan) rows' ↔ PlanRecordable rows ∧ StepRecordable rows stepId) ∧
        ∀ report, inspectPlan encoding s' tenantId planId = .ok report →
          (report.status = .stable ↔ PlanRecordable rows ∧ StepRecordable rows stepId) := by
  refine ⟨fun e => commit_error,fun s' key rows loaded consistent ok => ?_⟩
  obtain ⟨key',rows',tx,loaded',marked,rfl⟩ := markPlanUnknown_parts ok
  obtain ⟨rfl,rfl⟩ := Prod.ext_iff.mp (Option.some.inj (loaded.latest.symm.trans loaded'.latest))
  have same : SameSpec rows tx.rows :=
    (@markPlanUnknownTx_reworks _ (fun _ _ => False) _ _ _ _ _ _ marked).same
  have plan : tx.rows.plan = rows.plan := same.plan
  have tenant : tx.rows.tenantId = rows.tenantId := same.tenantId
  obtain ⟨journaled,numbered⟩ := diagnose_none.mp consistent
  obtain ⟨kept,revealed⟩ := markPlanUnknownTx_folds marked journaled numbered
  have stored : (s.storePlan key tx).plans.lookup key = some tx.rows := AList.lookup_insert _
  have folds : Folded (initialReducer tx.rows.plan) tx.rows ↔ PlanRecordable rows ∧
      StepRecordable rows stepId := by
    rw [plan]
    exact ⟨revealed,fun recordable => journaled_folded (kept recordable).1⟩
  refine ⟨tx.rows,stored,folds,fun report inspected => ?_⟩
  obtain ⟨key',rows',loaded',status⟩ := inspectPlan_parts inspected
  -- the inspection reads the revision that was marked
  obtain ⟨_,same,owned,greatest⟩ := latestPlan_iff.mp loaded.latest
  have latest : latestPlan (s.storePlan key tx) planId tenantId = some (key,tx.rows) := by
    refine latestPlan_iff.mpr ⟨stored,same,tenant.trans owned,fun other rows'' found first named => ?_⟩
    by_cases own : other = key
    · exact (congrArg Prod.snd own).le
    · exact greatest other rows'' ((AList.lookup_insert_ne own).symm.trans found) first named
  obtain ⟨rfl,rfl⟩ := Prod.ext_iff.mp (Option.some.inj (latest.symm.trans loaded'.latest))
  rw [status]
  constructor
  · intro stable
    have diagnosed : diagnose encoding (snapshotOf tx.rows) (reducerRowsOf tx.rows) = none := by
      by_contra fault
      rw [if_neg (by simpa using fault)] at stable
      cases stable
    exact folds.mp (journaled_folded (diagnose_none.mp diagnosed).1)
  · intro recordable
    rw [if_pos]
    rw [diagnose_none.mpr ⟨by rw [plan]; exact (kept recordable).1,(kept recordable).2⟩]
    rfl

theorem planRows_listed {key : PlanKey} {rows : PlanRows} (stored : s.plans.lookup key = some rows) :
    rows ∈ s.planRows :=
  List.mem_map.mpr ⟨⟨key,rows⟩,AList.mem_lookup_iff.mp stored,rfl⟩

-- A plan that was only saved is marked: its state is overwritten, its log is empty.
def draftRun : List Operation := (trialOpen 7 [trialStep "a" [] none]).take 3

theorem mark_unknown_replays_draft : ¬ ∀ (encoding : StoreEncoding) (s s' : QueueStore) (tenantId : TenantId)
    (planId : PlanId) (stepId : Option PlanStepId) (stateDigest : Option String) (now : Time) (key : PlanKey)
    (rows : PlanRows), Loaded s planId tenantId key rows →
    diagnose encoding (snapshotOf rows) (reducerRowsOf rows) = none →
    markPlanUnknown encoding s tenantId planId stepId stateDigest now = .ok ((),s') →
    ∃ rows', s'.plans.lookup key = some rows' ∧ Folded (initialReducer rows'.plan) rows' := by
  intro keeps
  have marked : ((markPlanUnknown trialEncoding (trial draftRun) trialAdmin.tenantId ⟨7⟩ none none
      (second 1)).toOption.map fun answer => answer.2.planRows.all fun rows =>
        foldEach applyTransitionState (initialReducer rows.plan) rows.transitions ≠ .ok rows.reducer) =
            some true := by
    decide +kernel
  have consistent : (trial draftRun).planRows.all (fun rows =>
      diagnose trialEncoding (snapshotOf rows) (reducerRowsOf rows) = none) = true := by decide +kernel
  cases ran : markPlanUnknown trialEncoding (trial draftRun) trialAdmin.tenantId ⟨7⟩ none none (second 1) with
  | error e => rw [ran] at marked; cases marked
  | ok answer =>
    obtain ⟨⟨⟩,s'⟩ := answer
    obtain ⟨key,rows,tx,loaded,_,_⟩ := markPlanUnknown_parts ran
    obtain ⟨rows',stored,folded⟩ := keeps _ _ s' _ _ _ _ _ key rows loaded
      (by simpa using List.all_eq_true.mp consistent rows (planRows_listed loaded.stored)) ran
    rw [ran] at marked
    have unfolded := List.all_eq_true.mp (Option.some.inj marked) rows' (planRows_listed stored)
    simp only [decide_eq_true_eq] at unfolded
    exact unfolded folded

-- A plan whose step has been claimed is marked with that step.
def underwayRun : List Operation := trialOpen 7 [trialStep "a" [] none] ++ [trialClaim 2]

theorem mark_unknown_replays_claimed : ∃ s' key rows', markPlanUnknown trialEncoding (trial underwayRun)
    trialAdmin.tenantId ⟨7⟩ (some ⟨"a"⟩) none (second 3) = .ok ((),s') ∧ s'.plans.lookup key = some rows' ∧
    Folded (initialReducer rows'.plan) rows' := by
  have marked : ((markPlanUnknown trialEncoding (trial underwayRun) trialAdmin.tenantId ⟨7⟩ (some ⟨"a"⟩) none
      (second 3)).toOption.map fun _ => ()) = some () := by decide +kernel
  have claimed : (trial underwayRun).planRows.all (fun rows => rows.state = .running ∧
      rows.stepState ⟨"a"⟩ = some .running ∧
      diagnose trialEncoding (snapshotOf rows) (reducerRowsOf rows) = none) =
      true := by decide +kernel
  cases ran : markPlanUnknown trialEncoding (trial underwayRun) trialAdmin.tenantId ⟨7⟩ (some ⟨"a"⟩) none
    (second 3) with
  | error e => rw [ran] at marked; cases marked
  | ok answer =>
    obtain ⟨⟨⟩,s'⟩ := answer
    obtain ⟨key,rows,tx,loaded,_,_⟩ := markPlanUnknown_parts ran
    have shape := List.all_eq_true.mp claimed rows (planRows_listed loaded.stored)
    simp only [decide_eq_true_eq] at shape
    obtain ⟨state,step,consistent⟩ := shape
    obtain ⟨rows',stored,folds,_⟩ :=
      (mark_unknown_replays trialEncoding _ trialAdmin.tenantId ⟨7⟩ (some ⟨"a"⟩) none
      (second 3)).2 s' key rows loaded consistent ran
    refine ⟨s',key,rows',rfl,stored,folds.mpr ⟨.inr (by rw [state]; rfl),?_⟩⟩
    rintro x ⟨⟩ current found
    rw [step] at found
    obtain rfl := Option.some.inj found
    exact .inr rfl

end Shaka.Properties
