import Shaka.Store.Resolutions
import Shaka.Plan.RecoveryMoves

namespace Shaka.Store
open Shaka.Core Queue Plan CheckedSteps

variable {encoding : StoreEncoding} {s : QueueStore}

-- What an inspection reads of one stored plan when nobody writes meanwhile.
def reducerRowsOf (rows : PlanRows) : PlanReducerRows :=
  ⟨rows.transitions,rows.checkpoints,rows.state,rows.stepStates⟩

theorem loadReducerRows_same {key : PlanKey} {tenantId : TenantId} {rows : PlanRows} {read : PlanReducerRows}
    (stored : s.plans.lookup key = some rows) (ok : loadReducerRows (.same s) key tenantId = .ok read) :
    read = reducerRowsOf rows := by
  simp only [loadReducerRows,readPlanState,readStepStates,readTransitions,readCheckpoints,Snapshots.same,
    stored,bind_ok,orFail_ok,pure_ok,Option.filter_eq_some_iff,Option.map_some,Option.getD_some] at ok
  obtain ⟨state,⟨rows',⟨same,_⟩,rfl⟩,states,loaded,rfl⟩ := ok
  cases same
  rw [loadStepStatesTx_ok loaded]
  rfl

theorem Recorded.diagnosed {rows : PlanRows} (recorded : Recorded encoding rows)
    (draft : rows.plan.state = .draft) :
    diagnose encoding (snapshotOf rows) (reducerRowsOf rows) = none := by
  obtain ⟨⟨cursor,scanned,state⟩,numbered,_⟩ := recorded
  have replayed : replayTransitions encoding (snapshotOf rows) rows.transitions = .ok cursor := by
    rw [← scanned,savedReducer,draft]
    rfl
  unfold Numbered at numbered
  simp [diagnose,reducerRowsOf,replayed,state,PlanRows.reducer,numbered]

theorem Loaded.revision {planId : PlanId} {tenantId : TenantId} {key : PlanKey} {rows : PlanRows}
    (loaded : Loaded s planId tenantId key rows) : (planId,(snapshotOf rows).revision) = key := by
  rw [loaded.key,loaded.planId]
  rfl

theorem readForResume_same {tenantId : TenantId} {planId : PlanId} {plan : PlanSpec} {read : PlanReducerRows}
    (ok : readForResume encoding (.same s) tenantId planId = .ok (plan,read)) :
    ∃ key rows, Loaded s planId tenantId key rows ∧ plan = snapshotOf rows ∧ read = reducerRowsOf rows := by
  simp only [readForResume,bind_ok,pure_ok,Prod.mk.injEq] at ok
  obtain ⟨plan,found,read,reads,rfl,rfl⟩ := ok
  obtain ⟨key,rows,loaded,rfl⟩ := loadPlan_parts found
  rw [loaded.revision] at reads
  exact ⟨key,rows,loaded,rfl,loadReducerRows_same loaded.stored reads⟩

-- Resuming.

inductive Resumption (encoding : StoreEncoding) (s : QueueStore) (now : Time) (key : PlanKey)
    (rows : PlanRows) : QueueStore → Prop
  | quarantined : diagnose encoding (snapshotOf rows) (reducerRowsOf rows) = some fault →
      Resumption encoding s now key rows (s.storePlan key (forceUnknownTx ⟨rows,s.nextUuid⟩ now))
  | recovered : diagnose encoding (snapshotOf rows) (reducerRowsOf rows) = none →
      isActivePlan rows.state = true ∨ activeSteps rows.stepStates ≠ [] →
      recoverUnknownTx encoding ⟨rows,s.nextUuid⟩ (snapshotOf rows) rows.state
        (activeSteps rows.stepStates) now =
        .ok tx' → Resumption encoding s now key rows (s.storePlan key tx')

theorem resumePlan_parts (encoding : StoreEncoding) (s : QueueStore) (tenantId : TenantId) (planId : PlanId)
    (now : Time) :
    (resumePlan encoding s tenantId planId now).2 = s ∨ ∃ key rows, Loaded s planId tenantId key rows ∧
      Resumption encoding s now key rows (resumePlan encoding s tenantId planId now).2 := by
  unfold resumePlan resumeSnapshots
  cases read : readForResume encoding (.same s) tenantId planId with
  | error e => exact .inl rfl
  | ok answer =>
    obtain ⟨plan,reading⟩ := answer
    obtain ⟨key,rows,loaded,rfl,rfl⟩ := readForResume_same read
    have stored : s.plans.lookup (planId,(snapshotOf rows).revision) = some rows := by
      rw [loaded.revision]
      exact loaded.stored
    simp only [loaded.revision,stored]
    cases diagnosis : diagnose encoding (snapshotOf rows) (reducerRowsOf rows) with
    | some fault =>
      have verdict : resumeVerdict encoding (snapshotOf rows) (reducerRowsOf rows) = .quarantine fault := by
        simp only [resumeVerdict,diagnosis]
      simp only [verdict]
      exact .inr ⟨key,rows,loaded,.quarantined diagnosis⟩
    | none =>
      by_cases active : isActivePlan rows.state = true ∨ activeSteps rows.stepStates ≠ []
      · have verdict : resumeVerdict encoding (snapshotOf rows) (reducerRowsOf rows) =
            .recover (activeSteps rows.stepStates) := by
          simp only [resumeVerdict,diagnosis]
          exact if_pos active
        simp only [verdict]
        cases ran : recoverUnknownTx encoding ⟨rows,
          s.nextUuid⟩ (snapshotOf rows) (reducerRowsOf rows).planState
          (activeSteps rows.stepStates) now with
        | error e => exact .inl rfl
        | ok tx' => exact .inr ⟨key,rows,loaded,.recovered diagnosis active ran⟩
      · have verdict : resumeVerdict encoding (snapshotOf rows) (reducerRowsOf rows) = .stable := by
          simp only [resumeVerdict,diagnosis]
          exact if_neg active
        simp only [verdict]
        exact .inl trivial

-- A plan for which the recovery makes only transitions that the reducer permits.
structure Resumable (rows : PlanRows) : Prop where
  draft : rows.plan.state = .draft
  settled : rows.state.isTerminal = true → activeSteps rows.stepStates = []

def ResumeSafe (s : QueueStore) : Operation → Prop
  | .resumePlan tenantId planId _ => ∀ key rows, Loaded s planId tenantId key rows → Resumable rows
  | _ => True

theorem Idle.inactive {rows : PlanRows} (idle : Idle rows) : activeSteps rows.stepStates = [] := by
  refine List.filter_eq_nil_iff.mpr fun entry listed active => ?_
  rw [idle.pending entry.1 entry.2 (mem_stepStates.mp listed)] at active
  cases active

-- A coherent plan that is active, or has an active step, can become unknown.
theorem Coherent.active {task : TaskRecord} {rows : PlanRows} (coherent : Coherent (flowOf task rows))
    (resumable : Resumable rows) (active : isActivePlan rows.state = true ∨ activeSteps rows.stepStates ≠ [])
    (known : rows.state ≠ .unknown) :
    rows.state = .running ∨ rows.state = .compensating ∨ rows.state = .cancelRequested := by
  have settled := resumable.settled
  have pending : rows.state = .approved → activeSteps rows.stepStates = [] := fun approved => by
    refine List.filter_eq_nil_iff.mpr fun entry listed active => ?_
    rw [coherent.early approved entry.1 entry.2 (mem_stepStates.mp listed)] at active
    cases active
  have phase : rows.state ∈ phases task.status := coherent.phase
  cases status : task.status <;> simp only [status,phases,List.mem_cons,List.not_mem_nil,or_false] at phase
  all_goals grind [isActivePlan,PlanState.isTerminal]

theorem resumePlan_advance {tenantId : TenantId} {planId : PlanId} {now : Time} (sound : Sound encoding s)
    (replayable : Replayable encoding s) (safe : ResumeSafe s (.resumePlan tenantId planId now)) :
    Advance encoding (Concerned s (.resumePlan tenantId planId now)) s
      (resumePlan encoding s tenantId planId now).2 := by
  rcases resumePlan_parts encoding s tenantId planId now with same | ⟨key,rows,loaded,resumption⟩
  · rw [same]
    exact .aside rfl fun _ => rfl
  have resumable := safe key rows loaded
  have diagnosed := (replayable key rows loaded.stored).diagnosed resumable.draft
  generalize (resumePlan encoding s tenantId planId now).2 = s' at resumption ⊢
  cases resumption with
  | quarantined fault =>
    rw [diagnosed] at fault
    cases fault
  | @recovered tx' _ active ok =>
    by_cases known : rows.state = .unknown
    · -- nothing is written over a plan that is unknown already
      simp only [recoverUnknownTx,known,if_true] at ok
      cases ok
      refine .aside rfl fun other => ?_
      rw [QueueStore.storePlan,lookup_insert_eq]
      split
      · next same => rw [same,loaded.stored]
      · rfl
    by_cases referred : ∃ taskId task, s.tasks.lookup taskId = some task ∧ planKeyOf task = some key
    · obtain ⟨taskId,task,listed,refers⟩ := referred
      obtain rfl := (sound.rowed _ _ listed).taskId
      obtain ⟨coherent,_⟩ := pair_coherent sound listed refers loaded.stored
      have state := Coherent.active coherent resumable active known
      obtain ⟨mark,keyOf,ran⟩ := @recoverUnknownTx_ran encoding ⟨rows,s.nextUuid⟩ _ _ _ known
        (by rcases state with state | state | state <;> simp only [state] <;> rfl) ok
      refine moves_advance sound listed refers loaded.stored (.restarted state (stepStates_ids_nodup _ _)
        fun _ => mem_activeSteps) ran.edits ran.reached ⟨rfl,rfl,rfl,rfl,rfl,rfl,rfl,rfl⟩ (.inr rfl)
        ⟨listed,⟨_,refers,loaded.stored⟩,rfl,loaded.planId⟩ ?_ rfl
      intro other
      split
      · next same => rw [same]; exact listed
      · rfl
    · have idle := sound.lone key rows loaded.stored fun taskId task listed refers =>
        referred ⟨taskId,task,listed,refers⟩
      have early := idle.early resumable.draft
      rw [idle.inactive] at active
      rcases early with early | rejected
      · cases state : rows.state <;> simp_all [isActivePlan,stage]
      · simp [rejected,isActivePlan] at active

end Shaka.Store
