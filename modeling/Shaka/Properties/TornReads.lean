import Shaka.Properties.JournalMoves

namespace Shaka.Properties
open Shaka.Core Queue Plan Store CheckedSteps GuardedRuns

variable {encoding : StoreEncoding} {s s' : QueueStore} {view : Snapshots} {tenantId : TenantId}
  {planId : PlanId} {key : PlanKey} {rows state transitions checkpoints steps : PlanRows}

-- The reads of one inspection in their order, while other processes commit any
-- operations between them.
structure ReadInOrder (encoding : StoreEncoding) (view : Snapshots) : Prop where
  plan : Run encoding DraftResumes view.plan
  state : Reaches (exec encoding) DraftResumes view.plan view.state
  transitions : Reaches (exec encoding) DraftResumes view.state view.transitions
  checkpoints : Reaches (exec encoding) DraftResumes view.transitions view.checkpoints
  steps : Reaches (exec encoding) DraftResumes view.checkpoints view.steps

-- The plan as each of the later reads finds it.
structure Readings (view : Snapshots) (key : PlanKey) (state transitions checkpoints steps : PlanRows) :
    Prop where
  state : view.state.plans.lookup key = some state
  transitions : view.transitions.plans.lookup key = some transitions
  checkpoints : view.checkpoints.plans.lookup key = some checkpoints
  steps : view.steps.plans.lookup key = some steps

-- The states that are read are those that the log that is read leads to.
def Untorn (state transitions steps : PlanRows) : Prop :=
  state.state = transitions.state ∧ steps.stepStates = transitions.stepStates

instance : Decidable (Untorn state transitions steps) := inferInstanceAs (Decidable (_ ∧ _))

theorem settled_run (run : Run encoding DraftResumes s) : Steady encoding s ∧
    ∀ key rows, s.plans.lookup key = some rows → rows.plan.state = .draft :=
  ⟨run_steady run fun _ _ safe => safe.1,
    @run_saved _ _ _ (fun plan => plan.state = .draft) run fun _ plan safe => safe.2 plan rfl⟩

theorem later_grows (run : Run encoding DraftResumes s) (later : Reaches (exec encoding) DraftResumes s s')
    (stored : s.plans.lookup key = some rows) :
    ∃ rows', s'.plans.lookup key = some rows' ∧ LogGrows rows rows' :=
  reaches_grows (settled_run run).1 (later.weaken fun _ _ safe => safe.1) stored

theorem Follows.same {reducer final : ReducerState} (follows : Follows reducer [] final) :
    final = reducer := by
  cases follows
  rfl

-- A log that stayed as long stayed as it was, and so did the states.
theorem LogGrows.still {rows' : PlanRows} (grows : LogGrows rows rows')
    (long : rows'.transitions.length = rows.transitions.length) : rows'.reducer = rows.reducer := by
  obtain ⟨added,joined,follows⟩ := grows.moves
  rw [joined,List.length_append] at long
  obtain rfl := List.eq_nil_of_length_eq_zero (by omega : added.length = 0)
  exact follows.same

theorem readings_diagnosed (recorded : Recorded encoding transitions)
    (draft : transitions.plan.state = .draft) (numbered : Numbered checkpoints)
    (same : transitions.plan = rows.plan) :
    diagnose encoding (snapshotOf rows) ⟨transitions.transitions,checkpoints.checkpoints,state.state,
      steps.stepStates⟩ = if Untorn state transitions steps then none else some .snapshot := by
  obtain ⟨⟨cursor,scanned,reached⟩,_⟩ := recorded
  have replayed : replayTransitions encoding (snapshotOf rows) transitions.transitions = .ok cursor := by
    rw [← scanned,savedReducer,draft,same]
    rfl
  unfold Numbered at numbered
  simp only [diagnose,replayed,reached,PlanRows.reducer,numbered,if_true,ReducerState.mk.injEq,ne_eq]
  by_cases untorn : Untorn state transitions steps
  · rw [if_pos untorn,if_neg (by simp [untorn.1,untorn.2])]
  · rw [if_neg untorn,if_pos fun back => untorn ⟨back.1.symm,back.2.symm⟩]

theorem loadReducerRows_views (readings : Readings view key state transitions checkpoints steps)
    (tenant : state.tenantId = tenantId) (ids : loadStepStatesTx steps = .ok steps.stepStates) :
    loadReducerRows view key tenantId =
      .ok ⟨transitions.transitions,checkpoints.checkpoints,state.state,steps.stepStates⟩ := by
  simp only [loadReducerRows,readPlanState,readStepStates,readTransitions,readCheckpoints,readings.state,
    readings.transitions,readings.checkpoints,readings.steps,ids,Option.filter,tenant,beq_self_eq_true,
    if_true,orFail,ok_bind]
  rfl

-- Reads that other commits fall between raise a false alarm exactly when the states read are not
-- those of the log read: the issue is then the diverged reducer, never the chain or the checkpoints,
-- and a recovery that starts from such reads quarantines the plan.
theorem torn_reads (reads : ReadInOrder encoding view) (loaded : Loaded view.plan planId tenantId key rows) :
    ∃ state transitions checkpoints steps report plan read,
    Readings view key state transitions checkpoints steps ∧
      inspectSnapshots encoding view tenantId planId = .ok report ∧
      readForResume encoding view tenantId planId = .ok (plan,read) ∧
      (report.issue = if Untorn state transitions steps then none else some .reducerDiverged) ∧
      (report.status = .stable ↔ Untorn state transitions steps) ∧
      ((∃ fault, resumeVerdict encoding plan read = .quarantine fault) ↔ ¬ Untorn state transitions steps) ∧
      (state.transitions.length = steps.transitions.length → Untorn state transitions steps) := by
  have atState := Reaches.trans reads.plan reads.state
  have atTransitions := Reaches.trans atState reads.transitions
  have atCheckpoints := Reaches.trans atTransitions reads.checkpoints
  have atSteps := Reaches.trans atCheckpoints reads.steps
  obtain ⟨state,stored,grows⟩ := later_grows reads.plan reads.state loaded.stored
  obtain ⟨transitions,stored₁,grows₁⟩ := later_grows atState reads.transitions stored
  obtain ⟨checkpoints,stored₂,grows₂⟩ := later_grows atTransitions reads.checkpoints stored₁
  obtain ⟨steps,stored₃,grows₃⟩ := later_grows atCheckpoints reads.steps stored₂
  have readings : Readings view key state transitions checkpoints steps := ⟨stored,stored₁,stored₂,stored₃⟩
  have first := (settled_run reads.plan).1.sound.filed key rows loaded.stored
  have filed := (settled_run atState).1.sound.filed key state stored
  obtain ⟨steady,drafts⟩ := settled_run atTransitions
  have diagnosed := @readings_diagnosed encoding rows state transitions checkpoints steps
    (steady.replayable key _ stored₁) (drafts key _ stored₁) ((settled_run atCheckpoints).1.replayable key
      _ stored₂).numbered (grows₁.plan.trans grows.plan)
  have tenant : state.tenantId = tenantId := by
    rw [filed.tenantId,grows.plan,loaded.tenantId]
  have ids := ((settled_run atSteps).1.sound.filed key steps stored₃).loadStepStates
  have found : loadPlan encoding view.plan planId tenantId = .ok (snapshotOf rows) := by
    have digest : rows.plan.revision = key.2 ∧ rows.plan.digest = rows.digest :=
      ⟨first.revision,first.digest.symm⟩
    simp only [loadPlan,loaded.latest,orFail,ok_bind,require_pos _ (show _ ∧ _ ∧ _ ∧ _ from
      ⟨loaded.planId,loaded.tenantId,digest⟩)]
    refine bind_ok.mpr ⟨(),liftCore_ok.mpr first.snapshot.1,
      bind_ok.mpr ⟨(),liftCore_ok.mpr first.snapshot.2,rfl⟩⟩
  have view_ := loadReducerRows_views readings tenant ids
  rw [← loaded.revision] at view_
  refine ⟨state,transitions,checkpoints,steps,_,snapshotOf rows,_,readings,
    bind_ok.mpr ⟨_,found,bind_ok.mpr ⟨_,view_,rfl⟩⟩,
    bind_ok.mpr ⟨_,found,bind_ok.mpr ⟨_,view_,rfl⟩⟩,?_,?_,?_,fun long => ?_⟩
  · simp only [diagnosed]
    split <;> rfl
  · simp only [diagnosed]
    by_cases untorn : Untorn state transitions steps <;> simp [untorn]
  · simp only [resumeVerdict,diagnosed]
    by_cases untorn : Untorn state transitions steps
    · simp only [untorn,if_true,not_true_eq_false,iff_false,not_exists]
      intro fault
      split <;> simp
    · simp [untorn]
  · have lengths : ∀ {a b : PlanRows}, LogGrows a b → a.transitions.length ≤ b.transitions.length := by
      intro a b grown
      obtain ⟨added,joined,_⟩ := grown.moves
      rw [joined,List.length_append]
      omega
    have early := lengths grows₁
    have middle := lengths grows₂
    have late := lengths grows₃
    have one := grows₁.still (by omega)
    have two := (grows₂.trans grows₃).still (by omega)
    exact ⟨(congrArg ReducerState.plan one).symm,congrArg ReducerState.steps two⟩

-- The state is read before a claim commits, and the log after it.
def tornClaim : Snapshots :=
  let before := trial (trialOpen 7 [trialStep "a" [] none])
  ⟨before,before,trial claimedPlan,trial claimedPlan,trial claimedPlan⟩

theorem tornClaim_reads : ReadInOrder trialEncoding tornClaim := by
  have drafts : ∀ op ∈ claimedPlan, ∀ s, DraftResumes s op := fun op listed s => by
    simp only [claimedPlan,trialOpen,List.mem_append,List.mem_cons,List.not_mem_nil,or_false] at listed
    rcases listed with (rfl | rfl | rfl | rfl) | rfl <;> refine ⟨trivial,fun plan saves => ?_⟩ <;> cases saves
    rfl
  refine ⟨?_,.start,?_,.start,.start⟩
  · refine play_reaches (admitted_always fun op listed s => drafts op ?_ s)
    exact List.mem_append_left _ listed
  · show Reaches _ _ (trial (trialOpen 7 [trialStep "a" [] none])) (trial claimedPlan)
    rw [claimedPlan,trial_append]
    refine play_reaches ⟨drafts (trialClaim 2) ?_ _,trivial⟩
    simp [claimedPlan]

-- A recovery that reads so would quarantine a plan that is under way.
theorem torn_reads_claimed : ∃ plan read fault,
    readForResume trialEncoding tornClaim trialAdmin.tenantId ⟨7⟩ = .ok (plan,read) ∧
    resumeVerdict trialEncoding plan read = .quarantine fault := by
  have answered : (inspectSnapshots trialEncoding tornClaim trialAdmin.tenantId ⟨7⟩).toOption.map (·.issue) =
    some (some .reducerDiverged) := by decide +kernel
  obtain ⟨report,inspected,diverged⟩ := Option.map_eq_some_iff.mp answered
  have inspection := toOption_ok inspected
  simp only [inspectSnapshots,bind_ok] at inspection
  obtain ⟨_,found,_⟩ := inspection
  obtain ⟨key,rows,loaded,_⟩ := loadPlan_parts found
  obtain ⟨state,transitions,checkpoints,steps,report',plan,read,_,seen,resumed,issue,_,verdict,_⟩ :=
    torn_reads tornClaim_reads loaded
  obtain rfl := Except.ok.inj ((toOption_ok inspected).symm.trans seen)
  rw [diverged] at issue
  have torn : ¬ Untorn state transitions steps := fun untorn => by
    rw [if_pos untorn] at issue
    cases issue
  obtain ⟨fault,quarantines⟩ := verdict.mpr torn
  exact ⟨plan,read,fault,resumed,quarantines⟩

end Shaka.Properties
