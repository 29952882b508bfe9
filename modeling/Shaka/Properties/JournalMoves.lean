import Shaka.Properties.StableLogs

namespace Shaka.Properties
open Shaka.Core Queue Plan Store CheckedSteps GuardedRuns

variable {encoding : StoreEncoding} {s s' : QueueStore} {op : Operation} {key : PlanKey}
  {rows rows' rows'' : PlanRows} {reducer middle final : ReducerState} {log rest : List PlanStoreTransition}

theorem Follows.append (early : Follows reducer log middle) (late : Follows middle rest final) :
    Follows reducer (log ++ rest) final := by
  induction early with
  | nil => exact late
  | cons moves _ ih => exact .cons moves (ih late)

theorem permits_terminal {state next : PlanState} (terminal : state.isTerminal = true) :
    state.permits next = false := by
  cases state <;> first | rfl | cases terminal

-- No legal transition leaves a terminal state of the plan.
theorem Follows.terminal (follows : Follows reducer log final) (terminal : reducer.plan.isTerminal = true) :
    final.plan = reducer.plan := by
  induction follows with
  | nil => rfl
  | cons moves _ ih =>
    cases moves with
    | plan _ _ _ permitted =>
      rw [permits_terminal terminal] at permitted
      cases permitted
    | step => exact ih terminal

-- One plan at two moments: its log was only added to, and what was added leads
-- from the states stored before to the states stored after.
structure LogGrows (rows rows' : PlanRows) : Prop where
  plan : rows'.plan = rows.plan
  moves : ∃ added, rows'.transitions = rows.transitions ++ added ∧ Follows rows.reducer added rows'.reducer

theorem LogGrows.refl (rows : PlanRows) : LogGrows rows rows :=
  ⟨rfl,[],(List.append_nil _).symm,.nil⟩

theorem LogGrows.trans (one : LogGrows rows rows') (two : LogGrows rows' rows'') : LogGrows rows rows'' := by
  obtain ⟨added,joined,follows⟩ := one.moves
  obtain ⟨added',joined',follows'⟩ := two.moves
  exact ⟨two.plan.trans one.plan,added ++ added',by rw [joined',joined,List.append_assoc],
    follows.append follows'⟩

theorem LogGrows.terminal (grows : LogGrows rows rows') (terminal : rows.state.isTerminal = true) :
    rows'.state = rows.state := by
  obtain ⟨added,_,follows⟩ := grows.moves
  exact follows.terminal terminal

-- Two replayable logs of one plan, the later of which extends the earlier.
theorem journaled_grows (before : Journaled encoding rows) (after : Journaled encoding rows')
    (plan : rows'.plan = rows.plan) (extended : ∃ added, rows'.transitions = rows.transitions ++ added) :
    LogGrows rows rows' := by
  obtain ⟨added,joined⟩ := extended
  have folded : foldEach applyTransitionState (savedReducer rows.plan) rows.transitions = .ok rows.reducer :=
    journaled_folded before
  have folded' :
      foldEach applyTransitionState (savedReducer rows'.plan) rows'.transitions = .ok rows'.reducer :=
    journaled_folded after
  rw [plan,joined,foldEach_append,folded,ok_bind] at folded'
  have applied : foldEach (transitionJournal encoding).apply rows.reducer added = .ok rows'.reducer :=
    foldEach_mapError_ok.mpr folded'
  exact ⟨plan,added,joined,foldEach_follows.mp applied⟩

theorem exec_steady (steady : Steady encoding s) (safe : ResumeSafe s op) :
    Steady encoding (exec encoding s op) := by
  have advances := exec_advances steady.sound steady.replayable op safe
  exact ⟨Advances.consistent coherent_preserved steady.sound advances,
    Advances.replayable steady.replayable advances⟩

-- One operation.
theorem exec_grows (steady : Steady encoding s) (safe : ResumeSafe s op)
    (stored : s.plans.lookup key = some rows) :
    ∃ rows', (exec encoding s op).plans.lookup key = some rows' ∧ LogGrows rows rows' := by
  have transacts := exec_transacts encoding s op
  obtain ⟨rows',stored',plan,_⟩ := transacts.kept key rows stored
  obtain ⟨added,extends_⟩ := transacts.extended key
  have joined := extends_.joined
  rw [journalOf,journalOf,stored,stored'] at joined
  refine ⟨rows',stored',journaled_grows (steady.replayable key rows stored).journaled ?_ plan ⟨added,joined⟩⟩
  exact ((exec_steady steady safe).replayable key rows' stored').journaled

-- Any number of operations.
theorem reaches_grows (steady : Steady encoding s) (later : Reaches (exec encoding) ResumeSafe s s')
    (stored : s.plans.lookup key = some rows) :
    ∃ rows', s'.plans.lookup key = some rows' ∧ LogGrows rows rows' := by
  have both := later.invariant (motive := fun s' => Steady encoding s' ∧
      ∃ rows', s'.plans.lookup key = some rows' ∧ LogGrows rows rows') ⟨steady,rows,stored,.refl rows⟩ ?_
  · exact both.2
  · rintro middle op ⟨steady',rows',stored',grows⟩ safe
    obtain ⟨rows'',stored'',grown⟩ := exec_grows steady' safe stored'
    exact ⟨exec_steady steady' safe,rows'',stored'',grows.trans grown⟩

-- Between any two moments of a run every stored plan follows its state machine, one
-- recorded transition after the other, and a terminal plan stays as it is.
theorem plan_logs_follow (run : Run encoding ResumeSafe s) (later : Reaches (exec encoding) ResumeSafe s s')
    (stored : s.plans.lookup key = some rows) :
    ∃ rows', s'.plans.lookup key = some rows' ∧ LogGrows rows rows' ∧
      (rows.state.isTerminal = true → rows'.state = rows.state) := by
  have steady := run_steady run fun _ _ safe => safe
  obtain ⟨rows',stored',grows⟩ := reaches_grows steady later stored
  exact ⟨rows',stored',grows,grows.terminal⟩

-- A plan before and after its first step was claimed and its lease ran out.
def claimedPlan : List Operation := trialOpen 7 [trialStep "a" [] none] ++ [trialClaim 2]

theorem plan_logs_follow_interrupted :
    ∃ rows rows', (trial (trialOpen 7 [trialStep "a" [] none])).plans.lookup (⟨7⟩,1) =
    some rows ∧ (trial (claimedPlan ++ [.recoverExpiredLeases (second 5)])).plans.lookup (⟨7⟩,
      1) = some rows' ∧ LogGrows rows rows' := by
  have found : ((trial (trialOpen 7 [trialStep "a" [] none])).plans.lookup (⟨7⟩,1)).isSome = true := by
    decide +kernel
  obtain ⟨rows,stored⟩ := Option.isSome_iff_exists.mp found
  have run : Run trialEncoding ResumeSafe (trial (trialOpen 7 [trialStep "a" [] none])) :=
    (ordinary_run rfl).weaken ordinary_safe
  have later : Reaches (exec trialEncoding) ResumeSafe (trial (trialOpen 7 [trialStep "a" [] none]))
      (play (exec trialEncoding) (trial (trialOpen 7 [trialStep "a" [] none]))
        [trialClaim 2,.recoverExpiredLeases (second 5)]) :=
    play_reaches ⟨trivial,trivial,trivial⟩
  obtain ⟨rows',stored',grows,_⟩ := plan_logs_follow run later stored
  refine ⟨rows,rows',stored,?_,grows⟩
  rw [claimedPlan,List.append_assoc,trial_append]
  exact stored'

-- The recovery at the start of a process.

variable {tenantId : TenantId} {planId : PlanId} {now : Time} {report : PlanResumeReport}

-- A rewritten plan of the same tenant is still the latest of its revisions.
theorem latestPlan_rewritten {tx : PlanTx} (latest : latestPlan s planId tenantId = some (key,rows))
    (tenant : tx.rows.tenantId = rows.tenantId) :
    latestPlan (s.storePlan key tx) planId tenantId = some (key,tx.rows) := by
  obtain ⟨_,named,owned,greatest⟩ := latestPlan_iff.mp latest
  refine latestPlan_iff.mpr ⟨AList.lookup_insert _,named,tenant.trans owned,
    fun other rows' found first own => ?_⟩
  by_cases same : other = key
  · exact (congrArg Prod.snd same).le
  · exact greatest other rows' ((AList.lookup_insert_ne same).symm.trans found) first own

theorem recoveredReport_reads {status : PlanResumeStatus} {before : PlanReducerRows} {reason : Option String}
    (latest : latestPlan s planId tenantId = some (key,rows)) (named : key.1 = planId)
    (ok : recoveredReport encoding s tenantId key status before reason = .ok report) :
    ∃ plan read, loadPlan encoding s planId tenantId = .ok plan ∧
      loadReducerRows (.same s) (planId,plan.revision) tenantId = .ok read ∧
      report.plan = {plan with state:=read.planState} ∧ report.stepStates = read.stepStates := by
  simp only [recoveredReport,bind_ok,pure_ok] at ok
  obtain ⟨plan,found,read,reads,rfl⟩ := ok
  subst named
  obtain ⟨key',rows',loaded,rfl⟩ := loadPlan_parts found
  obtain ⟨rfl,rfl⟩ := Prod.ext_iff.mp (Option.some.inj (latest.symm.trans loaded.latest))
  refine ⟨_,read,found,by rwa [loaded.revision],?_,rfl⟩
  rw [loadReducerRows_same loaded.stored reads]
  rfl

-- A report tells what is stored when the recovery has been committed.
theorem resume_reads (ok : (resumePlan encoding s tenantId planId now).1 = .ok report) :
    ∃ plan read, loadPlan encoding (resumePlan encoding s tenantId planId now).2 planId tenantId = .ok plan ∧
      loadReducerRows (.same (resumePlan encoding s tenantId planId now).2) (planId,
        plan.revision) tenantId = .ok read ∧
      report.plan = {plan with state:=read.planState} ∧ report.stepStates = read.stepStates := by
  unfold resumePlan resumeSnapshots at ok ⊢
  cases reading : readForResume encoding (.same s) tenantId planId with
  | error e =>
    rw [reading] at ok
    cases ok
  | ok answer =>
    obtain ⟨plan,read⟩ := answer
    obtain ⟨key,rows,loaded,rfl,rfl⟩ := readForResume_same reading
    have stored : s.plans.lookup (planId,(snapshotOf rows).revision) = some rows :=
      loaded.revision ▸ loaded.stored
    have named : key.1 = planId := congrArg Prod.fst loaded.revision.symm
    simp only [reading,stored] at ok ⊢
    rw [loaded.revision] at ok ⊢
    cases verdict : resumeVerdict encoding (snapshotOf rows) (reducerRowsOf rows) with
    | quarantine fault =>
      simp only [verdict] at ok ⊢
      refine recoveredReport_reads (latestPlan_rewritten loaded.latest ?_) named ok
      exact (@forceUnknownTx_reworks encoding (fun _ _ => False) ⟨rows,s.nextUuid⟩ now).same.tenantId
    | recover active =>
      simp only [verdict] at ok ⊢
      cases ran : recoverUnknownTx encoding ⟨rows,
        s.nextUuid⟩ (snapshotOf rows) (reducerRowsOf rows).planState active now with
      | error e =>
        rw [ran] at ok
        cases ok
      | ok tx =>
        simp only [ran] at ok ⊢
        refine recoveredReport_reads (latestPlan_rewritten loaded.latest ?_) named ok
        exact (@recoverUnknownTx_reworks _ (fun _ _ => False) _ _ _ _ _ _ ran).same.tenantId
    | stable =>
      simp only [verdict] at ok ⊢
      simp only [readForResume,bind_ok,pure_ok,Prod.mk.injEq] at reading
      obtain ⟨_,found,_,reads,rfl,rfl⟩ := reading
      cases ok
      exact ⟨_,_,found,reads,rfl,rfl⟩

theorem inspect_reads {plan : PlanSpec} {read : PlanReducerRows}
    (found : loadPlan encoding s planId tenantId = .ok plan)
    (reads : loadReducerRows (.same s) (planId,plan.revision) tenantId = .ok read) :
    ∃ seen, inspectPlan encoding s tenantId planId = .ok seen ∧
    seen.plan = {plan with state:=read.planState} ∧ seen.stepStates = read.stepStates := by
  have found' : loadPlan encoding (Snapshots.same s).plan planId tenantId = .ok plan := found
  simp only [inspectPlan,inspectSnapshots,found',reads,ok_bind]
  exact ⟨_,rfl,rfl,rfl⟩

theorem insertRecovery_extends {tx tx' : PlanTx} {plan : PlanSpec} {entity : PlanTransitionEntity}
    {entityId : Option PlanStepId} {origin target : PlanTransitionState} {text : Nat → String}
    (ok : insertRecoveryTransitionTx encoding tx plan entity entityId origin target text now = .ok tx') :
    ∃ transition, tx'.rows.transitions = tx.rows.transitions ++ [transition] ∧
    transition.fromState = origin := by
  simp only [insertRecoveryTransitionTx,bind_ok,insertTransitionTx,require_ok,pure_ok,exists_const] at ok
  obtain ⟨transition,made,_,⟨_,_,_,rfl⟩,rfl⟩ := ok
  exact ⟨transition,rfl,by rw [transitionNew_material made]⟩

theorem overwriteUnknown_kept (rows : PlanRows) : (overwriteUnknown rows).transitions = rows.transitions ∧
    (overwriteUnknown rows).state = .unknown ∧ (overwriteUnknown rows).tenantId = rows.tenantId := by
  have folded : ∀ (active : StepStates) (start : PlanRows),
      (active.foldl (fun rows entry => rows.setStep entry.1 .unknown) start).transitions = start.transitions ∧
      (active.foldl (fun rows entry => rows.setStep entry.1 .unknown) start).state = start.state ∧
      (active.foldl (fun rows entry => rows.setStep entry.1 .unknown) start).tenantId = start.tenantId := by
    intro active
    induction active with
    | nil => exact fun _ => ⟨rfl,rfl,rfl⟩
    | cons entry rest ih =>
      intro start
      obtain ⟨transitions,state,tenant⟩ := ih (start.setStep entry.1 .unknown)
      exact ⟨transitions.trans (updateStep_transitions _),state.trans (updateStep_state _),
        tenant.trans (updateStep_tenantId _)⟩
  exact folded _ {rows with state:=.unknown}

-- The recovery records that the plan left its state, whatever that was.
theorem recoverUnknownTx_records {tx tx' : PlanTx} {plan : PlanSpec} {active : StepStates}
    (known : tx.rows.state ≠ .unknown)
    (ok : recoverUnknownTx encoding tx plan tx.rows.state active now = .ok tx') :
    tx'.rows.state = .unknown ∧ tx'.rows.tenantId = tx.rows.tenantId ∧ ∃ transition ∈ tx'.rows.transitions,
      transition.fromState = .plan tx.rows.state := by
  unfold recoverUnknownTx at ok
  rw [if_neg known] at ok
  simp only [bind_ok,require_ok,exists_const,pure_ok,appendRecoveryTransitionsTx,stepIf,ne_eq,known,
    not_false_eq_true,if_true] at ok
  obtain ⟨_,_,recovered,⟨planned,head,others⟩,rfl⟩ := ok
  obtain ⟨transition,joined,left⟩ := insertRecovery_extends head
  obtain ⟨transitions,state,tenant⟩ := overwriteUnknown_kept recovered.rows
  have kept : transition ∈ recovered.rows.transitions ∧ recovered.rows.tenantId = tx.rows.tenantId := by
    have first : transition ∈ planned.rows.transitions ∧ planned.rows.tenantId = tx.rows.tenantId := by
      rw [joined,(insertRecovery_appends head).1]
      exact ⟨by simp,rfl⟩
    refine foldEach_preserves (motive := fun tx' : PlanTx => transition ∈ tx'.rows.transitions ∧
      tx'.rows.tenantId = tx.rows.tenantId) ?_ first others
    rintro before entry after _ ⟨listed,tenant⟩ step
    obtain ⟨_,extended,_⟩ := insertRecovery_extends step
    rw [extended,(insertRecovery_appends step).1]
    exact ⟨List.mem_append_left _ listed,tenant⟩
  exact ⟨state,tenant.trans kept.2,transition,transitions.symm ▸ kept.1,left⟩

-- An operation that saves no plan leaves the latest revision of each.
theorem latestPlan_kept (sound : Sound encoding s) (sound' : Sound encoding (exec encoding s op))
    (saves : ∀ plan, op ≠ .savePlan plan) (latest : latestPlan s planId tenantId = some (key,rows))
    (stored : (exec encoding s op).plans.lookup key = some rows') :
    latestPlan (exec encoding s op) planId tenantId = some (key,rows') := by
  have carries := exec_carries encoding s op
  obtain ⟨stored',named,owned,greatest⟩ := latestPlan_iff.mp latest
  have tenant : ∀ key rows, (exec encoding s op).plans.lookup key = some rows →
      ∃ old, s.plans.lookup key = some old ∧ rows.tenantId = old.tenantId := by
    intro key rows found
    obtain ⟨old,there,plan⟩ := (carries.origin key rows found).resolve_right (saves rows.plan)
    refine ⟨old,there,?_⟩
    rw [(sound'.filed key rows found).tenantId,plan,(sound.filed key old there).tenantId]
  refine latestPlan_iff.mpr ⟨stored,named,?_,fun other rows'' found first own => ?_⟩
  · obtain ⟨old,there,same⟩ := tenant key rows' stored
    obtain rfl := Option.some.inj (stored'.symm.trans there)
    exact same.trans owned
  · obtain ⟨old,there,same⟩ := tenant other rows'' found
    exact greatest other old there first (same.symm.trans own)

theorem resume_loads (ok : (resumePlan encoding s tenantId planId now).1 = .ok report) :
    ∃ key rows, Loaded s planId tenantId key rows := by
  unfold resumePlan resumeSnapshots at ok
  cases reading : readForResume encoding (.same s) tenantId planId with
  | error e =>
    rw [reading] at ok
    cases ok
  | ok answer =>
    simp only [readForResume,bind_ok] at reading
    obtain ⟨_,found,_⟩ := reading
    obtain ⟨key,rows,loaded,_⟩ := loadPlan_parts found
    exact ⟨key,rows,loaded⟩

-- What a plan in flight asks of the recovery.
def Settled (rows : PlanRows) : Prop := rows.state.isTerminal = true → activeSteps rows.stepStates = []

-- Every plan is saved as a draft, and only settled plans are resumed.
def DraftResumes (s : QueueStore) (op : Operation) : Prop :=
  ResumeSafe s op ∧ ∀ plan, op = .savePlan plan → plan.state = .draft

theorem unsettled_recovers (loaded : Loaded s planId tenantId key rows)
    (diagnosed : diagnose encoding (snapshotOf rows) (reducerRowsOf rows) = none)
    (active : activeSteps rows.stepStates ≠ [])
    (ok : (resumePlan encoding s tenantId planId now).1 = .ok report) :
    ∃ tx', recoverUnknownTx encoding ⟨rows,s.nextUuid⟩ (snapshotOf rows) rows.state
      (activeSteps rows.stepStates) now =
      .ok tx' ∧ (resumePlan encoding s tenantId planId now).2 = s.storePlan key tx' := by
  unfold resumePlan resumeSnapshots at ok ⊢
  cases reading : readForResume encoding (.same s) tenantId planId with
  | error e =>
    rw [reading] at ok
    cases ok
  | ok answer =>
    obtain ⟨plan,read⟩ := answer
    obtain ⟨key',rows',loaded',rfl,rfl⟩ := readForResume_same reading
    obtain ⟨rfl,rfl⟩ := Prod.ext_iff.mp (Option.some.inj (loaded.latest.symm.trans loaded'.latest))
    have verdict :
        resumeVerdict encoding (snapshotOf rows) (reducerRowsOf rows) =
        .recover (activeSteps rows.stepStates) := by
      simp only [resumeVerdict,diagnosed]
      exact if_pos (.inr active)
    have stored : s.plans.lookup (planId,(snapshotOf rows).revision) = some rows := by
      rw [loaded.revision]
      exact loaded.stored
    simp only [reading,verdict,loaded.revision,stored] at ok ⊢
    have state : (reducerRowsOf rows).planState = rows.state := rfl
    rw [state] at ok ⊢
    cases ran : recoverUnknownTx encoding ⟨rows,s.nextUuid⟩ (snapshotOf rows) rows.state
      (activeSteps rows.stepStates) now with
    | error e =>
      rw [ran] at ok
      cases ok
    | ok tx' => exact ⟨tx',rfl,rfl⟩

-- The log of a plan that was taken out of a terminal state is not accepted.
theorem terminal_left {transition : PlanStoreTransition} {state : PlanState}
    (listed : transition ∈ rows.transitions) (left : transition.fromState = .plan state)
    (terminal : state.isTerminal = true) :
    diagnose encoding (snapshotOf rows) (reducerRowsOf rows) ≠ none := by
  intro diagnosed
  cases (soundLog_diagnosed.mp diagnosed).follows.legal transition listed with
  | plan from_ to_ permitted =>
    obtain rfl := PlanTransitionState.plan.inj (left.symm.trans from_)
    rw [permits_terminal terminal] at permitted
    cases permitted
  | step from_ =>
    rw [left] at from_
    cases from_

-- A plan that was saved as a draft and is settled is recovered by legal transitions.
theorem resumable_resumes (steady : Steady encoding s) (loaded : Loaded s planId tenantId key rows)
    (resumable : Resumable rows) (now : Time) :
    ∃ rows', (resumePlan encoding s tenantId planId now).2.plans.lookup key = some rows' ∧
    LogGrows rows rows' ∧
      latestPlan (resumePlan encoding s tenantId planId now).2 planId tenantId = some (key,rows') ∧
      diagnose encoding (snapshotOf rows') (reducerRowsOf rows') = none := by
  have resumed :
      exec encoding s (.resumePlan tenantId planId now) = (resumePlan encoding s tenantId planId now).2 :=
    exec_ok rfl
  have safe : ResumeSafe s (.resumePlan tenantId planId now) := by
    intro key' rows' loaded'
    obtain ⟨rfl,rfl⟩ := Prod.ext_iff.mp (Option.some.inj (loaded.latest.symm.trans loaded'.latest))
    exact resumable
  obtain ⟨rows',stored,grows⟩ := exec_grows steady safe loaded.stored
  have steady' := exec_steady steady safe
  have latest := latestPlan_kept steady.sound steady'.sound (fun _ op => nomatch op) loaded.latest stored
  rw [resumed] at stored steady' latest
  exact ⟨rows',stored,grows,latest,(steady'.replayable _ _ stored).diagnosed (grows.plan ▸ resumable.draft)⟩

-- One that is not settled is taken out of its terminal state, and its log is not accepted any more.
theorem unsettled_resumes (loaded : Loaded s planId tenantId key rows)
    (diagnosed : diagnose encoding (snapshotOf rows) (reducerRowsOf rows) = none) (unsettled : ¬ Settled rows)
    (ok : (resumePlan encoding s tenantId planId now).1 = .ok report) :
    ∃ rows', latestPlan (resumePlan encoding s tenantId planId now).2 planId tenantId = some (key,rows') ∧
      rows.state.isTerminal = true ∧ rows'.state = .unknown ∧
      diagnose encoding (snapshotOf rows') (reducerRowsOf rows') ≠ none := by
  obtain ⟨terminal,active⟩ := Classical.not_imp.mp unsettled
  obtain ⟨tx',ran,stored⟩ := unsettled_recovers loaded diagnosed active ok
  have known : rows.state ≠ .unknown := fun unknown => by
    rw [unknown] at terminal
    cases terminal
  obtain ⟨state,tenant,transition,listed,left⟩ := recoverUnknownTx_records known ran
  refine ⟨tx'.rows,?_,terminal,state,terminal_left listed left terminal⟩
  rw [stored]
  exact @latestPlan_rewritten s key rows tenantId planId tx' loaded.latest tenant

theorem LogGrows.known (grows : LogGrows rows rows') (terminal : rows.state.isTerminal = true) :
    rows'.state ≠ .unknown := by
  rw [grows.terminal terminal]
  intro unknown
  rw [unknown] at terminal
  cases terminal

-- An inspection after the recovery sees what the report tells.
theorem resume_inspects (ok : (resumePlan encoding s tenantId planId now).1 = .ok report)
    (latest : latestPlan (resumePlan encoding s tenantId planId now).2 planId tenantId = some (key,rows')) :
    ∃ seen, inspectPlan encoding (resumePlan encoding s tenantId planId now).2 tenantId planId = .ok seen ∧
      seen.plan = report.plan ∧ seen.stepStates = report.stepStates ∧
      (seen.status = .stable ↔ diagnose encoding (snapshotOf rows') (reducerRowsOf rows') = none) := by
  obtain ⟨plan,read,found,reads,shown,states⟩ := resume_reads ok
  obtain ⟨seen,inspected,plan_,states_⟩ := inspect_reads found reads
  obtain ⟨key',rows'',loaded',status⟩ := inspectPlan_parts inspected
  obtain ⟨rfl,rfl⟩ := Prod.ext_iff.mp (Option.some.inj (latest.symm.trans loaded'.latest))
  refine ⟨seen,inspected,plan_.trans shown.symm,states_.trans states.symm,?_⟩
  rw [status]
  cases diagnose encoding (snapshotOf rows') (reducerRowsOf rows') with
  | none => simp
  | some fault => simp

-- A recovery that answers leaves the plan with a log that is accepted, and reached by legal
-- transitions, exactly when the plan was not terminal with a step still in flight.
theorem resume_law (run : Run encoding DraftResumes s)
    (ok : (resumePlan encoding s tenantId planId now).1 = .ok report) :
    ∃ key rows rows' seen, Loaded s planId tenantId key rows ∧
      (resumePlan encoding s tenantId planId now).2.plans.lookup key = some rows' ∧
      inspectPlan encoding (resumePlan encoding s tenantId planId now).2 tenantId planId = .ok seen ∧
      seen.plan = report.plan ∧ seen.stepStates = report.stepStates ∧ (seen.status = .stable ↔ Settled rows) ∧
      (LogGrows rows rows' ↔ Settled rows) := by
  have steady := run_steady run fun _ _ safe => safe.1
  have drafts := @run_saved _ _ _ (fun plan => plan.state = .draft) run fun _ plan safe => safe.2 plan rfl
  obtain ⟨key,rows,loaded⟩ := resume_loads ok
  have draft := drafts key rows loaded.stored
  by_cases settled : Settled rows
  · obtain ⟨rows',stored,grows,latest,accepted⟩ := resumable_resumes steady loaded ⟨draft,settled⟩ now
    obtain ⟨seen,inspected,plan,states,status⟩ := resume_inspects ok latest
    exact ⟨key,rows,rows',seen,loaded,stored,inspected,plan,states,iff_of_true (status.mpr accepted) settled,
      iff_of_true grows settled⟩
  · have diagnosed := (steady.replayable key rows loaded.stored).diagnosed draft
    obtain ⟨rows',latest,terminal,unknown,fault⟩ := unsettled_resumes loaded diagnosed settled ok
    obtain ⟨seen,inspected,plan,states,status⟩ := resume_inspects ok latest
    exact ⟨key,rows,rows',seen,loaded,(latestPlan_iff.mp latest).1,inspected,plan,states,
      iff_of_false (fun stable => fault (status.mp stable)) settled,
      iff_of_false (fun grows => grows.known terminal unknown) settled⟩

theorem claimedPlan_drafts : Run trialEncoding DraftResumes (trial claimedPlan) := by
  refine play_reaches (admitted_always fun op listed s => ⟨?_,fun plan saves => ?_⟩)
  · simp only [claimedPlan,trialOpen,List.mem_append,List.mem_cons,List.not_mem_nil,or_false] at listed
    rcases listed with (rfl | rfl | rfl | rfl) | rfl <;> trivial
  · simp only [claimedPlan,trialOpen,List.mem_append,List.mem_cons,List.not_mem_nil,or_false] at listed
    rcases listed with (rfl | rfl | rfl | rfl) | rfl <;> cases saves
    rfl

theorem resume_law_claimed : ∃ report key rows rows' seen,
    (resumePlan trialEncoding (trial claimedPlan) trialAdmin.tenantId ⟨7⟩ (second 3)).1 = .ok report ∧
    Loaded (trial claimedPlan) ⟨7⟩ trialAdmin.tenantId key rows ∧
    inspectPlan trialEncoding (resumePlan trialEncoding (trial claimedPlan) trialAdmin.tenantId ⟨7⟩
      (second 3)).2 trialAdmin.tenantId ⟨7⟩ = .ok seen ∧
    (seen.status = .stable ↔ Settled rows) ∧ (LogGrows rows rows' ↔ Settled rows) := by
  have answered :
    (resumePlan trialEncoding (trial claimedPlan) trialAdmin.tenantId ⟨7⟩ (second 3)).1.toOption.isSome =
    true := by decide +kernel
  obtain ⟨report,ok⟩ := Option.isSome_iff_exists.mp answered
  obtain ⟨key,rows,rows',seen,loaded,_,inspected,_,_,stable,legal⟩ :=
    resume_law claimedPlan_drafts (toOption_ok ok)
  exact ⟨report,key,rows,rows',seen,toOption_ok ok,loaded,inspected,stable,legal⟩

end Shaka.Properties
