import Shaka.Properties.JournalMoves
import Shaka.Properties.TerminalPlans
import Shaka.Store.Unstarted

namespace Shaka.Properties
open Shaka.Core Queue Plan Store CheckedSteps GuardedRuns

variable {encoding : StoreEncoding} {s : QueueStore} {key : PlanKey} {rows rows' : PlanRows}
  {tenantId : TenantId} {planId : PlanId} {now : Time} {report : PlanResumeReport}
  {seen : PlanInspectionReport}

-- A log that leads on from two states of the plan has no transition of the plan.
theorem Follows.unmoved {reducer reducer' final final' : ReducerState} {log : List PlanStoreTransition}
    (one : Follows reducer log final) (two : Follows reducer' log final')
    (apart : reducer.plan ≠ reducer'.plan) : final.plan = reducer.plan := by
  induction one generalizing reducer' with
  | nil => rfl
  | cons moves _ ih =>
    cases two with
    | cons moves' later =>
      cases moves with
      | plan _ from_ =>
        cases moves' with
        | plan _ from_' => exact absurd (PlanTransitionState.plan.inj (from_.symm.trans from_')) apart
        | step _ _ from_' => exact absurd (from_.symm.trans from_') (by simp)
      | step _ _ from_ =>
        cases moves' with
        | plan _ from_' => exact absurd (from_.symm.trans from_') (by simp)
        | step => exact ih later apart

-- The reducer takes every plan for one that was saved as a draft.
theorem undrafted_diagnosed (journaled : Journaled encoding rows) (undrafted : rows.plan.state ≠ .draft)
    (plan : rows'.plan = rows.plan) (log : rows'.transitions = rows.transitions)
    (diagnosed : diagnose encoding (snapshotOf rows') (reducerRowsOf rows') = none) :
    rows'.state = .draft ∧ rows.state = rows.plan.state := by
  have folded : foldEach applyTransitionState (savedReducer rows.plan) rows.transitions = .ok rows.reducer :=
    journaled_folded journaled
  have applied : foldEach (transitionJournal encoding).apply (savedReducer rows.plan) rows.transitions =
      .ok rows.reducer :=
    foldEach_mapError_ok.mpr folded
  have saved := foldEach_follows.mp applied
  have follows := (soundLog_diagnosed.mp diagnosed).follows
  rw [plan,log] at follows
  exact ⟨follows.unmoved saved fun same => undrafted same.symm,saved.unmoved follows undrafted⟩

theorem faulted_quarantines {fault : Inconsistency} (loaded : Loaded s planId tenantId key rows)
    (diagnosed : diagnose encoding (snapshotOf rows) (reducerRowsOf rows) = some fault)
    (ok : (resumePlan encoding s tenantId planId now).1 = .ok report) :
    (resumePlan encoding s tenantId planId now).2 = s.storePlan key (forceUnknownTx ⟨rows,
      s.nextUuid⟩ now) := by
  unfold resumePlan resumeSnapshots at ok ⊢
  cases reading : readForResume encoding (.same s) tenantId planId with
  | error e =>
    rw [reading] at ok
    cases ok
  | ok answer =>
    obtain ⟨plan,read⟩ := answer
    obtain ⟨key',rows',loaded',rfl,rfl⟩ := readForResume_same reading
    obtain ⟨rfl,rfl⟩ := Prod.ext_iff.mp (Option.some.inj (loaded.latest.symm.trans loaded'.latest))
    have verdict : resumeVerdict encoding (snapshotOf rows) (reducerRowsOf rows) = .quarantine fault := by
      simp only [resumeVerdict,diagnosed]
    have stored : s.plans.lookup (planId,(snapshotOf rows).revision) = some rows := by
      rw [loaded.revision]
      exact loaded.stored
    simp only [verdict,stored,loaded.revision]

theorem forceUnknownTx_transitions (tx : PlanTx) (now : Time) :
    (forceUnknownTx tx now).rows.transitions = tx.rows.transitions := by
  simp only [forceUnknownTx]
  split
  · exact (overwriteUnknown_kept tx.rows).1
  · exact (overwriteUnknown_kept tx.rows).1

-- So one that was not is quarantined, and stays inconsistent.
theorem undrafted_resumes (steady : Steady encoding s) (loaded : Loaded s planId tenantId key rows)
    (undrafted : rows.plan.state ≠ .draft) (ok : (resumePlan encoding s tenantId planId now).1 = .ok report) :
    ∃ rows', latestPlan (resumePlan encoding s tenantId planId now).2 planId tenantId = some (key,rows') ∧
      diagnose encoding (snapshotOf rows') (reducerRowsOf rows') ≠ none := by
  have journaled := (steady.replayable key rows loaded.stored).journaled
  cases diagnosed : diagnose encoding (snapshotOf rows) (reducerRowsOf rows) with
  | none =>
    obtain ⟨draft,saved⟩ := undrafted_diagnosed journaled undrafted rfl rfl diagnosed
    exact absurd (saved.symm.trans draft) undrafted
  | some fault =>
    have same := (@forceUnknownTx_reworks encoding (fun _ _ => False) ⟨rows,s.nextUuid⟩ now).same
    refine ⟨(forceUnknownTx ⟨rows,s.nextUuid⟩ now).rows,?_,fun accepted => ?_⟩
    · rw [faulted_quarantines loaded diagnosed ok]
      exact latestPlan_rewritten loaded.latest same.tenantId
    · have draft :=
        (undrafted_diagnosed journaled undrafted same.plan (forceUnknownTx_transitions _ _) accepted).1
      rw [forceUnknownTx_state] at draft
      cases draft

-- What is asked of a recovery: the transitions it appends are legal ones from the states stored, a terminal
-- plan stays in its state, and the plan is stable.
def RespectsJournal (rows rows' : PlanRows) (seen : PlanInspectionReport) : Prop :=
  LogGrows rows rows' ∧ (rows.state.isTerminal = true → rows'.state = rows.state) ∧ seen.status = .stable

-- In a run each recovery of which finds a plan that was saved as a draft and is settled, a further one
-- respects the state machine, of whatever plan it is; and one that answers does so exactly if its plan is
-- such a plan.
theorem resume_respects (run : Run encoding ResumeSafe s) (tenantId : TenantId) (planId : PlanId)
    (now : Time) :
    (ResumeSafe s (.resumePlan tenantId planId now) → ∀ key rows, s.plans.lookup key = some rows →
      ∃ rows', (resumePlan encoding s tenantId planId now).2.plans.lookup key = some rows' ∧
      LogGrows rows rows' ∧ (rows.state.isTerminal = true → rows'.state = rows.state)) ∧
    ∀ report, (resumePlan encoding s tenantId planId now).1 = .ok report →
      ∃ key rows rows' seen, Loaded s planId tenantId key rows ∧
        (resumePlan encoding s tenantId planId now).2.plans.lookup key = some rows' ∧
        inspectPlan encoding (resumePlan encoding s tenantId planId now).2 tenantId planId = .ok seen ∧
        (RespectsJournal rows rows' seen ↔ Resumable rows) := by
  have steady := run_steady run fun _ _ safe => safe
  constructor
  · intro safe key rows stored
    obtain ⟨rows',stored',grows⟩ := exec_grows steady safe stored
    have resumed :
        exec encoding s (.resumePlan tenantId planId now) = (resumePlan encoding s tenantId planId now).2 :=
      exec_ok rfl
    exact ⟨rows',resumed ▸ stored',grows,grows.terminal⟩
  intro report ok
  obtain ⟨key,rows,loaded⟩ := resume_loads ok
  by_cases draft : rows.plan.state = .draft
  · by_cases settled : Settled rows
    · obtain ⟨rows',stored,grows,latest,accepted⟩ := resumable_resumes steady loaded ⟨draft,settled⟩ now
      obtain ⟨seen,inspected,_,_,status⟩ := resume_inspects ok latest
      exact ⟨key,rows,rows',seen,loaded,stored,inspected,
        iff_of_true ⟨grows,grows.terminal,status.mpr accepted⟩ ⟨draft,settled⟩⟩
    · have diagnosed := (steady.replayable key rows loaded.stored).diagnosed draft
      obtain ⟨rows',latest,_,_,fault⟩ := unsettled_resumes loaded diagnosed settled ok
      obtain ⟨seen,inspected,_,_,status⟩ := resume_inspects ok latest
      exact ⟨key,rows,rows',seen,loaded,(latestPlan_iff.mp latest).1,inspected,
        iff_of_false (fun respects => fault (status.mp respects.2.2)) fun resumable =>
        settled resumable.settled⟩
  · obtain ⟨rows',latest,fault⟩ := undrafted_resumes steady loaded draft ok
    obtain ⟨seen,inspected,_,_,status⟩ := resume_inspects ok latest
    exact ⟨key,rows,rows',seen,loaded,(latestPlan_iff.mp latest).1,inspected,
      iff_of_false (fun respects => fault (status.mp respects.2.2)) fun resumable => draft resumable.draft⟩

-- A claimed plan is recovered so.
theorem resume_respects_claimed : ∃ report key rows rows' seen,
    (resumePlan trialEncoding (trial claimedPlan) trialAdmin.tenantId ⟨7⟩ (second 3)).1 = .ok report ∧
    Loaded (trial claimedPlan) ⟨7⟩ trialAdmin.tenantId key rows ∧
    (resumePlan trialEncoding (trial claimedPlan) trialAdmin.tenantId ⟨7⟩ (second 3)).2.plans.lookup key =
      some rows' ∧
    inspectPlan trialEncoding (resumePlan trialEncoding (trial claimedPlan) trialAdmin.tenantId ⟨7⟩
      (second 3)).2
      trialAdmin.tenantId ⟨7⟩ = .ok seen ∧ (RespectsJournal rows rows' seen ↔ Resumable rows) := by
  have answered :
    (resumePlan trialEncoding (trial claimedPlan) trialAdmin.tenantId ⟨7⟩ (second 3)).1.toOption.isSome =
    true := by decide +kernel
  obtain ⟨report,ok⟩ := Option.isSome_iff_exists.mp answered
  have run : Run trialEncoding ResumeSafe (trial claimedPlan) :=
    claimedPlan_drafts.weaken fun _ _ drafts => drafts.1
  obtain ⟨key,rows,rows',seen,loaded,stored,inspected,exact⟩ :=
    (resume_respects run trialAdmin.tenantId ⟨7⟩ (second 3)).2 report (toOption_ok ok)
  exact ⟨report,key,rows,rows',seen,toOption_ok ok,loaded,stored,inspected,exact⟩

-- A plan that was cancelled while a step of it was being compensated is taken out of its terminal state.
theorem cancelled_resumed : ¬ ∀ (encoding : StoreEncoding) (s : QueueStore) (tenantId : TenantId)
    (planId : PlanId) (now : Time)
    (report : PlanResumeReport) (key : PlanKey) (rows rows' : PlanRows) (seen : PlanInspectionReport),
    Run encoding Ordinary s →
    Loaded s planId tenantId key rows → (resumePlan encoding s tenantId planId now).1 = .ok report →
    (resumePlan encoding s tenantId planId now).2.plans.lookup key = some rows' →
    inspectPlan encoding (resumePlan encoding s tenantId planId now).2 tenantId planId = .ok seen →
    RespectsJournal rows rows' seen := by
  intro all
  have answered :
    (resumePlan trialEncoding (trial strandedRun) trialAdmin.tenantId ⟨7⟩ (second 10)).1.toOption.map
    (·.status) = some .recoveredUnknown := by decide +kernel
  have ended : (latestPlan (trial strandedRun) ⟨7⟩ trialAdmin.tenantId).map (fun entry =>
      (entry.2.plan.state,entry.2.state,activeSteps entry.2.stepStates)) =
        some (.draft,.cancelled,[(⟨"a"⟩,.compensating)]) := by decide +kernel
  obtain ⟨report,answer,_⟩ := Option.map_eq_some_iff.mp answered
  have ok := toOption_ok answer
  have run : Run trialEncoding Ordinary (trial strandedRun) := ordinary_run rfl
  obtain ⟨key,rows,loaded⟩ := resume_loads ok
  rw [loaded.latest] at ended
  obtain ⟨draft,rest⟩ := Prod.mk.inj (Option.some.inj ended)
  obtain ⟨cancelled,active⟩ := Prod.mk.inj rest
  have unsettled : ¬ Settled rows := fun settled => by
    rw [settled (by rw [cancelled]; rfl)] at active
    cases active
  have diagnosed := ((run_steady run ordinary_safe).replayable key rows loaded.stored).diagnosed draft
  obtain ⟨rows',latest,terminal,unknown,_⟩ := unsettled_resumes loaded diagnosed unsettled ok
  obtain ⟨seen,inspected,_⟩ := resume_inspects ok latest
  have respects := all trialEncoding (trial strandedRun) trialAdmin.tenantId ⟨7⟩ (second 10) report key
    rows rows' seen run loaded ok (latestPlan_iff.mp latest).1 inspected
  exact respects.1.known terminal unknown

end Shaka.Properties
