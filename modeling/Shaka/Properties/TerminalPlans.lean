import Shaka.Store.Runs

namespace Shaka.Properties
open Shaka.Core Queue Plan Store CheckedSteps GuardedRuns

variable {encoding : StoreEncoding} {s : QueueStore} {key : PlanKey} {rows : PlanRows}

-- A resumption leaves no step in `Compensating`, and a compensation takes up
-- every step that is unknown, as a source or as what compensates one.
def Covers (decision : PlanResolutionDecision) (rows : PlanRows) : Prop :=
  match decision with
  | .resume => ∀ x, rows.stepState x ≠ some .compensating
  | .compensate => ∀ x, rows.stepState x = some .unknown →
      ∃ source ∈ eligibleSources (snapshotOf rows) rows.stepStates, x = source.stepId ∨
      x = source.compensation
  | .cancel => True

-- The operations of the queue, with decisions that cover the plan they are about.
def Covering (s : QueueStore) : Operation → Prop
  | .resolvePlanUnknown request _ => ∀ key rows, Loaded s request.planId request.principal.tenantId key rows →
      Covers request.decision rows
  | .resumePlan .. => False
  | _ => True

theorem covering_ordinary (s : QueueStore) (op : Operation) (covering : Covering s op) : Ordinary s op := by
  cases op <;> first | rfl | cases covering

-- An unknown step that a compensation takes up is moved by it.
theorem covered_moved {x : PlanStepId} (unknown : rows.stepState x = some .unknown)
    (covered : ∃ source ∈ eligibleSources (snapshotOf rows) rows.stepStates,
      x = source.stepId ∨ x = source.compensation) : x ∈ movedSources rows ∨ x ∈ movedTargets rows := by
  obtain ⟨source,eligible,here⟩ := covered
  by_cases moved : x ∈ movedSources rows
  · exact .inl moved
  rcases here with rfl | rfl
  · refine absurd (List.mem_map.mpr ⟨source,List.mem_filter.mpr ⟨eligible,?_⟩,rfl⟩) moved
    have found := (mem_eligibleSources eligible).1
    rw [lookup_stepStates,unknown] at found
    rw [← Option.some.inj found]
    rfl
  · refine .inr (List.mem_filter.mpr ⟨?_,by simp [moved,unknown]⟩)
    exact (List.mem_insertionSort _).mpr (List.mem_dedup.mpr (List.mem_map_of_mem eligible))

def CoveringAct (act : Act) (steps : PlanStepId → Option PlanStepState) : Prop :=
  match act with
  | .resume _ => ∀ x, steps x ≠ some .compensating
  | .compensate _ sources targets => ∀ x, steps x = some .unknown → x ∈ sources ∨ x ∈ targets
  | .restart => False
  | _ => True

-- What a step may be left in, by the state of its plan.
structure Closing (v : View) : Prop where
  forward : v.plan ≠ .unknown → v.plan ≠ .compensating → ∀ x, v.steps x ≠ some .compensating
  known : v.plan ≠ .unknown → ∀ x, v.steps x ≠ some .unknown

theorem closing_entered {v : View} (entered : Entered v) : Closing v := by
  constructor
  · intro _ _ x found
    cases entered.pending x _ found
  · intro _ x found
    cases entered.pending x _ found

theorem move_closing {encoding : Encoding} {spec : PlanSpec} {f : Flow} {ws : List Write} {lease : Lease}
    {act : Act} (move : Move encoding spec act f ws lease) (covering : CoveringAct act f.view.steps)
    (closing : Closing f.view) : Closing (f.view.writes ws) := by
  obtain ⟨forward,known⟩ := closing
  cases move with
  | claimed claimable =>
    obtain ⟨_,_,plan,state,_⟩ := claimable
    constructor <;> simp only [claimWrites_plan,claimWrites_steps] <;> grind
  | restarted => exact covering.elim
  | stepSucceeded working plan | planSucceeded working plan | stepRetried working plan | planFailed working plan
    | sourcesCompensated working plan | compensationFailed working plan | planCompensated working plan =>
    constructor <;> simp <;> grind
  | unknownCancelled plan settled => constructor <;> simp <;> grind [Unsettled]
  | _ => constructor <;> simp <;> grind [CoveringAct]

theorem run_closing (run : Run encoding Covering s) : Consistent encoding
    (fun task rows => PairCoherent task rows ∧ Closing (view rows)) Idle s := by
  refine run_consistent (@flow_preserved _ (fun act _ rows => CoveringAct act rows.stepState) (fun _ f =>
    Closing f.view) (fun _ _ entered => closing_entered entered) ?_) run
    (fun s op covering => ordinary_safe s op (covering_ordinary s op covering)) ?_
  · exact fun act task rows ws lease _ _ covering move closing => move_closing move covering closing
  · intro s op act task rows covering concerned decides
    have made := concerned.act
    cases op <;> simp only [ActOf] at made
    case claim => obtain ⟨⟨_,rfl⟩,_⟩ := made; trivial
    case finish => obtain ⟨rfl,_⟩ := made; trivial
    case requestCancel => obtain ⟨rfl,_⟩ := made; trivial
    case recoverExpiredLeases => obtain ⟨rfl,_⟩ := made; trivial
    case resumePlan => cases covering
    case resolvePlanUnknown request now =>
      obtain ⟨_,rfl⟩ := made
      obtain ⟨key,loaded⟩ := decides
      have covers := covering key rows loaded
      unfold resolutionAct
      cases decision : request.decision <;> rw [decision] at covers
      · exact covers
      · exact fun x unknown => covered_moved unknown (covers x unknown)
      · trivial

-- Nobody holds the lease of a task whose plan has ended.
theorem terminal_idle {task : TaskRecord} (coherent : Coherent (flowOf task rows))
    (terminal : rows.state.isTerminal = true) (x : PlanStepId) : rows.stepState x ≠ some .running := by
  intro running
  have held : task.planStepId = some x := coherent.sole x running
  have leased : task.status.isLeased = true := by
    rw [show task.status.isLeased = task.planStepId.isSome from coherent.leased,held]
    rfl
  have phase : rows.state ∈ phases task.status := coherent.phase
  cases status : task.status <;> grind [phases,TaskStatus.isLeased,PlanState.isTerminal]

-- A plan that has ended has no step on the way, in a run whose decisions cover
-- the plans they are about.
theorem terminal_settled (run : Run encoding Covering s) (stored : s.plans.lookup key = some rows)
    (terminal : rows.state.isTerminal = true) :
    ∀ x state, rows.stepState x = some state →
      state ≠ .running ∧ state ≠ .cancelRequested ∧ state ≠ .compensating ∧ state ≠ .unknown := by
  have consistent := run_closing run
  intro x state found
  by_cases referred : ∃ taskId task, s.tasks.lookup taskId = some task ∧ planKeyOf task = some key
  · obtain ⟨taskId,task,listed,refers⟩ := referred
    obtain ⟨rows',stored',_,coherent,closing⟩ := consistent.joined taskId task key listed refers
    obtain rfl := Option.some.inj (stored.symm.trans stored')
    have ended : rows.state ≠ .unknown ∧ rows.state ≠ .compensating := by
      constructor <;> intro state <;> rw [state] at terminal <;> cases terminal
    refine ⟨?_,?_,?_,?_⟩ <;> rintro rfl
    · exact terminal_idle coherent terminal x found
    · exact (coherent.plain x).1 found
    · exact closing.forward ended.1 ended.2 x found
    · exact closing.known ended.1 x found
  · have idle := consistent.lone key rows stored fun taskId task listed refers =>
        referred ⟨taskId,task,listed,refers⟩
    rw [idle.pending x state found]
    simp

-- A compensation is interrupted and resumed as if it were ordinary work, and the
-- work is then cancelled: the plan ends while a step of it is being compensated.
def strandedRun : List Operation :=
  trialOpen 7 [trialStep "a" [] (some "undo"),trialStep "undo" [] none] ++
    [trialClaim 2,.recoverExpiredLeases (second 5),trialResolve 7 .compensate "fix-1" 6,trialClaim 7,
      .recoverExpiredLeases (second 9),trialResolve 7 .resume "fix-2" 9,trialCancel 7 9]

theorem terminal_settled_stranded : Run trialEncoding Ordinary (trial strandedRun) ∧
    ∃ rows, (trial strandedRun).plans.lookup (⟨7⟩,1) = some rows ∧ rows.state = .cancelled ∧
      rows.stepState ⟨"a"⟩ = some .compensating := by
  refine ⟨ordinary_run rfl,?_⟩
  have evaluated :
      ((trial strandedRun).plans.lookup (⟨7⟩,1)).map (fun rows => (rows.state,rows.stepState ⟨"a"⟩)) =
      some (.cancelled,some .compensating) := by decide +kernel
  obtain ⟨rows,stored,shape⟩ := Option.map_eq_some_iff.mp evaluated
  exact ⟨rows,stored,Prod.mk.inj shape⟩

-- The same compensation carried through.
def coveredRun : List Operation :=
  trialOpen 7 [trialStep "a" [] (some "undo"),trialStep "undo" [] none] ++
    [trialClaim 2,.recoverExpiredLeases (second 5)] ++
    [trialResolve 7 .compensate "fix-1" 6,trialClaim 7,trialFinish 7 14 7 none]

theorem coveredRun_covering : Run trialEncoding Covering (trial coveredRun) := by
  refine play_reaches (admitted_append ⟨trivial,trivial,trivial,trivial,trivial,trivial,trivial⟩
    ⟨fun key rows loaded => ?_,trivial,trivial,trivial⟩)
  -- the only unknown step is the one that declares the compensation
  have evaluated :
      (latestPlan (trial (trialOpen 7 [trialStep "a" [] (some "undo"),trialStep "undo" [] none] ++
      [trialClaim 2,.recoverExpiredLeases (second 5)])) ⟨7⟩ trialAdmin.tenantId).all (fun entry =>
        entry.2.stepStates.all fun step => step.2 != .unknown ||
          (eligibleSources (snapshotOf entry.2) entry.2.stepStates).any fun source =>
          step.1 == source.stepId) = true := by
    decide +kernel
  have latest : latestPlan (trial (trialOpen 7 [trialStep "a" [] (some "undo"),trialStep "undo" [] none] ++
      [trialClaim 2,.recoverExpiredLeases (second 5)])) ⟨7⟩ trialAdmin.tenantId = some (key,rows) :=
      loaded.latest
  rw [latest] at evaluated
  intro x unknown
  simp only [Option.all_some,List.all_eq_true,Bool.or_eq_true,bne_iff_ne,List.any_eq_true,beq_iff_eq]
    at evaluated
  rcases evaluated (x,_) (mem_stepStates.mpr unknown) with known | ⟨source,eligible,here⟩
  · exact absurd rfl known
  · exact ⟨source,eligible,.inl here⟩

theorem terminal_settled_compensated : ∃ rows, (trial coveredRun).plans.lookup (⟨7⟩,1) = some rows ∧
    rows.state = .compensated ∧ ∀ x state, rows.stepState x = some state →
      state ≠ .running ∧ state ≠ .cancelRequested ∧ state ≠ .compensating ∧ state ≠ .unknown := by
  have evaluated : ((trial coveredRun).plans.lookup (⟨7⟩,1)).map (·.state) = some .compensated := by
    decide +kernel
  obtain ⟨rows,stored,state⟩ := Option.map_eq_some_iff.mp evaluated
  exact ⟨rows,stored,state,terminal_settled coveredRun_covering stored (by rw [state]; rfl)⟩

end Shaka.Properties
