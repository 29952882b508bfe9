import Shaka.Plan.StepOrder
import Mathlib.Data.List.Perm.Basic

namespace Shaka.Properties
open Shaka.Core Plan Precedence DepthFirst

variable {steps order : List PlanStep}

-- Every step comes after all the steps it depends on.
def WorkOrder (order : List PlanStep) : Prop :=
  ∀ earlier step later, order = earlier ++ step :: later →
    ∀ dependency ∈ step.dependsOn, dependency ∈ earlier.map (·.stepId)

theorem needsOf_step (distinct : (steps.map (·.stepId)).Nodup) {step : PlanStep} (present : step ∈ steps) :
    dependenciesOf steps step.stepId = some step.dependsOn := by
  unfold dependenciesOf
  cases found : steps.find? fun other => other.stepId == step.stepId with
  | none => exact absurd (List.find?_eq_none.mp found step present) (by simp)
  | some other =>
    have same : other.stepId = step.stepId := by simpa using List.find?_some found
    rw [List.inj_on_of_nodup_map distinct (List.mem_of_find?_eq_some found) present same]
    rfl

theorem workOrder_respects (distinct : (steps.map (·.stepId)).Nodup) (within : ∀ step ∈ order, step ∈ steps) :
    WorkOrder order ↔ Respects (wantsOf (dependenciesOf steps)) (order.map (·.stepId)) := by
  constructor
  · intro work earlier id later split need needed
    obtain ⟨before,from_,rfl,rfl,same⟩ := List.map_eq_append_iff.mp split
    obtain ⟨step,after,rfl,rfl,rfl⟩ := List.map_eq_cons_iff.mp same
    rw [wantsOf,needsOf_step distinct (within step (by simp))] at needed
    exact work before step after rfl need needed
  · intro respects earlier step later split dependency needed
    refine respects _ step.stepId (later.map (·.stepId)) (by rw [split]; simp) dependency ?_
    rw [wantsOf,needsOf_step distinct (within step (by rw [split]; simp))]
    exact needed

-- The recursion ends, and it accepts exactly the graphs whose steps can be put in an order of work.
theorem ensureAcyclic_exact (distinct : (steps.map (·.stepId)).Nodup)
    (listed : ∀ step ∈ steps, ∀ dependency ∈ step.dependsOn, dependency ∈ steps.map (·.stepId)) :
    (∃ found after, Searches (dependenciesOf steps) ((steps.map (·.stepId)).insertionSort PlanStepId.le)
      ⟨[],[]⟩ found after ∧
      ensureAcyclic steps = if found then .ok () else .error (.planInvalid "grafo de etapas contém ciclo")) ∧
    (ensureAcyclic steps = .ok () ↔ ∃ order : List PlanStep, order.Perm steps ∧ WorkOrder order) := by
  obtain ⟨found,after,searched,answer⟩ := ensureAcyclic_searches steps
  refine ⟨⟨found,after,searched,answer⟩,?_⟩
  have sorted := List.perm_insertionSort PlanStepId.le (steps.map (·.stepId))
  have exact := searched.exact (sorted.nodup_iff.mpr distinct)
    (fun id wanted wants => sorted.mem_iff.mpr (dependenciesOf_listed wants))
    fun id present => by
      obtain ⟨step,planned,rfl⟩ := List.mem_map.mp (sorted.mem_iff.mp present)
      exact ⟨step.dependsOn,needsOf_step distinct planned,fun need needed =>
        sorted.mem_iff.mpr (listed step planned need needed)⟩
  have accepted : ensureAcyclic steps = .ok () ↔ found = true := by
    rw [answer]
    cases found with
    | true => simp
    | false => simp
  rw [accepted,exact]
  constructor
  · rintro ⟨ids,same,respects⟩
    -- the identifiers are in the order of their steps
    have ordered : Relation.Comp (· = List.map (·.stepId) ·) (·.Perm ·) ids steps := by
      rw [List.eq_map_comp_perm]
      exact same.trans sorted
    obtain ⟨order,rfl,perm⟩ := ordered
    exact ⟨order,perm,(workOrder_respects distinct fun step => perm.mem_iff.mp).mpr respects⟩
  · rintro ⟨order,perm,work⟩
    exact ⟨order.map (·.stepId),(perm.map _).trans sorted.symm,
      (workOrder_respects distinct fun step => perm.mem_iff.mp).mp work⟩

def linkedStep (id : String) (dependsOn : List String) : PlanStep :=
  ⟨⟨id⟩,dependsOn.map (⟨·⟩),.readOnly "status",[],[],.readOnly,.none,1,none⟩

-- Two ways lead to the last step, and one step hangs on itself.
theorem ensureAcyclic_exact_diamond :
    (∃ order : List PlanStep, order.Perm [linkedStep "d" ["b","c"],linkedStep "b" ["a"],
      linkedStep "c" ["a"],linkedStep "a" []] ∧ WorkOrder order) ∧
    ¬ ∃ order : List PlanStep, order.Perm [linkedStep "a" [],linkedStep "b" ["a","b"]] ∧ WorkOrder order := by
  constructor
  · exact (ensureAcyclic_exact (by decide) (by decide)).2.mp (by decide)
  · intro ordered
    have accepted := (ensureAcyclic_exact (by decide) (by decide)).2.mpr ordered
    exact absurd accepted (by decide)

end Shaka.Properties
