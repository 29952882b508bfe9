import Shaka.Core.PlanSpec
import Shaka.Library.DepthFirst

namespace Shaka.Plan
open Shaka.Core CheckedSteps Precedence DepthFirst

variable {steps : List PlanStep} {id : PlanStepId} {sets : VisitSets}

-- What a step of the plan depends on.
def needsOf (steps : List PlanStep) (id : PlanStepId) : List PlanStepId :=
  match steps.find? fun step => step.stepId == id with
  | some step => step.dependsOn
  | none => []

-- The search has finished these steps, each after the steps it depends on.
structure Sorted (steps : List PlanStep) (visited : List PlanStepId) : Prop where
  settled : Settled (needsOf steps) visited
  known : ∀ id ∈ visited, id ∈ steps.map (·.stepId)

def dependenciesOf (steps : List PlanStep) (id : PlanStepId) : Option (List PlanStepId) :=
  (steps.find? fun step => step.stepId == id).map (·.dependsOn)

theorem wantsOf_dependencies (steps : List PlanStep) : wantsOf (dependenciesOf steps) = needsOf steps := by
  funext id
  unfold wantsOf dependenciesOf needsOf
  cases steps.find? fun step => step.stepId == id with
  | none => rfl
  | some step => rfl

theorem dependenciesOf_listed {wanted : List PlanStepId} (found : dependenciesOf steps id = some wanted) :
    id ∈ steps.map (·.stepId) := by
  obtain ⟨step,present,_⟩ := Option.map_eq_some_iff.mp found
  have same := List.find?_some present
  exact List.mem_map.mpr ⟨step,List.mem_of_find?_eq_some present,by simpa using same⟩

def marks (sets : VisitSets) : Marks PlanStepId := ⟨sets.visiting,sets.visited⟩

theorem allWith_searches {visitOne : PlanStepId → VisitSets → Bool × VisitSets} {ids : List PlanStepId}
    (each : ∀ id next, next.visiting = sets.visiting →
      Searches (dependenciesOf steps) [id] (marks next) (visitOne id next).1 (marks (visitOne id next).2)) :
    Searches (dependenciesOf steps) ids (marks sets) (allWith visitOne ids sets).1
      (marks (allWith visitOne ids sets).2) := by
  induction ids generalizing sets with
  | nil => exact .done
  | cons first rest ih =>
    have here := each first sets rfl
    rw [allWith]
    split
    · next middle visited =>
      rw [visited] at here
      have path : middle.visiting = sets.visiting := here.path
      exact here.cons (ih fun id next same => each id next (same.trans path))
    · next middle cyclic =>
      rw [cyclic] at here
      exact here.stops

-- The path under visit holds distinct steps of the plan: at every call there is depth left for the
-- steps that are not on it.
theorem visit_searches {depth : Nat} (distinct : sets.visiting.Nodup)
    (inside : ∀ id ∈ sets.visiting, id ∈ steps.map (·.stepId))
    (room : steps.length < depth + sets.visiting.length) :
    Searches (dependenciesOf steps) [id] (marks sets) (visit steps depth id sets).1
      (marks (visit steps depth id sets).2) := by
  induction depth generalizing id sets with
  | zero =>
    have short := (List.subperm_of_subset distinct inside).length_le
    rw [List.length_map] at short
    omega
  | succ depth ih =>
    rw [visit]
    split
    · next known => exact .visited known .done
    next new =>
    split
    · next under => exact .cyclic new under
    next fresh =>
    split
    · next missing => exact .unknown new fresh (by rw [dependenciesOf,missing]; rfl)
    next step found =>
    have wants : dependenciesOf steps id = some step.dependsOn := by rw [dependenciesOf,found]; rfl
    have inner := @allWith_searches steps {sets with visiting:=id :: sets.visiting} (visit steps depth)
      step.dependsOn fun other next same => ih (by rw [same]; exact List.nodup_cons.mpr ⟨fresh,distinct⟩)
        (by
          rw [same]
          intro above under
          rcases List.mem_cons.mp under with rfl | earlier
          · exact dependenciesOf_listed wants
          · exact inside above earlier)
        (by
          rw [same,List.length_cons]
          omega)
    generalize allWith (visit steps depth) step.dependsOn {sets with visiting:=id :: sets.visiting} =
      result at inner ⊢
    obtain ⟨acyclic,after⟩ := result
    cases acyclic with
    | true => exact @Searches.finished _ _ _ id [] _ (marks sets) _ _ _ new fresh wants inner .done
    | false => exact @Searches.failed _ _ _ id [] _ (marks sets) _ new fresh wants inner

-- The check is the search of the steps in the order of their identifiers.
theorem ensureAcyclic_searches (steps : List PlanStep) : ∃ found after,
    Searches (dependenciesOf steps) ((steps.map (·.stepId)).insertionSort PlanStepId.le) ⟨[],[]⟩ found after ∧
    ensureAcyclic steps = if found then .ok () else .error (.planInvalid "grafo de etapas contém ciclo") := by
  refine ⟨_,_,@allWith_searches steps ⟨[],[]⟩ (visit steps (steps.length + 2)) _ fun id next empty => ?_,?_⟩
  · refine visit_searches ?_ ?_ ?_
    · rw [empty]
      exact List.nodup_nil
    · rw [empty]
      intro above under
      cases under
    · omega
  · rw [ensureAcyclic,require]

-- A plan whose graph passed the check lists its steps in an order of work.
theorem ensureAcyclic_sorted {u : Unit} (acyclic : ensureAcyclic steps = .ok u) :
    ∃ visited, Sorted steps visited ∧ ∀ id ∈ steps.map (·.stepId), id ∈ visited := by
  obtain ⟨found,after,searched,answer⟩ := ensureAcyclic_searches steps
  cases found with
  | false =>
    rw [acyclic] at answer
    cases answer
  | true =>
    obtain ⟨finished,_,all⟩ := searched.finishes ⟨trivial,by simp,List.nodup_nil,by simp⟩
    refine ⟨after.visited,⟨wantsOf_dependencies steps ▸ finished.settled,fun id visited => ?_⟩,
      fun id present => ?_⟩
    · obtain ⟨wanted,wants⟩ := finished.known id visited
      exact dependenciesOf_listed wants
    · exact all rfl id ((List.mem_insertionSort _).mpr present)

theorem needsOf_listed {plan : PlanSpec} {step : PlanStep} (distinct : plan.stepIds.Nodup)
    (present : step ∈ plan.steps) : needsOf plan.steps step.stepId = step.dependsOn := by
  have found := step?_listed distinct present
  rw [PlanSpec.step?] at found
  rw [needsOf,found]

-- While a step of the plan is left, one is left that waits for nothing.
theorem ready_step {plan : PlanSpec} {done : List PlanStepId} {u : Unit}
    (structured : plan.validateStructure = .ok u) (left : ∃ id ∈ plan.stepIds, id ∉ done) :
    ∃ step ∈ plan.steps, step.stepId ∉ done ∧ ∀ dependency ∈ step.dependsOn, dependency ∈ done := by
  simp only [PlanSpec.validateStructure,bind_ok,require_ok,exists_const] at structured
  obtain ⟨_,_,_,_,_,_,_,_,_,acyclic⟩ := structured
  obtain ⟨visited,sorted,listed⟩ := ensureAcyclic_sorted acyclic
  obtain ⟨id,present,undone⟩ := left
  obtain ⟨id,among,undone,ready⟩ := sorted.settled.ready ⟨id,listed id present,undone⟩
  obtain ⟨step,planned,rfl⟩ := List.mem_map.mp (sorted.known id among)
  cases found : plan.steps.find? fun other => other.stepId == step.stepId with
  | none => exact absurd (List.find?_eq_none.mp found step planned) (by simp)
  | some other =>
    have same : other.stepId = step.stepId := by simpa using List.find?_some found
    rw [needsOf,found] at ready
    exact ⟨other,List.mem_of_find?_eq_some found,same ▸ undone,ready⟩

end Shaka.Plan
