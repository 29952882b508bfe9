import Shaka.Store.Runs

namespace Shaka.Store
open Shaka.Core Queue Plan CheckedSteps

variable {encoding : StoreEncoding} {s : QueueStore}

-- Reading a stored plan back.

theorem validateStructure_ids {plan : PlanSpec} {u : Unit} (structured : plan.validateStructure = .ok u) :
    ∀ stepId ∈ plan.stepIds, validatePlanKey stepId.text "step_id" = .ok () := by
  simp only [PlanSpec.validateStructure,bind_ok,require_ok,exists_const,checkEach_ok] at structured
  obtain ⟨_,_,_,_,_,_,_,steps,_⟩ := structured
  intro stepId listed
  obtain ⟨step,present,rfl⟩ := List.mem_map.mp listed
  have valid := steps step present
  simp only [PlanSpec.validateReferences,PlanStep.validate,bind_ok] at valid
  obtain ⟨_,⟨_,key,_⟩,_⟩ := valid
  exact key

theorem Filed.ids {key : PlanKey} {rows : PlanRows} (filed : Filed encoding key rows) :
    ∀ stepId ∈ rows.sortedStepIds, validatePlanKey stepId.text "step_id" = .ok () := by
  intro stepId listed
  rw [PlanRows.sortedStepIds,List.mem_insertionSort,filed.steps.mem_iff] at listed
  exact validateStructure_ids filed.structured stepId listed

theorem Filed.loadStepStates {key : PlanKey} {rows : PlanRows} (filed : Filed encoding key rows) :
    loadStepStatesTx rows = .ok rows.stepStates := by
  have ids : checkEach (fun stepId : PlanStepId =>
      liftCore (validatePlanKey stepId.text "step_id")) rows.sortedStepIds =
      .ok () := checkEach_ok.mpr fun stepId listed => liftCore_ok.mpr (filed.ids stepId listed)
  simp only [loadStepStatesTx,ids,ok_bind]
  rfl

theorem Filed.snapshot {key : PlanKey} {rows : PlanRows} (filed : Filed encoding key rows) :
    (snapshotOf rows).validateStructure = .ok () ∧
    (snapshotOf rows).verifyDigest encoding.toEncoding = .ok () :=
  ⟨filed.structured,filed.sealed⟩

theorem latestPlan_some {key : PlanKey} {rows : PlanRows} (stored : s.plans.lookup key = some rows) :
    ∃ latest, latestPlan s key.1 rows.tenantId = some latest := by
  cases found : latestPlan s key.1 rows.tenantId with
  | some latest => exact ⟨latest,rfl⟩
  | none =>
    have listed : (⟨key,rows⟩ : Sigma fun _ : PlanKey => PlanRows) ∈ s.plans.entries :=
      AList.mem_lookup_iff.mp stored
    rw [latestPlan,List.head?_eq_none_iff,List.map_eq_nil_iff,← List.length_eq_zero_iff,
      List.length_insertionSort,List.length_eq_zero_iff,List.filter_eq_nil_iff] at found
    exact absurd (by simp) (found _ listed)

theorem loadPlan_stored (filed : ∀ key rows, s.plans.lookup key = some rows → Filed encoding key rows)
    {key : PlanKey} {rows : PlanRows} (stored : s.plans.lookup key = some rows) :
    ∃ key' rows', Loaded s key.1 rows.tenantId key' rows' ∧
      loadPlan encoding s key.1 rows.tenantId = .ok (snapshotOf rows') := by
  obtain ⟨⟨key',rows'⟩,latest⟩ := latestPlan_some stored
  obtain ⟨stored',first,tenant⟩ := latestPlan_found latest
  have filed' := filed key' rows' stored'
  have planId := filed'.planId.trans first
  have tenantId := filed'.tenantId.symm.trans tenant
  have key : key' = (rows'.plan.planId,rows'.plan.revision) :=
    Prod.ext filed'.planId.symm filed'.revision.symm
  refine ⟨key',rows',⟨latest,stored',key,planId,tenantId⟩,?_⟩
  simp only [loadPlan,latest,orFail,ok_bind,require_pos _ (show _ ∧ _ ∧ _ ∧ _ from
    ⟨planId,tenantId,filed'.revision,filed'.digest.symm⟩)]
  refine bind_ok.mpr ⟨(),liftCore_ok.mpr filed'.snapshot.1,
    bind_ok.mpr ⟨(),liftCore_ok.mpr filed'.snapshot.2,rfl⟩⟩

-- An inspection of a stored plan succeeds, and reports what the diagnosis finds.
theorem inspectPlan_stored (filed : ∀ key rows, s.plans.lookup key = some rows → Filed encoding key rows)
    {key : PlanKey} {rows : PlanRows} (stored : s.plans.lookup key = some rows) :
    ∃ key' rows' report, Loaded s key.1 rows.tenantId key' rows' ∧
      inspectPlan encoding s rows.tenantId key.1 = .ok report ∧
      report.status = if (diagnose encoding (snapshotOf rows') (reducerRowsOf rows')).isNone then .stable
        else .inconsistent := by
  obtain ⟨key',rows',loaded,read⟩ := loadPlan_stored filed stored
  have reads : loadReducerRows (.same s) key' rows.tenantId = .ok (reducerRowsOf rows') := by
    have tenant := ((filed _ _ loaded.stored).tenantId.trans loaded.tenantId)
    simp only [loadReducerRows,readPlanState,readStepStates,readTransitions,readCheckpoints,Snapshots.same,
      loaded.stored,(filed _ _ loaded.stored).loadStepStates,Option.filter,tenant,beq_self_eq_true,
      if_true,orFail,ok_bind]
    rfl
  have again : loadPlan encoding (Snapshots.same s).plan key.1 rows.tenantId = .ok (snapshotOf rows') := read
  exact ⟨key',rows',_,loaded,bind_ok.mpr ⟨_,again,bind_ok.mpr ⟨_,by rw [loaded.revision]; exact reads,
    rfl⟩⟩,rfl⟩

theorem inspectPlan_parts {tenantId : TenantId} {planId : PlanId} {report : PlanInspectionReport}
    (ok : inspectPlan encoding s tenantId planId = .ok report) :
    ∃ key rows, Loaded s planId tenantId key rows ∧
      report.status = if (diagnose encoding (snapshotOf rows) (reducerRowsOf rows)).isNone then .stable
        else .inconsistent := by
  simp only [inspectPlan,inspectSnapshots,bind_ok,pure_ok] at ok
  obtain ⟨plan,found,read,reads,rfl⟩ := ok
  obtain ⟨key,rows,loaded,rfl⟩ := loadPlan_parts found
  rw [loaded.revision] at reads
  obtain rfl := loadReducerRows_same loaded.stored reads
  exact ⟨key,rows,loaded,rfl⟩

end Shaka.Store
