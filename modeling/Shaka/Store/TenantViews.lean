import Shaka.Library.PairedSteps
import Shaka.Library.Tables
import Shaka.Store.Registry

namespace Shaka.Store
open Shaka.Core Queue Plan CheckedSteps PairedSteps

variable {encoding : StoreEncoding} {tenantId : TenantId} {ours : OperatorId → Prop} {s t u : QueueStore}

-- Two stores that a tenant and its operators cannot tell apart.
structure Alike (tenantId : TenantId) (ours : OperatorId → Prop) (s t : QueueStore) : Prop where
  sessions : Tables.AgreeOn (fun row => row.tenantId == tenantId) s.sessions t.sessions
  limits : s.limits.lookup tenantId = t.limits.lookup tenantId
  windows : ∀ principal : Principal, principal.tenantId = tenantId → ours principal.operatorId →
    ∀ scope ∈ submitScopes principal, ∀ start, windowCount s scope start = windowCount t scope start
  tasks : Tables.AgreeOn (fun row => row.tenantId == tenantId) s.tasks t.tasks
  plans : Tables.AgreeOn (fun rows => rows.tenantId == tenantId) s.plans t.plans

theorem Alike.refl (s : QueueStore) : Alike tenantId ours s s :=
  ⟨.refl _,rfl,fun _ _ _ _ _ _ => rfl,.refl _,.refl _⟩

theorem Alike.symm (alike : Alike tenantId ours s t) : Alike tenantId ours t s :=
  ⟨alike.sessions.symm,alike.limits.symm,fun principal tenant our scope listed start =>
    (alike.windows principal tenant our scope listed start).symm,alike.tasks.symm,alike.plans.symm⟩

theorem Alike.trans (one : Alike tenantId ours s t) (two : Alike tenantId ours t u) :
    Alike tenantId ours s u :=
  ⟨one.sessions.trans two.sessions,one.limits.trans two.limits,fun principal tenant our scope listed start =>
    (one.windows principal tenant our scope listed start).trans
      (two.windows principal tenant our scope listed start),
    one.tasks.trans two.tasks,one.plans.trans two.plans⟩

-- They also draw the same identifiers next.
structure Twin (tenantId : TenantId) (ours : OperatorId → Prop) (s t : QueueStore) : Prop
    extends Alike tenantId ours s t where
  nextUuid : s.nextUuid = t.nextUuid

-- What the transactions write.

theorem Twin.storePlan (twin : Twin tenantId ours s t) (key : PlanKey) (tx : PlanTx) :
    Twin tenantId ours (s.storePlan key tx) (t.storePlan key tx) :=
  ⟨⟨twin.sessions,twin.limits,twin.windows,twin.tasks,twin.plans.insert key tx.rows⟩,rfl⟩

theorem Twin.insertLimits (twin : Twin tenantId ours s t) (limits : TenantLimits) :
    Twin tenantId ours {s with limits:=s.limits.insert tenantId limits} {t with limits:=t.limits.insert tenantId limits} :=
  ⟨⟨twin.sessions,by rw [AList.lookup_insert,AList.lookup_insert],twin.windows,twin.tasks,twin.plans⟩,
    twin.nextUuid⟩

theorem Twin.insertTask (twin : Twin tenantId ours s t) (taskId : TaskId) (row : TaskRecord) :
    Twin tenantId ours {s with tasks:=s.tasks.insert taskId row} {t with tasks:=t.tasks.insert taskId row} :=
  ⟨⟨twin.sessions,twin.limits,twin.windows,twin.tasks.insert taskId row,twin.plans⟩,twin.nextUuid⟩

-- An update meets the rows of its own tenant only.
theorem updateTask_own (s : QueueStore) (update : TaskUpdate) : s.updateTask update =
    match (s.tasks.lookup update.taskId).filter fun row => row.tenantId == update.tenantId with
    | some row => {s with tasks:=s.tasks.insert update.taskId (update.set row)}
    | none => s := by
  unfold QueueStore.updateTask
  cases s.tasks.lookup update.taskId with
  | none => rfl
  | some row =>
    rw [Option.filter_some]
    by_cases tenant : row.tenantId = update.tenantId <;> simp [tenant]

theorem Twin.updateTask (twin : Twin tenantId ours s t) (update : TaskUpdate)
    (tenant : update.tenantId = tenantId) :
    Twin tenantId ours (s.updateTask update) (t.updateTask update) := by
  subst tenant
  rw [updateTask_own,updateTask_own,twin.tasks update.taskId]
  split
  · exact twin.insertTask _ _
  · exact twin

-- What they read.

theorem Twin.loadTask (twin : Twin tenantId ours s t) (taskId : TaskId) :
    Queue.loadTask encoding s taskId tenantId = Queue.loadTask encoding t taskId tenantId := by
  unfold Queue.loadTask
  rw [twin.tasks taskId]

-- The rows of the tenant's plans; the plans of others are refused as if they were absent.
theorem Twin.beginPlan {α : Type} {R : α → α → Prop} {reference : PlanTaskReference}
    {f g : PlanTx → Except QueueError α} (twin : Twin tenantId ours s t)
    (refused : ∀ tx : PlanTx, tx.rows.tenantId ≠ tenantId →
      f tx = .error (.notFound s!"plan {encoding.uuidText reference.planId.uuid}") ∧
      g tx = .error (.notFound s!"plan {encoding.uuidText reference.planId.uuid}"))
    (then_ : ∀ rows, s.plans.lookup (reference.planId,reference.revision) = some rows →
      rows.tenantId = tenantId → Paired R (f ⟨rows,s.nextUuid⟩) (g ⟨rows,s.nextUuid⟩)) :
    Paired R (s.beginPlan encoding reference >>= f) (t.beginPlan encoding reference >>= g) := by
  have agree := twin.plans (reference.planId,reference.revision)
  have other : ∀ store : QueueStore, ((store.plans.lookup (reference.planId,reference.revision)).filter
      fun rows => rows.tenantId == tenantId) = none → ∀ h : PlanTx → Except QueueError α,
      (∀ tx : PlanTx, tx.rows.tenantId ≠ tenantId →
        h tx = .error (.notFound s!"plan {encoding.uuidText reference.planId.uuid}")) →
      (store.beginPlan encoding reference >>= h) =
        .error (.notFound s!"plan {encoding.uuidText reference.planId.uuid}") := by
    intro store hidden h refused
    unfold QueueStore.beginPlan
    cases found : store.plans.lookup (reference.planId,reference.revision) with
    | none => rfl
    | some rows =>
      rw [found,Option.filter_eq_none_iff] at hidden
      exact refused ⟨rows,store.nextUuid⟩ (by simpa using hidden rows rfl)
  cases seen : (s.plans.lookup (reference.planId,reference.revision)).filter fun rows =>
    rows.tenantId == tenantId with
  | none =>
    rw [other s seen f fun tx apart => (refused tx apart).1,
      other t (agree.symm.trans seen) g fun tx apart => (refused tx apart).2]
    exact .error
  | some rows =>
    obtain ⟨found,tenant⟩ := Option.filter_eq_some_iff.mp seen
    obtain ⟨found',_⟩ := Option.filter_eq_some_iff.mp (agree.symm.trans seen)
    simp only [QueueStore.beginPlan,found,found',orFail,ok_bind,← twin.nextUuid]
    exact then_ rows found (by simpa using tenant)

-- The revisions of a plan are told apart by their number.
theorem Twin.latestPlan (twin : Twin tenantId ours s t) (planId : PlanId) :
    Queue.latestPlan s planId tenantId = Queue.latestPlan t planId tenantId := by
  have listed : ∀ store :
      QueueStore, (store.plans.entries.filter fun entry =>
      entry.1.1 == planId && entry.2.tenantId == tenantId) =
      (store.plans.entries.filter fun entry => entry.2.tenantId == tenantId).filter fun entry =>
      entry.1.1 == planId :=
    fun store => by rw [List.filter_filter]
  have rows := (twin.plans.entries).filter fun entry => entry.1.1 == planId
  unfold Queue.latestPlan
  rw [listed,listed]
  let later := fun left right : Sigma fun _ : PlanKey => PlanRows => right.1.2 ≤ left.1.2
  have : Std.Total later := ⟨fun left right => Nat.le_total _ _⟩
  have : IsTrans _ later := ⟨fun _ _ _ one two => Nat.le_trans two one⟩
  refine congrArg (fun l => (List.map _ l).head?)
    (List.Perm.eq_of_pairwise ?_ (List.pairwise_insertionSort later _)
    (List.pairwise_insertionSort later _) ?_)
  · rintro ⟨⟨first,revision⟩,rows⟩ ⟨⟨second,revision'⟩,rows'⟩ left right lower upper
    simp only [List.mem_insertionSort,List.mem_filter,beq_iff_eq] at left right
    obtain ⟨⟨left,tenant⟩,rfl⟩ := left
    obtain ⟨⟨right,_⟩,rfl⟩ := right
    obtain rfl := Nat.le_antisymm upper lower
    have found := twin.plans.found (AList.mem_lookup_iff.mpr left) (by simpa using tenant)
    rw [AList.mem_lookup_iff.mpr right] at found
    cases found
    rfl
  · exact (List.perm_insertionSort _ _).trans (rows.trans (List.perm_insertionSort _ _).symm)

theorem Loaded.own {planId : PlanId} {key : PlanKey} {rows : PlanRows}
    (loaded : Loaded s planId tenantId key rows) :
    rows.tenantId = tenantId := (latestPlan_found loaded.latest).2.2

end Shaka.Store
