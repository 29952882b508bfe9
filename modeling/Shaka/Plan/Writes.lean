import Shaka.Plan.Appends

namespace Shaka.Plan
open Shaka.Core Queue CheckedSteps

-- What a completed transaction made of the rows of its plan.
structure Ran (encoding : StoreEncoding) (tx tx' : PlanTx) (ws : List Write) : Prop where
  edits : Edits encoding tx.rows tx'.rows
  reached : view tx'.rows = (view tx.rows).writes ws

theorem Ran.refl (encoding : StoreEncoding) (tx : PlanTx) : Ran encoding tx tx [] := ⟨.refl,rfl⟩

theorem Ran.trans {encoding : StoreEncoding} {tx middle tx' : PlanTx} {first second : List Write}
    (one : Ran encoding tx middle first) (two : Ran encoding middle tx' second) :
    Ran encoding tx tx' (first ++ second) :=
  ⟨one.edits.trans two.edits,by rw [two.reached,one.reached,writes_append]⟩

-- What was recorded was recorded under keys that were not taken.
theorem Ran.fresh {encoding : StoreEncoding} {tx tx' : PlanTx} {ws : List Write}
    (ran : Ran encoding tx tx' ws) : Fresh (view tx.rows) ws := by
  obtain ⟨added,keys,distinct,unused⟩ := ran.edits.keys
  rw [ran.reached,writes_keys] at keys
  obtain rfl := List.append_cancel_left keys
  exact ⟨distinct,unused⟩

-- A transaction that, when it completes, makes exactly the writes `ws`, and that
-- is refused for a taken idempotency key only when one of their keys is taken.
structure Writes (encoding : StoreEncoding) (tx : PlanTx) (ws : List Write) {α : Type}
    (post : α → PlanTx → Prop) (run : Except QueueError α) : Prop where
  done : ∀ a, run = .ok a → ∃ tx', Ran encoding tx tx' ws ∧ post a tx'
  refused : run = .error (.sqlite .uniqueTransitionKey) → ¬ Fresh (view tx.rows) ws

abbrev WritesTx (encoding : StoreEncoding) (tx : PlanTx) (ws : List Write)
    (run : Except QueueError PlanTx) : Prop :=
  Writes encoding tx ws (fun a tx' => a = tx') run

theorem WritesTx.ran {encoding : StoreEncoding} {tx tx' : PlanTx} {ws : List Write}
    {run : Except QueueError PlanTx} (writes : WritesTx encoding tx ws run) (ok : run = .ok tx') :
    Ran encoding tx tx' ws := by
  obtain ⟨_,ran,rfl⟩ := writes.done _ ok
  exact ran

-- The rules, one for each way in which the transactions are put together.

theorem Writes.pure {encoding : StoreEncoding} {tx : PlanTx} {α : Type} {post : α → PlanTx → Prop} {a : α}
    (holds : post a tx) : Writes encoding tx [] post (.ok a) :=
  ⟨fun b same => ⟨tx,.refl _ _,by cases same; exact holds⟩,fun refused => by cases refused⟩

theorem Writes.andThen {encoding : StoreEncoding} {tx : PlanTx} {first second : List Write} {α β : Type}
    {mid : β → PlanTx → Prop} {post : α → PlanTx → Prop} {run : Except QueueError β}
    {next : β → Except QueueError α} (one : Writes encoding tx first mid run)
    (two : ∀ b middle, mid b middle → Ran encoding tx middle first →
      Writes encoding middle second post (next b)) :
    Writes encoding tx (first ++ second) post (run >>= next) := by
  constructor
  · intro a ok
    obtain ⟨b,ran,rest⟩ := bind_ok.mp ok
    obtain ⟨middle,began,kept⟩ := one.done b ran
    obtain ⟨tx',ended,holds⟩ := (two b middle kept began).done a rest
    exact ⟨tx',began.trans ended,holds⟩
  · intro refused fresh
    obtain ⟨early,late⟩ := Fresh.append.mp fresh
    rcases bind_error.mp refused with stopped | ⟨b,ran,rest⟩
    · exact one.refused stopped early
    · obtain ⟨middle,began,kept⟩ := one.done b ran
      exact (two b middle kept began).refused rest (by rwa [began.reached])

theorem Writes.bind {encoding : StoreEncoding} {tx : PlanTx} {v w : List Write} {α : Type}
    {post : α → PlanTx → Prop} {run : Except QueueError PlanTx} {next : PlanTx → Except QueueError α}
    (one : WritesTx encoding tx v run)
    (two : ∀ middle, Ran encoding tx middle v → Writes encoding middle w post (next middle)) :
    Writes encoding tx (v ++ w) post (run >>= next) :=
  one.andThen fun b middle same ran => by
    subst same
    exact two b ran

-- What follows the last write.
theorem Writes.last {encoding : StoreEncoding} {tx : PlanTx} {ws : List Write} {α : Type}
    {post : α → PlanTx → Prop} {run : Except QueueError PlanTx} {next : PlanTx → Except QueueError α}
    (one : WritesTx encoding tx ws run)
    (rest : ∀ middle, Ran encoding tx middle ws → Writes encoding middle [] post (next middle)) :
    Writes encoding tx ws post (run >>= next) := by
  have whole := Writes.bind one rest
  rwa [List.append_nil] at whole

theorem Writes.after {encoding : StoreEncoding} {tx middle : PlanTx} {first second : List Write} {α : Type}
    {post : α → PlanTx → Prop} {run : Except QueueError α} (began : Ran encoding tx middle first)
    (rest : Writes encoding middle second post run) :
    Writes encoding tx (first ++ second) post run := by
  constructor
  · intro a ok
    obtain ⟨tx',ended,holds⟩ := rest.done a ok
    exact ⟨tx',began.trans ended,holds⟩
  · intro refused fresh
    exact rest.refused refused (by rw [began.reached]; exact (Fresh.append.mp fresh).2)

-- An outcome other than the refusal of a taken transition key.
def Keyless {α : Type} (outcome : Except QueueError α) : Prop :=
  outcome ≠ .error (.sqlite .uniqueTransitionKey)

@[simp] theorem keyless_ok {α : Type} {a : α} : Keyless (.ok a) := fun refused => by cases refused

@[simp] theorem keyless_pure {α : Type} {a : α} : Keyless (pure a) := fun refused => by cases refused

@[simp] theorem keyless_error {α : Type} {e : QueueError} :
    Keyless (.error e : Except QueueError α) ↔ e ≠ .sqlite .uniqueTransitionKey := by simp [Keyless]

@[simp] theorem keyless_require {p : Prop} [Decidable p] {e : QueueError} :
    Keyless (require p e) ↔ p ∨ e ≠ .sqlite .uniqueTransitionKey := by
  unfold require
  split <;> simp_all

@[simp] theorem keyless_orFail {α : Type} {value : Option α} {e : QueueError} :
    Keyless (orFail value e) ↔ value.isSome ∨ e ≠ .sqlite .uniqueTransitionKey := by
  cases value <;> simp [orFail]

@[simp] theorem keyless_liftCore {α : Type} {result : Except CoreError α} : Keyless (liftCore result) := by
  cases result <;> simp [liftCore,Except.mapError,Keyless]

theorem Keyless.bind {α β : Type} {first : Except QueueError α} {next : α → Except QueueError β}
    (one : Keyless first) (two : ∀ a, Keyless (next a)) : Keyless (first >>= next) := by
  intro refused
  rcases bind_error.mp refused with stopped | ⟨a,_,later⟩
  · exact one stopped
  · exact two a later

-- The same with what the first part answered.
theorem Keyless.after {α β : Type} {first : Except QueueError α} {next : α → Except QueueError β}
    (one : Keyless first) (two : ∀ a, first = .ok a → Keyless (next a)) :
    Keyless (first >>= next) := spares_bind one two

theorem keyless_checkEach {α : Type} {check : α → Except QueueError Unit} {items : List α}
    (each : ∀ item, Keyless (check item)) : Keyless (checkEach check items) := by
  induction items with
  | nil => exact keyless_ok
  | cons item rest ih => exact (each item).bind fun _ => ih

theorem keyless_checkOption {α : Type} {check : α → Except QueueError Unit} {value : Option α}
    (each : ∀ item, Keyless (check item)) : Keyless (checkOption check value) := by
  cases value with
  | none => exact keyless_ok
  | some item => exact each item

-- A check or a read that writes nothing and is not refused for a key.
theorem Writes.check {encoding : StoreEncoding} {tx : PlanTx} {ws : List Write} {α β : Type}
    {post : α → PlanTx → Prop} {read : Except QueueError β} {next : β → Except QueueError α}
    (harmless : Keyless read)
    (rest : ∀ b, read = .ok b → Writes encoding tx ws post (next b)) :
    Writes encoding tx ws post (read >>= next) := by
  constructor
  · intro a ok
    obtain ⟨b,found,ran⟩ := bind_ok.mp ok
    exact (rest b found).done a ran
  · intro refused
    rcases bind_error.mp refused with stopped | ⟨b,found,ran⟩
    · exact absurd stopped harmless
    · exact (rest b found).refused ran

theorem Writes.weaken {encoding : StoreEncoding} {tx : PlanTx} {ws : List Write} {α : Type}
    {post weaker : α → PlanTx → Prop} {run : Except QueueError α} (writes : Writes encoding tx ws post run)
    (implied : ∀ a tx', post a tx' → weaker a tx') : Writes encoding tx ws weaker run :=
  ⟨fun a ok => (writes.done a ok).imp fun tx' both => ⟨both.1,implied a tx' both.2⟩,writes.refused⟩

theorem WritesTx.stepIf {encoding : StoreEncoding} {tx : PlanTx} {ws : List Write} {condition : Prop}
    [Decidable condition] {action : Except QueueError PlanTx}
    (writes : condition → WritesTx encoding tx ws action) :
    WritesTx encoding tx (if condition then ws else []) (CheckedSteps.stepIf condition action tx) := by
  unfold CheckedSteps.stepIf
  split
  · next holds => exact writes holds
  · exact Writes.pure rfl

-- A loop that moves the steps of the chosen items to one state.
theorem WritesTx.foldSteps {encoding : StoreEncoding} {α : Type} {items : List α} {f : α → PlanStepId}
    {p : α → Bool} {target : PlanStepState} {k : PlanStepId → String} {time : Time}
    {action : PlanTx → α → Except QueueError PlanTx}
    (writes : ∀ tx item, item ∈ items → WritesTx encoding tx
      (if p item then [.step (k (f item)) (f item) target time] else []) (action tx item))
    (tx : PlanTx) :
    WritesTx encoding tx (stepWrites ((items.filter p).map f) target k time)
      (CheckedSteps.foldEach action tx items) := by
  induction items generalizing tx with
  | nil => exact Writes.pure rfl
  | cons item rest ih =>
    have whole := Writes.bind (writes tx item List.mem_cons_self) fun middle _ =>
      ih (fun tx item later => writes tx item (List.mem_cons_of_mem _ later)) middle
    rw [foldEach_cons]
    cases pick : p item with
    | true =>
      simp only [pick,if_true] at whole
      rw [List.filter_cons,if_pos pick]
      exact whole
    | false =>
      simp only [pick,Bool.false_eq_true,if_false] at whole
      rw [List.filter_cons,if_neg (by simp [pick])]
      exact whole

theorem WritesTx.foldAll {encoding : StoreEncoding} {α : Type} {items : List α} {f : α → PlanStepId}
    {target : PlanStepState} {k : PlanStepId → String} {time : Time}
    {action : PlanTx → α → Except QueueError PlanTx}
    (writes : ∀ tx item, WritesTx encoding tx [.step (k (f item)) (f item) target time] (action tx item))
    (tx : PlanTx) :
    WritesTx encoding tx (stepWrites (items.map f) target k time)
      (CheckedSteps.foldEach action tx items) := by
  have loop : WritesTx encoding tx (stepWrites ((items.filter fun _ => true).map f) target k time) _ :=
    WritesTx.foldSteps (fun tx item _ => writes tx item) tx
  rwa [List.filter_true] at loop

-- The primitives.

theorem loadPlanTx_keyless {encoding : StoreEncoding} {rows : PlanRows} :
    Keyless (loadPlanTx encoding rows tenantId reference) := by
  unfold loadPlanTx
  refine .bind (by simp) fun _ => .bind (by simp) fun _ => .bind (by simp) fun _ => .bind (by simp) fun _ =>
    .bind (by simp) fun _ => by simp

theorem loadStepStatesTx_keyless {rows : PlanRows} : Keyless (loadStepStatesTx rows) :=
  .bind (keyless_checkEach fun _ => keyless_liftCore) fun _ => keyless_pure

theorem insertCheckpointTx_keyless {tx : PlanTx} :
    Keyless (insertCheckpointTx tx stepId phase status digest now) :=
  .bind (keyless_checkOption fun _ => by simp [Queue.validateSha256]) fun _ => keyless_pure

theorem transitionNew_keyless {encoding : StoreEncoding} {material : TransitionHashMaterial} :
    Keyless (PlanStoreTransition.new encoding material) := by
  unfold PlanStoreTransition.new validateKey validateTransitionShape
  refine .bind (by simp) fun _ => .bind (by simp) fun _ => .bind ?_ fun _ => keyless_pure
  split <;> simp

theorem applyTransitionTx_keyless {rows : PlanRows} {transition : PlanStoreTransition} :
    Keyless (applyTransitionTx rows transition) := by
  unfold applyTransitionTx
  split
  · exact .bind (by simp) fun _ => .bind (by simp) fun _ => keyless_pure
  · exact .bind (by simp) fun _ => .bind (by simp) fun _ => .bind (by simp) fun _ => .bind (by simp)
      fun _ => keyless_pure
  · simp

-- An append is refused for its key only when the key is taken.
theorem appendTransition_refused {encoding : StoreEncoding} {tx : PlanTx} {plan : PlanSpec}
    (refused : appendTransitionTx encoding tx plan entity entityId origin target key now =
      .error (.sqlite .uniqueTransitionKey)) : key ∈ (view tx.rows).keys := by
  unfold appendTransitionTx at refused
  rcases bind_error.mp refused with stopped | ⟨transition,made,rest⟩
  · exact absurd stopped transitionNew_keyless
  rcases bind_error.mp rest with stopped | ⟨rows,applied,rest⟩
  · exact absurd stopped applyTransitionTx_keyless
  rcases bind_error.mp rest with stopped | ⟨_,_,rest⟩
  · simp only [insertTransitionTx,bind_error,PlanStoreTransition.verifyHash,require_error,require_ok,
      pure_error,reduceCtorEq,and_false,false_or,or_false,exists_const,and_true,not_not] at stopped
    simp only [PlanStoreTransition.new,bind_ok,pure_ok] at made
    obtain ⟨_,_,_,_,_,_,rfl⟩ := made
    rw [view_keys,← (applyTransitionTx_same applied).2.1]
    exact stopped.2
  · simp at rest

theorem stepState_present {rows : PlanRows} (found : rows.stepState stepId = some current)
    (target : PlanStepState) :
    (rows.setStep stepId target).stepState = (view rows).setStep stepId target := by
  funext x
  rw [stepState_setStep,found]
  rfl

theorem appendPlan_ok {encoding : StoreEncoding} {tx tx' : PlanTx} {plan : PlanSpec}
    {origin target : PlanState}
    (ok : appendPlanTransitionTx encoding tx plan origin target key now = .ok tx') :
    tx.rows.state = origin ∧ origin.permits target = true ∧ Ran encoding tx tx' [.plan key target now] := by
  obtain ⟨transition,entity,_,origin,target,rfl,rfl,appending⟩ := appendTransitionTx_ok ok
  obtain ⟨rows,applied,rfl⟩ := appending.written
  rcases applyTransitionTx_ok applied with ⟨reached,_,before,after,permitted,rfl⟩ | ⟨_,_,_,step,_⟩
  · rw [origin,PlanTransitionState.plan.injEq] at before
    rw [target,PlanTransitionState.plan.injEq] at after
    subst before after
    refine ⟨rfl,permitted,.single (.append ok),?_⟩
    simp only [view,View.write,writes_cons,writes_nil,List.map_append,List.map_cons,List.map_nil,
      eventOf,changeOf,target]
    rfl
  · rw [entity] at step
    cases step

theorem appendStep_ok {encoding : StoreEncoding} {tx tx' : PlanTx} {plan : PlanSpec} {stepId : PlanStepId}
    {origin target : PlanStepState}
    (ok : appendStepTransitionTx encoding tx plan stepId origin target key now = .ok tx') :
    tx.rows.stepState stepId = some origin ∧ origin.permits target = true ∧
      Ran encoding tx tx' [.step key stepId target now] := by
  obtain ⟨transition,entity,named,before,after,rfl,rfl,appending⟩ := appendTransitionTx_ok ok
  obtain ⟨rows,applied,rfl⟩ := appending.written
  rcases applyTransitionTx_ok applied with ⟨_,plan,_⟩ | ⟨x,current,reached,_,named',found,before',after',
    permitted,rfl⟩
  · rw [entity] at plan
    cases plan
  · rw [named,Option.some.injEq] at named'
    rw [before,PlanTransitionState.step.injEq] at before'
    rw [after,PlanTransitionState.step.injEq] at after'
    subst named' before' after'
    refine ⟨found,permitted,.single (.append ok),?_⟩
    have steps := stepState_present found target
    have attempts : (tx.rows.setStep stepId target).attemptsOf = tx.rows.attemptsOf :=
      funext fun x => attemptsOf_setStep _ _ _ _
    have transitions : (tx.rows.setStep stepId target).transitions = tx.rows.transitions :=
      updateStep_transitions _
    have change :
        eventOf transition = ⟨transition.idempotencyKey,.step stepId target,transition.createdAt⟩ := by
      simp only [eventOf,changeOf,after,named,Option.getD_some]
    have state : (tx.rows.setStep stepId target).state = tx.rows.state := updateStep_state _
    have overwrites : (tx.rows.setStep stepId target).rawOverwrites = tx.rows.rawOverwrites :=
      updateStep_rawOverwrites _
    simp only [writes_cons,writes_nil,View.write]
    simp only [view,transitions,List.map_append,List.map_cons,List.map_nil,change,state,overwrites]
    exact congrArg₂ (fun steps attempts => View.mk tx.rows.state steps attempts _ tx.rows.rawOverwrites)
      steps attempts

theorem appendPlan_writes {encoding : StoreEncoding} {tx : PlanTx} {plan : PlanSpec}
    {origin target : PlanState} {key : String} {now : Time} : WritesTx encoding tx [.plan key target now]
      (appendPlanTransitionTx encoding tx plan origin target key now) :=
  ⟨fun _ ok => ⟨_,(appendPlan_ok ok).2.2,rfl⟩,fun refused fresh =>
    fresh.2 key List.mem_cons_self (appendTransition_refused refused)⟩

theorem appendStep_writes {encoding : StoreEncoding} {tx : PlanTx} {plan : PlanSpec} {stepId : PlanStepId}
    {origin target : PlanStepState} {key : String} {now : Time} :
    WritesTx encoding tx [.step key stepId target now]
      (appendStepTransitionTx encoding tx plan stepId origin target key now) :=
  ⟨fun _ ok => ⟨_,(appendStep_ok ok).2.2,rfl⟩,fun refused fresh =>
    fresh.2 key List.mem_cons_self (appendTransition_refused refused)⟩

theorem insertCheckpoint_writes {encoding : StoreEncoding} {tx : PlanTx} :
    WritesTx encoding tx [] (insertCheckpointTx tx stepId phase status digest now) := by
  constructor
  · intro tx' ok
    refine ⟨tx',?_,rfl⟩
    rw [insertCheckpointTx_ok ok]
    exact ⟨.single .checkpoint,rfl⟩
  · exact fun refused => absurd refused insertCheckpointTx_keyless

end Shaka.Plan
