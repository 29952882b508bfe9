import Shaka.Plan.FinishMoves

namespace Shaka.Plan
open Shaka.Core Queue CheckedSteps

-- When the writes of a claim and of a successful finish cannot be refused.

section Keys
variable {encoding : Encoding} {v : View} {x y : PlanStepId} {now : Time}

-- The keys under which the first run of a step is recorded.
def turnKeys (x : PlanStepId) : List StoreKey :=
  [.step .claimPlan x,.attempt .claimReady x 1,.attempt .claimRunning x 1,.attempt .finishSucceeded x 1]

def Unused (encoding : Encoding) (v : View) (keys : List StoreKey) : Prop :=
  ∀ key ∈ keys, key.text encoding ∉ v.keys

theorem turnKeys_apart {a b : StoreKey} (listed : a ∈ turnKeys x) (listed' : b ∈ turnKeys y) (plain : Plain x)
    (plain' : Plain y) (same : a.text encoding = b.text encoding) : a = b := by
  have timeless : ∀ time ∈ a.time?, ∀ other, encoding.rfc3339 time = encoding.rfc3339 other →
      time = other := by
    simp only [turnKeys,List.mem_cons,List.not_mem_nil,or_false] at listed
    rcases listed with rfl | rfl | rfl | rfl <;> simp [StoreKey.time?]
  refine text_injective timeless ?_ ?_ same
  · simp only [turnKeys,List.mem_cons,List.not_mem_nil,or_false] at listed
    rcases listed with rfl | rfl | rfl | rfl <;> exact plain
  · simp only [turnKeys,List.mem_cons,List.not_mem_nil,or_false] at listed'
    rcases listed' with rfl | rfl | rfl | rfl <;> exact plain'

theorem turnKeys_text_nodup (plain : Plain x) : ((turnKeys x).map (·.text encoding)).Nodup := by
  refine (List.nodup_map_iff_inj_on ?_).mpr fun a listed b listed' same =>
    turnKeys_apart listed listed' plain plain same
  simp [turnKeys]

theorem turnKeys_disjoint (plain : Plain x) (plain' : Plain y) (apart : x ≠ y) :
    ∀ a ∈ turnKeys x, ∀ b ∈ turnKeys y, a.text encoding ≠ b.text encoding := by
  intro a listed b listed' same
  have key := turnKeys_apart listed listed' plain plain' same
  subst key
  simp only [turnKeys,List.mem_cons,List.not_mem_nil,or_false] at listed listed'
  rcases listed with rfl | rfl | rfl | rfl <;> simp [apart] at listed'

-- No key of a step is the one under which the plan ends.
theorem finishKey_apart (plain : Plain x) : ∀ stored ∈ turnKeys x,
    stored.text encoding ≠ (StoreKey.plan .finishSucceeded).text encoding := by
  intro stored listed same
  have plainStep : stored.PlainStep := by
    simp only [turnKeys,List.mem_cons,List.not_mem_nil,or_false] at listed
    rcases listed with rfl | rfl | rfl | rfl <;> exact plain
  obtain rfl := @text_injective encoding (.plan .finishSucceeded) stored (by simp [StoreKey.time?]) trivial
      plainStep same.symm
  simp [turnKeys] at listed

-- What the end of the first run of a step writes.
def finishWrite (encoding : Encoding) (x : PlanStepId) (now : Time) : Write :=
  .step ((StoreKey.attempt .finishSucceeded x 1).text encoding) x .succeeded now

-- The keys that the first turn at a step uses, before it settles the plan.
theorem turnWrites_listed {later : Time} (pending : v.steps x = some .pending)
    (unstarted : v.attempts x = 0) :
    (keysOf (claimWrites encoding v x now ++ [finishWrite encoding x later])).Sublist
      ((turnKeys x).map (·.text encoding)) := by
  have number : claimNumber v x = 1 := by
    rw [claimNumber,unstarted]
    rfl
  rw [claimWrites,number,if_pos pending]
  by_cases approved : v.plan = .approved <;> simp [approved,turnKeys,keysOf,finishWrite]

theorem turnWrites_fresh {later : Time} (plain : Plain x) (pending : v.steps x = some .pending)
    (unstarted : v.attempts x = 0) (unused : Unused encoding v (turnKeys x)) :
    Fresh v (claimWrites encoding v x now ++ [finishWrite encoding x later]) := by
  have listed := @turnWrites_listed encoding v x now later pending unstarted
  refine ⟨listed.nodup (turnKeys_text_nodup plain),fun key written => ?_⟩
  obtain ⟨stored,among,rfl⟩ := List.mem_map.mp (listed.subset written)
  exact unused stored among

theorem Fresh.cons {w : Write} {ws : List Write} (fresh : Fresh v (w :: ws)) :
    Fresh v [w] ∧ Fresh (v.write w) ws :=
  Fresh.append.mp fresh

theorem Fresh.plan {key : String} {target : PlanState} (fresh : Fresh v [.plan key target now]) :
    key ∉ v.keys :=
  fresh.2 key (by simp [keysOf])

theorem Fresh.step {key : String} {target : PlanStepState} (fresh : Fresh v [.step key x target now]) :
    key ∉ v.keys :=
  fresh.2 key (by simp [keysOf])

theorem Unused.earlier {keys : List StoreKey} {ws : List Write}
    (unused : Unused encoding (v.writes ws) keys) : Unused encoding v keys := by
  intro key among used
  refine unused key among ?_
  rw [writes_keys,List.mem_append]
  exact .inl used

-- A turn at one step leaves other keys unused.
theorem unused_writes {keys : List StoreKey} {ws : List Write} (unused : Unused encoding v keys)
    (listed : (keysOf ws).Sublist ((turnKeys x).map (·.text encoding)))
    (apart : ∀ a ∈ turnKeys x, ∀ b ∈ keys, a.text encoding ≠ b.text encoding) :
    Unused encoding (v.writes ws) keys := by
  intro key among used
  rw [writes_keys,List.mem_append] at used
  rcases used with before | written
  · exact unused key among before
  · obtain ⟨stored,turn,same⟩ := List.mem_map.mp (listed.subset written)
    exact apart stored turn key among same

end Keys

section Writes
variable {encoding : StoreEncoding} {tx : PlanTx} {plan : PlanSpec} {x : PlanStepId} {key : String}
  {now : Time}

-- A key that a transition can be recorded under.
def Labelled (key : String) : Prop := validateKey key "idempotency_key" 256 = .ok ()

theorem labelled_append {stem tail : String} (visible : blank stem = false)
    (short : stem.utf8ByteSize + tail.utf8ByteSize ≤ 256) : Labelled (stem ++ tail) := by
  simp only [Labelled,validateKey,require_ok]
  simp only [blank,String.toList_append,List.all_append,Bool.and_eq_false_iff,
    String.utf8ByteSize_append] at visible ⊢
  exact ⟨.inl visible,short⟩

theorem transitionNew_done {material : TransitionHashMaterial} (labelled : Labelled material.idempotencyKey)
    (numbered : material.sequence ≠ 0) (revision : material.revision ≠ 0)
    (shaped : validateTransitionShape material.entity material.entityId material.fromState material.toState
      = .ok ()) :
    PlanStoreTransition.new encoding material = .ok ⟨material,
      PlanStoreTransition.calculateHash encoding material⟩ :=
  bind_ok.mpr ⟨(),labelled,bind_ok.mpr ⟨(),require_pos _ ⟨numbered,revision⟩,bind_ok.mpr ⟨(),shaped,rfl⟩⟩⟩

theorem appendTransition_done {entity : PlanTransitionEntity} {entityId : Option PlanStepId}
    {origin target : PlanTransitionState} (labelled : Labelled key) (revision : plan.revision ≠ 0)
    (shaped : validateTransitionShape entity entityId origin target = .ok ())
    (fresh : key ∉ (view tx.rows).keys)
    (applies : ∀ transition : PlanStoreTransition, transition.entity = entity →
      transition.entityId = entityId → transition.fromState = origin → transition.toState = target →
      ∃ rows, applyTransitionTx tx.rows transition = .ok rows) :
    ∃ tx', appendTransitionTx encoding tx plan entity entityId origin target key now = .ok tx' := by
  unfold appendTransitionTx
  dsimp only
  rw [transitionNew_done labelled ?numbered revision shaped,ok_bind]
  case numbered => dsimp only; split <;> simp
  generalize made : PlanStoreTransition.mk _ _ = transition
  have keyed : transition.idempotencyKey = key := by rw [← made]
  obtain ⟨rows,applied⟩ := applies transition (by rw [← made]) (by rw [← made]) (by rw [← made])
      (by rw [← made])
  have sealed : transition.verifyHash encoding = .ok () := require_pos _ (by rw [← made])
  have unlisted : transition.idempotencyKey ∉ rows.transitions.map (·.idempotencyKey) := by
    rwa [keyed,(applyTransitionTx_same applied).2.1,← view_keys]
  rw [applied,ok_bind,insertTransitionTx,sealed,ok_bind,require_pos _ unlisted]
  exact ⟨_,rfl⟩

theorem appendPlan_done {origin target : PlanState} (labelled : Labelled key) (revision : plan.revision ≠ 0)
    (fresh : key ∉ (view tx.rows).keys) (state : tx.rows.state = origin)
    (permitted : origin.permits target = true) :
    ∃ tx', appendPlanTransitionTx encoding tx plan origin target key now = .ok tx' := by
  refine appendTransition_done labelled revision rfl fresh fun transition entity _ from_ to_ =>
    ⟨{tx.rows with state:=target},?_⟩
  rw [applyTransitionTx,entity,from_,to_]
  simp only [bind_ok,require_ok,liftCore_ok,PlanState.validateTransition,pure_ok,exists_const]
  exact ⟨state,permitted,trivial⟩

theorem appendStep_done {origin target : PlanStepState} (labelled : Labelled key)
    (revision : plan.revision ≠ 0) (fresh : key ∉ (view tx.rows).keys)
    (state : tx.rows.stepState x = some origin) (permitted : origin.permits target = true) :
    ∃ tx', appendStepTransitionTx encoding tx plan x origin target key now = .ok tx' := by
  refine appendTransition_done labelled revision rfl fresh fun transition entity named from_ to_ =>
    ⟨tx.rows.setStep x target,?_⟩
  rw [applyTransitionTx,entity,from_,to_]
  simp only [bind_ok,require_ok,orFail_ok,liftCore_ok,PlanStepState.validateTransition,pure_ok,exists_const]
  exact ⟨x,named,origin,state,rfl,permitted,rfl⟩

-- The digest of a state that a caller hands over to be recorded.
def SoundDigest (digest : Option String) : Prop := ∀ text ∈ digest, isSha256Text text = true

theorem insertCheckpoint_done {stepId : Option PlanStepId} {phase : PlanCheckpointPhase}
    {status : PlanCheckpointStatus} {digest : Option String} (sound : SoundDigest digest) :
    ∃ tx', insertCheckpointTx tx stepId phase status digest now = .ok tx' := by
  refine ⟨_,bind_ok.mpr ⟨(),checkOption_ok.mpr fun text given => require_pos _ (sound text given),rfl⟩⟩

theorem stepIf_done {condition : Prop} [Decidable condition] {action : Except QueueError PlanTx}
    (done : condition → ∃ tx', action = .ok tx') : ∃ tx', stepIf condition action tx = .ok tx' := by
  unfold stepIf
  split
  · next holds => exact done holds
  · exact ⟨tx,rfl⟩

-- A step identifier leaves room for the rest of its keys.
theorem validatePlanKey_short {value field : String} {u : Unit}
    (valid : validatePlanKey value field = .ok u) : value.utf8ByteSize ≤ 128 := by
  unfold validatePlanKey at valid
  split at valid
  · cases valid
  · next shape =>
    simp only [Bool.or_eq_true,decide_eq_true_eq,not_or,not_lt] at shape
    exact shape.1.2

theorem letters_size (letters : List Char) : (String.ofList letters).utf8ByteSize ≤ 4 * letters.length := by
  induction letters with
  | nil => simp
  | cons letter rest ih =>
    have split : String.ofList (letter :: rest) = String.singleton letter ++ String.ofList rest := by
      rw [← String.toList_inj]
      simp
    rw [split,String.utf8ByteSize_append,String.utf8ByteSize_singleton,List.length_cons]
    have one := letter.utf8Size_le_four
    omega

theorem number_size {number : Nat} (bounded : number ≤ maxU32) : (toString number).utf8ByteSize ≤ 40 := by
  have digits : number.repr.length ≤ 10 :=
    (Nat.length_repr_le_iff (by decide)).mpr (Nat.lt_of_le_of_lt bounded (by decide))
  have size := letters_size number.repr.toList
  rw [String.ofList_toList,String.length_toList] at size
  exact size.trans (by omega)

theorem stepKey_labelled (mark : StepMark) (short : x.text.utf8ByteSize ≤ 128) :
    Labelled ((StoreKey.step mark x).text encoding.toEncoding) := by
  have stem : blank (KeyKind.step mark).stem = false ∧ (KeyKind.step mark).stem.utf8ByteSize ≤ 32 := by
    cases mark <;> decide +kernel
  refine labelled_append stem.1 ?_
  omega

theorem attemptKey_labelled (mark : AttemptMark) {attempts : Nat} (short : x.text.utf8ByteSize ≤ 128)
    (bounded : attempts ≤ maxU32) :
    Labelled ((StoreKey.attempt mark x attempts).text encoding.toEncoding) := by
  have stem : blank (KeyKind.attempt mark).stem = false ∧ (KeyKind.attempt mark).stem.utf8ByteSize ≤ 32 := by
    cases mark <;> decide +kernel
  have number := number_size bounded
  have colon : ":".utf8ByteSize = 1 := by decide +kernel
  simp only [StoreKey.text,String.append_assoc]
  refine labelled_append stem.1 ?_
  rw [String.utf8ByteSize_append,String.utf8ByteSize_append]
  omega

theorem finishKey_labelled : Labelled ((StoreKey.plan .finishSucceeded).text encoding.toEncoding) := by
  have shaped : blank "finish:plan:succeeded" = false ∧ "finish:plan:succeeded".utf8ByteSize ≤ 256 := by
    decide +kernel
  exact require_pos _ shaped

-- A claim can bind `x`: it waits, and the keys of its next attempt are free.
structure Bindable (encoding : StoreEncoding) (rows : PlanRows) (x : PlanStepId) (now : Time) : Prop where
  waiting : rows.stepState x = some .pending ∨ rows.stepState x = some .ready
  counted : rows.attemptsOf x ≤ maxU32
  revision : rows.plan.revision ≠ 0
  short : x.text.utf8ByteSize ≤ 128
  fresh : Fresh (view rows) (claimWrites encoding.toEncoding (view rows) x now)

theorem bindStepTx_done {step : PlanStep} {claimContext : PlanClaimContext}
    (bindable : Bindable encoding tx.rows step.stepId now) (digest : SoundDigest claimContext.stateDigest) :
    ∃ tx', bindStepTx encoding tx (snapshotOf tx.rows) tx.rows.stepStates step claimContext now =
      .ok tx' := by
  obtain ⟨waiting,counted,revision,short,fresh⟩ := bindable
  have bounded : claimNumber (view tx.rows) step.stepId ≤ maxU32 := Nat.min_le_right _ _
  rw [claimWrites,view_steps,Fresh.append,view_plan] at fresh
  unfold bindStepTx
  -- the plan starts with its first step
  obtain ⟨started,ran⟩ : ∃ started, stepIf (tx.rows.state = .approved) (appendPlanTransitionTx encoding tx
      (snapshotOf tx.rows) .approved .running ((StoreKey.step .claimPlan step.stepId).text
        encoding.toEncoding) now) tx = .ok started := by
    refine stepIf_done fun approved => ?_
    rw [if_pos approved] at fresh
    exact appendPlan_done (stepKey_labelled .claimPlan short) revision fresh.1.plan approved rfl
  have reached := ((WritesTx.stepIf fun _ => appendPlan_writes).ran ran).reached
  obtain ⟨_,fresh⟩ := fresh
  rw [← reached] at fresh
  have steps : started.rows.stepState = tx.rows.stepState := by
    rw [← view_steps,reached]
    split <;> rfl
  have attempts : started.rows.attemptsOf step.stepId = tx.rows.attemptsOf step.stepId := by
    rw [← view_attempts,reached]
    split <;> rfl
  obtain ⟨current,found⟩ : ∃ current, tx.rows.stepState step.stepId = some current := by
    rcases waiting with pending | ready
    · exact ⟨_,pending⟩
    · exact ⟨_,ready⟩
  obtain ⟨row,stored,_⟩ := Option.map_eq_some_iff.mp (show started.rows.stepState step.stepId =
      _ from steps ▸ found)
  have number : row.attempts = tx.rows.attemptsOf step.stepId := by
    simpa [PlanRows.attemptsOf,stored] using attempts
  refine bind_done ran (bind_done (orFail_ok.mpr (lookup_stepStates _ _ ▸ found))
    (bind_done (orFail_ok.mpr stored) ?_))
  rw [number,require_pos _ counted,ok_bind]
  -- then the step is ready, and runs
  rw [found,Fresh.append] at fresh
  obtain ⟨freshReady,freshRunning⟩ := fresh
  obtain ⟨readied,ready⟩ : ∃ readied, stepIf (current = .pending) (appendStepTransitionTx encoding started
      (snapshotOf tx.rows) step.stepId .pending .ready
      ((StoreKey.attempt .claimReady step.stepId (claimNumber (view tx.rows) step.stepId)).text
        encoding.toEncoding) now) started = .ok readied := by
    refine stepIf_done fun pending => ?_
    subst pending
    rw [if_pos rfl] at freshReady
    exact appendStep_done (attemptKey_labelled .claimReady short bounded) revision freshReady.step
      (steps ▸ found) rfl
  have readyView := ((WritesTx.stepIf fun _ => appendStep_writes).ran ready).reached
  have state : readied.rows.stepState step.stepId = some .ready := by
    rw [← view_steps,readyView]
    by_cases pending : current = .pending
    · simp [pending]
    · rw [if_neg pending,writes_nil,view_steps,steps]
      exact waiting.resolve_left fun other => pending (Option.some.inj (found.symm.trans other))
  have same : (some current = some PlanStepState.pending) = (current = .pending) := by simp
  simp only [same] at freshRunning
  rw [← readyView] at freshRunning
  obtain ⟨bound,running⟩ := @appendStep_done encoding readied (snapshotOf tx.rows) step.stepId _ now
    .ready .running
    (attemptKey_labelled .claimRunning short bounded) revision freshRunning.cons.1.step state rfl
  exact bind_done ready (bind_done running (insertCheckpoint_done digest))

-- A claim that was recorded had its attempt counted.
theorem bindStepTx_counted {tx' : PlanTx} {step : PlanStep} {claimContext : PlanClaimContext}
    (ok : bindStepTx encoding tx (snapshotOf tx.rows) tx.rows.stepStates step claimContext now = .ok tx') :
    tx.rows.attemptsOf step.stepId ≤ maxU32 := by
  unfold bindStepTx at ok
  obtain ⟨started,ran,ok⟩ := bind_ok.mp ok
  obtain ⟨_,_,ok⟩ := bind_ok.mp ok
  obtain ⟨row,stored,ok⟩ := bind_ok.mp ok
  obtain ⟨_,bounded,_⟩ := bind_ok.mp ok
  have reached := ((WritesTx.stepIf fun _ => appendPlan_writes).ran ran).reached
  have attempts : started.rows.attemptsOf step.stepId = tx.rows.attemptsOf step.stepId := by
    rw [← view_attempts,reached]
    split <;> rfl
  rw [← attempts,PlanRows.attemptsOf,orFail_ok.mp stored]
  exact require_ok.mp bounded

-- Step `x` has not run and the plan is under way, or is about to be.
structure Startable (encoding : StoreEncoding) (rows : PlanRows) (x : PlanStepId) : Prop where
  plan : rows.state = .approved ∨ rows.state = .running
  pending : rows.stepState x = some .pending
  unstarted : rows.attemptsOf x = 0
  revision : rows.plan.revision ≠ 0
  plain : Plain x
  short : x.text.utf8ByteSize ≤ 128
  unused : Unused encoding.toEncoding (view rows) (turnKeys x)

theorem Startable.bindable {rows : PlanRows} (startable : Startable encoding rows x) :
    Bindable encoding rows x now := by
  obtain ⟨_,pending,unstarted,revision,plain,short,unused⟩ := startable
  exact ⟨.inl pending,unstarted ▸ by decide,revision,short,
    (Fresh.append.mp (@turnWrites_fresh _ _ _ now now plain pending unstarted unused)).1⟩

-- Step `x` runs for the first time.
structure Finishable (encoding : StoreEncoding) (rows : PlanRows) (x : PlanStepId) : Prop where
  plan : rows.state = .running
  running : rows.stepState x = some .running
  revision : rows.plan.revision ≠ 0
  plain : Plain x
  short : x.text.utf8ByteSize ≤ 128
  unused : (StoreKey.attempt .finishSucceeded x 1).text encoding.toEncoding ∉ (view rows).keys
  unfinished : (StoreKey.plan .finishSucceeded).text encoding.toEncoding ∉ (view rows).keys

section Finish
variable {task : TaskRecord} {report : FinishReport} {claimContext : PlanClaimContext}

-- The first half of a successful finish: the step and its checkpoint.
theorem finishSucceeded_noted (finishable : Finishable encoding tx.rows x)
    (digest : SoundDigest claimContext.stateDigest) :
    ∃ noted, Ran encoding tx noted [finishWrite encoding.toEncoding x now] ∧
      finishSucceededTx encoding tx (snapshotOf tx.rows) task x 1 report claimContext now =
        if noted.rows.stepStates.countP (fun entry => entry.2 != .succeeded) = 0 then do
          let tx ← appendPlanTransitionTx encoding noted (snapshotOf tx.rows) .running .succeeded
            "finish:plan:succeeded" now
          pure (.succeeded,tx,taskUpdate task fun row =>
        unbindStep (closeRow .succeeded report.result none now row))
        else pure (.planStepSucceeded now,noted,taskUpdate task fun row =>
          unbindStep (requeueRow none now now row)) := by
  obtain ⟨stepped,ok⟩ := @appendStep_done encoding tx (snapshotOf tx.rows) x _ now .running .succeeded
    (attemptKey_labelled .finishSucceeded finishable.short (by decide)) finishable.revision
      finishable.unused finishable.running rfl
  obtain ⟨noted,checkpoint⟩ := @insertCheckpoint_done stepped now (some x) .afterStep .succeeded _ digest
  have ran := (appendStep_writes.ran ok).trans (insertCheckpoint_writes.ran checkpoint)
  refine ⟨noted,ran,?_⟩
  unfold finishSucceededTx
  have ok : appendStepTransitionTx encoding tx (snapshotOf tx.rows) x .running .succeeded
      s!"finish:succeeded:{x.text}:{1}" now = .ok stepped := ok
  rw [ok,ok_bind,checkpoint,ok_bind,snapshotOf_state,finishable.plan,if_neg (by simp)]

-- The last step to succeed ends the plan.
theorem finishSucceeded_last (finishable : Finishable encoding tx.rows x)
    (digest : SoundDigest claimContext.stateDigest)
    (others : ∀ y state, tx.rows.stepState y = some state → y = x ∨ state = .succeeded) :
    ∃ tx', Ran encoding tx tx' [finishWrite encoding.toEncoding x now,
      planWrite encoding.toEncoding now .finishSucceeded
        .succeeded] ∧
      finishSucceededTx encoding tx (snapshotOf tx.rows) task x 1 report claimContext now =
        .ok (.succeeded,tx',
        taskUpdate task fun row => unbindStep (closeRow .succeeded report.result none now row)) := by
  obtain ⟨noted,ran,same⟩ := @finishSucceeded_noted encoding tx x now task report claimContext
      finishable digest
  have done : noted.rows.stepStates.countP (fun entry => entry.2 != .succeeded) = 0 := by
    refine countP_stepStates.mpr fun y state found => ?_
    rw [← view_steps,ran.reached,writes_cons,writes_nil,finishWrite,write_step] at found
    split at found
    · cases found
      rfl
    · next other => rw [(others y state found).resolve_left other]; rfl
  have unfinished : (StoreKey.plan .finishSucceeded).text encoding.toEncoding ∉ (view noted.rows).keys := by
    rw [ran.reached,writes_keys,List.mem_append,not_or]
    refine ⟨finishable.unfinished,fun written => ?_⟩
    simp only [keysOf,finishWrite,eventsOf_step,eventsOf_nil,List.map_cons,List.map_nil,List.mem_singleton]
      at written
    exact finishKey_apart finishable.plain (.attempt .finishSucceeded x 1) (by simp [turnKeys]) written.symm
  obtain ⟨tx',ok⟩ := @appendPlan_done encoding noted (snapshotOf tx.rows) _ now .running .succeeded
    finishKey_labelled finishable.revision unfinished (by
      rw [← view_plan,ran.reached]
      exact finishable.plan) rfl
  refine ⟨tx',ran.trans (appendPlan_writes.ran ok),?_⟩
  rw [same,if_pos done]
  exact bind_ok.mpr ⟨tx',ok,rfl⟩

theorem finishSucceeded_more (finishable : Finishable encoding tx.rows x)
    (digest : SoundDigest claimContext.stateDigest) {y : PlanStepId} {state : PlanStepState}
    (left : tx.rows.stepState y = some state) (other : y ≠ x) (undone : state ≠ .succeeded) :
    ∃ tx', Ran encoding tx tx' [finishWrite encoding.toEncoding x now] ∧
      finishSucceededTx encoding tx (snapshotOf tx.rows) task x 1 report claimContext now =
        .ok (.planStepSucceeded now,tx',taskUpdate task fun row =>
          unbindStep (requeueRow none now now row)) := by
  obtain ⟨noted,ran,same⟩ := @finishSucceeded_noted encoding tx x now task report claimContext
      finishable digest
  refine ⟨noted,ran,?_⟩
  rw [same,if_neg fun done => ?_]
  · rfl
  · have found : noted.rows.stepState y = some state := by
      rw [← view_steps,ran.reached,writes_cons,writes_nil,finishWrite,write_step,if_neg other]
      exact left
    have := countP_stepStates.mp done y state found
    simp [undone] at this

end Finish

end Writes

end Shaka.Plan
