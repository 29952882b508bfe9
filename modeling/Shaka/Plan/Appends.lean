import Shaka.Plan.Edits
import Mathlib.Logic.Relation

namespace Shaka.Plan
open Shaka.Core Queue CheckedSteps

-- One write to the rows of a plan. The last two are the raw updates that leave
-- no transition behind; the history counter tells that one was made.
inductive Edit (encoding : StoreEncoding) : PlanRows → PlanRows → Prop
  | append {tx tx' : PlanTx} :
      appendTransitionTx encoding tx plan entity entityId origin target key now = .ok tx' →
      Edit encoding tx.rows tx'.rows
  | checkpoint : Edit encoding rows {rows with
      checkpoints:=rows.checkpoints ++ [⟨nextCheckpointSequenceTx rows,stepId,phase,status,digest,now⟩]}
  | attempt : Edit encoding rows (rows.updateStep stepId bumpAttempts)
  | overwritePlan : Edit encoding rows {rows with state:=.unknown,rawOverwrites:=rows.rawOverwrites + 1}
  | overwriteStep :
      Edit encoding rows {rows.setStep stepId .unknown with rawOverwrites:=rows.rawOverwrites + 1}

abbrev Edits (encoding : StoreEncoding) := Relation.ReflTransGen (Edit encoding)

-- What no write changes.
structure SameSpec (rows rows' : PlanRows) : Prop where
  plan : rows'.plan = rows.plan
  tenantId : rows'.tenantId = rows.tenantId
  digest : rows'.digest = rows.digest
  keys : rows'.steps.keys.Perm rows.steps.keys
  limits : ∀ stepId, (rows'.steps.lookup stepId).map (·.maxAttempts) =
    (rows.steps.lookup stepId).map (·.maxAttempts)
  compensations : ∀ stepId, (rows'.steps.lookup stepId).map (·.compensationStepId) =
    (rows.steps.lookup stepId).map (·.compensationStepId)
  approvals : rows'.approvals = rows.approvals
  overwrites : rows.rawOverwrites ≤ rows'.rawOverwrites

theorem SameSpec.refl (rows : PlanRows) : SameSpec rows rows :=
  ⟨rfl,rfl,rfl,List.Perm.refl _,fun _ => rfl,fun _ => rfl,rfl,Nat.le_refl _⟩

theorem SameSpec.trans {a b c : PlanRows} (one : SameSpec a b) (two : SameSpec b c) : SameSpec a c :=
  ⟨two.plan.trans one.plan,two.tenantId.trans one.tenantId,two.digest.trans one.digest,
    two.keys.trans one.keys,
    fun x => (two.limits x).trans (one.limits x),fun x => (two.compensations x).trans (one.compensations x),
    two.approvals.trans one.approvals,one.overwrites.trans two.overwrites⟩

theorem updateStep_same (rows : PlanRows) (stepId : PlanStepId) {update : PlanStepRow → PlanStepRow}
    (limits : ∀ row, (update row).maxAttempts = row.maxAttempts)
    (compensations : ∀ row, (update row).compensationStepId = row.compensationStepId) :
    SameSpec rows (rows.updateStep stepId update) := by
  refine ⟨updateStep_plan _,updateStep_tenantId _,updateStep_digest _,keys_updateStep _ _ _,?_,?_,?_,?_⟩
  · intro x
    rw [lookup_updateStep]
    split
    · next same => subst same; cases rows.steps.lookup x <;> simp [limits]
    · rfl
  · intro x
    rw [lookup_updateStep]
    split
    · next same => subst same; cases rows.steps.lookup x <;> simp [compensations]
    · rfl
  · exact updateStep_approvals _
  · rw [updateStep_rawOverwrites]

theorem setStep_same (rows : PlanRows) (stepId : PlanStepId) (state : PlanStepState) :
    SameSpec rows (rows.setStep stepId state) := updateStep_same rows stepId (fun _ => rfl) (fun _ => rfl)

-- The reducer, on rows and on replayed states.

theorem applyTransitionTx_ok {rows rows' : PlanRows} {transition : PlanStoreTransition}
    (applied : applyTransitionTx rows transition = .ok rows') :
    (∃ target, transition.entity = .plan ∧ transition.fromState = .plan rows.state ∧
      transition.toState = .plan target ∧ rows.state.permits target = true ∧
      rows' = {rows with state:=target}) ∨
    ∃ stepId current target, transition.entity = .step ∧ transition.entityId = some stepId ∧
      rows.stepState stepId = some current ∧ transition.fromState = .step current ∧
      transition.toState = .step target ∧ current.permits target = true ∧
      rows' = rows.setStep stepId target := by
  unfold applyTransitionTx at applied
  split at applied
  · next origin target entity fromState toState =>
    simp only [bind_ok,require_ok,liftCore_ok,PlanState.validateTransition,pure_ok,exists_const] at applied
    obtain ⟨rfl,permitted,rfl⟩ := applied
    exact .inl ⟨target,entity,fromState,toState,permitted,rfl⟩
  · next origin target entity fromState toState =>
    simp only [bind_ok,require_ok,liftCore_ok,PlanStepState.validateTransition,pure_ok,exists_const,orFail_ok]
      at applied
    obtain ⟨stepId,named,current,found,rfl,permitted,rfl⟩ := applied
    exact .inr ⟨stepId,current,target,entity,named,found,fromState,toState,permitted,rfl⟩
  · cases applied

theorem applyTransitionTx_same {rows rows' : PlanRows} {transition : PlanStoreTransition}
    (applied : applyTransitionTx rows transition = .ok rows') : SameSpec rows rows' ∧
      rows'.transitions = rows.transitions ∧ rows'.checkpoints = rows.checkpoints ∧
      rows'.rawOverwrites = rows.rawOverwrites := by
  obtain ⟨target,_,_,_,_,rfl⟩ | ⟨stepId,current,target,_,_,_,_,_,_,rfl⟩ := applyTransitionTx_ok applied
  · exact ⟨⟨rfl,rfl,rfl,List.Perm.refl _,fun _ => rfl,fun _ => rfl,rfl,Nat.le_refl _⟩,rfl,rfl,rfl⟩
  · exact ⟨setStep_same _ _ _,updateStep_transitions _,updateStep_checkpoints _,updateStep_rawOverwrites _⟩

theorem applyTransitionState_matches {rows rows' : PlanRows} {transition : PlanStoreTransition}
    (applied : applyTransitionTx rows transition = .ok rows') :
    applyTransitionState rows.reducer transition = .ok rows'.reducer := by
  obtain ⟨target,entity,fromState,toState,permitted,rfl⟩ |
    ⟨stepId,current,target,entity,named,found,fromState,toState,permitted,rfl⟩ := applyTransitionTx_ok applied
  · simp [applyTransitionState,entity,fromState,toState,PlanRows.reducer,PlanState.validateTransition,
      permitted,require,liftCore,Except.mapError]
    rfl
  · simp only [applyTransitionState,entity,fromState,toState,PlanRows.reducer,named,lookup_stepStates,found,
      orFail,PlanStepState.validateTransition,permitted,require,liftCore,Except.mapError,ok_bind,if_true]
    rw [stepStates_setStep]
    have state : (rows.setStep stepId target).state = rows.state := updateStep_state rows
    rw [state]
    rfl

-- What a successful append did.

structure Appending (encoding : StoreEncoding) (tx tx' : PlanTx) (transition : PlanStoreTransition) :
    Prop where
  sequence : transition.sequence = match lastTransitionTx tx.rows with | some row => row.1 + 1 | none => 1
  previous : transition.previousHash = (lastTransitionTx tx.rows).map (·.2)
  hashed : transition.eventHash =
    PlanStoreTransition.calculateHash encoding transition.toTransitionHashMaterial
  fresh : transition.idempotencyKey ∉ tx.rows.transitions.map (·.idempotencyKey)
  written : ∃ rows, applyTransitionTx tx.rows transition = .ok rows ∧
    tx' = ⟨{rows with transitions:=rows.transitions ++ [transition]},tx.nextUuid + 1⟩

theorem appendTransitionTx_ok {encoding : StoreEncoding} {tx tx' : PlanTx}
    (appended : appendTransitionTx encoding tx plan entity entityId origin target key now = .ok tx') :
    ∃ transition : PlanStoreTransition, transition.entity = entity ∧ transition.entityId = entityId ∧
      transition.fromState = origin ∧ transition.toState = target ∧ transition.idempotencyKey = key ∧
      transition.createdAt = now ∧ Appending encoding tx tx' transition := by
  simp only [appendTransitionTx,PlanStoreTransition.new,bind_ok,pure_ok,insertTransitionTx,require_ok,
    exists_const] at appended
  obtain ⟨transition,⟨_,_,_,_,_,rfl⟩,rows,applied,rows',⟨_,_,fresh,rfl⟩,rfl⟩ := appended
  obtain ⟨_,transitions,_⟩ := applyTransitionTx_same applied
  refine ⟨_,rfl,rfl,rfl,rfl,rfl,rfl,rfl,rfl,rfl,?_,rows,applied,rfl⟩
  rwa [transitions] at fresh

theorem insertCheckpointTx_ok {tx tx' : PlanTx}
    (inserted : insertCheckpointTx tx stepId phase status digest now = .ok tx') :
    tx' = {tx with rows:={tx.rows with checkpoints:=tx.rows.checkpoints ++
      [⟨nextCheckpointSequenceTx tx.rows,stepId,phase,status,digest,now⟩]}} := by
  simp only [insertCheckpointTx,bind_ok,pure_ok] at inserted
  obtain ⟨_,_,rfl⟩ := inserted
  rfl

theorem Edit.same {encoding : StoreEncoding} (edit : Edit encoding rows rows') : SameSpec rows rows' := by
  cases edit with
  | append appended =>
    obtain ⟨transition,_,_,_,_,_,_,appending⟩ := appendTransitionTx_ok appended
    obtain ⟨rows,applied,rfl⟩ := appending.written
    have same := (applyTransitionTx_same applied).1
    exact ⟨same.plan,same.tenantId,same.digest,same.keys,same.limits,same.compensations,same.approvals,
      same.overwrites⟩
  | checkpoint => exact ⟨rfl,rfl,rfl,List.Perm.refl _,fun _ => rfl,fun _ => rfl,rfl,Nat.le_refl _⟩
  | attempt => exact updateStep_same _ _ (fun _ => rfl) (fun _ => rfl)
  | overwritePlan =>
    exact ⟨rfl,rfl,rfl,List.Perm.refl _,fun _ => rfl,fun _ => rfl,rfl,Nat.le_succ _⟩
  | @overwriteStep _ stepId =>
    have same := setStep_same rows stepId .unknown
    exact ⟨same.plan,same.tenantId,same.digest,same.keys,same.limits,same.compensations,same.approvals,
      Nat.le_succ _⟩

theorem Edits.same {encoding : StoreEncoding} (edits : Edits encoding rows rows') : SameSpec rows rows' := by
  induction edits with
  | refl => exact .refl _
  | tail _ edit ih => exact ih.trans edit.same

-- The idempotency keys that the journal comes to hold are new ones.
def KeysAdded (rows rows' : PlanRows) : Prop :=
  ∃ added : List String, (view rows').keys = (view rows).keys ++ added ∧ added.Nodup ∧
    ∀ key ∈ added, key ∉ (view rows).keys

theorem KeysAdded.of_eq {rows rows' : PlanRows} (same : rows'.transitions = rows.transitions) :
    KeysAdded rows rows' :=
  ⟨[],by simp [same],List.nodup_nil,fun _ listed => nomatch listed⟩

theorem KeysAdded.trans {rows middle rows' : PlanRows} (one : KeysAdded rows middle)
    (two : KeysAdded middle rows') : KeysAdded rows rows' := by
  obtain ⟨early,keys,distinct,fresh⟩ := one
  obtain ⟨late,keys',distinct',fresh'⟩ := two
  rw [keys] at keys' fresh'
  simp only [List.mem_append,not_or] at fresh'
  refine ⟨early ++ late,by rw [keys',List.append_assoc],List.nodup_append.mpr ⟨distinct,distinct',?_⟩,
    fun key listed => ?_⟩
  · rintro key before _ after rfl
    exact (fresh' key after).2 before
  · rcases List.mem_append.mp listed with before | after
    · exact fresh key before
    · exact (fresh' key after).1

theorem Edit.keys {encoding : StoreEncoding} (edit : Edit encoding rows rows') : KeysAdded rows rows' := by
  cases edit with
  | append appended =>
    obtain ⟨transition,_,_,_,_,_,_,appending⟩ := appendTransitionTx_ok appended
    have fresh := appending.fresh
    obtain ⟨rows,applied,rfl⟩ := appending.written
    refine ⟨[transition.idempotencyKey],?_,List.nodup_singleton _,fun key listed => ?_⟩
    · simp [(applyTransitionTx_same applied).2.1]
    · rwa [List.mem_singleton.mp listed,view_keys]
  | checkpoint => exact .of_eq rfl
  | attempt => exact .of_eq (updateStep_transitions _)
  | overwritePlan => exact .of_eq rfl
  | overwriteStep => exact .of_eq (updateStep_transitions _)

theorem Edits.keys {encoding : StoreEncoding} (edits : Edits encoding rows rows') : KeysAdded rows rows' := by
  induction edits with
  | refl => exact .of_eq rfl
  | tail _ edit ih => exact ih.trans edit.keys

-- Replay: the stored transitions, folded from the saved state with all steps
-- pending, give the stored states; checkpoints are numbered without gaps.

def savedReducer (plan : PlanSpec) : ReducerState :=
  ⟨plan.state,(plan.stepIds.insertionSort PlanStepId.le).map fun stepId => (stepId,.pending)⟩

def Journaled (encoding : StoreEncoding) (rows : PlanRows) : Prop :=
  ∃ cursor, LinkedJournal.scan (transitionJournal encoding) .chain (savedReducer rows.plan) rows.transitions =
    .ok cursor ∧ cursor.state = rows.reducer

def Numbered (rows : PlanRows) : Prop := checkCheckpointSequence rows.checkpoints = true

-- The same from any state that the replay may start in.
def JournaledFrom (encoding : StoreEncoding) (initial : ReducerState) (rows : PlanRows) : Prop :=
  ∃ cursor, LinkedJournal.scan (transitionJournal encoding) .chain initial rows.transitions = .ok cursor ∧
    cursor.state = rows.reducer

theorem append_journaledFrom {encoding : StoreEncoding} {tx tx' : PlanTx} {transition : PlanStoreTransition}
    {initial : ReducerState} (appending : Appending encoding tx tx' transition)
    (journaled : JournaledFrom encoding initial tx.rows) : JournaledFrom encoding initial tx'.rows := by
  obtain ⟨cursor,scanned,state⟩ := journaled
  obtain ⟨rows,applied,rfl⟩ := appending.written
  obtain ⟨_,transitions,_⟩ := applyTransitionTx_same applied
  have last := LinkedJournal.scan_last scanned
  have expected := LinkedJournal.scan_expected scanned
  -- the new transition continues the numbering and links to the last hash
  have sequence : transition.sequence = cursor.expected := by
    rw [appending.sequence,expected,lastTransitionTx]
    cases tail : tx.rows.transitions.getLast? with
    | none => simp [List.getLast?_eq_none_iff.mp tail]
    | some final =>
      have position : tx.rows.transitions[tx.rows.transitions.length - 1]? = some final := by
        rw [← List.getLast?_eq_getElem?]; exact tail
      have numbered := (LinkedJournal.scan_entry scanned position).1
      have nonempty : tx.rows.transitions.length ≠ 0 := by
        intro empty
        rw [List.length_eq_zero_iff.mp empty] at tail
        cases tail
      simp only [transitionJournal] at numbered
      show final.sequence + 1 = _
      omega
  have previous : transition.previousHash = cursor.last := by
    rw [appending.previous,last,lastTransitionTx,Option.map_map]
    rfl
  have sealed : (transition.verifyHash encoding).isOk = true := by
    simp [PlanStoreTransition.verifyHash,require,appending.hashed,Except.isOk,Except.toBool]
  refine ⟨⟨rows.reducer,cursor.expected + 1,some transition.eventHash⟩,?_,rfl⟩
  simp only [transitions]
  refine LinkedJournal.scan_snoc scanned (LinkedJournal.advance_ok.mpr ⟨?_,rows.reducer,?_,rfl⟩)
  · simp only [LinkedJournal.linked,transitionJournal,sequence,previous,sealed,beq_self_eq_true,Bool.and_self]
  · simp only [transitionJournal,state,applyTransitionState_matches applied,Except.mapError]

theorem append_journaled {encoding : StoreEncoding} {tx tx' : PlanTx} {transition : PlanStoreTransition}
    (appending : Appending encoding tx tx' transition) (journaled : Journaled encoding tx.rows) :
    Journaled encoding tx'.rows := by
  have reached := append_journaledFrom appending journaled
  obtain ⟨rows,applied,rfl⟩ := appending.written
  rw [← (applyTransitionTx_same applied).1.plan] at reached
  exact reached

theorem numbered_iff {rows : PlanRows} : Numbered rows ↔
    ∀ index checkpoint, rows.checkpoints[index]? = some checkpoint → checkpoint.sequence = index + 1 := by
  unfold Numbered checkCheckpointSequence
  simp only [List.all_eq_true,Prod.forall,List.mem_zipIdx_iff_getElem?,beq_iff_eq]
  exact ⟨fun all index checkpoint found => all checkpoint index found,
    fun all checkpoint index found => all index checkpoint found⟩

theorem checkpoint_numbered {rows : PlanRows} (numbered : Numbered rows) (checkpoint : PlanCheckpoint)
    (next : checkpoint.sequence = nextCheckpointSequenceTx rows) :
    Numbered {rows with checkpoints:=rows.checkpoints ++ [checkpoint]} := by
  rw [numbered_iff] at numbered ⊢
  intro index entry found
  rcases Nat.lt_trichotomy index rows.checkpoints.length with earlier | rfl | beyond
  · rw [List.getElem?_append_left earlier] at found
    exact numbered index entry found
  · rw [List.getElem?_append_right (Nat.le_refl _)] at found
    simp only [Nat.sub_self,List.getElem?_cons_zero,Option.some.injEq] at found
    subst found
    rw [next,nextCheckpointSequenceTx]
    cases tail : rows.checkpoints.getLast? with
    | none => simp [List.getLast?_eq_none_iff.mp tail]
    | some final =>
      have position : rows.checkpoints[rows.checkpoints.length - 1]? = some final := by
        rw [← List.getLast?_eq_getElem?]; exact tail
      have nonempty : rows.checkpoints.length ≠ 0 := by
        intro empty
        rw [List.length_eq_zero_iff.mp empty] at tail
        cases tail
      have number := numbered _ _ position
      show final.sequence + 1 = _
      omega
  · rw [List.getElem?_eq_none (by simp only [List.length_append,List.length_singleton]; omega)] at found
    cases found

theorem Edit.journaled {encoding : StoreEncoding} (edit : Edit encoding rows rows')
    (clean : rows'.rawOverwrites = rows.rawOverwrites) (journaled : Journaled encoding rows) :
    Journaled encoding rows' := by
  cases edit with
  | append appended =>
    obtain ⟨transition,_,_,_,_,_,_,appending⟩ := appendTransitionTx_ok appended
    exact append_journaled appending journaled
  | checkpoint => exact journaled
  | @attempt _ stepId =>
    obtain ⟨cursor,scanned,state⟩ := journaled
    refine ⟨cursor,by simpa using scanned,?_⟩
    rw [state,PlanRows.reducer,PlanRows.reducer,stepStates_bump,updateStep_state]
  | overwritePlan => simp at clean
  | overwriteStep => simp at clean

theorem Edit.numbered {encoding : StoreEncoding} (edit : Edit encoding rows rows')
    (numbered : Numbered rows) : Numbered rows' := by
  cases edit with
  | append appended =>
    obtain ⟨transition,_,_,_,_,_,_,appending⟩ := appendTransitionTx_ok appended
    obtain ⟨rows,applied,rfl⟩ := appending.written
    simpa only [Numbered,(applyTransitionTx_same applied).2.2.1] using numbered
  | checkpoint => exact checkpoint_numbered numbered _ rfl
  | attempt => simpa only [Numbered,updateStep_checkpoints] using numbered
  | overwritePlan => exact numbered
  | overwriteStep => simpa only [Numbered,PlanRows.setStep,updateStep_checkpoints] using numbered

-- A sequence of writes after which the history counter stands where it stood.
theorem Edits.journaled {encoding : StoreEncoding} (edits : Edits encoding rows rows')
    (clean : rows'.rawOverwrites = rows.rawOverwrites) (journaled : Journaled encoding rows) :
    Journaled encoding rows' := by
  induction edits with
  | refl => exact journaled
  | @tail middle last prior edit ih =>
    have first := (Edits.same prior).overwrites
    have second := edit.same.overwrites
    exact edit.journaled (by omega) (ih (by omega))

theorem Edits.numbered {encoding : StoreEncoding} (edits : Edits encoding rows rows')
    (numbered : Numbered rows) : Numbered rows' := by
  induction edits with
  | refl => exact numbered
  | tail _ edit ih => exact edit.numbered ih

end Shaka.Plan
