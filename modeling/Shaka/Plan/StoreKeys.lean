import Shaka.Core.PlanSpec
import Shaka.Library.PrefixCode

namespace Shaka.Plan
open Shaka.Core

-- The idempotency keys that the store makes up for its own transitions. Each
-- is a fixed stem, followed by what the transition is about.

inductive PlanMark where
  | admissionProposed
  | admissionValidated
  | admissionApproved
  | finishSucceeded
  | finishFailed
  | cancelRequested
  | cancelCompleted
  | compensated
  deriving DecidableEq, Repr

inductive StepMark where
  | claimPlan
  | cancelled
  | source
  deriving DecidableEq, Repr

inductive AttemptMark where
  | claimReady
  | claimRunning
  | finishSucceeded
  | finishFailed
  | retryReady
  deriving DecidableEq, Repr

inductive KeyKind where
  | plan (mark : PlanMark)
  | step (mark : StepMark)
  | attempt (mark : AttemptMark)
  | planUnknown
  | stepUnknown
  deriving DecidableEq, Repr

def KeyKind.stem : KeyKind → String
  | .plan .admissionProposed => "admission:proposed"
  | .plan .admissionValidated => "admission:validated"
  | .plan .admissionApproved => "admission:approved"
  | .plan .finishSucceeded => "finish:plan:succeeded"
  | .plan .finishFailed => "finish:plan:failed"
  | .plan .cancelRequested => "cancel:plan:requested"
  | .plan .cancelCompleted => "cancel:plan:completed"
  | .plan .compensated => "compensation:plan:compensated"
  | .step .claimPlan => "claim:plan:"
  | .step .cancelled => "cancel:step:"
  | .step .source => "compensation:source:"
  | .attempt .claimReady => "claim:ready:"
  | .attempt .claimRunning => "claim:running:"
  | .attempt .finishSucceeded => "finish:succeeded:"
  | .attempt .finishFailed => "finish:failed:"
  | .attempt .retryReady => "retry:ready:"
  | .planUnknown => "recovery:plan:unknown:"
  | .stepUnknown => "recovery:step:"

def KeyKind.letters (kind : KeyKind) : List Char := kind.stem.toList

def keyKinds : List KeyKind :=
  [.plan .admissionProposed,.plan .admissionValidated,.plan .admissionApproved,.plan .finishSucceeded,
    .plan .finishFailed,.plan .cancelRequested,.plan .cancelCompleted,.plan .compensated,.step .claimPlan,
    .step .cancelled,.step .source,.attempt .claimReady,.attempt .claimRunning,.attempt .finishSucceeded,
    .attempt .finishFailed,.attempt .retryReady,.planUnknown,.stepUnknown]

theorem mem_keyKinds (kind : KeyKind) : kind ∈ keyKinds := by
  cases kind with
  | plan mark => cases mark <;> decide
  | step mark => cases mark <;> decide
  | attempt mark => cases mark <;> decide
  | planUnknown => decide
  | stepUnknown => decide

theorem stems_apart : PrefixCode.Apart KeyKind.letters := by
  have listed : ∀ a ∈ keyKinds, ∀ b ∈ keyKinds, a.letters <+: b.letters → a = b := by decide +kernel
  exact fun a b => listed a (mem_keyKinds a) b (mem_keyKinds b)

inductive StoreKey where
  | plan (mark : PlanMark)
  | step (mark : StepMark) (stepId : PlanStepId)
  | attempt (mark : AttemptMark) (stepId : PlanStepId) (attempts : Nat)
  | planUnknown (time : Time)
  | stepUnknown (stepId : PlanStepId) (time : Time)
  deriving DecidableEq, Repr

def StoreKey.text (encoding : Encoding) : StoreKey → String
  | .plan mark => (KeyKind.plan mark).stem
  | .step mark stepId => (KeyKind.step mark).stem ++ stepId.text
  | .attempt mark stepId attempts => (KeyKind.attempt mark).stem ++ stepId.text ++ ":" ++ toString attempts
  | .planUnknown time => KeyKind.planUnknown.stem ++ encoding.rfc3339 time
  | .stepUnknown stepId time =>
    KeyKind.stepUnknown.stem ++ stepId.text ++ ":unknown:" ++ encoding.rfc3339 time

def StoreKey.kind : StoreKey → KeyKind
  | .plan mark => .plan mark
  | .step mark _ => .step mark
  | .attempt mark _ _ => .attempt mark
  | .planUnknown _ => .planUnknown
  | .stepUnknown _ _ => .stepUnknown

def StoreKey.body (encoding : Encoding) : StoreKey → List Char
  | .plan _ => []
  | .step _ stepId => stepId.text.toList
  | .attempt _ stepId attempts => stepId.text.toList ++ ':' :: Nat.toDigits 10 attempts
  | .planUnknown time => (encoding.rfc3339 time).toList
  | .stepUnknown stepId time =>
    stepId.text.toList ++ ':' :: "unknown:".toList ++ (encoding.rfc3339 time).toList

theorem text_letters (encoding : Encoding) (key : StoreKey) :
    (key.text encoding).toList = key.kind.letters ++ key.body encoding := by
  cases key with
  | plan mark => simp [StoreKey.text,StoreKey.kind,StoreKey.body,KeyKind.letters]
  | step mark stepId => simp [StoreKey.text,StoreKey.kind,StoreKey.body,KeyKind.letters]
  | attempt mark stepId attempts =>
    simp [StoreKey.text,StoreKey.kind,StoreKey.body,KeyKind.letters,Nat.toString_eq_repr,Nat.toList_repr]
  | planUnknown time => simp [StoreKey.text,StoreKey.kind,StoreKey.body,KeyKind.letters]
  | stepUnknown stepId time => simp [StoreKey.text,StoreKey.kind,StoreKey.body,KeyKind.letters]

-- A step identifier that the validation accepts has no delimiter in it.
def Plain (stepId : PlanStepId) : Prop := ':' ∉ stepId.text.toList

def StoreKey.PlainStep : StoreKey → Prop
  | .plan _ | .planUnknown _ => True
  | .step _ stepId | .attempt _ stepId _ | .stepUnknown stepId _ => Plain stepId

theorem validatePlanKey_plain {stepId : PlanStepId} {field : String} {u : Unit}
    (valid : validatePlanKey stepId.text field = .ok u) : Plain stepId := by
  unfold validatePlanKey at valid
  split at valid
  · cases valid
  · next shape =>
    simp only [Bool.or_eq_true,Bool.not_eq_true',not_or,Bool.not_eq_false,List.all_eq_true] at shape
    intro colon
    exact absurd (shape.2 ':' colon) (by decide)

theorem digits_injective {a b : Nat} (same : Nat.toDigits 10 a = Nat.toDigits 10 b) : a = b := by
  rw [← Nat.ofDigitChars_ten_toDigits (n := a),same,Nat.ofDigitChars_ten_toDigits]

theorem stepId_letters {a b : PlanStepId} (same : a.text.toList = b.text.toList) : a = b := by
  cases a; cases b
  exact congrArg _ (String.toList_inj.mp same)

-- The instant in a key, where there is one.
def StoreKey.time? : StoreKey → Option Time
  | .planUnknown time | .stepUnknown _ time => some time
  | .plan _ | .step _ _ | .attempt _ _ _ => none

-- Keys of the store with the same text are the same key, when texts tell instants apart.
theorem text_injective {encoding : Encoding} {a b : StoreKey}
    (clock : ∀ time ∈ a.time?, ∀ other, encoding.rfc3339 time = encoding.rfc3339 other → time = other)
    (plain : a.PlainStep) (plain' : b.PlainStep) (same : a.text encoding = b.text encoding) : a = b := by
  have letters := congrArg String.toList same
  rw [text_letters,text_letters] at letters
  obtain ⟨kind,body⟩ := stems_apart.unique letters
  cases a <;> cases b <;> simp only [StoreKey.kind,KeyKind.plan.injEq,KeyKind.step.injEq,
    KeyKind.attempt.injEq,reduceCtorEq] at kind
  case plan.plan => rw [kind]
  case step.step => rw [kind,stepId_letters body]
  case attempt.attempt =>
    obtain ⟨step,count⟩ := PrefixCode.field_unique plain plain' body
    rw [kind,stepId_letters step,digits_injective count]
  case planUnknown.planUnknown => rw [clock _ rfl _ (String.toList_inj.mp body)]
  case stepUnknown.stepUnknown =>
    simp only [StoreKey.body,List.append_assoc,List.cons_append] at body
    obtain ⟨step,tail⟩ := PrefixCode.field_unique plain plain' body
    rw [stepId_letters step,clock _ rfl _ (String.toList_inj.mp (List.append_cancel_left tail))]

end Shaka.Plan
