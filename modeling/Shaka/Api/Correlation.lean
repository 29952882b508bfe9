import Mathlib.Data.List.Basic
import Shaka.Queue.Records

namespace Shaka.Api
open Shaka.Core Queue CheckedSteps

-- The identifiers that a request is followed by.

inductive TelemetryError where
  | invalidCorrelationId (field : String)
  deriving DecidableEq, Repr

def isCorrelationChar (c : Char) : Bool := c.isAlphanum || c == '-' || c == '_' || c == '.' || c == '~'

-- A text that may stand for a request, a trace, a task or a session.
def IsCorrelationId (value : String) : Prop :=
  value ≠ "" ∧ value.utf8ByteSize ≤ 128 ∧ value.toList.all isCorrelationChar = true

instance (value : String) : Decidable (IsCorrelationId value) :=
  inferInstanceAs (Decidable (value ≠ "" ∧ value.utf8ByteSize ≤ 128 ∧
    value.toList.all isCorrelationChar = true))

def validateCorrelationId (field value : String) : Except TelemetryError String := do
  require (IsCorrelationId value) (.invalidCorrelationId field)
  pure value

def validateOptionalId (field : String) (value : Option String) : Except TelemetryError (Option String) :=
  match value with
  | none => pure none
  | some value => do
    let value ← validateCorrelationId field value
    pure (some value)

structure CorrelationContext where
  requestId : String
  traceId : Option String
  spanId : Option String
  taskId : Option String
  sessionId : Option String
  deriving DecidableEq, Repr

namespace CorrelationContext

-- `drawn` is the text of a random identifier.
def new (drawn : String) : CorrelationContext := ⟨drawn,none,none,none,none⟩

def withRequestId (requestId : String) : Except TelemetryError CorrelationContext := do
  let requestId ← validateCorrelationId "request_id" requestId
  pure (new requestId)

def withTraceIds (context : CorrelationContext) (traceId spanId : Option String) :
    Except TelemetryError CorrelationContext := do
  let traceId ← validateOptionalId "trace_id" traceId
  let spanId ← validateOptionalId "span_id" spanId
  pure {context with traceId:=traceId,spanId:=spanId}

def withTaskId (context : CorrelationContext) (taskId : Option String) :
    Except TelemetryError CorrelationContext := do
  let taskId ← validateOptionalId "task_id" taskId
  pure {context with taskId:=taskId}

def withSessionId (context : CorrelationContext) (sessionId : Option String) :
    Except TelemetryError CorrelationContext := do
  let sessionId ← validateOptionalId "session_id" sessionId
  pure {context with sessionId:=sessionId}

end CorrelationContext

def asciiLower (text : String) : String := String.ofList (text.toList.map Char.toLower)

def allHex (text : String) : Bool := text.toList.all isAsciiHexDigit

def allZero (text : String) : Bool := text.toList.all (· == '0')

def parseTraceparent (value : String) : Option (String × String) :=
  match (value.toList.splitOn '-').map String.ofList with
  | [version,traceId,spanId,flags] =>
    if version.utf8ByteSize ≠ 2 ∨ asciiLower version = "ff" ∨ traceId.utf8ByteSize ≠ 32 ∨
        spanId.utf8ByteSize ≠ 16 ∨
        flags.utf8ByteSize ≠ 2 ∨ ¬ allHex version ∨ ¬ allHex traceId ∨ ¬ allHex spanId ∨ ¬ allHex flags ∨
        allZero traceId ∨ allZero spanId then none
    else some (asciiLower traceId,asciiLower spanId)
  | _ => none

-- The header fields that the context is taken from; a value that is not text counts as absent.
structure CorrelationHeaders where
  requestId : Option String
  traceparent : Option String

-- The two texts are those of random identifiers, drawn where no other is to be had.
def correlationFromRequest (headers : CorrelationHeaders) (drawn other : String) : CorrelationContext :=
  let context := (headers.requestId.bind fun value =>
    (CorrelationContext.withRequestId value).toOption).getD (.new drawn)
  match headers.traceparent.bind parseTraceparent with
  | none => context
  | some (traceId,spanId) => (context.withTraceIds (some traceId) (some spanId)).toOption.getD (.new other)

-- The context of the span of an operation, within the context that is active.
def spanContext (active : CorrelationContext) (sessionId taskId : Option String) : CorrelationContext :=
  let context := (active.withSessionId sessionId).toOption.getD active
  (context.withTaskId taskId).toOption.getD context

-- The context that a worker runs a task in.
def workerCorrelation (uuidText : Uuid → String) (task : TaskRecord) (drawn : String) : CorrelationContext :=
  (task.envelope.executionContext.provenance.requestId.bind fun requestId =>
    (CorrelationContext.withRequestId requestId).toOption).getD
      ((CorrelationContext.withRequestId s!"task-{uuidText task.taskId.uuid}").toOption.getD (.new drawn))

variable {value : String}

theorem validateCorrelationId_ok {field answer : String} :
    validateCorrelationId field value = .ok answer ↔ IsCorrelationId value ∧ value = answer := by
  simp only [validateCorrelationId,bind_ok,require_ok,pure_ok,exists_const]

theorem validated {field : String} (valid : IsCorrelationId value) :
    validateCorrelationId field value = .ok value :=
  validateCorrelationId_ok.mpr ⟨valid,rfl⟩

theorem withRequestId_valid (valid : IsCorrelationId value) :
    CorrelationContext.withRequestId value = .ok (.new value) := by
  rw [CorrelationContext.withRequestId,validated valid]
  rfl

theorem withRequestId_invalid (invalid : ¬ IsCorrelationId value) :
    CorrelationContext.withRequestId value = .error (.invalidCorrelationId "request_id") := by
  rw [CorrelationContext.withRequestId,validateCorrelationId,require_error.mpr ⟨invalid,rfl⟩]
  rfl

-- What is said of the characters of an identifier is said of few characters.
theorem alphabet {P : Char → Prop} {c : Char} (few : c.toNat < 128) (all : ∀ n < 128, P (Char.ofNat n)) :
    P c := by
  have one := all c.toNat few
  rwa [Char.ofNat_toNat] at one

theorem hex_small {c : Char} (hex : isAsciiHexDigit c = true) : c.toNat < 128 := by
  simp only [isAsciiHexDigit,Char.isDigit,Bool.or_eq_true,Bool.and_eq_true,decide_eq_true_eq,Char.le_def,
    UInt32.le_iff_toNat_le,ge_iff_le] at hex
  change c.val.toNat < 128
  have f : 'f'.val.toNat = 102 := rfl
  have upper : 'F'.val.toNat = 70 := rfl
  have nine : '9'.val.toNat = 57 := rfl
  omega

structure LowerHex (c d : Char) : Prop where
  hex : isAsciiHexDigit d = true
  fixed : d.toLower = d
  named : isCorrelationChar d = true
  zero : d = '0' ↔ c = '0'

theorem hex_lower {c : Char} (hex : isAsciiHexDigit c = true) : LowerHex c c.toLower := by
  have all : ∀ n < 128, isAsciiHexDigit (Char.ofNat n) = true →
      isAsciiHexDigit (Char.ofNat n).toLower = true ∧
      (Char.ofNat n).toLower.toLower = (Char.ofNat n).toLower ∧
      isCorrelationChar (Char.ofNat n).toLower = true ∧
      ((Char.ofNat n).toLower = '0' ↔ Char.ofNat n = '0') := by decide +kernel
  obtain ⟨hex',fixed,named,zero⟩ := @alphabet (fun c => isAsciiHexDigit c = true →
    isAsciiHexDigit c.toLower = true ∧
    c.toLower.toLower = c.toLower ∧ isCorrelationChar c.toLower = true ∧
    (c.toLower = '0' ↔ c = '0')) c (hex_small hex) all hex
  exact ⟨hex',fixed,named,zero⟩

theorem hex_char {c : Char} (hex : isAsciiHexDigit c = true) : c.utf8Size = 1 ∧ c ≠ '-' := by
  have all : ∀ n < 128, isAsciiHexDigit (Char.ofNat n) = true → (Char.ofNat n).utf8Size = 1 ∧
      Char.ofNat n ≠ '-' := by
    decide +kernel
  exact @alphabet (fun c => isAsciiHexDigit c = true → c.utf8Size = 1 ∧ c ≠ '-') c (hex_small hex) all hex

theorem alphanum_small {c : Char} (letter : c.isAlphanum = true) : c.toNat < 128 := by
  delta Char.isAlphanum at letter
  delta Char.isAlpha Char.isDigit at letter
  delta Char.isUpper Char.isLower at letter
  simp only [Bool.or_eq_true,Bool.and_eq_true,decide_eq_true_eq,ge_iff_le,UInt32.le_iff_toNat_le] at letter
  change c.val.toNat < 128
  have z : 'z'.val.toNat = 122 := rfl
  have upper : 'Z'.val.toNat = 90 := rfl
  have nine : '9'.val.toNat = 57 := rfl
  omega

theorem correlation_visible {c : Char} (named : isCorrelationChar c = true) : isWhiteSpace c = false := by
  have all : ∀ n < 128, isCorrelationChar (Char.ofNat n) = true → isWhiteSpace (Char.ofNat n) = false := by
    decide +kernel
  refine @alphabet (fun c => isCorrelationChar c = true → isWhiteSpace c = false) c ?_ all named
  simp only [isCorrelationChar,Bool.or_eq_true,beq_iff_eq] at named
  rcases named with (((letter | rfl) | rfl) | rfl) | rfl
  · exact alphanum_small letter
  all_goals decide

theorem allHex_iff {text : String} : allHex text = true ↔ ∀ c ∈ text.toList, isAsciiHexDigit c = true :=
  List.all_eq_true

theorem hex_size {letters : List Char} (hex : ∀ c ∈ letters, isAsciiHexDigit c = true) :
    (String.ofList letters).utf8ByteSize = letters.length := by
  induction letters with
  | nil => rfl
  | cons letter rest ih =>
    have split : String.ofList (letter :: rest) = String.singleton letter ++ String.ofList rest := by
      rw [← String.toList_inj]
      simp
    rw [split,String.utf8ByteSize_append,String.utf8ByteSize_singleton,
      (hex_char (hex letter List.mem_cons_self)).1,
      ih fun c listed => hex c (List.mem_cons_of_mem _ listed),List.length_cons,Nat.add_comm]

-- A text of hexadecimal digits in lower case, some digit of it not zero.
structure TraceId (length : Nat) (text : String) : Prop where
  size : text.utf8ByteSize = length
  hex : allHex text = true
  lower : asciiLower text = text
  positive : allZero text = false

theorem lowered {length : Nat} {text : String} (size : text.utf8ByteSize = length) (hex : allHex text = true)
    (positive : allZero text = false) : TraceId length (asciiLower text) := by
  have digits := allHex_iff.mp hex
  have lower : ∀ d ∈ text.toList.map Char.toLower, isAsciiHexDigit d = true := by
    intro d listed
    obtain ⟨c,member,rfl⟩ := List.mem_map.mp listed
    exact (hex_lower (digits c member)).hex
  have plain := hex_size digits
  rw [String.ofList_toList,size] at plain
  refine ⟨?_,?_,?_,?_⟩
  · rw [asciiLower,hex_size lower,List.length_map]
    exact plain.symm
  · rw [allHex_iff,asciiLower,String.toList_ofList]
    exact lower
  · simp only [asciiLower,String.toList_ofList,List.map_map]
    congr 1
    apply List.map_congr_left
    intro c listed
    exact (hex_lower (digits c listed)).fixed
  · rw [allZero,List.all_eq_false] at positive ⊢
    obtain ⟨c,listed,nonzero⟩ := positive
    rw [asciiLower,String.toList_ofList]
    refine ⟨c.toLower,List.mem_map_of_mem listed,?_⟩
    rw [beq_iff_eq,(hex_lower (digits c listed)).zero]
    rwa [beq_iff_eq] at nonzero

theorem TraceId.correlationId {length : Nat} {text : String} (id : TraceId length text)
    (short : length ≤ 128) : IsCorrelationId text := by
  obtain ⟨size,hex,lower,positive⟩ := id
  have digits := allHex_iff.mp hex
  refine ⟨?_,size ▸ short,?_⟩
  · rintro rfl
    exact absurd positive (by decide)
  · rw [← lower,asciiLower,String.toList_ofList,List.all_map]
    apply List.all_eq_true.mpr
    intro c listed
    exact (hex_lower (digits c listed)).named

-- A text in four parts, as the header has to be.
def dashed (version traceId spanId flags : String) : String :=
  version ++ "-" ++ traceId ++ "-" ++ spanId ++ "-" ++ flags

structure IsTraceparent (version traceId spanId flags : String) : Prop where
  sizes : version.utf8ByteSize = 2 ∧ traceId.utf8ByteSize = 32 ∧ spanId.utf8ByteSize = 16 ∧
    flags.utf8ByteSize = 2
  known : asciiLower version ≠ "ff"
  hex : allHex version = true ∧ allHex traceId = true ∧ allHex spanId = true ∧ allHex flags = true
  positive : allZero traceId = false ∧ allZero spanId = false

theorem parts_dashed {version traceId spanId flags : List Char}
    (plain : ∀ part ∈ [version,traceId,spanId,flags], '-' ∉ part) :
    (dashed (String.ofList version) (String.ofList traceId) (String.ofList spanId)
      (String.ofList flags)).toList.splitOn '-' = [version,traceId,spanId,flags] := by
  have joined : (dashed (String.ofList version) (String.ofList traceId) (String.ofList spanId)
      (String.ofList flags)).toList = ['-'].intercalate [version,traceId,spanId,flags] := by
    simp [dashed,List.intercalate]
  rw [joined]
  exact List.splitOn_intercalate '-' plain (List.cons_ne_nil _ _)

theorem parts_of {version traceId spanId flags : List Char}
    (split : value.toList.splitOn '-' = [version,traceId,spanId,flags]) :
    value = dashed (String.ofList version) (String.ofList traceId) (String.ofList spanId)
      (String.ofList flags) := by
  have joined := @List.intercalate_splitOn _ value.toList _ _ '-'
  rw [split] at joined
  rw [← String.toList_inj,← joined]
  simp [dashed,List.intercalate]

theorem hex_plain {text : String} (hex : allHex text = true) : '-' ∉ text.toList :=
  fun listed => (hex_char (allHex_iff.mp hex '-' listed)).2 rfl

-- The parser answers just for the texts of that form.
theorem parseTraceparent_some {traceId spanId : String} : parseTraceparent value = some (traceId,spanId) ↔
    ∃ version trace span flags, value = dashed version trace span flags ∧
    IsTraceparent version trace span flags ∧ traceId = asciiLower trace ∧ spanId = asciiLower span := by
  constructor
  · intro parsed
    unfold parseTraceparent at parsed
    split at parsed
    · next version trace span flags split =>
      split at parsed
      · cases parsed
      · next accepted =>
        obtain ⟨letters,whole,texts⟩ : ∃ letters, value.toList.splitOn '-' = letters ∧
            letters.map String.ofList = [version,trace,span,flags] := ⟨_,rfl,split⟩
        match letters,texts with
        | [_,_,_,_],rfl =>
          simp only [not_or,not_not,Bool.not_eq_true,Bool.not_eq_false] at accepted
          obtain ⟨size,known,size',size'',size3,hex,hex',hex'',hex3,zero,zero'⟩ := accepted
          simp only [Option.some.injEq,Prod.mk.injEq] at parsed
          exact ⟨_,_,_,_,parts_of whole,⟨⟨size,size',size'',size3⟩,known,⟨hex,hex',hex'',hex3⟩,zero,zero'⟩,
            parsed.1.symm,parsed.2.symm⟩
    · cases parsed
  · rintro ⟨version,trace,span,flags,rfl,form,rfl,rfl⟩
    have parts := @parts_dashed version.toList trace.toList span.toList flags.toList
    obtain ⟨⟨size,size',size'',size3⟩,known,⟨hex,hex',hex'',hex3⟩,zero,zero'⟩ := form
    simp only [String.ofList_toList] at parts
    rw [parseTraceparent,parts]
    · simp only [List.map_cons,List.map_nil,String.ofList_toList]
      rw [if_neg]
      simp [size,size',size'',size3,known,hex,hex',hex'',hex3,zero,zero']
    · intro part listed
      simp only [List.mem_cons,List.not_mem_nil,or_false] at listed
      rcases listed with rfl | rfl | rfl | rfl
      · exact hex_plain hex
      · exact hex_plain hex'
      · exact hex_plain hex''
      · exact hex_plain hex3

theorem parseTraceparent_ids {traceId spanId : String}
    (parsed : parseTraceparent value = some (traceId,spanId)) :
    TraceId 32 traceId ∧ TraceId 16 spanId := by
  obtain ⟨_,trace,span,_,_,form,rfl,rfl⟩ := parseTraceparent_some.mp parsed
  exact ⟨lowered form.sizes.2.1 form.hex.2.1 form.positive.1,
    lowered form.sizes.2.2.1 form.hex.2.2.1 form.positive.2⟩

-- The identifier that a request is known by.
def requestIdOf (headers : CorrelationHeaders) (drawn : String) : String :=
  (headers.requestId.filter fun value => decide (IsCorrelationId value)).getD drawn

theorem named_context (headers : CorrelationHeaders) (drawn : String) :
    (headers.requestId.bind fun value => (CorrelationContext.withRequestId value).toOption).getD
      (.new drawn) = .new (requestIdOf headers drawn) := by
  unfold requestIdOf
  cases headers.requestId with
  | none => rfl
  | some value =>
    by_cases valid : IsCorrelationId value
    · simp [withRequestId_valid valid,valid,Except.toOption,Option.filter]
    · simp [withRequestId_invalid valid,valid,Except.toOption,Option.filter]

theorem withTraceIds_valid {context : CorrelationContext} {traceId spanId : String}
    (trace : IsCorrelationId traceId) (span : IsCorrelationId spanId) :
    context.withTraceIds (some traceId) (some spanId) =
      .ok {context with traceId:=some traceId,spanId:=some spanId} := by
  simp only [CorrelationContext.withTraceIds,validateOptionalId,validated trace,validated span]
  rfl

-- A context is what its two headers make it, each for itself: no traceparent costs a request its identifier.
theorem correlation_parts (headers : CorrelationHeaders) (drawn other : String) :
    correlationFromRequest headers drawn other =
      {CorrelationContext.new (requestIdOf headers drawn) with
        traceId:=(headers.traceparent.bind parseTraceparent).map (·.1)
        spanId:=(headers.traceparent.bind parseTraceparent).map (·.2)} := by
  unfold correlationFromRequest
  rw [named_context]
  cases parsed : headers.traceparent.bind parseTraceparent with
  | none => rfl
  | some ids =>
    obtain ⟨traceId,spanId⟩ := ids
    obtain ⟨text,_,read⟩ := Option.bind_eq_some_iff.mp parsed
    obtain ⟨trace,span⟩ := parseTraceparent_ids read
    simp only [withTraceIds_valid (trace.correlationId (by decide)) (span.correlationId (by decide))]
    rfl

end Shaka.Api
