import Shaka.Properties.GatewayRetries

namespace Shaka.Properties
open Shaka.Core Queue Api GuardedRuns

variable {encoding : ApiEncoding} {server : Server} {who : Principal} {headers : CorrelationHeaders}
  {drawn : String}

theorem requestIdOf_valid (random : IsCorrelationId drawn) : IsCorrelationId (requestIdOf headers drawn) := by
  unfold requestIdOf
  cases named : headers.requestId.filter fun value => decide (IsCorrelationId value) with
  | none => exact random
  | some value => exact of_decide_eq_true (Option.filter_eq_some_iff.mp named).2

theorem requestIdOf_given {value : String} (given : headers.requestId = some value)
    (random : IsCorrelationId drawn) : requestIdOf headers drawn = value ↔ IsCorrelationId value := by
  constructor
  · intro same
    exact same ▸ requestIdOf_valid random
  · intro valid
    simp only [requestIdOf,given,Option.filter_some,decide_eq_true_eq,if_pos valid,Option.getD_some]

theorem requestIdOf_again (random : IsCorrelationId drawn) {trace : Option String} {drawn' : String} :
    requestIdOf ⟨some (requestIdOf headers drawn),trace⟩ drawn' = requestIdOf headers drawn := by
  simp only [requestIdOf,Option.filter_some,decide_eq_true_eq]
  exact congrArg (Option.getD · drawn') (if_pos (requestIdOf_valid random))

theorem validateOptionalId_valid {field : String} {value : Option String}
    (valid : ∀ id ∈ value, IsCorrelationId id) : validateOptionalId field value = .ok value := by
  cases value with
  | none => rfl
  | some id =>
    simp only [validateOptionalId,validated (valid id rfl)]
    rfl

theorem spanContext_valid {context : CorrelationContext} {sessionId taskId : Option String}
    (session : ∀ id ∈ sessionId, IsCorrelationId id) (task : ∀ id ∈ taskId, IsCorrelationId id) :
    spanContext context sessionId taskId = {context with sessionId:=sessionId,taskId:=taskId} := by
  simp only [spanContext,CorrelationContext.withSessionId,CorrelationContext.withTaskId,
    validateOptionalId_valid session,validateOptionalId_valid task]
  rfl

-- The context of a request and of the spans within it.
structure Followed (headers : CorrelationHeaders) (context : CorrelationContext) : Prop where
  requestId : IsCorrelationId context.requestId
  supplied : ∀ value, headers.requestId = some value → (context.requestId = value ↔ IsCorrelationId value)
  traced : ∀ traceId spanId, context.traceId = some traceId ∧ context.spanId = some spanId ↔
    ∃ version trace span flags, headers.traceparent = some (dashed version trace span flags) ∧
      IsTraceparent version trace span flags ∧ traceId = asciiLower trace ∧ spanId = asciiLower span
  paired : context.traceId.isSome = context.spanId.isSome
  spans : ∀ sessionId taskId : Option String, (∀ id ∈ sessionId, IsCorrelationId id) →
    (∀ id ∈ taskId, IsCorrelationId id) →
    spanContext context sessionId taskId = {context with sessionId:=sessionId,taskId:=taskId}
  named : ∀ id, context.traceId = some id ∨ context.spanId = some id → IsCorrelationId id
  repeated : ∀ traceparent drawn other,
    (correlationFromRequest ⟨some context.requestId,traceparent⟩ drawn other).requestId = context.requestId

-- A request is known by the identifier that it brings, if it may be one, and by one of its own otherwise;
-- its trace is the one of its traceparent just when that is well formed; and a request that brings the
-- identifier again is known by it.
theorem correlation_identified (headers : CorrelationHeaders) (drawn other : String)
    (random : IsCorrelationId drawn) : Followed headers (correlationFromRequest headers drawn other) := by
  rw [correlation_parts]
  refine ⟨requestIdOf_valid random,fun value given => requestIdOf_given given random,fun traceId spanId =>
    ?_,?_,
    fun _ _ session task => spanContext_valid session task,fun id given =>
    ?_,fun traceparent drawn' other' => ?_⟩
  · simp only [Option.map_eq_some_iff]
    constructor
    · rintro ⟨⟨ids,found,rfl⟩,ids',found',rfl⟩
      obtain rfl := Option.some.inj (found.symm.trans found')
      obtain ⟨text,given,parsed⟩ := Option.bind_eq_some_iff.mp found
      obtain ⟨version,trace,span,flags,rfl,form,same⟩ := parseTraceparent_some.mp parsed
      exact ⟨version,trace,span,flags,given,form,same⟩
    · rintro ⟨version,trace,span,flags,given,form,same⟩
      have parsed := parseTraceparent_some.mpr ⟨version,trace,span,flags,rfl,form,same⟩
      have found : headers.traceparent.bind parseTraceparent = some (traceId,spanId) := by
        rw [given]
        exact parsed
      exact ⟨⟨_,found,rfl⟩,_,found,rfl⟩
  · rw [Option.isSome_map,Option.isSome_map]
  · simp only [Option.map_eq_some_iff] at given
    rcases given with ⟨ids,found,rfl⟩ | ⟨ids,found,rfl⟩
    · obtain ⟨_,_,parsed⟩ := Option.bind_eq_some_iff.mp found
      exact (parseTraceparent_ids parsed).1.correlationId (by decide)
    · obtain ⟨_,_,parsed⟩ := Option.bind_eq_some_iff.mp found
      exact (parseTraceparent_ids parsed).2.correlationId (by decide)
  · rw [correlation_parts]
    exact requestIdOf_again random

theorem correlation_identified_traced :
    Followed ⟨some "desk 7",some "00-4BF92F3577B34DA6A3CE929D0E0E4736-00F067AA0BA902B7-01"⟩
    (correlationFromRequest ⟨some "desk 7",some "00-4BF92F3577B34DA6A3CE929D0E0E4736-00F067AA0BA902B7-01"⟩
      "01234567-89ab-4cde-8f01-23456789abcd" "") :=
  correlation_identified _ _ _ (by decide)

-- The worker runs a task under the identifier of the request that submitted it, however much later.
theorem correlation_followed {key : String} {body : SubmitBody} {request : HttpRequest}
    {moment : RequestMoment} {task : TaskResponse} {site later : Site} {other : String}
    (random : IsCorrelationId drawn)
    (received : request.requestId = (correlationFromRequest headers drawn other).requestId)
    (first : FirstSubmission encoding server who key body request moment task site later) :
    ∃ row, later.queue.tasks.lookup task.taskId = some row ∧
      (∀ spare, workerCorrelation encoding.uuidText row spare = .new request.requestId) ∧
      ∀ value, headers.requestId = some value → IsCorrelationId value →
        row.envelope.executionContext.provenance.requestId = some value := by
  obtain ⟨row,remembered⟩ := first_remembered first
  rw [correlation_parts] at received
  have named : request.requestId = requestIdOf headers drawn := received
  refine ⟨row,remembered.stored,fun spare => ?_,fun value given valid => ?_⟩
  · have valid : IsCorrelationId request.requestId := named ▸ requestIdOf_valid random
    simp only [workerCorrelation,remembered.correlated,Option.bind_some,withRequestId_valid valid]
    rfl
  · rw [remembered.correlated,named,(requestIdOf_given given random).mpr valid]

theorem correlation_followed_cancelled : ∃ row, cancelledSite.queue.tasks.lookup ⟨70⟩ = some row ∧
    (∀ spare, workerCorrelation siteEncoding.uuidText row spare = .new "request") ∧
    ∀ value, some "request" = some value → IsCorrelationId value →
      row.envelope.executionContext.provenance.requestId = some value := by
  obtain ⟨task,first,named⟩ := cancelled_first
  have random : IsCorrelationId "01234567-89ab-4cde-8f01-23456789abcd" := by decide
  have received : liveTask.requestId = (correlationFromRequest ⟨some "request",none⟩
      "01234567-89ab-4cde-8f01-23456789abcd" "").requestId := by decide +kernel
  have followed := correlation_followed random received first
  rw [named] at followed
  exact followed

end Shaka.Properties
