import Shaka.Queue.Operations

namespace Shaka.Api
open Shaka.Core Queue CheckedSteps

inductive ApiError where
  | badRequest (detail : String)
  deriving DecidableEq, Repr

-- The fields of the configuration that its validation reads.
structure ApiConfig where
  workerCount : Nat
  apiKey : Option String
  leaseFor : Time
  retryBaseDelay : Time
  retryMaxDelay : Time
  deriving DecidableEq, Repr

def ApiConfig.default : ApiConfig :=
  ⟨2,none,60 * nanosPerSecond,250 * nanosPerMilli,30 * nanosPerSecond⟩

def ApiConfig.validate (config : ApiConfig) : Except ApiError Unit := do
  require (config.workerCount ≠ 0 ∧
    config.workerCount ≤ 32) (.badRequest "worker_count deve estar entre 1 e 32")
  require (0 < config.leaseFor ∧ 0 ≤ config.retryBaseDelay ∧ config.retryBaseDelay ≤ config.retryMaxDelay)
    (.badRequest "política de tempo da API é inválida")
  require (∀ value ∈ config.apiKey, blank value = false) (.badRequest "SHAKA_API_KEY não pode ser vazia")

-- The time that a budget allows for one run of its task.
def elapsedLimit (budget : ExecutionBudget) : Time := budget.maxElapsedMs * nanosPerMilli

end Shaka.Api
