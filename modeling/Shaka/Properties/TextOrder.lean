import Shaka.Queue.Tokens
import Shaka.Store.Runs

namespace Shaka.Properties
open Shaka.Core Queue Store

-- The queries over texts choose the same rows, in the same order, as the times behind them.
theorem claimCandidatesByText_dated {s : QueueStore} {now : Time}
    (dated : ∀ task ∈ s.taskRows, DatedTask task) (current : Dated now) :
    claimCandidatesByText s now = claimCandidates s now := by
  have chosen : s.taskRows.filter (dueByText now) = s.taskRows.filter (isDue now) :=
    List.filter_congr fun task listed => dueByText_dated (dated task listed) current
  have sorted := List.map_insertionSort claimOrderByText claimOrder id (s.taskRows.filter (isDue now))
    fun left listed right listed' => by
      have left_dated := (dated left (List.mem_of_mem_filter listed)).createdAt
      have right_dated := (dated right (List.mem_of_mem_filter listed')).createdAt
      simp only [claimOrderByText,claimOrder,textAtMost_dated left_dated right_dated,decide_eq_true_iff,id]
  rw [List.map_id,List.map_id] at sorted
  rw [claimCandidatesByText,claimCandidates,chosen,sorted]

theorem recoveryCandidatesByText_dated {s : QueueStore} {now : Time}
    (dated : ∀ task ∈ s.taskRows, DatedTask task) (current : Dated now) :
    recoveryCandidatesByText s now = recoveryCandidates s now := by
  have chosen : s.taskRows.filter (expiredByText now) = s.taskRows.filter (isExpired now) :=
    List.filter_congr fun task listed => expiredByText_dated (dated task listed) current
  have sorted := List.map_insertionSort (fun left right : TaskRecord =>
    textAtMost left.updatedAt right.updatedAt = true)
    (fun left right => left.updatedAt ≤ right.updatedAt) id (s.taskRows.filter (isExpired now))
    fun left listed right listed' => by
      have left_dated := (dated left (List.mem_of_mem_filter listed)).updatedAt
      have right_dated := (dated right (List.mem_of_mem_filter listed')).updatedAt
      simp only [textAtMost_dated left_dated right_dated,decide_eq_true_iff,id]
  rw [List.map_id,List.map_id] at sorted
  rw [recoveryCandidatesByText,recoveryCandidates,chosen,sorted]

-- A store of tokens whose expiries are written with years of four digits.
def DatedTokens (s : IdentityStore) : Prop := ∀ token ∈ s.tokens, ∀ expiresAt ∈ token.expiresAt,
    Dated expiresAt

theorem authenticateToken_dated {sha256Hex : String → String} {s : IdentityStore} {token : String}
    {now : Time} (dated : DatedTokens s) (current : Dated now) :
    authenticateToken sha256Hex s token now = authenticateBy (fun expiresAt =>
      now < expiresAt) sha256Hex s token now := by
  have found : findToken s (fun expiresAt => textAfter expiresAt now) (sha256Hex token) =
      findToken s (fun expiresAt => decide (now < expiresAt)) (sha256Hex token) :=
      findToken_congr (sha256Hex token)
    fun row listed expiresAt held => textAfter_dated (dated row listed expiresAt held) current
  unfold authenticateToken authenticateBy
  rw [found]

-- The texts of two instants are in the order of the instants, byte by byte, and the decisions that
-- compare the stored texts with the text of the present are those of the times themselves: the tasks
-- that a claim looks at, the leases that a recovery ends and the tokens that are let in.
theorem texts_keep_time (s : QueueStore) (identities : IdentityStore) (sha256Hex : String → String)
    (token : String) (now : Time) : (∀ left right : Instant, left.FourDigits → right.FourDigits →
      textOrder (toRfc3339 left) (toRfc3339 right) = compare left right) ∧
    (Dated now → (∀ task ∈ s.taskRows, DatedTask task) → claimCandidatesByText s now = claimCandidates s now ∧
      recoveryCandidatesByText s now = recoveryCandidates s now) ∧
    (Dated now → DatedTokens identities → authenticateToken sha256Hex identities token now =
      authenticateBy (fun expiresAt => now < expiresAt) sha256Hex identities token now) := by
  refine ⟨fun left right four four' => timestamps_compare four four',fun current dated => ⟨?_,?_⟩,
    fun current dated => ?_⟩
  · exact claimCandidatesByText_dated dated current
  · exact recoveryCandidatesByText_dated dated current
  · exact authenticateToken_dated dated current

def datedRequest : SubmitRequest :=
  ⟨0,trialAdmin,"task","fingerprint",⟨⟨1⟩,trialAdmin.tenantId,trialAdmin.operatorId,.default,true,
    .fromPrincipal trialAdmin⟩,0,1,none,none⟩

def datedStore : QueueStore := {QueueStore.empty with
  tasks:=AList.singleton ⟨1⟩ (newTask datedRequest datedRequest.envelope 1500000000)}

def datedTokens : IdentityStore where
  tokens := [⟨"tok","hash","shk_","operator",some 1500000000,none,none⟩]
  users := AList.singleton "operator" ⟨"tenant",.administrator,true⟩
  tenants := AList.singleton "tenant" true

-- A task that is due, and a token that expires, half a second after a time without a fraction.
theorem texts_keep_time_fraction :
    textOrder (toRfc3339 (.ofTime 1000000000)) (toRfc3339 (.ofTime 1500000000)) = .lt ∧
    claimCandidatesByText datedStore 1000000000 = claimCandidates datedStore 1000000000 ∧
    recoveryCandidatesByText datedStore 1000000000 = recoveryCandidates datedStore 1000000000 ∧
    authenticateToken (fun _ => "hash") datedTokens "shk" 1000000000 =
      authenticateBy (fun expiresAt => (1000000000 : Int) < expiresAt) (fun _ =>
        "hash") datedTokens "shk" 1000000000 := by
  have row : ∀ task ∈ datedStore.taskRows, DatedTask task := by
    intro task listed
    obtain rfl :=
      List.mem_singleton.mp (show task ∈ [newTask datedRequest datedRequest.envelope 1500000000] from listed)
    exact ⟨by decide,fun leaseUntil held => (Option.not_mem_none leaseUntil held).elim,by decide,by decide⟩
  have expiry : DatedTokens datedTokens := by
    intro token listed expiresAt held
    obtain rfl := List.mem_singleton.mp listed
    obtain rfl := Option.some.inj held
    decide
  obtain ⟨order,queries,tokens⟩ := texts_keep_time datedStore datedTokens (fun _ => "hash") "shk" 1000000000
  obtain ⟨claims,recoveries⟩ := queries (by decide) row
  refine ⟨?_,claims,recoveries,tokens (by decide) expiry⟩
  rw [order (.ofTime 1000000000) (.ofTime 1500000000) (by decide) (by decide)]
  decide

end Shaka.Properties
