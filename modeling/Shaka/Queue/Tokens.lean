import Shaka.Queue.TextQueries

namespace Shaka.Queue
open Shaka.Core

structure TokenRow where
  tokenId : String
  tokenHash : String
  tokenPrefix : String
  operatorId : String
  expiresAt : Option Time
  revokedAt : Option Time
  lastUsedAt : Option Time
  deriving DecidableEq, Repr

structure UserRow where
  tenantId : String
  role : Role
  active : Bool
  deriving DecidableEq, Repr

-- `api_tokens`, `api_users` by `operator_id` and the `active` column of `api_tenants` by `tenant_id`
structure IdentityStore where
  tokens : List TokenRow
  users : AList fun _ : String => UserRow
  tenants : AList fun _ : String => Bool

inductive AuthSource where
  | token
  | staticApiKey
  deriving DecidableEq, Repr

structure AuthenticatedPrincipal where
  principal : Principal
  tokenId : String
  tokenPrefix : String
  source : AuthSource
  deriving DecidableEq, Repr

-- What the queries over tokens ask of one, joined with its user and its tenant, beside its hash; a token
-- that has no expiry does not pass.
def activeUser (s : IdentityStore) (unexpired : Time → Bool) (token : TokenRow) : Option UserRow := do
  let user ← s.users.lookup token.operatorId
  let tenantActive ← s.tenants.lookup user.tenantId
  if token.revokedAt.isNone && user.active && tenantActive && token.expiresAt.any unexpired then some user
    else none

def findToken (s : IdentityStore) (unexpired : Time → Bool) (tokenHash : String) :
    Option (TokenRow × UserRow) :=
  s.tokens.findSome? fun token =>
    if token.tokenHash = tokenHash then (activeUser s unexpired token).map fun user => (token,user) else none

def markUsed (s : IdentityStore) (tokenHash : String) (now : Time) : IdentityStore :=
  {s with tokens:=s.tokens.map fun token =>
    if token.tokenHash = tokenHash then {token with lastUsedAt:=some now} else token}

def authenticated (token : TokenRow) (user : UserRow) : Except QueueError AuthenticatedPrincipal := do
  let operatorId ← liftCore (OperatorId.new token.operatorId)
  let tenantId ← liftCore (TenantId.new user.tenantId)
  pure ⟨⟨operatorId,tenantId,user.role⟩,token.tokenId,token.tokenPrefix,.token⟩

-- The use of a token is recorded before its principal is read.
def authenticateBy (unexpired : Time → Bool) (sha256Hex : String → String) (s : IdentityStore)
    (token : String) (now : Time) : Except QueueError AuthenticatedPrincipal × IdentityStore :=
  if blank token || token.utf8ByteSize > 512 then (.error .unauthorized,s)
  else match findToken s unexpired (sha256Hex token) with
    | none => (.error .unauthorized,s)
    | some (row,user) => (authenticated row user,markUsed s (sha256Hex token) now)

-- `t.expires_at > ?2`
def authenticateToken (sha256Hex : String → String) (s : IdentityStore) (token : String) (now : Time) :
    Except QueueError AuthenticatedPrincipal × IdentityStore :=
  authenticateBy (fun expiresAt => textAfter expiresAt now) sha256Hex s token now

def hasActiveTokens (s : IdentityStore) (now : Time) : Bool :=
  s.tokens.any fun token => (activeUser s (fun expiresAt => textAfter expiresAt now) token).isSome

theorem activeUser_congr (s : IdentityStore) {unexpired valid : Time → Bool} {token : TokenRow}
    (same : ∀ expiresAt ∈ token.expiresAt, unexpired expiresAt = valid expiresAt) :
    activeUser s unexpired token = activeUser s valid token := by
  have expiry : token.expiresAt.any unexpired = token.expiresAt.any valid := by
    cases held : token.expiresAt with
    | none => rfl
    | some expiresAt => exact same expiresAt held
  unfold activeUser
  rw [expiry]

theorem findToken_congr {s : IdentityStore} {unexpired valid : Time → Bool} (tokenHash : String)
    (same : ∀ token ∈ s.tokens, ∀ expiresAt ∈ token.expiresAt, unexpired expiresAt = valid expiresAt) :
    findToken s unexpired tokenHash = findToken s valid tokenHash := by
  unfold findToken
  generalize s.tokens = tokens at same ⊢
  induction tokens with
  | nil => rfl
  | cons token rest ih =>
    have first := activeUser_congr s (same token List.mem_cons_self)
    rw [List.findSome?_cons,List.findSome?_cons,first,ih fun token listed =>
      same token (List.mem_cons_of_mem _ listed)]

end Shaka.Queue
