import Shaka.Library.KeptState
import Shaka.Queue.Operations
import Shaka.Queue.Tokens

namespace Shaka.Queue
open Shaka.Core CheckedSteps KeptState

-- One database: the tables of the queue, those of the identities, and the column `display_name` of
-- `api_tenants`.
structure Database where
  queue : QueueStore
  identities : IdentityStore
  names : AList fun _ : String => String

def Database.empty : Database := ⟨.empty,⟨[],∅,∅⟩,∅⟩

-- The unique columns that an insert can run into, beside the errors of the queue.
inductive IdentityError where
  | queue (error : QueueError)
  | uniqueTenant
  | uniqueOperator
  | uniqueToken
  deriving DecidableEq, Repr

structure TenantRow where
  tenantId : TenantId
  displayName : String
  active : Bool
  limits : TenantLimits
  deriving DecidableEq, Repr

structure UserRecord where
  operatorId : OperatorId
  tenantId : TenantId
  role : Role
  active : Bool
  deriving DecidableEq, Repr

structure TokenIssue where
  tokenId : String
  token : String
  tokenPrefix : String
  principal : Principal
  expiresAt : Option Time
  deriving DecidableEq, Repr

-- The random identifiers of one issue, in the order in which they are drawn.
structure TokenDraw where
  tokenId : Uuid
  first : Uuid
  second : Uuid

def maxTokenLifetimeSeconds : Int := 90 * 24 * 60 * 60

def ofQueue {α : Type} (result : Except QueueError α) : Program Database IdentityError α :=
  given (result.mapError .queue)

def refuseUnless (p : Prop) [Decidable p] (e : IdentityError) : Program Database IdentityError Unit :=
  given (require p e)

def IdentityStore.setUser (s : IdentityStore) (operatorId : String) (row : UserRow) : IdentityStore :=
  {s with users:=s.users.insert operatorId row}

def IdentityStore.setTenant (s : IdentityStore) (tenantId : String) : IdentityStore :=
  {s with tenants:=s.tenants.insert tenantId true}

-- `INSERT INTO api_tenants`, which gives the tenant its first limits.
def Database.openTenant (db : Database) (tenantId : TenantId) (displayName : String) : Database :=
  {db with identities:=db.identities.setTenant tenantId.text,names:=db.names.insert tenantId.text displayName}

def Database.ensureLimits (db : Database) (tenantId : TenantId) : Database :=
  if tenantId ∈ db.queue.limits then db
  else {db with queue:={db.queue with limits:=db.queue.limits.insert tenantId defaultLimits}}

-- The inserts of `bootstrap_principal` leave rows that exist as they are.
def Database.ensureTenant (db : Database) (tenantId : TenantId) : Database :=
  if tenantId.text ∈ db.identities.tenants then db else db.openTenant tenantId tenantId.text

def Database.ensureUser (db : Database) (principal : Principal) : Database :=
  if principal.operatorId.text ∈ db.identities.users then db
  else {db with identities:=db.identities.setUser principal.operatorId.text ⟨principal.tenantId.text,
    principal.role,true⟩}

def getTenant (db : Database) (tenantId : TenantId) : Except QueueError TenantRow := do
  let missing := .notFound s!"tenant {tenantId.text}"
  let active ← orFail (db.identities.tenants.lookup tenantId.text) missing
  let displayName ← orFail (db.names.lookup tenantId.text) missing
  let limits ← orFail (db.queue.limits.lookup tenantId) missing
  let tenantId ← liftCore (TenantId.new tenantId.text)
  pure ⟨tenantId,displayName,active,limits⟩

def getUser (s : IdentityStore) (operatorId : OperatorId) : Except QueueError UserRecord := do
  let row ← orFail (s.users.lookup operatorId.text) (.notFound s!"user {operatorId.text}")
  let operatorId ← liftCore (OperatorId.new operatorId.text)
  let tenantId ← liftCore (TenantId.new row.tenantId)
  pure ⟨operatorId,tenantId,row.role,row.active⟩

-- `bootstrap_principal`
def bootstrapIdentity (principal : Principal) : Program Database IdentityError Unit := do
  ofQueue (validateKey principal.tenantId.text "tenant_id" 128)
  ofQueue (validateKey principal.operatorId.text "operator_id" 128)
  update fun db => ((db.ensureTenant principal.tenantId).ensureUser principal).ensureLimits principal.tenantId

def createTenant (tenantId : TenantId) (displayName : String) : Program Database IdentityError TenantRow := do
  ofQueue (validateKey tenantId.text "tenant_id" 128)
  ofQueue (validateKey displayName "display_name" 256)
  let db ← observe id
  refuseUnless (tenantId.text ∉ db.identities.tenants) .uniqueTenant
  update fun db => (db.openTenant tenantId displayName).ensureLimits tenantId
  let db ← observe id
  ofQueue (getTenant db tenantId)

def createUser (operatorId : OperatorId) (tenantId : TenantId) (role : Role) :
    Program Database IdentityError UserRecord := do
  ofQueue (validateKey operatorId.text "operator_id" 128)
  let db ← observe id
  -- the tenant is looked for before the insert meets the key of the table
  refuseUnless (db.identities.tenants.lookup tenantId.text = some true)
    (.queue (.invalidInput "tenant inexistente/inativo ou usuário já existente"))
  refuseUnless (operatorId.text ∉ db.identities.users) .uniqueOperator
  update fun db => {db with identities:=db.identities.setUser operatorId.text ⟨tenantId.text,role,true⟩}
  let db ← observe id
  ofQueue (getUser db.identities operatorId)

def tokenText (encoding : Encoding) (drawn : TokenDraw) : String :=
  s!"shk_{encoding.uuidText drawn.first}_{encoding.uuidText drawn.second}"

def newTokenRow (encoding : Encoding) (operatorId : OperatorId) (expiresAt : Time) (drawn : TokenDraw) :
    TokenRow where
  tokenId := s!"tok_{encoding.uuidText drawn.tokenId}"
  tokenHash := encoding.sha256Hex (tokenText encoding drawn)
  tokenPrefix := String.ofList ((tokenText encoding drawn).toList.take 12)
  operatorId := operatorId.text
  expiresAt := some expiresAt
  revokedAt := none
  lastUsedAt := none

def issueToken (encoding : Encoding) (operatorId : OperatorId) (expiresAt : Option Time) (drawn : TokenDraw)
    (now : Time) : Program Database IdentityError TokenIssue := do
  let db ← observe id
  let user ← ofQueue (getUser db.identities operatorId)
  refuseUnless (user.active = true) (.queue .unauthorized)
  let expiresAt ← ofQueue (orFail expiresAt (.invalidInput "token IAM exige expiração explícita"))
  refuseUnless (now < expiresAt) (.queue (.invalidInput "token IAM deve expirar no futuro"))
  refuseUnless (expiresAt ≤ now + maxTokenLifetimeSeconds * nanosPerSecond)
    (.queue (.invalidInput s!"vida do token IAM não pode exceder {maxTokenLifetimeSeconds} segundos"))
  let row := newTokenRow encoding operatorId expiresAt drawn
  refuseUnless (∀ other ∈ db.identities.tokens, other.tokenId ≠ row.tokenId ∧
    other.tokenHash ≠ row.tokenHash) .uniqueToken
  update fun db => {db with identities:={db.identities with tokens:=db.identities.tokens ++ [row]}}
  pure ⟨row.tokenId,tokenText encoding drawn,row.tokenPrefix,⟨user.operatorId,user.tenantId,user.role⟩,
    some expiresAt⟩

def revokeRow (tokenId : String) (now : Time) (row : TokenRow) : TokenRow :=
  if row.tokenId = tokenId ∧ row.revokedAt = none then {row with revokedAt:=some now} else row

def revokeToken (tokenId : String) (now : Time) : Program Database IdentityError Unit := do
  let db ← observe id
  refuseUnless (∃ row ∈ db.identities.tokens, row.tokenId = tokenId ∧ row.revokedAt = none)
    (.queue (.notFound s!"token {tokenId}"))
  update fun db =>
    {db with identities:={db.identities with tokens:=db.identities.tokens.map (revokeRow tokenId now)}}

-- `authenticate_token` over the whole database.
def authenticateBearer (encoding : Encoding) (token : String) (now : Time) :
    Program Database IdentityError AuthenticatedPrincipal := fun db =>
  let (answer,identities) := authenticateToken encoding.sha256Hex db.identities token now
  (answer.mapError .queue,{db with identities:=identities})

end Shaka.Queue
