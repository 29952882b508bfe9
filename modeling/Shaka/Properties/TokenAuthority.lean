import Shaka.Library.GuardedRuns
import Shaka.Queue.Identities

namespace Shaka.Properties
open Shaka.Core Queue CheckedSteps KeptState GuardedRuns

variable {encoding : Encoding} {db db' : Database} {s : IdentityStore}

inductive IdentityCall where
  | bootstrap (principal : Principal)
  | createTenant (tenantId : TenantId) (displayName : String)
  | createUser (operatorId : OperatorId) (tenantId : TenantId) (role : Role)
  | issueToken (operatorId : OperatorId) (expiresAt : Option Time) (drawn : TokenDraw)
  | revokeToken (tokenId : String)
  | authenticate (token : String)

-- The database, the tokens that have been handed out and the identifiers that have been revoked.
structure Ledger where
  database : Database
  issued : List TokenIssue
  revoked : List String

def Ledger.empty : Ledger := ⟨.empty,[],[]⟩

-- Each call at its own time, in any order; what is told to the caller is written down.
def record (encoding : Encoding) (s : Ledger) (event : IdentityCall × Time) : Ledger :=
  match event.1 with
  | .bootstrap principal => {s with database:=(bootstrapIdentity principal s.database).2}
  | .createTenant tenantId displayName => {s with database:=(createTenant tenantId displayName s.database).2}
  | .createUser operatorId tenantId role =>
    {s with database:=(createUser operatorId tenantId role s.database).2}
  | .issueToken operatorId expiresAt drawn =>
    match issueToken encoding operatorId expiresAt drawn event.2 s.database with
    | (.ok issue,database) => {s with database:=database,issued:=s.issued ++ [issue]}
    | (.error _,database) => {s with database:=database}
  | .revokeToken tokenId =>
    match revokeToken tokenId event.2 s.database with
    | (.ok _,database) => {s with database:=database,revoked:=tokenId :: s.revoked}
    | (.error _,database) => {s with database:=database}
  | .authenticate token => {s with database:=(authenticateBearer encoding token event.2 s.database).2}

-- What the columns of a token say, except the times of its revocation and of its last use.
structure TokenEntry where
  tokenId : String
  tokenHash : String
  tokenPrefix : String
  operatorId : String
  expiresAt : Option Time
  live : Bool
  deriving DecidableEq, Repr

def entryOf (row : TokenRow) : TokenEntry :=
  ⟨row.tokenId,row.tokenHash,row.tokenPrefix,row.operatorId,row.expiresAt,row.revokedAt.isNone⟩

def issuedEntry (encoding : Encoding) (revoked : List String) (issue : TokenIssue) : TokenEntry :=
  ⟨issue.tokenId,encoding.sha256Hex issue.token,issue.tokenPrefix,issue.principal.operatorId.text,
    issue.expiresAt,decide (issue.tokenId ∉ revoked)⟩

-- Nobody is ever switched off: there is no call for it.
structure Peopled (s : IdentityStore) : Prop where
  tenants : ∀ tenantId active, s.tenants.lookup tenantId = some active →
    active = true ∧ TenantId.new tenantId = .ok ⟨tenantId⟩
  users : ∀ operatorId row, s.users.lookup operatorId = some row → row.active = true ∧
    s.tenants.lookup row.tenantId = some true ∧ OperatorId.new operatorId = .ok ⟨operatorId⟩

structure BooksKept (encoding : Encoding) (s : Ledger) : Prop where
  peopled : Peopled s.database.identities
  entries : s.database.identities.tokens.map entryOf = s.issued.map (issuedEntry encoding s.revoked)
  ids : (s.database.identities.tokens.map (·.tokenId)).Nodup
  hashes : (s.database.identities.tokens.map (·.tokenHash)).Nodup
  known : ∀ tokenId ∈ s.revoked, ∃ row ∈ s.database.identities.tokens, row.tokenId = tokenId
  holders : ∀ issue ∈ s.issued, s.database.identities.users.lookup issue.principal.operatorId.text =
    some ⟨issue.principal.tenantId.text,issue.principal.role,true⟩

-- The same tokens among at least the same people.
structure Widens (s s' : IdentityStore) : Prop where
  tokens : s'.tokens = s.tokens
  tenants : ∀ tenantId active, s.tenants.lookup tenantId = some active →
    s'.tenants.lookup tenantId = some active
  users : ∀ operatorId row, s.users.lookup operatorId = some row → s'.users.lookup operatorId = some row

theorem Widens.refl (s : IdentityStore) : Widens s s := ⟨rfl,fun _ _ found => found,fun _ _ found => found⟩

theorem Widens.trans {s' s'' : IdentityStore} (one : Widens s s') (two : Widens s' s'') : Widens s s'' :=
  ⟨two.tokens.trans one.tokens,fun _ _ found => two.tenants _ _ (one.tenants _ _ found),
    fun _ _ found => two.users _ _ (one.users _ _ found)⟩

theorem lookup_kept {κ ν : Type} [DecidableEq κ] {m : AList fun _ : κ => ν} {key other : κ} {value held : ν}
    (absent : key ∉ m) (found : m.lookup other = some held) :
    (m.insert key value).lookup other = some held := by
  rw [AList.lookup_insert_ne,found]
  rintro rfl
  rw [AList.lookup_eq_none.mpr absent] at found
  cases found

theorem key_validated {value field : String} (valid : validateKey value field 128 = .ok ()) :
    blank value = false ∧ ¬ value.utf8ByteSize > 128 := by
  obtain ⟨filled,short⟩ := require_ok.mp valid
  exact ⟨filled,Nat.not_lt.mpr short⟩

theorem tenantId_new {value field : String} (valid : validateKey value field 128 = .ok ()) :
    TenantId.new value = .ok ⟨value⟩ := by
  obtain ⟨filled,short⟩ := key_validated valid
  simp [TenantId.new,filled,short]

theorem operatorId_new {value field : String} (valid : validateKey value field 128 = .ok ()) :
    OperatorId.new value = .ok ⟨value⟩ := by
  obtain ⟨filled,short⟩ := key_validated valid
  simp [OperatorId.new,filled,short]

theorem Peopled.setTenant (peopled : Peopled s) {tenantId : String}
    (valid : TenantId.new tenantId = .ok ⟨tenantId⟩) (absent : tenantId ∉ s.tenants) :
    Peopled (s.setTenant tenantId) ∧ Widens s (s.setTenant tenantId) := by
  have kept : ∀ other active, s.tenants.lookup other = some active →
      (s.setTenant tenantId).tenants.lookup other = some active :=
    fun _ _ found => lookup_kept absent found
  refine ⟨⟨fun other active found => ?_,fun operatorId row found => ?_⟩,⟨rfl,kept,fun _ _ found => found⟩⟩
  · by_cases same : other = tenantId
    · subst same
      have inserted : some true = some active := (AList.lookup_insert _).symm.trans found
      exact ⟨(Option.some.inj inserted).symm,valid⟩
    · exact peopled.tenants other active ((AList.lookup_insert_ne same).symm.trans found)
  · obtain ⟨active,tenant,new⟩ := peopled.users operatorId row found
    exact ⟨active,kept _ _ tenant,new⟩

theorem Peopled.setUser (peopled : Peopled s) {operatorId tenantId : String} {role : Role}
    (valid : OperatorId.new operatorId = .ok ⟨operatorId⟩) (tenant : s.tenants.lookup tenantId = some true)
    (absent : operatorId ∉ s.users) :
    Peopled (s.setUser operatorId ⟨tenantId,role,true⟩) ∧
    Widens s (s.setUser operatorId ⟨tenantId,role,true⟩) := by
  refine ⟨⟨peopled.tenants,fun other row found => ?_⟩,⟨rfl,fun _ _ found => found,fun _ _ found =>
    lookup_kept absent found⟩⟩
  by_cases same : other = operatorId
  · subst same
    have inserted : some (⟨tenantId,role,true⟩ : UserRow) = some row :=
      (AList.lookup_insert _).symm.trans found
    obtain rfl := Option.some.inj inserted
    exact ⟨rfl,tenant,valid⟩
  · exact peopled.users other row ((AList.lookup_insert_ne same).symm.trans found)

@[simp] theorem ensureLimits_identities (db : Database) (tenantId : TenantId) :
    (db.ensureLimits tenantId).identities = db.identities := by
  unfold Database.ensureLimits
  split <;> rfl

-- What a call may do beside the tokens: it leaves everybody who is entered.
def Enters (db after : Database) : Prop := Peopled after.identities ∧ Widens db.identities after.identities

theorem enters_given {x : Except QueueError α} {f : α → Program Database IdentityError β}
    (peopled : Peopled db.identities) (rest : ∀ a, x = .ok a → Enters db (f a db).2) :
    Enters db ((ofQueue x >>= f) db).2 := by
  apply holds_given
  · exact ⟨peopled,.refl _⟩
  · intro a ok
    exact rest a (mapError_ok.mp ok)

theorem enters_required {p : Prop} [Decidable p] {e : IdentityError}
    {f : Unit → Program Database IdentityError β} (peopled : Peopled db.identities)
    (rest : p → Enters db (f () db).2) :
    Enters db ((refuseUnless p e >>= f) db).2 := by
  apply holds_given
  · exact ⟨peopled,.refl _⟩
  · intro a ok
    exact rest (require_ok.mp ok)

theorem ensureTenant_enters (peopled : Peopled db.identities) {tenantId : TenantId}
    (valid : TenantId.new tenantId.text = .ok ⟨tenantId.text⟩) : Enters db (db.ensureTenant tenantId) ∧
    (db.ensureTenant tenantId).identities.tenants.lookup tenantId.text = some true := by
  unfold Database.ensureTenant
  split
  · rename_i present
    obtain ⟨active,found⟩ := Option.isSome_iff_exists.mp (AList.lookup_isSome.mpr present)
    obtain ⟨rfl,_⟩ := peopled.tenants _ _ found
    exact ⟨⟨peopled,.refl _⟩,found⟩
  · rename_i absent
    exact ⟨peopled.setTenant valid absent,AList.lookup_insert _⟩

theorem bootstrap_enters (principal : Principal) (peopled : Peopled db.identities) :
    Enters db (bootstrapIdentity principal db).2 := by
  refine enters_given peopled fun _ valid => enters_given peopled fun _ valid' => ?_
  change Enters db (Database.ensureLimits _ _)
  unfold Enters
  rw [ensureLimits_identities]
  obtain ⟨⟨kept,wide⟩,tenant⟩ := ensureTenant_enters peopled (tenantId_new valid)
  unfold Database.ensureUser
  split
  · exact ⟨kept,wide⟩
  · rename_i absent
    obtain ⟨kept',wide'⟩ := @Peopled.setUser _ kept _ _ principal.role (operatorId_new valid') tenant absent
    exact ⟨kept',wide.trans wide'⟩

theorem createTenant_enters (tenantId : TenantId) (displayName : String) (peopled : Peopled db.identities) :
    Enters db (createTenant tenantId displayName db).2 := by
  refine enters_given peopled fun _ valid => enters_given peopled fun _ _ =>
    enters_required peopled fun absent => ?_
  have opened := peopled.setTenant (tenantId_new valid) absent
  change Enters db (Database.ensureLimits _ _)
  unfold Enters
  rw [ensureLimits_identities]
  exact opened

theorem createUser_enters (operatorId : OperatorId) (tenantId : TenantId) (role : Role)
    (peopled : Peopled db.identities) : Enters db (createUser operatorId tenantId role db).2 := by
  refine enters_given peopled fun _ valid => enters_required peopled fun tenant =>
    enters_required peopled fun absent => ?_
  exact peopled.setUser (operatorId_new valid) tenant absent

theorem ofQueue_ran {α : Type} {x : Except QueueError α} {a : α} :
    ofQueue x db = (.ok a,db') ↔ x = .ok a ∧ db' = db := by
  unfold ofQueue
  rw [given_ran,mapError_ok]

theorem required_ran {p : Prop} [Decidable p] {e : IdentityError} {u : Unit} :
    refuseUnless p e db = (.ok u,db') ↔ p ∧ db' = db := by
  unfold refuseUnless
  rw [given_ran,require_ok]

-- A token that is issued is a new row, and the issue says whose it is.
theorem issueToken_ok {operatorId : OperatorId} {expiresAt : Option Time} {drawn : TokenDraw} {now : Time}
    {issue : TokenIssue} (ran : issueToken encoding operatorId expiresAt drawn now db = (.ok issue,db')) :
    ∃ user expiry,
      getUser db.identities operatorId = .ok user ∧ expiresAt = some expiry ∧ now < expiry ∧
      expiry ≤ now + maxTokenLifetimeSeconds * nanosPerSecond ∧
      (∀ other ∈ db.identities.tokens,
        other.tokenId ≠ (newTokenRow encoding operatorId expiry drawn).tokenId ∧
        other.tokenHash ≠ (newTokenRow encoding operatorId expiry drawn).tokenHash) ∧
      db'.identities = {db.identities with tokens:=db.identities.tokens ++
        [newTokenRow encoding operatorId expiry drawn]} ∧
      issue = ⟨(newTokenRow encoding operatorId expiry drawn).tokenId,tokenText encoding drawn,
        (newTokenRow encoding operatorId expiry drawn).tokenPrefix,⟨user.operatorId,user.tenantId,
          user.role⟩,some expiry⟩ := by
  simp only [issueToken,bind_ran,observe_ran,ofQueue_ran,required_ran,update_ran,orFail_ok,id] at ran
  obtain ⟨_,_,⟨rfl,rfl⟩,user,_,⟨found,rfl⟩,_,_,⟨_,rfl⟩,expiry,_,⟨given_,rfl⟩,_,_,⟨future,rfl⟩,_,_,
    ⟨bounded,rfl⟩,_,_,⟨fresh,rfl⟩,_,_,rfl,told⟩ := ran
  cases told
  exact ⟨user,expiry,found,given_,future,bounded,fresh,rfl,rfl⟩

theorem issueToken_clean (operatorId : OperatorId) (expiresAt : Option Time) (drawn : TokenDraw)
    (now : Time) : Clean (issueToken encoding operatorId expiresAt drawn now) :=
  clean_observe fun _ => clean_given fun _ => clean_given fun _ => clean_given fun _ => clean_given fun _ =>
    clean_given fun _ => clean_given fun _ => clean_last

theorem revokeToken_ran {tokenId : String} {now : Time} {u : Unit} :
    revokeToken tokenId now db = (.ok u,db') ↔
      (∃ row ∈ db.identities.tokens, row.tokenId = tokenId ∧ row.revokedAt = none) ∧
      db' = {db with identities:={db.identities with tokens:=db.identities.tokens.map (revokeRow tokenId now)}} := by
  simp only [revokeToken,bind_ran,observe_ran,required_ran,update_ran,id]
  constructor
  · rintro ⟨_,_,⟨rfl,rfl⟩,_,_,⟨held,rfl⟩,rfl⟩
    exact ⟨held,rfl⟩
  · rintro ⟨held,rfl⟩
    exact ⟨_,_,⟨rfl,rfl⟩,(),_,⟨held,rfl⟩,rfl⟩

theorem revokeToken_clean (tokenId : String) (now : Time) : Clean (revokeToken tokenId now) :=
  clean_observe fun _ => clean_given fun _ => fun _ _ failed => nomatch failed

-- What a change of the rows one by one leaves of the columns that are looked at.
theorem rows_kept (change : TokenRow → TokenRow) (column : TokenRow → γ)
    (same : ∀ row, column (change row) = column row) (tokens : List TokenRow) :
    (tokens.map change).map column = tokens.map column := by
  rw [List.map_map]
  exact List.map_congr_left fun row _ => same row

theorem revokeRow_tokenId (tokenId : String) (now : Time) (row : TokenRow) :
    (revokeRow tokenId now row).tokenId = row.tokenId := by
  unfold revokeRow
  split <;> rfl

theorem revokeRow_tokenHash (tokenId : String) (now : Time) (row : TokenRow) :
    (revokeRow tokenId now row).tokenHash = row.tokenHash := by
  unfold revokeRow
  split <;> rfl

def withdraw (tokenId : String) (entry : TokenEntry) : TokenEntry :=
  {entry with live:=entry.live && decide (entry.tokenId ≠ tokenId)}

theorem revokeRow_entry (tokenId : String) (now : Time) (row : TokenRow) :
    entryOf (revokeRow tokenId now row) = withdraw tokenId (entryOf row) := by
  unfold revokeRow
  by_cases named : row.tokenId = tokenId
  · cases live : row.revokedAt <;> simp [named,live,entryOf,withdraw]
  · simp [named,entryOf,withdraw]

theorem withdraw_issued (encoding : Encoding) (revoked : List String) (tokenId : String)
    (issue : TokenIssue) :
    withdraw tokenId (issuedEntry encoding revoked issue) = issuedEntry encoding (tokenId :: revoked)
      issue := by
  simp [withdraw,issuedEntry,Bool.and_comm]

-- Every call keeps the books.

theorem BooksKept.enters {ledger : Ledger} (books : BooksKept encoding ledger)
    (enters : Enters ledger.database db') : BooksKept encoding {ledger with database:=db'} := by
  obtain ⟨peopled,wide⟩ := enters
  refine ⟨peopled,?_,?_,?_,?_,fun issue listed => wide.users _ _ (books.holders issue listed)⟩
  · rw [wide.tokens]
    exact books.entries
  · rw [wide.tokens]
    exact books.ids
  · rw [wide.tokens]
    exact books.hashes
  · rw [wide.tokens]
    exact books.known

theorem BooksKept.used {ledger : Ledger} (books : BooksKept encoding ledger) (tokenHash : String)
    (now : Time) : BooksKept encoding {ledger with database:={ledger.database with
      identities:=markUsed ledger.database.identities tokenHash now}} := by
  let mark := fun row : TokenRow => if row.tokenHash = tokenHash then {row with lastUsedAt:=some now} else row
  have same {γ : Type} (column : TokenRow → γ) (blind : ∀ row time,
      column {row with lastUsedAt:=time} = column row)
      (row : TokenRow) : column (mark row) = column row := by
    change column (if _ then _ else _) = _
    split
    · exact blind row _
    · rfl
  refine ⟨⟨books.peopled.tenants,books.peopled.users⟩,?_,?_,?_,fun tokenId revoked => ?_,books.holders⟩
  · exact (rows_kept mark entryOf (same entryOf fun _ _ => rfl) _).trans books.entries
  · exact (rows_kept mark (·.tokenId) (same (·.tokenId) fun _ _ => rfl) _).symm ▸ books.ids
  · exact (rows_kept mark (·.tokenHash) (same (·.tokenHash) fun _ _ => rfl) _).symm ▸ books.hashes
  · obtain ⟨row,listed,named⟩ := books.known tokenId revoked
    exact ⟨mark row,List.mem_map_of_mem listed,(same (·.tokenId) (fun _ _ => rfl) row).trans named⟩

theorem BooksKept.revoked {ledger : Ledger} (books : BooksKept encoding ledger) {tokenId : String}
    (now : Time)
    (held : ∃ row ∈ ledger.database.identities.tokens, row.tokenId = tokenId ∧ row.revokedAt = none) :
    BooksKept encoding {ledger with
      database:={ledger.database with identities:={ledger.database.identities with
        tokens:=ledger.database.identities.tokens.map (revokeRow tokenId now)}}
      revoked:=tokenId :: ledger.revoked} := by
  refine ⟨⟨books.peopled.tenants,books.peopled.users⟩,?_,?_,?_,fun named revoked => ?_,books.holders⟩
  · change (ledger.database.identities.tokens.map (revokeRow tokenId now)).map entryOf = _
    have entries := congrArg (List.map (withdraw tokenId)) books.entries
    rw [List.map_map,List.map_map] at entries
    rw [List.map_map]
    refine (List.map_congr_left fun row _ => revokeRow_entry tokenId now row).trans (entries.trans ?_)
    exact List.map_congr_left fun issue _ => withdraw_issued encoding ledger.revoked tokenId issue
  · exact (rows_kept _ _ (revokeRow_tokenId tokenId now) _).symm ▸ books.ids
  · exact (rows_kept _ _ (revokeRow_tokenHash tokenId now) _).symm ▸ books.hashes
  · have kept : ∃ row ∈ ledger.database.identities.tokens, row.tokenId = named := by
      rcases List.mem_cons.mp revoked with rfl | earlier
      · obtain ⟨row,listed,same,_⟩ := held
        exact ⟨row,listed,same⟩
      · exact books.known named earlier
    obtain ⟨row,listed,same⟩ := kept
    exact ⟨_,List.mem_map_of_mem listed,(revokeRow_tokenId tokenId now row).trans same⟩

theorem BooksKept.issued {ledger : Ledger} (books : BooksKept encoding ledger) {operatorId : OperatorId}
    {expiry : Time}
    {drawn : TokenDraw} {user : UserRecord} (found : getUser ledger.database.identities operatorId = .ok user)
    (fresh : ∀ other ∈ ledger.database.identities.tokens,
      other.tokenId ≠ (newTokenRow encoding operatorId expiry drawn).tokenId ∧
      other.tokenHash ≠ (newTokenRow encoding operatorId expiry drawn).tokenHash)
    (entered : db'.identities = {ledger.database.identities with
      tokens:=ledger.database.identities.tokens ++ [newTokenRow encoding operatorId expiry drawn]}) :
    BooksKept encoding {ledger with
      database:=db'
      issued:=ledger.issued ++ [⟨(newTokenRow encoding operatorId expiry drawn).tokenId,
        tokenText encoding drawn,
        (newTokenRow encoding operatorId expiry drawn).tokenPrefix,⟨user.operatorId,user.tenantId,
          user.role⟩,some expiry⟩]} := by
  simp only [getUser,bind_ok,orFail_ok,liftCore_ok,pure_ok] at found
  obtain ⟨row,stored,_,operator,_,tenant,rfl⟩ := found
  obtain ⟨active,home,valid⟩ := books.peopled.users _ _ stored
  obtain rfl := Except.ok.inj (operator.symm.trans valid)
  obtain rfl := Except.ok.inj (tenant.symm.trans (books.peopled.tenants _ _ home).2)
  have unrevoked : (newTokenRow encoding operatorId expiry drawn).tokenId ∉ ledger.revoked := by
    intro revoked
    obtain ⟨other,listed,same⟩ := books.known _ revoked
    exact (fresh other listed).1 same
  refine ⟨?_,?_,?_,?_,?_,fun issue listed => ?_⟩
  · rw [entered]
    exact ⟨books.peopled.tenants,books.peopled.users⟩
  · rw [entered,List.map_append,List.map_append,books.entries,List.map_singleton,List.map_singleton,
      issuedEntry,decide_eq_true unrevoked]
    rfl
  · rw [entered,List.map_append]
    refine List.nodup_append.mpr ⟨books.ids,by simp,fun held mapped new named => ?_⟩
    obtain ⟨other,listed,rfl⟩ := List.mem_map.mp mapped
    simp only [List.map_cons,List.map_nil,List.mem_singleton] at named
    exact named ▸ (fresh other listed).1
  · rw [entered,List.map_append]
    refine List.nodup_append.mpr ⟨books.hashes,by simp,fun held mapped new named => ?_⟩
    obtain ⟨other,listed,rfl⟩ := List.mem_map.mp mapped
    simp only [List.map_cons,List.map_nil,List.mem_singleton] at named
    exact named ▸ (fresh other listed).2
  · rw [entered]
    intro tokenId revoked
    obtain ⟨other,listed,same⟩ := books.known tokenId revoked
    exact ⟨other,List.mem_append_left _ listed,same⟩
  · rw [entered]
    rcases List.mem_append.mp listed with earlier | new
    · exact books.holders issue earlier
    · obtain rfl := List.mem_singleton.mp new
      obtain ⟨tenantId,role,held⟩ := row
      obtain rfl : held = true := active
      exact stored

theorem record_books {ledger : Ledger} (books : BooksKept encoding ledger) (event : IdentityCall × Time) :
    BooksKept encoding (record encoding ledger event) := by
  obtain ⟨call,now⟩ := event
  cases call with
  | bootstrap principal => exact books.enters (bootstrap_enters principal books.peopled)
  | createTenant tenantId displayName =>
    exact books.enters (createTenant_enters tenantId displayName books.peopled)
  | createUser operatorId tenantId role =>
    exact books.enters (createUser_enters operatorId tenantId role books.peopled)
  | issueToken operatorId expiresAt drawn =>
    simp only [record]
    cases ran : issueToken encoding operatorId expiresAt drawn now ledger.database with
    | mk answer database =>
      cases answer with
      | error e =>
        have same := issueToken_clean operatorId expiresAt drawn now ledger.database e (by rw [ran])
        rw [ran] at same
        subst same
        exact books
      | ok issue =>
        obtain ⟨user,expiry,found,_,_,_,fresh,entered,rfl⟩ := issueToken_ok ran
        exact books.issued found fresh entered
  | revokeToken tokenId =>
    simp only [record]
    cases ran : revokeToken tokenId now ledger.database with
    | mk answer database =>
      cases answer with
      | error e =>
        have same := revokeToken_clean tokenId now ledger.database e (by rw [ran])
        rw [ran] at same
        subst same
        exact books
      | ok u =>
        obtain ⟨held,rfl⟩ := revokeToken_ran.mp ran
        exact books.revoked now held
  | authenticate token =>
    unfold record authenticateBearer authenticateToken authenticateBy
    dsimp only
    split
    · exact books
    · split
      · exact books
      · exact books.used _ now

theorem ledger_books (encoding : Encoding) (calls : List (IdentityCall × Time)) :
    BooksKept encoding (play (record encoding) .empty calls) := by
  have run : Reaches (record encoding) (fun _ _ => True) .empty (play (record encoding) .empty calls) :=
    play_reaches (admitted_always fun _ _ _ => trivial)
  apply run.invariant
  · refine ⟨⟨fun _ _ found => ?_,fun _ _ found => ?_⟩,rfl,List.nodup_nil,List.nodup_nil,?_,?_⟩
    · cases found
    · cases found
    · intro _ revoked
      cases revoked
    · intro _ listed
      cases listed
  · intro ledger event books _
    exact record_books books event

-- What the books say of the rows, and back.
theorem BooksKept.row {ledger : Ledger} (books : BooksKept encoding ledger) {row : TokenRow}
    (listed : row ∈ ledger.database.identities.tokens) :
    ∃ issue ∈ ledger.issued, entryOf row = issuedEntry encoding ledger.revoked issue := by
  obtain ⟨issue,issued,same⟩ := List.mem_map.mp (books.entries ▸ List.mem_map_of_mem (f := entryOf) listed)
  exact ⟨issue,issued,same.symm⟩

theorem BooksKept.issue {ledger : Ledger} (books : BooksKept encoding ledger) {issue : TokenIssue}
    (issued : issue ∈ ledger.issued) :
    ∃ row ∈ ledger.database.identities.tokens, entryOf row = issuedEntry encoding ledger.revoked issue :=
  List.mem_map.mp (books.entries.symm ▸ List.mem_map_of_mem (f := issuedEntry encoding ledger.revoked) issued)

theorem activeUser_peopled (peopled : Peopled s) {unexpired : Time → Bool} {row : TokenRow} {user : UserRow} :
    activeUser s unexpired row = some user ↔ row.revokedAt.isNone = true ∧
    row.expiresAt.any unexpired = true ∧ s.users.lookup row.operatorId = some user := by
  unfold activeUser
  cases found : s.users.lookup row.operatorId with
  | none => simp
  | some held =>
    obtain ⟨active,tenant,_⟩ := peopled.users _ _ found
    simp only [Option.bind_eq_bind,Option.bind_some,tenant,active,Bool.and_true]
    cases row.revokedAt.isNone <;> cases row.expiresAt.any unexpired <;> simp

-- One row at most has the hash of a token.
theorem findToken_unique (distinct : (s.tokens.map (·.tokenHash)).Nodup) {unexpired : Time → Bool}
    {tokenHash : String} {row : TokenRow} {user : UserRow} :
    findToken s unexpired tokenHash = some (row,user) ↔
      row ∈ s.tokens ∧ row.tokenHash = tokenHash ∧ activeUser s unexpired row = some user := by
  unfold findToken
  generalize s.tokens = tokens at distinct
  induction tokens with
  | nil => simp
  | cons first rest ih =>
    obtain ⟨absent,distinct⟩ := List.nodup_cons.mp distinct
    rw [List.findSome?_cons]
    by_cases same : first.tokenHash = tokenHash
    · have others : ∀ other ∈ rest, other.tokenHash ≠ tokenHash := fun other listed named =>
        absent (List.mem_map.mpr ⟨other,listed,named.trans same.symm⟩)
      rw [if_pos same]
      cases found : activeUser s unexpired first with
      | none =>
        simp only [Option.map_none]
        rw [ih distinct,List.mem_cons]
        constructor
        · rintro ⟨listed,named,_⟩
          exact absurd named (others row listed)
        · rintro ⟨rfl | listed,named,active⟩
          · cases found.symm.trans active
          · exact absurd named (others row listed)
      | some held =>
        simp only [Option.map_some,Option.some.injEq,Prod.mk.injEq]
        constructor
        · rintro ⟨rfl,rfl⟩
          exact ⟨List.mem_cons_self,same,found⟩
        · rintro ⟨listed,named,active⟩
          rcases List.mem_cons.mp listed with rfl | later
          · exact ⟨rfl,Option.some.inj (found.symm.trans active)⟩
          · exact absurd named (others row later)
    · rw [if_neg same]
      simp only [ih distinct,List.mem_cons]
      constructor
      · rintro ⟨listed,named,active⟩
        exact ⟨.inr listed,named,active⟩
      · rintro ⟨rfl | listed,named,active⟩
        · exact absurd named same
        · exact ⟨listed,named,active⟩

-- An issue that has neither been revoked nor run out.
def InForce (ledger : Ledger) (now : Time) (issue : TokenIssue) : Prop :=
  issue ∈ ledger.issued ∧ issue.tokenId ∉ ledger.revoked ∧ issue.expiresAt.any (textAfter · now) = true

def bearerOf (issue : TokenIssue) : AuthenticatedPrincipal :=
  ⟨issue.principal,issue.tokenId,issue.tokenPrefix,.token⟩

theorem active_iff {ledger : Ledger} (books : BooksKept encoding ledger) {now : Time} {row : TokenRow}
    {user : UserRow} : row ∈ ledger.database.identities.tokens ∧
      activeUser ledger.database.identities (fun expiresAt => textAfter expiresAt now) row = some user ↔
    ∃ issue, InForce ledger now issue ∧ row ∈ ledger.database.identities.tokens ∧
      entryOf row = issuedEntry encoding ledger.revoked issue ∧
      user = ⟨issue.principal.tenantId.text,issue.principal.role,true⟩ := by
  rw [activeUser_peopled books.peopled]
  constructor
  · rintro ⟨listed,live,unexpired,found⟩
    obtain ⟨issue,issued,same⟩ := books.row listed
    have columns := same
    simp only [entryOf,issuedEntry,TokenEntry.mk.injEq] at columns
    obtain ⟨_,_,_,operator,expiry,unrevoked⟩ := columns
    refine ⟨issue,⟨issued,of_decide_eq_true (unrevoked ▸ live),expiry ▸ unexpired⟩,listed,same,?_⟩
    rw [operator,books.holders issue issued] at found
    exact (Option.some.inj found).symm
  · rintro ⟨issue,⟨issued,unrevoked,unexpired⟩,listed,same,rfl⟩
    simp only [entryOf,issuedEntry,TokenEntry.mk.injEq] at same
    obtain ⟨_,_,_,operator,expiry,live⟩ := same
    exact ⟨listed,live.trans (decide_eq_true unrevoked),expiry ▸ unexpired,
      operator ▸ books.holders issue issued⟩

theorem holder_valid {ledger : Ledger} (books : BooksKept encoding ledger) {issue : TokenIssue}
    (issued : issue ∈ ledger.issued) :
    OperatorId.new issue.principal.operatorId.text = .ok issue.principal.operatorId ∧
    TenantId.new issue.principal.tenantId.text = .ok issue.principal.tenantId := by
  obtain ⟨_,home,operator⟩ := books.peopled.users _ _ (books.holders issue issued)
  exact ⟨operator,(books.peopled.tenants _ _ home).2⟩

theorem authenticated_issue {ledger : Ledger} (books : BooksKept encoding ledger) {issue : TokenIssue}
    {row : TokenRow} (issued : issue ∈ ledger.issued)
    (same : entryOf row = issuedEntry encoding ledger.revoked issue) :
    authenticated row ⟨issue.principal.tenantId.text,issue.principal.role,true⟩ = .ok (bearerOf issue) := by
  obtain ⟨operator,tenant⟩ := holder_valid books issued
  simp only [entryOf,issuedEntry,TokenEntry.mk.injEq] at same
  obtain ⟨named,_,shown,held,_⟩ := same
  unfold authenticated
  rw [held,operator,tenant,named,shown]
  rfl

-- The answer to a bearer, as the database gives it; a bearer that is refused leaves no trace.
theorem bearer_answer {ledger : Ledger} (books : BooksKept encoding ledger) (token : String) (now : Time) :
    (∃ issue, InForce ledger now issue ∧ encoding.sha256Hex issue.token = encoding.sha256Hex token ∧
      blank token = false ∧ token.utf8ByteSize ≤ 512 ∧
      (authenticateBearer encoding token now ledger.database).1 = .ok (bearerOf issue)) ∨
    ((¬ (blank token = false ∧ token.utf8ByteSize ≤ 512) ∨
        ¬ ∃ issue, InForce ledger now issue ∧ encoding.sha256Hex issue.token = encoding.sha256Hex token) ∧
      authenticateBearer encoding token now ledger.database = (.error (.queue .unauthorized),
        ledger.database)) := by
  unfold authenticateBearer authenticateToken authenticateBy
  by_cases shaped : (blank token || decide (token.utf8ByteSize > 512)) = true
  · rw [if_pos shaped]
    refine .inr ⟨.inl fun fits => ?_,rfl⟩
    rw [fits.1,Bool.false_or,decide_eq_true_iff] at shaped
    exact Nat.not_lt.mpr fits.2 shaped
  · rw [if_neg shaped]
    simp only [Bool.or_eq_true,decide_eq_true_iff,not_or,Bool.not_eq_true] at shaped
    cases found : findToken ledger.database.identities (fun expiresAt => textAfter expiresAt now)
        (encoding.sha256Hex token) with
    | some pair =>
      obtain ⟨row,user⟩ := pair
      obtain ⟨listed,named,active⟩ := (findToken_unique books.hashes).mp found
      obtain ⟨issue,force,_,same,rfl⟩ := (active_iff books).mp ⟨listed,active⟩
      refine .inl ⟨issue,force,?_,shaped.1,Nat.not_lt.mp shaped.2,?_⟩
      · rw [← named]
        exact (congrArg TokenEntry.tokenHash same).symm
      · simp only [authenticated_issue books force.1 same]
        rfl
    | none =>
      refine .inr ⟨.inr ?_,rfl⟩
      rintro ⟨issue,force,hash⟩
      obtain ⟨row,listed,same⟩ := books.issue force.1
      obtain ⟨_,active⟩ := (active_iff books).mpr ⟨issue,force,listed,same,rfl⟩
      have missed := (findToken_unique books.hashes).mpr ⟨listed,
          (congrArg TokenEntry.tokenHash same).trans hash,active⟩
      cases found.symm.trans missed

theorem issued_distinct {ledger : Ledger} (books : BooksKept encoding ledger) :
    (ledger.issued.map (·.tokenId)).Nodup ∧ (ledger.issued.map fun issue =>
      encoding.sha256Hex issue.token).Nodup := by
  have ids := congrArg (List.map TokenEntry.tokenId) books.entries
  have hashes := congrArg (List.map TokenEntry.tokenHash) books.entries
  rw [List.map_map,List.map_map] at ids hashes
  exact ⟨ids ▸ books.ids,hashes ▸ books.hashes⟩

-- Whoever is let in by a token holds one that was issued, that nobody has revoked since and that has
-- not run out, and is let in as the principal that it was issued to; everybody else is unauthorized.
-- A revocation succeeds once for each token that was issued.
theorem token_authority (encoding : Encoding) (calls : List (IdentityCall × Time)) (token tokenId : String)
    (now : Time) : let ledger := play (record encoding) .empty calls
    (∀ who, (authenticateBearer encoding token now ledger.database).1 = .ok who ↔
      blank token = false ∧ token.utf8ByteSize ≤ 512 ∧ ∃ issue, InForce ledger now issue ∧
        encoding.sha256Hex issue.token = encoding.sha256Hex token ∧ who = bearerOf issue) ∧
    (∀ e, (authenticateBearer encoding token now ledger.database).1 = .error e → e = .queue .unauthorized) ∧
    ((revokeToken tokenId now ledger.database).1 = .ok () ↔
      tokenId ∈ ledger.issued.map (·.tokenId) ∧ tokenId ∉ ledger.revoked) ∧
    (hasActiveTokens ledger.database.identities now = true ↔ ∃ issue, InForce ledger now issue) ∧
    (ledger.issued.map (·.tokenId)).Nodup ∧ (ledger.issued.map fun issue =>
      encoding.sha256Hex issue.token).Nodup := by
  intro ledger
  have books : BooksKept encoding ledger := ledger_books encoding calls
  have distinct := issued_distinct books
  refine ⟨fun who => ⟨fun answered => ?_,fun ⟨filled,short,issue,force,hash,whose⟩ => ?_⟩,fun e failed =>
    ?_,?_,?_,distinct⟩
  · rcases bearer_answer books token now with ⟨issue,force,hash,filled,short,ok⟩ | ⟨_,refused⟩
    · exact ⟨filled,short,issue,force,hash,(Except.ok.inj (ok.symm.trans answered)).symm⟩
    · rw [refused] at answered
      cases answered
  · rcases bearer_answer books token now with ⟨other,force',hash',_,_,ok⟩ | ⟨none_,_⟩
    · have same : issue = other :=
        List.inj_on_of_nodup_map distinct.2 force.1 force'.1 (hash.trans hash'.symm)
      rw [whose,same]
      exact ok
    · rcases none_ with misshaped | nobody
      · exact absurd ⟨filled,short⟩ misshaped
      · exact absurd ⟨issue,force,hash⟩ nobody
  · rcases bearer_answer books token now with ⟨issue,_,_,_,_,ok⟩ | ⟨_,refused⟩
    · cases ok.symm.trans failed
    · rw [refused] at failed
      exact (Except.error.inj failed).symm
  · have ran : (revokeToken tokenId now ledger.database).1 = .ok () ↔
        ∃ row ∈ ledger.database.identities.tokens, row.tokenId = tokenId ∧ row.revokedAt = none := by
      constructor
      · intro ok
        exact (revokeToken_ran.mp (Prod.ext ok rfl : _ = (Except.ok (),
          (revokeToken tokenId now ledger.database).2))).1
      · intro held
        exact congrArg Prod.fst (revokeToken_ran.mpr ⟨held,rfl⟩)
    rw [ran]
    constructor
    · rintro ⟨row,listed,rfl,live⟩
      obtain ⟨issue,issued,same⟩ := books.row listed
      simp only [entryOf,issuedEntry,TokenEntry.mk.injEq,live] at same
      exact ⟨List.mem_map.mpr ⟨issue,issued,same.1.symm⟩,same.1 ▸ of_decide_eq_true same.2.2.2.2.2.symm⟩
    · rintro ⟨mapped,unrevoked⟩
      obtain ⟨issue,issued,rfl⟩ := List.mem_map.mp mapped
      obtain ⟨row,listed,same⟩ := books.issue issued
      simp only [entryOf,issuedEntry,TokenEntry.mk.injEq,unrevoked,not_false_eq_true,decide_true] at same
      exact ⟨row,listed,same.1,Option.isNone_iff_eq_none.mp same.2.2.2.2.2⟩
  · unfold hasActiveTokens
    rw [List.any_eq_true]
    constructor
    · rintro ⟨row,listed,active⟩
      obtain ⟨user,found⟩ := Option.isSome_iff_exists.mp active
      obtain ⟨issue,force,_⟩ := (active_iff books).mp ⟨listed,found⟩
      exact ⟨issue,force⟩
    · rintro ⟨issue,force⟩
      obtain ⟨row,listed,same⟩ := books.issue force.1
      obtain ⟨_,active⟩ := (active_iff books).mpr ⟨issue,force,listed,same,rfl⟩
      exact ⟨row,listed,Option.isSome_iff_exists.mpr ⟨_,active⟩⟩

def deskEncoding : Encoding := ⟨id,fun _ => "",fun _ => "",fun uuid => toString uuid⟩

def deskCalls : List (IdentityCall × Time) :=
  [(.createTenant ⟨"acme"⟩ "Acme",0),(.createUser ⟨"ana"⟩ ⟨"acme"⟩ .reviewer,0),
    (.issueToken ⟨"ana"⟩ (some (60 * nanosPerSecond)) ⟨1,2,3⟩,0)]

example : (authenticateBearer deskEncoding "shk_2_3" nanosPerSecond
    (play (record deskEncoding) .empty deskCalls).database).1 =
    .ok ⟨⟨⟨"ana"⟩,⟨"acme"⟩,.reviewer⟩,"tok_1","shk_2_3",.token⟩ := by decide +kernel

end Shaka.Properties
