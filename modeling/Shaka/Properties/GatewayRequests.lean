import Shaka.Api.Requests
import Shaka.Properties.TokenAuthority
import Shaka.Store.TenantFrames

namespace Shaka.Properties
open Shaka.Core Queue Store Api CheckedSteps KeptState GuardedRuns

variable {encoding : ApiEncoding} {server : Server} {headers : RequestHeaders} {now : Time} {who : Principal}

-- The database with all that its calls have told, and the trail of the handlers.
structure Site where
  gateway : Gateway
  issued : List TokenIssue
  revoked : List String

def Site.empty : Site := ⟨⟨.empty,[],[]⟩,[],[]⟩

def Site.ledger (site : Site) : Ledger := ⟨site.gateway.database,site.issued,site.revoked⟩

def Site.queue (site : Site) : QueueStore := site.gateway.database.queue

-- Whom the headers of a request stand for.
def Vouched (encoding : ApiEncoding) (server : Server) (site : Site) (headers : RequestHeaders) (now : Time)
    (who : Principal) : Prop :=
  match headers.authorization.bind stripBearer with
  | some token =>
    (server.apiKey = some token ∧ who = server.principal) ∨
    (server.apiKey ≠ some token ∧ blank token = false ∧ token.utf8ByteSize ≤ 512 ∧
      ∃ issue, InForce site.ledger now issue ∧ encoding.sha256Hex issue.token = encoding.sha256Hex token ∧
        who = issue.principal)
  | none => server.loopback = true ∧ server.apiKey = none ∧ who = server.principal

structure LetIn (encoding : ApiEncoding) (server : Server) (site : Site) (headers : RequestHeaders)
    (now : Time) (auth : AuthenticatedPrincipal) (g : Gateway) : Prop where
  answered : authorize encoding server headers now site.gateway = (.ok auth,g)
  vouched : Vouched encoding server site headers now auth.principal
  queue : g.database.queue = site.queue
  audits : g.audits = site.gateway.audits
  signals : g.signals = site.gateway.signals
  books : BooksKept encoding.toEncoding ⟨g.database,site.issued,site.revoked⟩

theorem authorize_cases {site : Site} (books : BooksKept encoding.toEncoding site.ledger) (server : Server)
    (headers : RequestHeaders) (now : Time) :
    (∃ auth g, LetIn encoding server site headers now auth g) ∨
    ((∀ who, ¬ Vouched encoding server site headers now who) ∧
      authorize encoding server headers now site.gateway = (.error .unauthorized,site.gateway)) := by
  unfold Vouched authorize
  cases named : headers.authorization.bind stripBearer with
  | none =>
    simp only
    split
    · next open_ =>
      refine .inl ⟨⟨server.principal,"local-loopback","local",.staticApiKey⟩,site.gateway,
        ⟨?_,?_,rfl,rfl,rfl,books⟩⟩
      · simp only [authorize,named,if_pos open_]
        rfl
      · simp only [Vouched,named]
        exact ⟨open_.1,open_.2,trivial⟩
    · next closed =>
      refine .inr ⟨?_,rfl⟩
      rintro who ⟨loopback,unkeyed,_⟩
      exact closed ⟨loopback,unkeyed⟩
  | some token =>
    simp only
    split
    · next keyed =>
      refine .inl ⟨⟨server.principal,"static-api-key","static",.staticApiKey⟩,site.gateway,
        ⟨?_,?_,rfl,rfl,rfl,books⟩⟩
      · simp only [authorize,named,if_pos keyed]
        rfl
      · simp only [Vouched,named]
        exact .inl ⟨keyed,trivial⟩
    · next unkeyed =>
      rcases bearer_answer books token now with ⟨issue,force,hash,filled,short,ok⟩ | ⟨nobody,refused⟩
      · have kept := record_books books (.authenticate token,now)
        refine .inl ⟨bearerOf issue,{site.gateway with
          database:=(authenticateBearer encoding.toEncoding token now site.gateway.database).2},
            ⟨?_,?_,rfl,rfl,rfl,kept⟩⟩
        · simp only [authorize,named,if_neg unkeyed,authenticateGateway]
          exact Prod.ext (congrArg (Except.mapError HttpError.ofIdentity) ok) rfl
        · simp only [Vouched,named]
          exact .inr ⟨unkeyed,filled,short,issue,force,hash,rfl⟩
      · refine .inr ⟨?_,?_⟩
        · rintro who (⟨keyed,_⟩ | ⟨_,filled,short,issue,force,hash,_⟩)
          · exact unkeyed keyed
          · rcases nobody with misshaped | nobody
            · exact misshaped ⟨filled,short⟩
            · exact nobody ⟨issue,force,hash⟩
        · simp only [authenticateGateway]
          rw [show authenticateBearer encoding.toEncoding token now site.gateway.database = _ from refused]
          rfl

-- Requests, the calls of an administrator, and the operations of the workers and of the operators at
-- the machine, which open no session, submit no task and save no plan.
inductive SiteEvent where
  | request (request : HttpRequest) (moment : RequestMoment)
  | administer (call : IdentityCall) (now : Time)
  | background (op : Operation)

def Background : Operation → Prop
  | .createSession _ | .savePlan _ | .submit .. | .resumePlan .. => False
  | _ => True

def Site.next (encoding : ApiEncoding) (server : Server) (site : Site) : SiteEvent → Site
  | .request request moment => {site with gateway:=(handle encoding server request moment site.gateway).2}
  | .administer call now =>
    let ledger := record encoding.toEncoding site.ledger (call,now)
    ⟨{site.gateway with database:=ledger.database},ledger.issued,ledger.revoked⟩
  | .background op => {site with gateway:=site.gateway.setQueue (exec encoding.toStoreEncoding site.queue op)}

def InService (_ : Site) : SiteEvent → Prop
  | .background op => Background op
  | _ => True

abbrev SiteRun (encoding : ApiEncoding) (server : Server) :=
  Reaches (Site.next encoding server) InService .empty

-- The identities do not look at the queue.
theorem books_queue {database : Database} {issued : List TokenIssue} {revoked : List String} {base : Encoding}
    (books : BooksKept base ⟨database,issued,revoked⟩) (queue : QueueStore) :
    BooksKept base ⟨{database with queue:=queue},issued,revoked⟩ :=
  ⟨books.peopled,books.entries,books.ids,books.hashes,books.known,books.holders⟩

structure Handled (encoding : ApiEncoding) (server : Server) (site : Site) (who : Principal)
    (moment : RequestMoment) (g g' : Gateway) : Prop where
  queue : g.database.queue = site.queue
  audits : g.audits = site.gateway.audits
  carried : Carried encoding server who moment g g'
  books : BooksKept encoding.toEncoding ⟨g'.database,site.issued,site.revoked⟩

theorem handle_cases {site : Site} (books : BooksKept encoding.toEncoding site.ledger)
    (linked : Linked encoding.toStoreEncoding site.queue) (request : HttpRequest) (moment : RequestMoment) :
    (∃ who g, Vouched encoding server site request.headers moment.now who ∧
      Handled encoding server site who moment g (handle encoding server request moment site.gateway).2) ∨
    ((∀ who, ¬ Vouched encoding server site request.headers moment.now who) ∧
      handle encoding server request moment site.gateway = (.error .unauthorized,site.gateway)) := by
  rcases authorize_cases books server request.headers moment.now with ⟨auth,g,authorized⟩ | ⟨nobody,refused⟩
  · refine .inl ⟨auth.principal,g,authorized.vouched,?_⟩
    have carried := @respond_serves encoding server auth.principal request moment g
        (authorized.queue ▸ linked)
    unfold handle
    rw [bind_of_ok authorized.answered]
    refine ⟨authorized.queue,authorized.audits,carried,?_⟩
    generalize (respond encoding server auth.principal request moment g).2 = after at carried
    cases carried with
    | untouched => exact authorized.books
    | looked => exact authorized.books
    | acted => exact books_queue authorized.books _
  · refine .inr ⟨nobody,?_⟩
    unfold handle
    rw [bind_of_error refused]

-- An administrator's call makes of the queue what the entry of a principal makes of it, or nothing.

theorem ensureLimits_queue (encoding : StoreEncoding) (db : Database) {principal : Principal}
    (tenant : Queue.validateKey principal.tenantId.text "tenant_id" 128 = .ok ())
    (operator : Queue.validateKey principal.operatorId.text "operator_id" 128 = .ok ()) :
    (db.ensureLimits principal.tenantId).queue = exec encoding db.queue (.bootstrapPrincipal principal) := by
  apply Eq.symm
  apply @exec_ok _ _ _ _ ()
  unfold Database.ensureLimits
  simp only [transaction,bootstrapPrincipal,tenant,operator,ok_bind]
  cases found : db.queue.limits.lookup principal.tenantId with
  | some limits =>
    rw [if_pos (AList.lookup_isSome.mp (by rw [found]; rfl))]
    rfl
  | none =>
    rw [if_neg (AList.lookup_eq_none.mp found)]
    rfl

@[simp] theorem ensureTenant_queue (db : Database) (tenantId : TenantId) :
    (db.ensureTenant tenantId).queue = db.queue := by
  unfold Database.ensureTenant
  split <;> rfl

@[simp] theorem ensureUser_queue (db : Database) (principal : Principal) :
    (db.ensureUser principal).queue = db.queue := by
  unfold Database.ensureUser
  split <;> rfl

theorem administered (encoding : StoreEncoding) (ledger : Ledger) (call : IdentityCall) (now : Time) :
    (record encoding.toEncoding ledger (call,now)).database.queue = ledger.database.queue ∨ ∃ principal,
      (record encoding.toEncoding ledger (call,now)).database.queue =
        exec encoding ledger.database.queue (.bootstrapPrincipal principal) := by
  let Same := fun db : Database => db.queue = ledger.database.queue
  have kept {α : Type} {p : Program Database IdentityError α} (keeps : Keeps Same p) :
      (p ledger.database).2.queue = ledger.database.queue := keeps _ rfl
  let Left := fun db : Database => Same db ∨ ∃ principal, db.queue =
    exec encoding ledger.database.queue (.bootstrapPrincipal principal)
  cases call with
  | bootstrap principal =>
    apply @holds_given _ _ _ _ Left
    · exact .inl rfl
    intro _ tenant
    apply @holds_given _ _ _ _ Left
    · exact .inl rfl
    intro _ operator
    refine .inr ⟨principal,?_⟩
    have ensured :=
      ensureLimits_queue encoding ((ledger.database.ensureTenant principal.tenantId).ensureUser principal)
      (mapError_ok.mp tenant) (mapError_ok.mp operator)
    rw [ensureUser_queue,ensureTenant_queue] at ensured
    exact ensured
  | createTenant tenantId displayName =>
    apply @holds_given _ _ _ _ Left
    · exact .inl rfl
    intro _ tenant
    apply @holds_given _ _ _ _ Left
    · exact .inl rfl
    intro _ _
    apply @holds_given _ _ _ _ Left
    · exact .inl rfl
    intro _ _
    have operator : Queue.validateKey "o" "operator_id" 128 = .ok () := require_ok.mpr ⟨by decide,by decide⟩
    have ensured := @ensureLimits_queue encoding (ledger.database.openTenant tenantId displayName)
      ⟨⟨"o"⟩,tenantId,.operator⟩ (mapError_ok.mp tenant) operator
    refine .inr ⟨⟨⟨"o"⟩,tenantId,.operator⟩,?_⟩
    change ((ledger.database.openTenant tenantId displayName).ensureLimits tenantId).queue = _
    exact ensured
  | createUser operatorId tenantId role =>
    refine .inl (kept ?_)
    exact keeps_bind (keeps_given _) fun _ => keeps_bind (keeps_observe _) fun _ =>
        keeps_bind (keeps_given _) fun _ =>
      keeps_bind (keeps_given _) fun _ => keeps_bind (keeps_update fun _ same => same) fun _ =>
      keeps_bind (keeps_observe _) fun _ => keeps_given _
  | issueToken operatorId expiresAt drawn =>
    have same : (issueToken encoding.toEncoding operatorId expiresAt drawn now ledger.database).2.queue =
        ledger.database.queue := by
      apply kept
      exact keeps_bind (keeps_observe _) fun _ => keeps_bind (keeps_given _) fun _ =>
          keeps_bind (keeps_given _) fun _ =>
        keeps_bind (keeps_given _) fun _ => keeps_bind (keeps_given _) fun _ =>
            keeps_bind (keeps_given _) fun _ =>
        keeps_bind (keeps_given _) fun _ => keeps_bind (keeps_update fun _ same => same) fun _ => keeps_pure _
    simp only [record]
    cases ran : issueToken encoding.toEncoding operatorId expiresAt drawn now ledger.database with
    | mk answer database =>
      rw [ran] at same
      cases answer <;> exact .inl same
  | revokeToken tokenId =>
    have same : (revokeToken tokenId now ledger.database).2.queue = ledger.database.queue := by
      apply kept
      exact keeps_bind (keeps_observe _) fun _ => keeps_bind (keeps_given _) fun _ =>
        keeps_update fun _ same => same
    simp only [record]
    cases ran : revokeToken tokenId now ledger.database with
    | mk answer database =>
      rw [ran] at same
      cases answer <;> exact .inl same
  | authenticate token => exact .inl rfl

-- What the operations of a site are allowed to be.
def InSite (server : Server) (_ : QueueStore) (op : Operation) : Prop := Background op ∨ ∃ who,
    Commanded server who op

theorem inSite_ordinary {s : QueueStore} {op : Operation} (may : InSite server s op) : Ordinary s op := by
  rcases may with background | ⟨who,commanded⟩
  · cases op <;> first | rfl | exact absurd background not_false
  · cases commanded <;> rfl

structure Served (encoding : ApiEncoding) (server : Server) (site : Site) : Prop where
  books : BooksKept encoding.toEncoding site.ledger
  queue : Run encoding.toStoreEncoding (InSite server) site.queue

-- What an event makes of the queue: nothing, or what one operation makes of it.
theorem site_moves {site : Site} {event : SiteEvent} (served : Served encoding server site)
    (guard : InService site event) :
    BooksKept encoding.toEncoding (site.next encoding server event).ledger ∧
    ((site.next encoding server event).queue = site.queue ∨ ∃ op, InSite server site.queue op ∧
      (site.next encoding server event).queue = exec encoding.toStoreEncoding site.queue op) := by
  cases event with
  | request request moment =>
    rcases handle_cases served.books (run_linked served.queue) request moment with ⟨who,g,_,handled⟩ |
      ⟨_,refused⟩
    · refine ⟨handled.books,?_⟩
      have carried := handled.carried
      have queue := handled.queue
      change (handle encoding server request moment site.gateway).2.database.queue = _ ∨ ∃ op, _ ∧
        (handle encoding server request moment site.gateway).2.database.queue = _
      generalize (handle encoding server request moment site.gateway).2 = after at carried
      cases carried with
      | untouched => exact .inl queue
      | looked => exact .inl queue
      | @acted op _ _ _ commanded ran =>
        have made := exec_ok ran
        rw [queue] at made
        exact .inr ⟨op,.inr ⟨who,commanded⟩,made.symm⟩
    · have same : site.next encoding server (.request request moment) = site := by
        change {site with gateway:=(handle encoding server request moment site.gateway).2} = site
        rw [refused]
      rw [same]
      exact ⟨served.books,.inl rfl⟩
  | administer call now =>
    refine ⟨record_books served.books (call,now),?_⟩
    rcases administered encoding.toStoreEncoding site.ledger call now with same | ⟨principal,made⟩
    · exact .inl same
    · exact .inr ⟨.bootstrapPrincipal principal,.inl trivial,made⟩
  | background op => exact ⟨books_queue served.books _,.inr ⟨op,.inl guard,rfl⟩⟩

theorem site_served {site : Site} (run : SiteRun encoding server site) : Served encoding server site := by
  apply run.invariant
  · exact ⟨ledger_books encoding.toEncoding [],.start⟩
  · intro site event served guard
    obtain ⟨books,same | ⟨op,may,made⟩⟩ := site_moves served guard
    · exact ⟨books,same ▸ served.queue⟩
    · exact ⟨books,made ▸ Reaches.step served.queue may⟩

def siteEncoding : ApiEncoding := {trialEncoding with fingerprintJson:=fun material => material.objective}

def siteServer : Server := ⟨trialAdmin,some "key",false,true,true⟩

def keyed : RequestHeaders := ⟨some "Bearer key",some "once"⟩

def siteMoment : RequestMoment := ⟨second 0,⟨second 0,second 0,second 0⟩,70,true⟩

def openSession : HttpRequest := ⟨keyed,"request",.createSession 2⟩

theorem keyed_vouched (site : Site) (now : Time) :
    Vouched siteEncoding siteServer site keyed now trialAdmin := by
  have token : keyed.authorization.bind stripBearer = some "key" := by decide
  unfold Vouched
  rw [token]
  exact .inl ⟨rfl,rfl⟩

end Shaka.Properties
