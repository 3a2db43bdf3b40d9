import DurableActors.Ports.StoragePaths

/-!
# Actor tokens and delegated capabilities

A host runs an operation for a caller that presents a token, or the operation it
was launched with.  The verifier turns the claims of a token into a principal; a
token may carry a capability for one actor at one epoch, and the capability a
grant that delegates some methods for a limited time.

The library that checks a signature, the issuer, the audience and the validity
times is a parameter of the verifier: it answers with the claims of a token.
-/

namespace DurableActors.Ports.Capabilities

open Verified Verified.Checked
open StoragePaths (ActorKey validateComponent)

/-! ## Tokens -/

/-- What a user may call, and until when. -/
structure InvocationGrant where
  subject : String
  grantId : String
  expiresAt : Int
  methods : List String
deriving DecidableEq, Repr

/-- The capability of a delegated call. -/
structure ActorInvocationCapability where
  route : String
  actor : ActorKey
  hostId : String
  ownerEpoch : Nat
  grant : Option InvocationGrant
deriving DecidableEq, Repr

structure ActorJwtClaims where
  organizationId : Option String
  actor : ActorKey
  sub : String
  hostId : String
  sessionId : String
  region : String
  hostConfigKey : Option String
  scope : String
  iat : Int
  exp : Int
  invocation : Option ActorInvocationCapability
deriving DecidableEq, Repr

/-- What a verified token says of its holder. -/
structure ActorPrincipal where
  organizationId : Option String
  actor : ActorKey
  hostId : String
  sessionId : String
  region : String
  hostConfigKey : Option String
  invocation : Option ActorInvocationCapability
deriving DecidableEq, Repr

/-- The grant of a token. -/
def ActorPrincipal.grant (principal : ActorPrincipal) : Option InvocationGrant :=
  principal.invocation.bind (·.grant)

inductive ActorTokenPurpose
  | controlPlane
  | invocation
deriving DecidableEq, Repr

def ActorTokenPurpose.claim : ActorTokenPurpose → String
  | .controlPlane => "actor:authority"
  | .invocation => "actor:invoke"

/-- `ActorJwtVerifier`: `decode` gives the claims of a token whose signature,
issuer, audience and times the library accepts. -/
structure ActorJwtVerifier where
  purpose : ActorTokenPurpose
  maxLifetime : Nat
  decode : String → Checked ActorJwtClaims
  parseUuid : String → Bool

/-- `CLOCK_SKEW`, in seconds. -/
def clockSkew : Int := 5

def isAsciiWhitespace (c : Char) : Bool :=
  c == ' ' || c == '\t' || c == '\n' || c == '\x0c' || c == '\r'

/-- `scope.split_ascii_whitespace()`. -/
def scopes (scope : String) : List String :=
  ((scope.toList.splitOnP isAsciiWhitespace).filter (!·.isEmpty)).map .ofList

/-- `char::is_whitespace`. -/
def isWhitespace (c : Char) : Bool :=
  (0x09 ≤ c.val && c.val ≤ 0x0d) || (0x2000 ≤ c.val && c.val ≤ 0x200a) ||
    [0x20, 0x85, 0xa0, 0x1680, 0x2028, 0x2029, 0x202f, 0x205f, 0x3000].contains c.val

/-- `value.trim() == value`. -/
def isTrimmed (value : String) : Bool :=
  !value.toList.head?.any isWhitespace && !value.toList.getLast?.any isWhitespace

/-- `bearer_token`. -/
def bearerToken (authorization : String) : Checked String := do
  let token ← ofOption "actor token must use Bearer authentication"
    (Text.stripPrefix "Bearer " authorization)
  ensure (!token.isEmpty && isTrimmed token) "actor token is invalid"
  pure token

def validRegion (region : String) : Bool :=
  !region.isEmpty && region.utf8ByteSize ≤ 64 &&
    region.toList.all fun c => c.isLower || c.isDigit || c == '.' || c == '_' || c == '-'

/-- `admin::validate_component`. -/
def validateAdminComponent (name value : String) (maximum : Nat) : Checked Unit := do
  ensure (!value.isEmpty) (name ++ " must not be empty")
  ensure (value.utf8ByteSize ≤ maximum)
    (name ++ " must be at most " ++ toString maximum ++ " bytes")
  ensure (value.toList.all fun c => c.isAlphanum || c == '.' || c == '_' || c == '-')
    (name ++ " contains unsupported characters")

/-- The checks of a grant in `validate_claims`. -/
def validateGrant (claims : ActorJwtClaims) (grant : InvocationGrant) (now : Int) :
    Checked Unit := do
  ensure (claims.exp ≤ grant.expiresAt && now < grant.expiresAt)
    "delegated authorization has expired"
  ensure (!grant.subject.isEmpty && grant.subject.utf8ByteSize ≤ 128 &&
    !grant.grantId.isEmpty && grant.grantId.utf8ByteSize ≤ 128) "delegated identity is invalid"
  ensure (grant.methods.length ≤ 256) "too many delegated methods"
  grant.methods.forM fun method => validateAdminComponent "delegated method" method 128

def validateCapability (claims : ActorJwtClaims) (capability : ActorInvocationCapability)
    (now : Int) : Checked Unit := do
  ifSome capability.grant fun grant => validateGrant claims grant now
  ensure (capability.hostId = claims.hostId) "actor invocation capability targets another host"
  ensure (capability.actor = claims.actor) "actor invocation capability targets another actor"
  capability.actor.validate
  ensure (0 < capability.ownerEpoch) "actor invocation capability owner epoch is invalid"

/-- A token that carries a grant. -/
def ActorJwtClaims.delegated (claims : ActorJwtClaims) : Bool :=
  claims.invocation.any (·.grant.isSome)

/-- The scope is that of the purpose. -/
def ActorJwtVerifier.validScope (v : ActorJwtVerifier) (claims : ActorJwtClaims) : Bool :=
  if claims.delegated then
    v.purpose = .invocation && claims.scope == "actor:delegated-invoke"
  else
    (scopes claims.scope).any (· == v.purpose.claim) &&
      !(scopes claims.scope).any (· == "actor:delegated-invoke")

/-- `validate_claims`, at `now` seconds. -/
def ActorJwtVerifier.validateClaims (v : ActorJwtVerifier) (now : Int)
    (claims : ActorJwtClaims) : Checked ActorPrincipal := do
  ensure (v.validScope claims) "actor token credential scope is invalid"
  ensure (!claims.sub.isEmpty) "actor token subject is empty"
  ensure (claims.sub = claims.hostId) "host token subject does not match its process identity"
  ensure (v.parseUuid claims.sessionId) "actor token session ID is invalid"
  ensure (claims.iat < claims.exp) "actor token lifetime is invalid"
  ensure (claims.exp - claims.iat < 2 ^ 63) "actor token lifetime is invalid"
  ensure ((claims.exp - claims.iat).toNat ≤ v.maxLifetime)
    "actor token lifetime exceeds the configured maximum"
  ensure (now < claims.exp) "actor token has expired"
  ensure (claims.iat ≤ now + clockSkew) "actor token was issued in the future"
  claims.actor.validate
  let principal : ActorPrincipal :=
    ⟨claims.organizationId, claims.actor, claims.hostId, claims.sessionId, claims.region,
      claims.hostConfigKey, claims.invocation⟩
  ensure ((Text.stripPrefix "host.v3." principal.hostId).isSome) "invalid host identity"
  ensure (validRegion principal.region) "actor token storage region is invalid"
  ifSome principal.invocation fun capability => validateCapability claims capability now
  pure principal

/-- `authenticate_authorization`. -/
def ActorJwtVerifier.authenticate (v : ActorJwtVerifier) (now : Int) (authorization : String) :
    Checked ActorPrincipal := do
  let token ← bearerToken authorization
  let claims ← v.decode token
  v.validateClaims now claims

/-! ## Issuing -/

structure ActorJwtIssuer where
  /-- In seconds. -/
  maxLifetime : Nat

/-- `INVOCATION_TARGET_TTL`, in seconds. -/
def invocationTargetTtl : Int := 60

/-- The claims that `issue_invocation_target` signs, at `now` seconds;
`backendOrigin` is the origin of the route. -/
def ActorJwtIssuer.issueInvocationTarget (issuer : ActorJwtIssuer) (now : Int) (actor : ActorKey)
    (hostId sessionId hostConfigKey region : String) (ownerEpoch : Nat)
    (grant : Option InvocationGrant) (backendOrigin : Checked String) :
    Checked ActorJwtClaims := do
  actor.validate
  ensure (validRegion region) "sandbox region is invalid"
  ensure (0 < ownerEpoch) "actor owner epoch must be positive"
  let targetExpiresAt := min (now + invocationTargetTtl) (2 ^ 63 - 1)
  let issuerExpiresAt := min (now + issuer.maxLifetime) (2 ^ 63 - 1)
  let expiresAt := min (min targetExpiresAt issuerExpiresAt)
    (match grant with
      | some grant => grant.expiresAt
      | none => 2 ^ 63 - 1)
  ensure (now < expiresAt) "invocation credential expires too soon"
  let route ← backendOrigin
  ensure (expiresAt * 1000 < 2 ^ 63) "issued actor token expiration overflow"
  pure ⟨none, actor, hostId, hostId, sessionId, region, some hostConfigKey,
    if grant.isSome then "actor:delegated-invoke" else "actor:invoke", now, expiresAt,
    some ⟨route, actor, hostId, ownerEpoch, grant⟩⟩

/-! ## Requests to a host -/

structure ActorInvocation where
  requestId : String
  actor : ActorKey
  method : String
  args : List Nat
deriving DecidableEq, Repr

def ActorInvocation.validate (invocation : ActorInvocation) : Checked Unit := do
  ensure (!invocation.requestId.isEmpty) "request ID must not be empty"
  ensure (invocation.requestId.utf8ByteSize ≤ 255) "request ID must be at most 255 bytes"
  invocation.actor.validate
  validateComponent "actor method" invocation.method 128

/-- The event of a socket invocation is not read here. -/
structure ActorSocketInvocation where
  requestId : String
  actor : ActorKey
  event : Nat
deriving DecidableEq, Repr

structure HttpError where
  status : Nat
  message : String
deriving DecidableEq, Repr

/-- What a handler asks of the executor. -/
inductive Execution
  | invoke (invocation : ActorInvocation) (ownerEpoch : Nat)
  | socket (invocation : ActorSocketInvocation) (ownerEpoch : Nat)
deriving DecidableEq, Repr

def Execution.ownerEpoch : Execution → Nat
  | .invoke _ epoch | .socket _ epoch => epoch

/-- The method that is called, if it is a method call. -/
def Execution.method : Execution → Option String
  | .invoke invocation _ => some invocation.method
  | .socket _ _ => none

inductive Response
  | error (error : HttpError)
  | failed (code message : String)
  | executed (execution : Execution)
deriving DecidableEq, Repr

structure InvokeRequest where
  requestId : String
  ownerEpoch : Nat
  method : String
  args : List Nat
deriving DecidableEq, Repr

structure SocketEventRequest where
  ownerEpoch : Nat
  invocation : ActorSocketInvocation
deriving DecidableEq, Repr

inductive InitialRequest
  | invoke (invocation : ActorInvocation) (grant : Option InvocationGrant)
  | socket (invocation : ActorSocketInvocation)
deriving DecidableEq, Repr

/-- The requests a host gets.  A body that could not be read is an error. -/
inductive Request
  | invoke (authorization : String) (actor : ActorKey) (body : Except HttpError InvokeRequest)
  | socketEvent (authorization : String) (actor : ActorKey) (body : SocketEventRequest)
  | initial (request : InitialRequest) (ownerEpoch : Nat)

/-- `ActorHostHttpService`. -/
structure ActorHostHttpService where
  hostActor : ActorKey
  hostId : String
  sessionId : String
  auth : ActorJwtVerifier

def badRequest : Fault → HttpError
  | .error (message :: _) => ⟨400, message⟩
  | _ => ⟨400, ""⟩

/-- `authorize_grant`. -/
def authorizeGrant (grant : Option InvocationGrant) (method : Option String) :
    Except HttpError Unit :=
  match grant with
  | none => .ok ()
  | some grant =>
    let allowed := method.any fun method =>
      !(["onConnect", "onMessage", "onDisconnect", "connect", "broadcast", "then"].contains
        method) && grant.methods.any (· == method)
    if allowed then .ok () else .error ⟨403, "operation is outside the actor grant"⟩

def validateHostRequest (principal : ActorPrincipal) (hostId sessionId : String)
    (actor : ActorKey) (ownerEpoch : Nat) : Except HttpError Unit :=
  if ownerEpoch = 0 ∨ ownerEpoch > 9007199254740991 then
    .error ⟨400, "actor ownership capability is incomplete"⟩
  else if principal.hostId ≠ hostId ∨ principal.sessionId ≠ sessionId ∨
      principal.actor ≠ actor then
    .error ⟨403, "actor credential belongs to another actor or host session"⟩
  else match principal.invocation with
    | some capability =>
      if capability.actor ≠ actor ∨ capability.hostId ≠ hostId ∨
          capability.ownerEpoch ≠ ownerEpoch then
        .error ⟨403, "actor invocation does not match its direct capability"⟩
      else .ok ()
    | none => .ok ()

namespace ActorHostHttpService

def authenticate (s : ActorHostHttpService) (now : Int) (authorization : String) :
    Except HttpError ActorPrincipal :=
  match s.auth.authenticate now authorization with
  | .ok principal => .ok principal
  | .error _ => .error ⟨401, "invalid actor invocation ticket"⟩

def authorize (s : ActorHostHttpService) (principal : ActorPrincipal) (actor : ActorKey)
    (ownerEpoch : Nat) : Except HttpError Unit :=
  match actor.validate with
  | .error fault => .error (badRequest fault)
  | .ok () =>
    match validateHostRequest principal s.hostId s.sessionId actor ownerEpoch with
    | .error error => .error error
    | .ok () =>
      if actor ≠ s.hostActor then .error ⟨403, "actor host serves another actor"⟩ else .ok ()

/-- `socket_event`, up to the executor. -/
def socketEvent (s : ActorHostHttpService) (now : Int) (authorization : String)
    (actor : ActorKey) (request : SocketEventRequest) : Except HttpError Execution := do
  let principal ← s.authenticate now authorization
  s.authorize principal actor request.ownerEpoch
  authorizeGrant principal.grant none
  if request.invocation.actor ≠ actor then .error ⟨403, "socket event actor mismatch"⟩
  else .ok (.socket request.invocation request.ownerEpoch)

/-- `invoke`, up to the executor.  A call outside the grant is a failed reply. -/
def invoke (s : ActorHostHttpService) (now : Int) (authorization : String) (actor : ActorKey)
    (body : Except HttpError InvokeRequest) : Except HttpError Response := do
  let principal ← s.authenticate now authorization
  let request ← body
  s.authorize principal actor request.ownerEpoch
  match authorizeGrant principal.grant (some request.method) with
  | .error error => .ok (.failed "forbidden" error.message)
  | .ok () =>
    let invocation : ActorInvocation := ⟨request.requestId, actor, request.method, request.args⟩
    match invocation.validate with
    | .error fault => .error (badRequest fault)
    | .ok () => .ok (.executed (.invoke invocation request.ownerEpoch))

/-- `execute_initial`, up to the executor; an error ends the assignment. -/
def executeInitial (s : ActorHostHttpService) (now : Int) (request : InitialRequest)
    (ownerEpoch : Nat) : Checked Response :=
  match request with
  | .invoke invocation grant => do
      ensure (invocation.actor = s.hostActor) "assignment operation actor mismatch"
      invocation.validate
      if (authorizeGrant grant (some invocation.method)).toBool = false ∨
          grant.any (fun grant => grant.expiresAt ≤ now) = true then
        pure (.failed "forbidden" "operation is outside the actor grant")
      else pure (.executed (.invoke invocation ownerEpoch))
  | .socket invocation => do
      ensure (invocation.actor = s.hostActor) "assignment operation actor mismatch"
      pure (.executed (.socket invocation ownerEpoch))

/-- The answer to a request at `now` seconds. -/
def handle (s : ActorHostHttpService) (now : Int) : Request → Response
  | .invoke authorization actor body =>
    match s.invoke now authorization actor body with
    | .ok response => response
    | .error error => .error error
  | .socketEvent authorization actor body =>
    match s.socketEvent now authorization actor body with
    | .ok execution => .executed execution
    | .error error => .error error
  | .initial request ownerEpoch =>
    match s.executeInitial now request ownerEpoch with
    | .ok response => response
    | .error fault => .error (badRequest fault)

end ActorHostHttpService

/-! ## What an accepted token says -/

section Accepted

variable {v : ActorJwtVerifier} {now : Int} {claims : ActorJwtClaims} {principal : ActorPrincipal}

theorem validateGrant_unexpired {grant : InvocationGrant}
    (h : validateGrant claims grant now = .ok ()) : now < grant.expiresAt := by
  obtain ⟨_, hexpired, -⟩ := bind_eq_ok.mp h
  rw [ensure_eq_ok, Bool.and_eq_true, decide_eq_true_eq, decide_eq_true_eq] at hexpired
  exact hexpired.2

/-- A principal with a grant comes from a token for invocations that is valid
before the grant expires. -/
theorem validateClaims_grant (h : v.validateClaims now claims = .ok principal)
    {grant : InvocationGrant} (hgrant : principal.grant = some grant) :
    v.purpose = .invocation ∧ now < grant.expiresAt := by
  obtain ⟨_, hscope, h⟩ := bind_eq_ok.mp h
  iterate 9 obtain ⟨_, -, h⟩ := bind_eq_ok.mp h
  obtain ⟨_, -, h⟩ := bind_eq_ok.mp h
  obtain ⟨_, -, h⟩ := bind_eq_ok.mp h
  obtain ⟨_, hcapability, h⟩ := bind_eq_ok.mp h
  have hinvocation : principal.invocation = claims.invocation := by
    rw [← Except.ok.inj h]
  rw [ActorPrincipal.grant, hinvocation] at hgrant
  obtain ⟨capability, hsome, hgrant⟩ := Option.bind_eq_some_iff.mp hgrant
  constructor
  · rw [ensure_eq_ok, ActorJwtVerifier.validScope] at hscope
    have hdelegated : claims.delegated = true := by
      rw [ActorJwtClaims.delegated, hsome, Option.any_some, hgrant]
      rfl
    rw [if_pos hdelegated, Bool.and_eq_true, decide_eq_true_eq] at hscope
    exact hscope.1
  · rw [hsome] at hcapability
    obtain ⟨_, hvalid, -⟩ := bind_eq_ok.mp hcapability
    rw [hgrant] at hvalid
    exact validateGrant_unexpired hvalid

theorem authenticate_grant {authorization : String}
    (h : v.authenticate now authorization = .ok principal) {grant : InvocationGrant}
    (hgrant : principal.grant = some grant) : v.purpose = .invocation ∧ now < grant.expiresAt := by
  obtain ⟨token, -, h⟩ := bind_eq_ok.mp h
  obtain ⟨claims, -, h⟩ := bind_eq_ok.mp h
  exact validateClaims_grant h hgrant

end Accepted

/-! ## What a handler has checked -/

/-- The hooks the runtime calls by itself. -/
def lifecycleHooks : List String := ["onConnect", "onMessage", "onDisconnect", "onAlarm"]

/-- The execution calls a method that the grant names, before it expires. -/
def InvocationGrant.Names (grant : InvocationGrant) (now : Int) (execution : Execution) : Prop :=
  ∃ method, execution.method = some method ∧ method ∈ grant.methods ∧ now < grant.expiresAt

/-- The execution calls no lifecycle hook. -/
def Execution.Hookless (execution : Execution) : Prop :=
  ∀ method, execution.method = some method → method ∉ lifecycleHooks

/-- The grant confines the execution to its methods; the one hook it may reach is `onAlarm`. -/
structure InvocationGrant.Confines (grant : InvocationGrant) (now : Int) (execution : Execution) :
    Prop where
  names : grant.Names now execution
  hookless : execution.Hookless ↔ execution.method ≠ some "onAlarm"

/-- The method is among those of the grant and not a reserved one; of the hooks only
`onAlarm` is not reserved. -/
theorem authorizeGrant_confines {grant : InvocationGrant} {execution : Execution} {now : Int}
    {method : String} (h : authorizeGrant (some grant) (some method) = .ok ())
    (hmethod : execution.method = some method) (hexpires : now < grant.expiresAt) :
    grant.Confines now execution := by
  simp only [authorizeGrant, Option.any_some, List.contains_eq_mem] at h
  split at h
  · rename_i hallowed
    rw [Bool.and_eq_true, Bool.not_eq_true', List.any_eq_true] at hallowed
    obtain ⟨hreserved, allowed, hmem, hallowed⟩ := hallowed
    rw [beq_iff_eq] at hallowed
    simp only [decide_eq_false_iff_not, List.mem_cons, not_or] at hreserved
    refine ⟨⟨method, hmethod, hallowed ▸ hmem, hexpires⟩, fun hfree halarm => ?_, ?_⟩
    · exact hfree _ halarm (by decide)
    · intro halarm called hcalled hhook
      cases hmethod.symm.trans hcalled
      simp only [lifecycleHooks, List.mem_cons, List.not_mem_nil, or_false] at hhook
      rcases hhook with rfl | rfl | rfl | rfl
      · exact hreserved.1 rfl
      · exact hreserved.2.1 rfl
      · exact hreserved.2.2.1 rfl
      · exact halarm hmethod
  · cases h

/-- What `validate_host_request` has checked. -/
theorem validateHostRequest_eq_ok {principal : ActorPrincipal} {hostId sessionId : String}
    {actor : ActorKey} {ownerEpoch : Nat}
    (h : validateHostRequest principal hostId sessionId actor ownerEpoch = .ok ()) :
    principal.hostId = hostId ∧ principal.sessionId = sessionId ∧ principal.actor = actor ∧
      ∀ capability, principal.invocation = some capability →
        capability.ownerEpoch = ownerEpoch := by
  revert h
  fun_cases validateHostRequest principal hostId sessionId actor ownerEpoch with
  | case4 _ hidentity capability hcapability hmatches =>
    simp only [not_or, not_not] at hidentity hmatches
    refine fun _ => ⟨hidentity.1, hidentity.2.1, hidentity.2.2, fun other hother => ?_⟩
    obtain rfl := Option.some.inj (hcapability.symm.trans hother)
    exact hmatches.2.2
  | case5 _ hidentity hnone =>
    simp only [not_or, not_not] at hidentity
    exact fun _ => ⟨hidentity.1, hidentity.2.1, hidentity.2.2, by simp [hnone]⟩
  | _ => rintro ⟨⟩

variable {s : ActorHostHttpService} {now : Int}

namespace ActorHostHttpService

theorem authenticate_eq_ok {authorization : String} {principal : ActorPrincipal}
    (h : s.authenticate now authorization = .ok principal) :
    s.auth.authenticate now authorization = .ok principal := by
  revert h
  fun_cases authenticate s now authorization with
  | case1 accepted haccepted =>
    rintro ⟨⟩
    exact haccepted
  | case2 => rintro ⟨⟩

theorem authorize_eq_ok {principal : ActorPrincipal} {actor : ActorKey} {ownerEpoch : Nat}
    (h : s.authorize principal actor ownerEpoch = .ok ()) :
    actor = s.hostActor ∧ principal.actor = s.hostActor ∧ principal.hostId = s.hostId ∧
      principal.sessionId = s.sessionId ∧ ∀ capability, principal.invocation = some capability →
        capability.ownerEpoch = ownerEpoch := by
  revert h
  fun_cases authorize s principal actor ownerEpoch with
  | case4 _ hvalidate hactor =>
    have hactor : actor = s.hostActor := not_not.mp hactor
    obtain ⟨hhost, hsession, hprincipal, hepoch⟩ := validateHostRequest_eq_ok hvalidate
    exact fun _ => ⟨hactor, hprincipal.trans hactor, hhost, hsession, hepoch⟩
  | _ => rintro ⟨⟩

end ActorHostHttpService

/-! ## Confinement -/

def Execution.actor : Execution → ActorKey
  | .invoke invocation _ => invocation.actor
  | .socket invocation _ => invocation.actor

/-- The credential a request presents. -/
def Request.authorization : Request → Option String
  | .invoke authorization _ _ | .socketEvent authorization _ _ => some authorization
  | .initial _ _ => none

/-- The grant of an initial operation. -/
def Request.initialGrant : Request → Option InvocationGrant
  | .initial (.invoke _ grant) _ => grant
  | _ => none

/-- What the token of an HTTP request has to say for the execution. -/
structure Authorized (s : ActorHostHttpService) (now : Int) (principal : ActorPrincipal)
    (execution : Execution) : Prop where
  actor : principal.actor = s.hostActor
  host : principal.hostId = s.hostId
  session : principal.sessionId = s.sessionId
  epoch : ∀ capability, principal.invocation = some capability →
    capability.ownerEpoch = execution.ownerEpoch
  grant : ∀ grant, principal.grant = some grant → grant.Confines now execution

namespace ActorHostHttpService

/-- A call runs for an authenticated and authorized principal. -/
theorem invoke_executed {authorization : String} {actor : ActorKey}
    {body : Except HttpError InvokeRequest} {execution : Execution}
    (h : s.invoke now authorization actor body = .ok (.executed execution)) :
    execution.actor = s.hostActor ∧ ∃ principal,
      s.auth.authenticate now authorization = .ok principal ∧
        Authorized s now principal execution := by
  obtain ⟨principal, hprincipal, h⟩ := bind_eq_ok_of h
  obtain ⟨request, -, h⟩ := bind_eq_ok_of h
  obtain ⟨_, hauthorized, h⟩ := bind_eq_ok_of h
  obtain ⟨hactor, hown, hhost, hsession, hepoch⟩ := authorize_eq_ok hauthorized
  have hauthenticated := authenticate_eq_ok hprincipal
  split at h
  · cases h
  · rename_i hgrant
    simp only at h
    split at h
    · cases h
    · cases h
      refine ⟨hactor, principal, hauthenticated, hown, hhost, hsession, hepoch, ?_⟩
      intro grant hsome
      rw [hsome] at hgrant
      exact authorizeGrant_confines hgrant rfl (authenticate_grant hauthenticated hsome).2

/-- A socket event runs for an authenticated principal that has no grant. -/
theorem socketEvent_executed {authorization : String} {actor : ActorKey}
    {body : SocketEventRequest} {execution : Execution}
    (h : s.socketEvent now authorization actor body = .ok execution) :
    execution.actor = s.hostActor ∧ ∃ principal,
      s.auth.authenticate now authorization = .ok principal ∧ principal.grant = none ∧
        Authorized s now principal execution := by
  obtain ⟨principal, hprincipal, h⟩ := bind_eq_ok_of h
  obtain ⟨_, hauthorized, h⟩ := bind_eq_ok_of h
  obtain ⟨_, hgrant, h⟩ := bind_eq_ok_of h
  obtain ⟨hactor, hown, hhost, hsession, hepoch⟩ := authorize_eq_ok hauthorized
  have hnone : principal.grant = none := by
    cases hsome : principal.grant with
    | none => rfl
    | some grant =>
      rw [hsome] at hgrant
      cases hgrant
  split at h
  · cases h
  · rename_i hevent
    cases h
    refine ⟨(not_not.mp hevent).trans hactor, principal, authenticate_eq_ok hprincipal, hnone,
      hown, hhost, hsession, hepoch, ?_⟩
    intro grant hsome
    rw [hnone] at hsome
    cases hsome

/-- An initial request runs within its grant. -/
theorem executeInitial_executed {request : InitialRequest} {ownerEpoch : Nat}
    {execution : Execution}
    (h : s.executeInitial now request ownerEpoch = .ok (.executed execution)) :
    execution.actor = s.hostActor ∧ ∀ grant,
      (Request.initial request ownerEpoch).initialGrant = some grant →
        grant.Confines now execution := by
  cases request with
  | invoke invocation grant =>
    obtain ⟨_, hactor, h⟩ := bind_eq_ok.mp h
    obtain ⟨_, -, h⟩ := bind_eq_ok.mp h
    split at h
    · cases h
    · rename_i hallowed
      cases h
      rw [ensure_eq_ok, decide_eq_true_eq] at hactor
      refine ⟨hactor, fun granted hgranted => ?_⟩
      have hgrant : grant = some granted := hgranted
      subst hgrant
      simp only [not_or, Bool.not_eq_false, Bool.not_eq_true, Option.any_some,
        decide_eq_false_iff_not, not_le] at hallowed
      obtain ⟨hgrant, hexpires⟩ := hallowed
      cases hcheck : authorizeGrant (some granted) (some invocation.method) with
      | error error =>
        rw [hcheck] at hgrant
        cases hgrant
      | ok _ => exact authorizeGrant_confines hcheck rfl hexpires
  | socket invocation =>
    obtain ⟨_, hactor, h⟩ := bind_eq_ok.mp h
    cases h
    rw [ensure_eq_ok, decide_eq_true_eq] at hactor
    exact ⟨hactor, fun grant hgrant => nomatch hgrant⟩

end ActorHostHttpService

/-- A token with a grant expires with the grant at the latest. -/
theorem issueInvocationTarget_expires {issuer : ActorJwtIssuer} {actor : ActorKey}
    {hostId sessionId hostConfigKey region : String} {ownerEpoch : Nat} {grant : InvocationGrant}
    {backendOrigin : Checked String} {claims : ActorJwtClaims}
    (h : issuer.issueInvocationTarget now actor hostId sessionId hostConfigKey region ownerEpoch
      (some grant) backendOrigin = .ok claims) : claims.exp ≤ grant.expiresAt := by
  obtain ⟨_, -, h⟩ := bind_eq_ok.mp h
  obtain ⟨_, -, h⟩ := bind_eq_ok.mp h
  obtain ⟨_, -, h⟩ := bind_eq_ok.mp h
  obtain ⟨_, -, h⟩ := bind_eq_ok.mp h
  obtain ⟨_, -, h⟩ := bind_eq_ok.mp h
  obtain ⟨_, -, h⟩ := bind_eq_ok.mp h
  rw [← Except.ok.inj h]
  exact Int.min_le_right _ _

/-- **Delegated capabilities are confined**: the executor runs for a token of
this actor, host and session, at the epoch of its capability, and for a grant
only a method of the grant before it expires, which is no hook unless it is
`onAlarm`; a token with a grant opens neither socket events nor the control
plane, and is not issued beyond the grant. -/
theorem delegated_capabilities_confined (s : ActorHostHttpService) (now : Int) :
    (∀ request execution, s.handle now request = .executed execution →
      execution.actor = s.hostActor ∧
      (∀ authorization, request.authorization = some authorization → ∃ principal,
        s.auth.authenticate now authorization = .ok principal ∧
          Authorized s now principal execution) ∧
      (∀ grant, request.initialGrant = some grant → grant.Confines now execution)) ∧
    (∀ authorization principal, s.auth.authenticate now authorization = .ok principal →
      principal.grant.isSome → ∀ actor body execution,
        s.handle now (.socketEvent authorization actor body) ≠ .executed execution) ∧
    (∀ v : ActorJwtVerifier, v.purpose = .controlPlane → ∀ authorization principal,
      v.authenticate now authorization = .ok principal → principal.grant = none) ∧
    (∀ (issuer : ActorJwtIssuer) actor hostId sessionId hostConfigKey region ownerEpoch grant
      backendOrigin claims, issuer.issueInvocationTarget now actor hostId sessionId hostConfigKey
        region ownerEpoch (some grant) backendOrigin = .ok claims →
      claims.exp ≤ grant.expiresAt) := by
  refine ⟨?_, ?_, ?_, ?_⟩
  · intro request execution
    fun_cases ActorHostHttpService.handle s now request with
    | case1 authorization actor body response hresponse =>
      rintro rfl
      obtain ⟨hactor, hprincipal⟩ := ActorHostHttpService.invoke_executed hresponse
      refine ⟨hactor, ?_, by rintro _ ⟨⟩⟩
      rintro presented ⟨⟩
      exact hprincipal
    | case3 authorization actor body execution hexecution =>
      rintro ⟨⟩
      obtain ⟨hactor, principal, hauthenticated, -, hauthorized⟩ :=
        ActorHostHttpService.socketEvent_executed hexecution
      refine ⟨hactor, ?_, by rintro _ ⟨⟩⟩
      rintro presented ⟨⟩
      exact ⟨principal, hauthenticated, hauthorized⟩
    | case5 request ownerEpoch response hresponse =>
      rintro rfl
      obtain ⟨hactor, hgrant⟩ := ActorHostHttpService.executeInitial_executed hresponse
      exact ⟨hactor, by rintro _ ⟨⟩, hgrant⟩
    | _ => rintro ⟨⟩
  · intro authorization principal hauthenticated hgrant actor body execution h
    have hexecution : s.socketEvent now authorization actor body = .ok execution := by
      rw [ActorHostHttpService.handle] at h
      split at h
      · rename_i result hresult
        rw [hresult, Response.executed.inj h]
      · cases h
    obtain ⟨-, accepted, haccepted, hnone, -⟩ :=
      ActorHostHttpService.socketEvent_executed hexecution
    rw [hauthenticated] at haccepted
    rw [Except.ok.inj haccepted, hnone] at hgrant
    cases hgrant
  · intro v hpurpose authorization principal hauthenticated
    cases hgrant : principal.grant with
    | none => rfl
    | some grant =>
      have hinvocation := (authenticate_grant hauthenticated hgrant).1
      rw [hpurpose] at hinvocation
      cases hinvocation
  · intro issuer actor hostId sessionId hostConfigKey region ownerEpoch grant backendOrigin claims
      h
    exact issueInvocationTarget_expires h

/-! A token whose grant names the alarm hook, at a host of the actor. -/

def counterActor : ActorKey := ⟨"shop", "Counter", "c1"⟩

def grantFor (method : String) : InvocationGrant := ⟨"user", "g1", 60, [method]⟩

def claimsFor (method : String) : ActorJwtClaims :=
  ⟨none, counterActor, "host.v3.a", "host.v3.a", "session", "eu", none, "actor:delegated-invoke",
    0, 50, some ⟨"https://host", counterActor, "host.v3.a", 3, some (grantFor method)⟩⟩

def principalFor (method : String) : ActorPrincipal :=
  ⟨none, counterActor, "host.v3.a", "session", "eu", none,
    some ⟨"https://host", counterActor, "host.v3.a", 3, some (grantFor method)⟩⟩

def hostFor (method : String) : ActorHostHttpService :=
  ⟨counterActor, "host.v3.a", "session",
    ⟨.invocation, 60, fun _ => .ok (claimsFor method), fun _ => true⟩⟩

def callOf (method : String) : Request :=
  .invoke "Bearer token" counterActor (.ok ⟨"r1", 3, method, []⟩)

def executionOf (method : String) : Execution := .invoke ⟨"r1", counterActor, method, []⟩ 3

/-- Both entry paths run `onAlarm` for a grant that names it. -/
theorem delegated_grant_runs_onAlarm :
    (hostFor "onAlarm").auth.authenticate 10 "Bearer token" = .ok (principalFor "onAlarm") ∧
      (principalFor "onAlarm").grant = some (grantFor "onAlarm") ∧
      (hostFor "onAlarm").handle 10 (callOf "onAlarm") = .executed (executionOf "onAlarm") ∧
      (hostFor "onAlarm").handle 10
          (.initial (.invoke ⟨"r1", counterActor, "onAlarm", []⟩ (some (grantFor "onAlarm"))) 3) =
        .executed (executionOf "onAlarm") ∧
      ¬ (executionOf "onAlarm").Hookless :=
  ⟨by decide +kernel, by decide, by decide +kernel, by decide +kernel,
    fun hhookless => hhookless _ rfl (by decide)⟩

theorem delegated_capabilities_confined_method :
    (hostFor "add").handle 10 (callOf "add") = .executed (executionOf "add") ∧
      (grantFor "add").Names 10 (executionOf "add") ∧ (executionOf "add").Hookless := by
  have hexecuted : (hostFor "add").handle 10 (callOf "add") = .executed (executionOf "add") := by
    decide +kernel
  have haccepted : (hostFor "add").auth.authenticate 10 "Bearer token" =
      .ok (principalFor "add") := by decide +kernel
  obtain ⟨-, htoken, -⟩ :=
    (delegated_capabilities_confined (hostFor "add") 10).1 (callOf "add") _ hexecuted
  obtain ⟨principal, hprincipal, hauthorized⟩ := htoken _ rfl
  rw [haccepted] at hprincipal
  rw [← Except.ok.inj hprincipal] at hauthorized
  have hconfined := hauthorized.grant _ rfl
  exact ⟨hexecuted, hconfined.names, hconfined.hookless.mpr (by decide)⟩

end DurableActors.Ports.Capabilities
