import Bindizr.Catalog
import Bindizr.UpdateServer

/-! # Requests in progress

Everything that reaches the registry: calls over the local socket, which act with full rights; calls over
HTTP, which authenticate a bearer token first unless the configuration turns that off; UPDATE messages;
and the clock.  A call is one of the services' functions, made of several accesses, and calls run side
by side: `Pool.run` over `serve` lets the accesses of all that is in progress come in any order.

No order breaks the registry (`interleaved_integrity`): its zones are always those of a history of
operations carried out one after another, so what holds of every history holds of every interleaving; a
policy never outlives its zone or its holder, never belongs to a global holder, and is written in
normal form; and a credential that was revoked never comes back under its number. -/

namespace Bindizr

open Concurrent (Program Pool Event)
open Tables (Table)

/-! ### Calls -/

/-- The calls that change zones and records, without their caller. -/
inductive ZoneCall where
  | createZone (request : CreateZoneRequest)
  | updateZone (zoneName : Text) (request : CreateZoneRequest)
  | patchZone (zoneName : Text) (patch : UpdateZonePatch)
  | deleteZone (zoneName : Text)
  | createRecord (request : CreateRecordRequest)
  | createBulk (zoneName : Text) (items : List RecordItem) (dryRun : Bool)
  | updateById (id : ℕ) (zoneIdRead : Option ℕ) (request : RecordItem)
  | patchById (id : ℕ) (zoneIdRead : Option ℕ) (patch : UpdateRecordPatch)
  | deleteById (id : ℕ) (zoneIdRead : Option ℕ)
  | importZoneFile (zoneName : Text) (request : ImportZoneFileRequest)
  | applyChanges (zonesRead : List ZoneName) (request : ExternalDnsChangesRequest)
  | rollback (hash : HashOrder) (zoneName : Text) (targetSerial : ℤ) (dryRun : Bool)

/-- The operation a caller has carried out. -/
def ZoneCall.op (caller : Caller) : ZoneCall → Op
  | .createZone request => .createZone caller request
  | .updateZone zoneName request => .updateZone caller zoneName request
  | .patchZone zoneName patch => .patchZone caller zoneName patch
  | .deleteZone zoneName => .deleteZone caller zoneName
  | .createRecord request => .createRecord caller request
  | .createBulk zoneName items dryRun => .createBulk caller zoneName items dryRun
  | .updateById id zoneIdRead request => .updateById caller id zoneIdRead request
  | .patchById id zoneIdRead patch => .patchById caller id zoneIdRead patch
  | .deleteById id zoneIdRead => .deleteById caller id zoneIdRead
  | .importZoneFile zoneName request => .importZoneFile caller zoneName request
  | .applyChanges zonesRead request => .applyChanges caller zonesRead request
  | .rollback hash zoneName targetSerial dryRun => .rollback caller hash zoneName targetSerial dryRun

theorem ZoneCall.op_holder (caller : Caller) (call : ZoneCall) : (call.op caller).holder = caller.holder := by
  cases call <;> rfl

theorem ZoneCall.op_ne_setPolicies (caller : Caller) (call : ZoneCall) (a b : List ZonePolicy) :
    call.op caller ≠ .setPolicies a b := by
  cases call <;> simp [ZoneCall.op]

namespace ZoneService

def getByName (caller : Caller) (zoneName : Text) : Access Zone := do
  let zone ← lookupZone zoneName
  (caller.ensureZoneVisible zone).mapError AccessError.ofService
  pure zone

/-- `force_increment_serial_by_name`, in its transaction. -/
def forceIncrementSerialByName (zoneName : Text) : Access Zone :=
  .transaction fun s =>
    match Bindizr.forceIncrementSerial s.db zoneName with
    | .ok (db, zone) => .ok (zone, s.withZones db)
    | .error e => .error (.ofService e)

/-- The serials of zones, each in a transaction of its own. -/
def forceEach : List Zone → Access (List Zone)
  | [] => pure []
  | zone :: zones => do
      let bumped ← forceIncrementSerialByName zone.name.text
      let rest ← forceEach zones
      pure (bumped :: rest)

/-- `force_increment_serial`: of one zone, or of all. -/
def forceIncrementSerial : Option Text → Access (List Zone)
  | some name => do
      let zone ← forceIncrementSerialByName name
      pure [zone]
  | none => do
      let zones ← Program.read fun s : Registry => s.db.listZones
      forceEach zones

/-- The bump that a forced NOTIFY makes first. -/
def forceWhen (force : Bool) (zoneName : Option Text) : Access Unit :=
  if force then do
    let _ ← forceIncrementSerial zoneName
    pure ()
  else pure ()

/-- The checks of a NOTIFY for a zone or for all, and the bump. -/
def prepareNotify (caller : Caller) (force : Bool) : Option Text → Access Unit
  | some name =>
      -- the catalog zone has no row to bump
      if isCatalogZone name then caller.ensureGlobal (lit "send NOTIFY for the catalog zone")
      else do
        let _ ← getByName caller name
        forceWhen force (some name)
  | none => do
      caller.ensureGlobal (lit "send NOTIFY for all zones")
      forceWhen force none

/-- Forcing a NOTIFY changes zones, which needs full rights. -/
def ensureMayForce (caller : Caller) (force : Bool) : Except AccessError Unit :=
  if force then caller.ensureGlobal (lit "force a NOTIFY") else .ok ()

/-- `ZoneService::notify`, up to the sending: the zone the NOTIFY is for, or all. -/
def notify (caller : Caller) (zoneName : Option Text) (force : Bool) : Access (Option Text) := do
  ensureMayForce caller force
  prepareNotify caller force zoneName
  pure zoneName

end ZoneService

variable [crates : UpdateCrates]

/-- The functions of the services. -/
inductive Call where
  | zone (call : ZoneCall)
  | notify (zoneName : Option Text) (force : Bool)
  | createToken (name : Text) (description : Option Text) (expiresInDays : Option ℤ) (isGlobal : Bool) (raw : RawToken)
  | listTokens
  | deleteToken (name : Text)
  | createKey (name : Text) (algorithm secret : Option Text) (isGlobal : Bool) (raw : RawSecret)
  | listKeys
  | getKey (name : Text)
  | deleteKey (name : Text)
  | addPolicy (plane : Plane) (zoneName holderName : Text) (recordNamePattern recordTypes : Option Text)
  | listPolicies (plane : Plane) (zoneName : Text)
  | removePolicy (plane : Plane) (zoneName : Text) (policyId : ℕ)

/-- What a call gives back. -/
inductive CallReply where
  | committed (done : Bool)
  | notified (zoneName : Option Text)
  | tokens (rows : List (ℕ × ApiToken))
  | keys (rows : List (ℕ × StoredKey))
  | policies (rows : List ((ℕ × ZonePolicy) × Text))
  | deleted

def Call.program (caller : Caller) : Call → Access CallReply
  | .zone call => do
      let done ← commitOp (call.op caller)
      pure (.committed done)
  | .notify zoneName force => do
      let zoneName ← ZoneService.notify caller zoneName force
      pure (.notified zoneName)
  | .createToken name description expiresInDays isGlobal raw => do
      let row ← TokenService.create caller name description expiresInDays isGlobal raw
      pure (.tokens [row])
  | .listTokens => do
      let rows ← TokenService.list caller
      pure (.tokens rows)
  | .deleteToken name => do
      TokenService.delete caller name
      pure .deleted
  | .createKey name algorithm secret isGlobal raw => do
      let row ← TsigKeyService.create caller name algorithm secret isGlobal raw
      pure (.keys [row])
  | .listKeys => do
      let rows ← TsigKeyService.list caller
      pure (.keys rows)
  | .getKey name => do
      let row ← TsigKeyService.get caller name
      pure (.keys [row])
  | .deleteKey name => do
      TsigKeyService.delete caller name
      pure .deleted
  | .addPolicy plane zoneName holderName recordNamePattern recordTypes => do
      let row ← (policyService plane).add caller zoneName holderName recordNamePattern recordTypes
      pure (.policies [row])
  | .listPolicies plane zoneName => do
      let rows ← (policyService plane).list caller zoneName
      pure (.policies rows)
  | .removePolicy plane zoneName policyId => do
      (policyService plane).remove caller zoneName policyId
      pure .deleted

/-! ### Requests -/

/-- The Authorization header of a request: absent, not a text, or a text. -/
inductive AuthHeader where
  | absent
  | notText
  | text (value : Text)

/-- `auth_middleware`: the bearer token of a header. -/
def bearerToken : AuthHeader → Except AccessError Text
  | .absent => .error (.unauthorized (lit "No authorization header"))
  | .notText => .error (.unauthorized (lit "Invalid authorization header"))
  | .text value =>
      if lit "Bearer " <+: value then .ok (value.drop 7)
      else .error (.unauthorized (lit "Invalid authentication scheme"))

/-- What the configuration says of requests. -/
structure ServeConfig where
  requireAuthentication : Bool
  nsupdateAllowUnsigned : Bool

/-- What comes in from outside. -/
inductive Request where
  | socket (call : Call)
  | http (header : AuthHeader) (call : Call)
  | update (message : List UInt8)
  | clock (time : ℤ)

/-- What goes out. -/
inductive Reply where
  | call (result : Except AccessError CallReply)
  | update (answer : Option (List UInt8))
  | none

def httpCaller (requireAuthentication : Bool) (header : AuthHeader) : Access Caller :=
  if requireAuthentication then do
    let token ← bearerToken header
    Caller.authenticate token
  else pure .global

/-- A request, as the server carries it out. -/
def serve (config : ServeConfig) : Request → Program Registry Empty Reply
  | .socket call => do
      let result ← (call.program .global).attempt
      pure (.call result)
  | .http header call => do
      let result ← (do
        let caller ← httpCaller config.requireAuthentication header
        call.program caller).attempt
      pure (.call result)
  | .update message => do
      let answer ← handleNsupdateRequest config.nsupdateAllowUnsigned message
      pure (.update answer)
  | .clock time => .access (fun s => { s with clock := time }) fun _ => .done .none

/-! ### Every access keeps the registry -/

section Safe

variable {s : Registry} (caller : Caller)

theorem safe_getByName (zoneName : Text) :
    Keeps (ZoneService.getByName caller zoneName) s :=
  safe_seq (safe_lookupZone zoneName) fun _ _ => safe_seq (safe_lift _) fun _ _ => trivial

theorem safe_forceByName (zoneName : Text) :
    Keeps (ZoneService.forceIncrementSerialByName zoneName) s := by
  refine safe_commit fun s' a t _ hI hf => ?_
  cases hforce : forceIncrementSerial s'.db zoneName with
  | error e =>
      rw [hforce] at hf
      cases hf
  | ok result =>
      rw [hforce] at hf
      cases hf
      have hexec : execute s'.db (.forceIncrementSerial zoneName) = some result.1 := committed_eq_some.2 ⟨_, hforce⟩
      exact accessed_withZones hI (fun _ _ h => by cases h) hexec

theorem safe_forceIncrementSerial (zoneName : Option Text) :
    Keeps (ZoneService.forceIncrementSerial zoneName) s := by
  have heach : ∀ zones s, Keeps (ZoneService.forceEach zones) s := by
    intro zones
    induction zones with
    | nil => exact fun _ => trivial
    | cons zone zones ih =>
        exact fun s => safe_seq (safe_forceByName _) fun _ _ => safe_seq (ih _) fun _ _ => trivial
  cases zoneName with
  | some name => exact safe_seq (safe_forceByName name) fun _ _ => trivial
  | none => exact safe_seq (safe_read_seen fun _ _ => trivial) fun zones _ => heach zones _

theorem safe_notify (zoneName : Option Text) (force : Bool) :
    Keeps (ZoneService.notify caller zoneName force) s := by
  have hforce : ∀ zoneName s, Keeps (ZoneService.forceWhen force zoneName) s := by
    intro zoneName s
    unfold ZoneService.forceWhen
    split
    · exact safe_seq (safe_forceIncrementSerial zoneName) fun _ _ => trivial
    · trivial
  have hprepare : ∀ s, Keeps (ZoneService.prepareNotify caller force zoneName) s := by
    intro s
    unfold ZoneService.prepareNotify
    split
    · split
      · exact safe_lift _
      · exact safe_seq (safe_getByName caller _) fun _ _ => hforce _ _
    · exact safe_seq (safe_lift _) fun _ _ => hforce _ _
  exact safe_seq (safe_lift _) fun _ _ => safe_seq (hprepare _) fun _ _ => trivial

theorem safe_call (call : Call) : Keeps (call.program caller) s := by
  cases call with
  | zone call => exact safe_seq (safe_commitOp (call.op_ne_setPolicies caller)) fun _ _ => trivial
  | notify zoneName force => exact safe_seq (safe_notify caller zoneName force) fun _ _ => trivial
  | createToken name description expiresInDays isGlobal raw =>
      exact safe_seq (safe_createToken caller name description expiresInDays isGlobal raw) fun _ _ => trivial
  | listTokens =>
      exact safe_seq (safe_seq (safe_lift _) fun _ _ => safe_seq (safe_read_seen fun _ _ => trivial) fun _ _ => trivial)
        fun _ _ => trivial
  | deleteToken name => exact safe_seq (safe_deleteToken caller name) fun _ _ => trivial
  | createKey name algorithm secret isGlobal raw =>
      exact safe_seq (safe_createKey caller name algorithm secret isGlobal raw) fun _ _ => trivial
  | listKeys =>
      exact safe_seq (safe_seq (safe_lift _) fun _ _ => safe_seq (safe_read_seen fun _ _ => trivial) fun _ _ => trivial)
        fun _ _ => trivial
  | getKey name =>
      exact safe_seq (safe_seq (safe_lift _) fun _ _ => (safe_lookupKey name).mono fun _ _ _ => trivial) fun _ _ => trivial
  | deleteKey name => exact safe_seq (safe_deleteKey caller name) fun _ _ => trivial
  | addPolicy plane zoneName holderName recordNamePattern recordTypes =>
      exact safe_seq (safe_addPolicy caller plane zoneName holderName recordNamePattern recordTypes) fun _ _ => trivial
  | listPolicies plane zoneName => exact safe_seq (safe_listPolicies caller plane zoneName) fun _ _ => trivial
  | removePolicy plane zoneName policyId => exact safe_seq (safe_removePolicy caller plane zoneName policyId) fun _ _ => trivial

theorem safe_httpCaller (requireAuthentication : Bool) (header : AuthHeader) :
    Keeps (httpCaller requireAuthentication header) s := by
  unfold httpCaller
  split
  · refine safe_seq (safe_lift _) fun bearer s' => ?_
    have hauth : (Caller.authenticate bearer).Safe (InRun fun _ => True) Later (Authenticates bearer)
        (AdmittedAs (fun _ => True) bearer) s' := safe_authenticate
    exact (hauth.imp (fun _ h => ⟨h, trivial⟩) fun _ _ _ h => h.1).mono fun _ _ _ => trivial
  · trivial

theorem safe_serve (config : ServeConfig) (request : Request) :
    Keeps (serve config request) s := by
  cases request with
  | socket call => exact safe_seq (safe_attempt (safe_call .global call)) fun _ _ => trivial
  | http header call =>
      exact safe_seq (safe_attempt (safe_seq (safe_httpCaller _ header) fun caller _ => safe_call caller call))
        fun _ _ => trivial
  | update message => exact safe_seq (safe_handleNsupdateRequest _ message) fun _ _ => trivial
  | clock time => exact fun s' _ hI => ⟨accessed_clock hI time, trivial⟩

end Safe

/-! ### Every interleaving -/

/-- The server before any request. -/
def idle : Pool Request Registry Empty Reply := ⟨.empty, []⟩

/-- The registry after requests came in and made their accesses in some order. -/
def registryAfter (config : ServeConfig) (events : List (Event Request)) : Registry :=
  (idle.run (serve config) events).state

theorem run_integrity (config : ServeConfig) (events : List (Event Request)) :
    Integrity (registryAfter config events) ∧
      (idle.run (serve config) events).Ok Integrity Later (fun _ => Accessed) (fun _ _ => True) :=
  Pool.run_invariant Later.refl Later.trans (fun _ _ _ _ h => h.1) (fun i _ _ => safe_serve config i)
    (fun _ _ _ _ h => h.2) (fun _ h => absurd h List.not_mem_nil) integrity_empty events

/-- What stays stays, in whatever order more comes in. -/
theorem later_registryAfter (config : ServeConfig) (events events' : List (Event Request)) :
    Later (registryAfter config events) (registryAfter config (events ++ events')) := by
  induction events' using List.reverseRecOn with
  | nil =>
      rw [List.append_nil]
      exact .refl _
  | append_singleton events' e ih =>
      refine ih.trans ?_
      obtain ⟨hI, hok⟩ := run_integrity config (events ++ events')
      rw [registryAfter, registryAfter, ← List.append_assoc, Pool.run_concat]
      cases e with
      | request i => exact .refl _
      | advance n =>
          cases hn : (idle.run (serve config) (events ++ events')).tasks[n]? with
          | none =>
              rw [Pool.step, hn]
              exact .refl _
          | some t =>
              rcases hok.guarantee (serve config) Later.refl hI hn with e | hg
              · rw [e]
                exact .refl _
              · exact hg.1

/-- **Every interleaving keeps the registry.**  In whatever order requests come in and make their accesses, the zones are
those of a history of operations, every policy has its zone and a holder that is not global, and is written in normal
form; and whatever comes after, a credential or policy that is gone is not back, and one that is there is what it was,
but for the time a token was last used. -/
theorem interleaved_integrity (config : ServeConfig) (events events' : List (Event Request)) :
    Integrity (registryAfter config events) ∧
      Later (registryAfter config events) (registryAfter config (events ++ events')) :=
  ⟨(run_integrity config events).1, later_registryAfter config events events'⟩

end Bindizr
