import Bindizr.KeyNames
import Bindizr.Registry

/-! # Tokens, TSIG keys and grants

`bindizr-service/src/{authorization,token,tsig_key}` and `zone/{token_policy,tsig_policy}`, as programs
over the registry: each repository call is one access, and anything may happen between two of them.
A bearer token is looked up by its hash, and a scoped one brings the policies it has along
(`Caller.authenticate`).  The services of tokens, keys and policies are for global callers. -/

namespace Bindizr

open Concurrent (Program)
open Tables (Table)

/-- Functions of packages that only credentials need, beside those of `Crates`. -/
class AccessCrates extends Crates where
  /-- `str::to_lowercase`, by the Unicode tables of the standard library. -/
  toLowercase : Text → Text
  /-- `Display` of the error of `base64`'s `decode`. -/
  base64DecodeError : Text → Text

variable [crates : AccessCrates]

/-- `Caller::require_global`. -/
def Caller.ensureGlobal (c : Caller) (action : Text) : Except AccessError Unit :=
  (c.requireGlobal action).mapError .ofService

/-! ### Bearer tokens -/

def second : ℤ := 1000000000

def lastUsedStampIntervalSecs : ℤ := 60

def hashToken (token : Text) : Text := (crates.sha256 (asBytes token)).flatMap hexByte

def expired (token : ApiToken) : Access Bool :=
  match token.expiresAt with
  | some expiresAt => do
      let time ← now
      pure (decide (expiresAt ≤ time))
  | none => pure false

/-- Whether a token's stamp is fresh. -/
def stampIsFresh (token : ApiToken) : Access Bool :=
  match token.lastUsedAt with
  | some lastUsed => do
      let time ← now
      pure (decide (time - lastUsed < lastUsedStampIntervalSecs * second))
  | none => pure false

/-- `validate_token`, for a token that was found. -/
def validateFound (id : ℕ) (stored : ApiToken) : Access (ℕ × ApiToken) := do
  if ← expired stored then Program.fail (.invalidToken (lit "Token has expired"))
  else if ← stampIsFresh stored then pure (id, stored)
  else do
    let time ← now
    updateApiToken id { stored with lastUsedAt := some time }

def validateToken (tokenStr : Text) : Access (ℕ × ApiToken) := do
  match ← getApiTokenByToken (hashToken tokenStr) with
  | none => Program.fail (.invalidToken (lit "Invalid or expired token"))
  | some (id, stored) => validateFound id stored

def Caller.authenticate (bearerToken : Text) : Access Caller := do
  let (id, stored) ← validateToken bearerToken
  if stored.isGlobal then pure .global
  else do
    let grants ← listZoneTokenPoliciesByTokenId id
    pure (.token id (grants.map Prod.snd))

/-! ### Tokens -/

def normalizeTokenName (name : Text) : Except AccessError Text :=
  let name := crates.toLowercase (trim name)
  if name = [] then .error (.invalidInput (lit "token name must not be empty"))
  else if hasWhitespaceOrControl name then
    .error (.invalidInput (lit "token name must not contain whitespace or control characters"))
  else if 255 < byteLen name then .error (.invalidInput (lit "token name must be 255 bytes or fewer"))
  else .ok name

omit crates in
def validateExpiresInDays (expiresInDays : Option ℤ) : Except AccessError Unit :=
  if expiresInDays.any (· ≤ 0) then .error (.invalidInput (lit "expires_in_days must be greater than 0")) else .ok ()

/-- What the generator of tokens gives. -/
structure RawToken where
  text : Text
  length : text.length = 32
  alphanumeric : text.all isAsciiAlphanumeric = true

/-- The time at which a token created now for some days expires. -/
def expiryAfter : Option ℤ → Access (Option ℤ)
  | some days => do
      let time ← now
      pure (some (time + days * (86400 * second)))
  | none => pure none

namespace TokenService

/-- `TokenService::create`; the raw token is shown this once. -/
def create (caller : Caller) (name : Text) (description : Option Text) (expiresInDays : Option ℤ) (isGlobal : Bool)
    (raw : RawToken) : Access (ℕ × ApiToken) := do
  caller.ensureGlobal (lit "manage API tokens")
  let name ← normalizeTokenName name
  validateExpiresInDays expiresInDays
  match ← getApiTokenByName name with
  | some _ => Program.fail (.tokenConflict name)
  | none => do
      let expiresAt ← expiryAfter expiresInDays
      let time ← now
      let (id, created) ← createApiToken ⟨name, hashToken raw.text, description, isGlobal, time, expiresAt, none⟩
      pure (id, { created with token := raw.text })

omit crates in
/-- `TokenService::list`, without the hashes. -/
def list (caller : Caller) : Access (List (ℕ × ApiToken)) := do
  caller.ensureGlobal (lit "manage API tokens")
  let tokens ← listApiTokens
  pure (tokens.map fun r => (r.1, { r.2 with token := [] }))

def delete (caller : Caller) (name : Text) : Access Unit := do
  caller.ensureGlobal (lit "manage API tokens")
  let lookupName ← normalizeTokenName name
  match ← getApiTokenByName lookupName with
  | none => Program.fail (.tokenNotFound name)
  | some (id, _) => deleteApiToken id

end TokenService

/-! ### TSIG keys -/

def parseAlgorithm : Option Text → Except AccessError TsigAlgorithm
  | none => .ok .hmacSha256
  | some raw => (TsigAlgorithm.fromStr raw).mapError .invalidInput

def validateSecret (value : Text) : Except AccessError Text :=
  let trimmed := trim value
  if 255 < byteLen trimmed then
    .error (.invalidInput (lit "TSIG key secret must be at most 255 base64 characters"))
  else
    match crates.base64Decode trimmed with
    | none => .error (.invalidInput (lit "TSIG key secret must be valid base64: " ++ crates.base64DecodeError trimmed))
    | some decoded =>
        if decoded.length < 16 then
          .error (.invalidInput (lit "TSIG key secret must decode to at least 16 bytes (128 bits)"))
        else .ok trimmed

/-- What the generator of secrets gives. -/
structure RawSecret where
  octets : List UInt8
  length : octets.length = 32

def generateSecret (raw : RawSecret) : Text := crates.base64Encode raw.octets

/-- The secret of a new key: the one given, or a new one. -/
def secretFor (secret : Option Text) (raw : RawSecret) : Except AccessError Text :=
  match secret with
  | some secret => validateSecret secret
  | none => .ok (generateSecret raw)

namespace TsigKeyService

def create (caller : Caller) (name : Text) (algorithm secret : Option Text) (isGlobal : Bool) (raw : RawSecret) :
    Access (ℕ × StoredKey) := do
  caller.ensureGlobal (lit "manage TSIG keys and policies")
  let name ← (normalizeKeyName name).mapError AccessError.ofService
  let algorithm ← parseAlgorithm algorithm
  let secret ← secretFor secret raw
  match ← getTsigKeyByName name with
  | some _ => Program.fail (.tsigKeyConflict name)
  | none => createTsigKey ⟨name, algorithm, secret, isGlobal⟩

omit crates in
/-- `TsigKeyService::list`, without the secrets. -/
def list (caller : Caller) : Access (List (ℕ × StoredKey)) := do
  caller.ensureGlobal (lit "manage TSIG keys and policies")
  let keys ← listTsigKeys
  pure (keys.map fun r => (r.1, { r.2 with secret := [] }))

omit crates in
def lookupByName (name : Text) : Access (ℕ × StoredKey) := do
  let name ← (normalizeKeyName name).mapError AccessError.ofService
  match ← getTsigKeyByName name with
  | none => Program.fail (.tsigKeyNotFound name)
  | some key => pure key

omit crates in
def get (caller : Caller) (name : Text) : Access (ℕ × StoredKey) := do
  caller.ensureGlobal (lit "manage TSIG keys and policies")
  lookupByName name

omit crates in
def findByWireName {ε : Type} (name : Text) : Program Registry ε (Option (ℕ × StoredKey)) :=
  getTsigKeyByName (wireKeyName name)

omit crates in
def delete (caller : Caller) (name : Text) : Access Unit := do
  caller.ensureGlobal (lit "manage TSIG keys and policies")
  let (id, key) ← lookupByName name
  let policyCount ← countZoneTsigPoliciesByKeyId id
  if 0 < policyCount then Program.fail (.tsigKeyInUse key.name policyCount)
  else deleteTsigKey id

end TsigKeyService

/-! ### Policies -/

/-- What the services of token policies and of TSIG policies differ in. -/
structure PolicyService where
  plane : Plane
  action : Text
  /-- The holder of a name: its id, its stored name, and whether it is global. -/
  findHolder : Text → Access (ℕ × Text × Bool)
  isGlobal : Text → AccessError
  create : ZonePolicy → Access (ℕ × ZonePolicy)
  holderNames : Access (List (ℕ × Text))
  notFound : ℕ → AccessError

namespace PolicyService

omit crates in
/-- `add`: a policy with the name of its holder. -/
def add (service : PolicyService) (caller : Caller) (zoneName holderName : Text) (recordNamePattern recordTypes : Option Text) :
    Access ((ℕ × ZonePolicy) × Text) := do
  caller.ensureGlobal service.action
  let zone ← lookupZone zoneName
  let (holderId, name, isGlobal) ← service.findHolder holderName
  if isGlobal then Program.fail (service.isGlobal name)
  else do
    let pattern ← (normalizePattern recordNamePattern).mapError AccessError.ofService
    let types ← (normalizeTypes recordTypes).mapError AccessError.ofService
    let policy ← service.create ⟨zone.id, holderId, pattern, types⟩
    pure (policy, name)

omit crates in
/-- `list`: a holder whose name was not found is left without one. -/
def list (service : PolicyService) (caller : Caller) (zoneName : Text) : Access (List ((ℕ × ZonePolicy) × Text)) := do
  caller.ensureGlobal service.action
  let zone ← lookupZone zoneName
  let policies ← listZonePoliciesByZoneId service.plane zone.id
  let names ← service.holderNames
  pure (policies.map fun p => (p, (names.lookup p.2.holderId).getD []))

omit crates in
/-- `remove`: only a policy of the zone. -/
def remove (service : PolicyService) (caller : Caller) (zoneName : Text) (policyId : ℕ) : Access Unit := do
  caller.ensureGlobal service.action
  let zone ← lookupZone zoneName
  let policy ← getZonePolicyById service.plane policyId
  match policy.filter fun p => p.2.zoneId == zone.id with
  | none => Program.fail (service.notFound policyId)
  | some p => deleteZonePolicy service.plane p.1

end PolicyService

def findToken (tokenName : Text) : Access (ℕ × Text × Bool) := do
  let lookupName ← normalizeTokenName tokenName
  match ← getApiTokenByName lookupName with
  | none => Program.fail (.tokenNotFound tokenName)
  | some (id, token) => pure (id, token.name, token.isGlobal)

omit crates in
def findKey (keyName : Text) : Access (ℕ × Text × Bool) := do
  let (id, key) ← TsigKeyService.lookupByName keyName
  pure (id, key.name, key.isGlobal)

def zoneTokenPolicyService : PolicyService where
  plane := .token
  action := lit "manage token policies"
  findHolder := findToken
  isGlobal := fun name => .invalidInput (lit "API token '" ++ name ++
    lit "' is global and already covers every zone; policies cannot be added to it")
  create := createZoneTokenPolicy
  holderNames := do
    let tokens ← listApiTokens
    pure (tokens.map fun r => (r.1, r.2.name))
  notFound := .tokenPolicyNotFound

omit crates in
def zoneTsigPolicyService : PolicyService where
  plane := .tsig
  action := lit "manage TSIG keys and policies"
  findHolder := findKey
  isGlobal := fun name => .invalidInput (lit "TSIG key '" ++ name ++
    lit "' is global and already covers every zone; policies cannot be added to it")
  create := createZoneTsigPolicy
  holderNames := do
    let keys ← listTsigKeys
    pure (keys.map fun r => (r.1, r.2.name))
  notFound := .tsigPolicyNotFound

/-- The service of a plane's policies. -/
def policyService : Plane → PolicyService
  | .token => zoneTokenPolicyService
  | .tsig => zoneTsigPolicyService

/-! ### Every access keeps the registry -/

section Safe

variable {s : Registry}

/-! ### Authentication -/

/-- A state of a run, among `states`. -/
abbrev InRun (states : Registry → Prop) (s : Registry) : Prop := Integrity s ∧ states s

/-- Nothing changed but the time at which a token with this hash was last used. -/
structure Stamped (hash : Text) (s s' : Registry) : Prop where
  next : s'.tokens.next = s.tokens.next
  rows : s.tokens.rows.Forall₂ (fun r r' => r'.1 = r.1 ∧ r.2.Same r'.2 ∧ (r.2.token ≠ hash → r' = r)) s'.tokens.rows
  rest : s' = { s with tokens := s'.tokens }

omit crates in
theorem Stamped.refl (hash : Text) (s : Registry) : Stamped hash s s :=
  ⟨rfl, List.forall₂_same.2 fun _ _ => ⟨rfl, rfl, fun _ => rfl⟩, rfl⟩

omit crates in
theorem stamped_updateToken {id : ℕ} {stored : ApiToken} {time : ℤ}
    (hread : ∀ row, (id, row) ∈ s.tokens.rows → stored.Same row) :
    Stamped stored.token s (s.updateToken id { stored with lastUsedAt := some time }) := by
  refine ⟨rfl, ?_, rfl⟩
  refine List.forall₂_map_right_iff.2 (List.forall₂_same.2 fun r hr => ?_)
  by_cases e : r.1 = id
  · have hsame := hread r.2 (e ▸ hr)
    simp only [ApiToken.Same, ApiToken.mk.injEq] at hsame
    simp [e, ApiToken.Same, ApiToken.updated, hsame]
  · rw [if_neg e]
    exact ⟨rfl, rfl, fun _ => rfl⟩

/-- A token with the hash of this bearer text was read in one of the states, and had not expired by the clock of one. -/
structure Admitted (states : Registry → Prop) (bearer : Text) (id : ℕ) (stored : ApiToken) : Prop where
  hash : stored.token = hashToken bearer
  read : ∃ s, states s ∧ (id, stored) ∈ s.tokens.rows
  current : ∃ s, states s ∧ ∀ t ∈ stored.expiresAt, s.clock < t

/-- Whatever comes after, a row found under this number is the token that was read. -/
def TokenRead (id : ℕ) (stored : ApiToken) (s : Registry) : Prop :=
  ∀ s', Later s s' → ∀ row, (id, row) ∈ s'.tokens.rows → stored.Same row

omit crates in
theorem TokenRead.later {id : ℕ} {stored : ApiToken} {s' : Registry} (h : TokenRead id stored s) (hl : Later s s') :
    TokenRead id stored s' :=
  fun s'' hl' => h s'' (hl.trans hl')

/-- Who a bearer text was admitted as, and that its row is what was read as long as it is there. -/
def AdmittedAs (states : Registry → Prop) (bearer : Text) (s : Registry) : Caller → Prop
  | .global => ∃ id stored, Admitted states bearer id stored ∧ stored.isGlobal = true
  | .token id _ => ∃ stored, Admitted states bearer id stored ∧ stored.isGlobal = false ∧ TokenRead id stored s

/-- An access of an authentication: the registry is kept, and a stamp changes at most. -/
def Authenticates (bearer : Text) (s s' : Registry) : Prop := Accessed s s' ∧ Stamped (hashToken bearer) s s'

section Bearer

variable {states : Registry → Prop} {bearer : Text}

theorem bearer_read {ε α : Type} {f : Registry → α} {Q : Registry → α → Prop} (h : ∀ s', Later s s' → states s' → Q s' (f s')) :
    (Program.read f : Program Registry ε α).Safe (InRun states) Later (Authenticates bearer) Q s :=
  Program.safe_read (fun _ _ hA => ⟨.refl hA.1, .refl _ _⟩) fun s' hl hA => h s' hl hA.2

theorem bearer_expired {id : ℕ} {stored : ApiToken} (hread : TokenRead id stored s) (hs : ∃ s, states s) :
    (expired stored).Safe (InRun states) Later (Authenticates bearer)
      (fun s dead => TokenRead id stored s ∧ (dead = false → ∃ s, states s ∧ ∀ t ∈ stored.expiresAt, s.clock < t)) s := by
  unfold expired
  split
  · rename_i expiresAt hexpires
    have hnow : (now : Access ℤ).Safe (InRun states) Later (Authenticates bearer)
        (fun s time => TokenRead id stored s ∧ states s ∧ time = s.clock) s :=
      bearer_read fun s' hl hs' => ⟨hread.later hl, hs', rfl⟩
    refine hnow.bind fun time s' h => ⟨h.1, fun hdead => ⟨s', h.2.1, fun t ht => ?_⟩⟩
    rw [hexpires] at ht
    cases ht
    simpa [h.2.2] using hdead
  · rename_i hexpires
    obtain ⟨s₀, hs₀⟩ := hs
    refine ⟨hread, fun _ => ⟨s₀, hs₀, fun t ht => ?_⟩⟩
    rw [hexpires] at ht
    cases ht

theorem bearer_validateFound {id : ℕ} {stored : ApiToken} (hread : TokenRead id stored s)
    (hash : stored.token = hashToken bearer) (hs : ∃ s, states s ∧ (id, stored) ∈ s.tokens.rows) :
    (validateFound id stored).Safe (InRun states) Later (Authenticates bearer)
      (fun s r => r.1 = id ∧ r.2.isGlobal = stored.isGlobal ∧ Admitted states bearer id stored ∧ TokenRead id stored s) s := by
  unfold validateFound
  refine (bearer_expired hread (hs.imp fun _ h => h.1)).bind fun dead s₁ h₁ => ?_
  obtain ⟨h₁, hcurrent⟩ := h₁
  split
  · trivial
  rename_i hdead
  have hadmitted : Admitted states bearer id stored := ⟨hash, hs, hcurrent (by simpa using hdead)⟩
  have hfresh : (stampIsFresh stored).Safe (InRun states) Later (Authenticates bearer)
      (fun s _ => TokenRead id stored s) s₁ := by
    unfold stampIsFresh
    split
    · have hnow : (now : Access ℤ).Safe (InRun states) Later (Authenticates bearer)
          (fun s _ => TokenRead id stored s) s₁ := bearer_read fun s' hl _ => h₁.later hl
      exact hnow.bind fun _ _ h => h
    · exact h₁
  refine hfresh.bind fun fresh s₂ h₂ => ?_
  split
  · exact ⟨rfl, rfl, hadmitted, h₂⟩
  have hnow : (now : Access ℤ).Safe (InRun states) Later (Authenticates bearer)
      (fun s _ => TokenRead id stored s) s₂ := bearer_read fun s' hl _ => h₂.later hl
  refine hnow.bind fun time s₃ h₃ => ?_
  refine Program.safe_transaction (fun s' _ hA => ⟨.refl hA.1, .refl _ s'⟩) fun s' a t hl hA hf => ?_
  cases hf
  have haccessed : Accessed s' (s'.updateToken id { stored with lastUsedAt := some time }) :=
    accessed_updateToken hA.1 (h₃ s' hl)
  exact ⟨⟨haccessed, hash ▸ stamped_updateToken (h₃ s' hl)⟩, rfl, rfl, hadmitted, (h₃.later hl).later haccessed.1⟩

/-- Authentication changes stamps only, and admits the token whose hash was found. -/
theorem safe_authenticate : (Caller.authenticate bearer).Safe (InRun states) Later
    (Authenticates bearer) (AdmittedAs states bearer) s := by
  have hfound : (getApiTokenByToken (hashToken bearer)).Safe (InRun states) Later
      (Authenticates bearer) (fun s found => ∀ r ∈ found, TokenRead r.1 r.2 s ∧ r.2.token = hashToken bearer ∧
        ∃ s, states s ∧ r ∈ s.tokens.rows) s :=
    bearer_read fun s' _ hs' r hr => by
      obtain ⟨hmem, hhash⟩ := Table.mem_of_find hr
      exact ⟨fun _ hl _ hrow => hl.tokens.same hmem hrow, by simpa using hhash, s', hs', hmem⟩
  have hvalid : (validateToken bearer).Safe (InRun states) Later (Authenticates bearer)
      (fun s r => ∃ stored, r.2.isGlobal = stored.isGlobal ∧ Admitted states bearer r.1 stored ∧ TokenRead r.1 stored s) s := by
    refine hfound.bind fun found s' hread => ?_
    split
    · trivial
    · rename_i id stored
      obtain ⟨h₁, h₂, h₃⟩ := hread (id, stored) rfl
      refine (bearer_validateFound h₁ h₂ h₃).mono ?_
      rintro s r ⟨rfl, hglobal, hadmitted, hr⟩
      exact ⟨stored, hglobal, hadmitted, hr⟩
  refine hvalid.bind ?_
  rintro ⟨id, row⟩ s' ⟨stored, hglobal, hadmitted, hread⟩
  change (if row.isGlobal = true then _ else _ : Access Caller).Safe _ _ _ _ _
  split
  · rename_i h
    exact ⟨id, stored, hadmitted, hglobal ▸ h⟩
  · rename_i h
    have hgrants : (listZoneTokenPoliciesByTokenId id).Safe (InRun states) Later
        (Authenticates bearer) (fun s _ => TokenRead id stored s) s' :=
      bearer_read fun s' hl _ => hread.later hl
    exact hgrants.bind fun grants s'' hr => ⟨stored, hadmitted, by simpa [← hglobal] using h, hr⟩

end Bearer

/-! ### Credentials -/

section Tokens

variable (caller : Caller)

theorem safe_createToken (name : Text) (description : Option Text) (expiresInDays : Option ℤ) (isGlobal : Bool)
    (raw : RawToken) : Keeps (TokenService.create caller name description expiresInDays isGlobal raw) s := by
  refine safe_seq (safe_lift _) fun _ _ => safe_seq (safe_lift _) fun _ _ => safe_seq (safe_lift _) fun _ _ =>
    safe_seq (safe_read_seen fun _ _ => trivial) fun found s' => ?_
  split
  · trivial
  have hexpiry : ∀ s, Keeps (expiryAfter expiresInDays) s := by
    intro s
    unfold expiryAfter
    split
    · exact safe_seq safe_now fun _ _ => trivial
    · trivial
  refine safe_seq (hexpiry _) fun _ _ => safe_seq safe_now fun _ _ => safe_seq ?_ fun _ _ => trivial
  refine safe_commit fun s' a t _ hI hf => ?_
  split at hf
  · cases hf
    exact accessed_insertToken hI _
  · cases hf

theorem safe_deleteToken (name : Text) :
    Keeps (TokenService.delete caller name) s := by
  refine safe_seq (safe_lift _) fun _ _ => safe_seq (safe_lift _) fun _ _ =>
    safe_seq (safe_read_seen fun _ _ => trivial) fun found s' => ?_
  split
  · trivial
  · refine safe_commit fun s' a t _ hI hf => ?_
    cases hf
    exact accessed_deleteToken hI _

theorem safe_lookupKey (name : Text) : (TsigKeyService.lookupByName name).Safe Integrity Later Accessed
    (fun s r => r ∈ s.keys.rows) s := by
  refine safe_seq (safe_lift _) fun lookup _ => ?_
  have hfound : ∀ s, (getTsigKeyByName lookup : Access _).Safe Integrity Later Accessed
      (fun s found => ∀ r ∈ found, r ∈ s.keys.rows) s :=
    fun s => safe_read_seen fun s _ r hr => (Table.mem_of_find hr).1
  refine (hfound _).bind fun found s' hread => ?_
  split
  · trivial
  · exact hread _ rfl

theorem safe_createKey (name : Text) (algorithm secret : Option Text) (isGlobal : Bool) (raw : RawSecret) :
    Keeps (TsigKeyService.create caller name algorithm secret isGlobal raw) s := by
  refine safe_seq (safe_lift _) fun _ _ => safe_seq (safe_lift _) fun _ _ => safe_seq (safe_lift _) fun _ _ =>
    safe_seq (safe_lift _) fun _ _ => safe_seq (safe_read_seen fun _ _ => trivial) fun found s' => ?_
  split
  · trivial
  · refine safe_commit fun s' a t _ hI hf => ?_
    split at hf
    · cases hf
      exact accessed_insertKey hI _
    · cases hf

theorem safe_deleteKey (name : Text) :
    Keeps (TsigKeyService.delete caller name) s := by
  refine safe_seq (safe_lift _) fun _ _ => (safe_lookupKey name).bind fun r s₁ _ =>
    safe_seq (safe_read_seen fun _ _ => trivial) fun count s₂ => ?_
  split
  · trivial
  · refine safe_commit fun s' a t _ hI hf => ?_
    split at hf
    · cases hf
    · rename_i hunused
      cases hf
      refine accessed_deleteKey hI fun p hp e => hunused ?_
      exact List.any_eq_true.2 ⟨p, hp, by simpa using e⟩

/-! ### Policies -/

/-- Whatever comes after, a holder found under this number is global or not as it was. -/
def HolderRead (plane : Plane) (id : ℕ) (isGlobal : Bool) (s : Registry) : Prop :=
  ∀ s', Later s s' → ∀ g, (id, g) ∈ s'.holders plane → g = isGlobal

theorem safe_findHolder (plane : Plane) (name : Text) : ((policyService plane).findHolder name).Safe Integrity Later Accessed
    (fun s found => HolderRead plane found.1 found.2.2 s) s := by
  cases plane with
  | token =>
      refine safe_seq (safe_lift _) fun lookup _ => ?_
      have hfound : ∀ s, (getApiTokenByName lookup).Safe Integrity Later Accessed
          (fun s found => ∀ r ∈ found, r ∈ s.tokens.rows) s :=
        fun s => safe_read_seen fun s _ r hr => (Table.mem_of_find hr).1
      refine (hfound _).bind fun found s' hread => ?_
      split
      · trivial
      · intro s'' hl g hg
        obtain ⟨row, hrow, e⟩ := List.mem_map.1 hg
        cases e
        have := hl.tokens.same (hread _ rfl) hrow
        simp only [ApiToken.Same, ApiToken.mk.injEq] at this
        exact this.2.2.2.1.symm
  | tsig =>
      refine (safe_lookupKey name).bind fun r s' hread => ?_
      obtain ⟨id, key⟩ := r
      intro s'' hl g hg
      obtain ⟨row, hrow, e⟩ := List.mem_map.1 hg
      cases e
      rw [hl.keys.same hread hrow]

theorem safe_createPolicy (plane : Plane) {policy : ZonePolicy} (hread : HolderRead plane policy.holderId false s)
    (hpattern : normalizePattern (some policy.recordNamePattern) = .ok policy.recordNamePattern)
    (htypes : normalizeTypes (some policy.recordTypes) = .ok policy.recordTypes) :
    Keeps ((policyService plane).create policy) s := by
  have hcreate : ∀ gone, Keeps (createZonePolicy plane gone policy) s := by
    intro gone
    refine safe_commit fun s' a t hl hI hf => ?_
    split at hf
    · rename_i hexist
      cases hf
      rw [Bool.and_eq_true, List.any_eq_true, List.any_eq_true] at hexist
      obtain ⟨⟨st, hst, ezone⟩, ⟨holder, hholder, eholder⟩⟩ := hexist
      have eholder : holder.1 = policy.holderId := by simpa using eholder
      have hglobal := hread s' hl holder.2 (eholder ▸ hholder)
      exact accessed_insertPolicy hI ⟨st, hst, by simpa using ezone⟩ (by rwa [← eholder, ← hglobal]) ⟨hpattern, htypes⟩
    · cases hf
  cases plane with
  | token => exact hcreate _
  | tsig => exact hcreate _

theorem safe_addPolicy (plane : Plane) (zoneName holderName : Text) (recordNamePattern recordTypes : Option Text) :
    Keeps ((policyService plane).add caller zoneName holderName recordNamePattern recordTypes) s := by
  refine safe_seq (safe_lift _) fun _ _ => safe_seq (safe_lookupZone zoneName) fun zone _ =>
    (safe_findHolder plane holderName).bind fun found s' hread => ?_
  obtain ⟨holderId, name, isGlobal⟩ := found
  change (if isGlobal = true then _ else _ : Access _).Safe _ _ _ _ _
  split
  · trivial
  rename_i hglobal
  rw [Bool.not_eq_true] at hglobal
  subst hglobal
  -- what is stored is the normal form, which is its own normal form
  have hpattern : (Program.ofExcept ((normalizePattern recordNamePattern).mapError AccessError.ofService) : Access _).Safe
      Integrity Later Accessed (fun s pattern => normalizePattern (some pattern) = .ok pattern ∧
        HolderRead plane holderId false s) s' :=
    Program.safe_ofExcept fun pattern h => by
      obtain ⟨m, -, rfl⟩ := normalizePattern_eq_ok (Fallible.mapError_eq_ok.1 h)
      exact ⟨normalizePattern_text m, hread⟩
  refine hpattern.bind fun pattern s₁ h₁ => ?_
  have htypes : (Program.ofExcept ((normalizeTypes recordTypes).mapError AccessError.ofService) : Access _).Safe
      Integrity Later Accessed (fun s types => normalizeTypes (some types) = .ok types ∧
        HolderRead plane holderId false s) s₁ :=
    Program.safe_ofExcept fun types h => by
      obtain ⟨_, _, -, -, -, -, hnormal⟩ := normalizeTypes_eq_ok (Fallible.mapError_eq_ok.1 h)
      exact ⟨hnormal, h₁.2⟩
  refine htypes.bind fun types s₂ h₂ => safe_seq ?_ fun _ _ => trivial
  exact safe_createPolicy plane h₂.2 h₁.1 h₂.1

theorem safe_listPolicies (plane : Plane) (zoneName : Text) :
    Keeps ((policyService plane).list caller zoneName) s := by
  refine safe_seq (safe_lift _) fun _ _ => safe_seq (safe_lookupZone zoneName) fun zone _ =>
    safe_seq (safe_read_seen fun _ _ => trivial) fun _ s' => safe_seq ?_ fun _ _ => trivial
  cases plane with
  | token => exact safe_seq (safe_read_seen fun _ _ => trivial) fun _ _ => trivial
  | tsig => exact safe_seq (safe_read_seen fun _ _ => trivial) fun _ _ => trivial

theorem safe_removePolicy (plane : Plane) (zoneName : Text) (policyId : ℕ) :
    Keeps ((policyService plane).remove caller zoneName policyId) s := by
  refine safe_seq (safe_lift _) fun _ _ => safe_seq (safe_lookupZone zoneName) fun zone _ =>
    safe_seq (safe_read_seen fun _ _ => trivial) fun policy s' => ?_
  split
  · trivial
  · refine safe_commit fun s' a t _ hI hf => ?_
    cases hf
    exact accessed_keepPolicies hI _ _

end Tokens

end Safe

end Bindizr
