import Bindizr.CatalogSerial
import Bindizr.Concurrent
import Bindizr.Policies
import Bindizr.Scope
import Bindizr.Tables

/-! # The tables of tokens, keys and policies

`bindizr-db/src/repository` and `schema.rs`: API tokens, TSIG keys and the policies that grant them
rights in zones, beside the zones of `Db`.  Every statement is one atomic access of the registry.
The database numbers the rows, keeps the names of tokens and keys and the hashes of tokens apart,
refuses a policy whose zone or holder is gone, refuses to delete a key that a policy names, and
deletes the policies of a zone or of a token with it.

Requests read and write in separate accesses, and others come in between.  `Later` is what stays of
a registry whatever they do: a row that is still there is what it was, but for the time a token was
last used.  `Integrity` is what every access keeps: the zones are those of a history of operations,
every policy has its zone and its holder, the holder is not global, and what the policy grants is
written in normal form. -/

namespace Bindizr

open Concurrent (Program)
open Tables (Table)

/-! ### Errors -/

/-- The codes of `ErrorCode` for credentials, beside those of the zone services. -/
inductive AccessCode where
  | service (code : ErrorCode)
  | tokenConflict
  | tokenNotFound
  | tsigKeyNotFound
  | tsigKeyConflict
  | tsigKeyInUse
  | tsigPolicyNotFound
  | tokenPolicyNotFound
  | invalidToken
  | unauthorized
  deriving DecidableEq

/-- `ServiceError`, with these codes. -/
structure AccessError where
  code : AccessCode
  message : Text
  deriving DecidableEq

namespace AccessError

/-- An error of the zone services. -/
def ofService (e : ServiceError) : AccessError := ⟨.service e.code, e.message⟩

def invalidInput (message : Text) : AccessError := ⟨.service .invalidInput, message⟩

def invalidToken (message : Text) : AccessError := ⟨.invalidToken, message⟩

def unauthorized (message : Text) : AccessError := ⟨.unauthorized, message⟩

def tokenNotFound (name : Text) : AccessError :=
  ⟨.tokenNotFound, lit "API token with name '" ++ name ++ lit "' not found"⟩

def tokenConflict (name : Text) : AccessError :=
  ⟨.tokenConflict, lit "API token with name '" ++ name ++ lit "' already exists"⟩

def tsigKeyNotFound (name : Text) : AccessError :=
  ⟨.tsigKeyNotFound, lit "TSIG key with name '" ++ name ++ lit "' not found"⟩

def tsigKeyConflict (name : Text) : AccessError :=
  ⟨.tsigKeyConflict, lit "TSIG key with name '" ++ name ++ lit "' already exists"⟩

def tsigKeyInUse (name : Text) (policyCount : ℕ) : AccessError :=
  ⟨.tsigKeyInUse, lit "TSIG key '" ++ name ++ lit "' is referenced by " ++ natText policyCount ++
    lit " TSIG polic" ++ (if policyCount = 1 then lit "y" else lit "ies")⟩

def tsigPolicyNotFound (id : ℕ) : AccessError :=
  ⟨.tsigPolicyNotFound, lit "TSIG policy with id '" ++ natText id ++ lit "' not found"⟩

def tokenPolicyNotFound (id : ℕ) : AccessError :=
  ⟨.tokenPolicyNotFound, lit "Token policy with id '" ++ natText id ++ lit "' not found"⟩

end AccessError

/-! ### Rows -/

/-- A row of `api_tokens`, without its id.  The token is kept as its hash; times are nanoseconds. -/
structure ApiToken where
  name : Text
  token : Text
  description : Option Text
  isGlobal : Bool
  createdAt : ℤ
  expiresAt : Option ℤ
  lastUsedAt : Option ℤ
  deriving DecidableEq

/-- `UNIQUE` names and tokens. -/
def ApiToken.Clash (a b : ApiToken) : Prop := a.name = b.name ∨ a.token = b.token

instance : DecidableRel ApiToken.Clash := fun a b => inferInstanceAs (Decidable (a.name = b.name ∨ a.token = b.token))

inductive TsigAlgorithm where
  | hmacSha256
  | hmacSha384
  | hmacSha512
  deriving DecidableEq, Repr

namespace TsigAlgorithm

def asStr : TsigAlgorithm → Text
  | .hmacSha256 => lit "hmac-sha256"
  | .hmacSha384 => lit "hmac-sha384"
  | .hmacSha512 => lit "hmac-sha512"

def supportedNames : List Text := [lit "hmac-sha256", lit "hmac-sha384", lit "hmac-sha512"]

/-- `TsigAlgorithm::from_str`: the wire form, with a dot at its end, is taken too. -/
def fromStr (s : Text) : Except Text TsigAlgorithm :=
  match [TsigAlgorithm.hmacSha256, .hmacSha384, .hmacSha512].find?
      (fun a => a.asStr == toAsciiLowercase (trimEndMatches '.' s)) with
  | some a => .ok a
  | none => .error (lit "unsupported TSIG algorithm '" ++ s ++ lit "' (supported: " ++
      join (lit ", ") supportedNames ++ lit ")")

end TsigAlgorithm

/-- A row of `tsig_keys`, without its id. -/
structure StoredKey where
  name : Text
  algorithm : TsigAlgorithm
  secret : Text
  isGlobal : Bool
  deriving DecidableEq

/-- `UNIQUE` names. -/
def StoredKey.Clash (a b : StoredKey) : Prop := a.name = b.name

instance : DecidableRel StoredKey.Clash := fun a b => inferInstanceAs (Decidable (a.name = b.name))

/-- The columns of a key that the authorization of an update reads. -/
def StoredKey.tsigKey (id : ℕ) (k : StoredKey) : TsigKey := ⟨id, k.name, k.isGlobal⟩

/-- The two planes that policies grant rights in: the HTTP API for tokens, updates for TSIG keys. -/
inductive Plane where
  | token
  | tsig
  deriving DecidableEq

/-- `zone_token_policies` or `zone_tsig_policies`; policies may repeat each other. -/
abbrev PolicyTable := Table ZonePolicy fun _ _ => False

/-! ### The registry -/

/-- The zones, the credentials and the policies, and the clock of the host. -/
structure Registry where
  stores : List ZoneStore
  nextZoneId : ℕ
  nextRecordId : ℕ
  tokens : Table ApiToken ApiToken.Clash
  keys : Table StoredKey StoredKey.Clash
  policies : Plane → PolicyTable
  clock : ℤ

namespace Registry

/-- The registry before anything was written to it. -/
def empty : Registry := ⟨[], 1, 1, .empty, .empty, fun _ => .empty, 0⟩

/-- The zones with the policies that their transactions read. -/
def db (s : Registry) : Db :=
  ⟨s.stores, (s.policies .token).rows.map Prod.snd, (s.policies .tsig).rows.map Prod.snd, s.nextZoneId, s.nextRecordId⟩

/-- The ids of the tokens or keys there are, and whether they are global. -/
def holders (s : Registry) : Plane → List (ℕ × Bool)
  | .token => s.tokens.rows.map fun r => (r.1, r.2.isGlobal)
  | .tsig => s.keys.rows.map fun r => (r.1, r.2.isGlobal)

/-- Replace the policies of one plane. -/
def setPolicies (s : Registry) (plane : Plane) (policies : PolicyTable) : Registry :=
  { s with policies := Function.update s.policies plane policies }

/-- The zones that an operation left; the policies of a zone that is gone go with it. -/
def withZones (s : Registry) (db : Db) : Registry :=
  { s with
    stores := db.stores
    nextZoneId := db.nextZoneId
    nextRecordId := db.nextRecordId
    policies := fun plane => (s.policies plane).keep fun p => db.stores.any (·.zone.id == p.2.zoneId) }

end Registry

/-! ### Statements -/

abbrev Access := Program Registry AccessError

def now {ε : Type} : Program Registry ε ℤ := .read (·.clock)

/-- `create_api_token`; the time of creation is the database's. -/
def createApiToken (token : ApiToken) : Access (ℕ × ApiToken) :=
  .transaction fun s =>
    if h : ∀ q ∈ s.tokens.rows, ¬ ApiToken.Clash q.2 token then
      .ok ((s.tokens.next, token), { s with tokens := s.tokens.insert { token with createdAt := s.clock } h })
    else .error (.tokenConflict token.name)

def getApiTokenByName (name : Text) : Access (Option (ℕ × ApiToken)) := .read (·.tokens.find (·.name == name))

def getApiTokenByToken (token : Text) : Access (Option (ℕ × ApiToken)) := .read (·.tokens.find (·.token == token))

/-- `list_api_tokens`, the newest first. -/
def listApiTokens : Access (List (ℕ × ApiToken)) :=
  .read fun s => s.tokens.rows.mergeSort fun a b => decide (b.2.createdAt ≤ a.2.createdAt)

/-- The columns `update_api_token` sets. -/
def ApiToken.updated (token row : ApiToken) : ApiToken :=
  { row with description := token.description, expiresAt := token.expiresAt, lastUsedAt := token.lastUsedAt }

/-- The registry with these columns of a token's row set; as it is when the row is gone. -/
def Registry.updateToken (s : Registry) (id : ℕ) (token : ApiToken) : Registry :=
  { s with tokens := s.tokens.modify id token.updated (fun _ _ h => h) (fun _ _ h => h) }

def updateApiToken (id : ℕ) (token : ApiToken) : Access (ℕ × ApiToken) :=
  .transaction fun s => .ok ((id, token), s.updateToken id token)

def deleteApiToken (id : ℕ) : Access Unit :=
  .transaction fun s => .ok ((), { s with
    tokens := s.tokens.keep (·.1 ≠ id)
    policies := Function.update s.policies .token ((s.policies .token).keep (·.2.holderId ≠ id)) })

def createTsigKey (key : StoredKey) : Access (ℕ × StoredKey) :=
  .transaction fun s =>
    if h : ∀ q ∈ s.keys.rows, ¬ StoredKey.Clash q.2 key then
      .ok ((s.keys.next, key), { s with keys := s.keys.insert key h })
    else .error (.tsigKeyConflict key.name)

def getTsigKeyByName {ε : Type} (name : Text) : Program Registry ε (Option (ℕ × StoredKey)) :=
  .read (·.keys.find (·.name == name))

/-- `list_tsig_keys`, by name. -/
def listTsigKeys : Access (List (ℕ × StoredKey)) :=
  .read fun s => s.keys.rows.mergeSort fun a b => decide (a.2.name ≤ b.2.name)

def countZoneTsigPoliciesByKeyId (id : ℕ) : Access ℕ :=
  .read fun s => (s.policies .tsig).rows.countP fun p => p.2.holderId == id

/-- `delete_tsig_key`: a key that a policy names stays. -/
def deleteTsigKey (id : ℕ) : Access Unit :=
  .transaction fun s =>
    if (s.policies .tsig).rows.any fun p => p.2.holderId == id then
      .error ⟨.tsigKeyInUse, lit "TSIG key is still referenced by zone TSIG policies"⟩
    else .ok ((), { s with keys := s.keys.keep (·.1 ≠ id) })

/-- What `create_zone_token_policy` and `create_zone_tsig_policy` do: the zone and the holder must exist. -/
def createZonePolicy (plane : Plane) (gone : Text) (policy : ZonePolicy) : Access (ℕ × ZonePolicy) :=
  .transaction fun s =>
    if s.stores.any (·.zone.id == policy.zoneId) && (s.holders plane).any (·.1 == policy.holderId) then
      .ok (((s.policies plane).next, policy),
        s.setPolicies plane ((s.policies plane).insert policy fun _ _ => not_false))
    else .error ⟨.service .zoneNotFound, gone⟩

def createZoneTokenPolicy : ZonePolicy → Access (ℕ × ZonePolicy) :=
  createZonePolicy .token (lit "Zone or token no longer exists")

def createZoneTsigPolicy : ZonePolicy → Access (ℕ × ZonePolicy) :=
  createZonePolicy .tsig (lit "Zone or TSIG key no longer exists")

/-- `get_zone_token_policy_by_id` and `get_zone_tsig_policy_by_id`. -/
def getZonePolicyById (plane : Plane) (id : ℕ) : Access (Option (ℕ × ZonePolicy)) :=
  .read fun s => (s.policies plane).rows.find? (·.1 == id)

/-- `list_zone_token_policies_by_zone_id` and `list_zone_tsig_policies_by_zone_id`. -/
def listZonePoliciesByZoneId (plane : Plane) (zoneId : ℕ) : Access (List (ℕ × ZonePolicy)) :=
  .read fun s => (s.policies plane).rows.filter (·.2.zoneId == zoneId)

def listZoneTokenPoliciesByTokenId (id : ℕ) : Access (List (ℕ × ZonePolicy)) :=
  .read fun s => (s.policies .token).rows.filter (·.2.holderId == id)

/-- `delete_zone_token_policy` and `delete_zone_tsig_policy`. -/
def deleteZonePolicy (plane : Plane) (id : ℕ) : Access Unit :=
  .transaction fun s => .ok ((), s.setPolicies plane ((s.policies plane).keep (·.1 ≠ id)))

/-- `lookup_by_name` of the zone services: the zone's id and name. -/
def lookupZone (zoneName : Text) : Access Zone :=
  .transaction fun s => ((s.db.lookupByName zoneName).map fun st => (st.zone, s)).mapError .ofService

/-- An operation on zones, in its transaction; whether it was committed. -/
def commitOp [Crates] {ε : Type} (op : Op) : Program Registry ε Bool :=
  .transaction fun s =>
    match execute s.db op with
    | some db => .ok (true, s.withZones db)
    | none => .ok (false, s)

/-! ### What stays -/

/-- A token as it was, but for the time it was last used. -/
def ApiToken.Same (a b : ApiToken) : Prop := { a with lastUsedAt := none } = { b with lastUsedAt := none }

instance : Std.Refl ApiToken.Same := ⟨fun _ => rfl⟩

instance : IsTrans ApiToken ApiToken.Same := ⟨fun _ _ _ => Eq.trans⟩

/-- What stays of a registry while others access it. -/
structure Later (s s' : Registry) : Prop where
  tokens : s.tokens.Since ApiToken.Same s'.tokens
  keys : s.keys.Since Eq s'.keys
  policies : ∀ plane, (s.policies plane).Since Eq (s'.policies plane)

theorem Later.refl (s : Registry) : Later s s :=
  ⟨.refl _, .refl _, fun _ => .refl _⟩

theorem Later.trans {s s' s'' : Registry} (h₁ : Later s s') (h₂ : Later s' s'') : Later s s'' :=
  ⟨h₁.tokens.trans h₂.tokens, h₁.keys.trans h₂.keys, fun plane => (h₁.policies plane).trans (h₂.policies plane)⟩

/-! ### What every access keeps -/

/-- The zones are those of a history; every policy has its zone and a holder that is not global, and is
written in normal form. -/
structure Integrity [Crates] (s : Registry) : Prop where
  history : ∃ ops, s.db = run ops
  zone : ∀ plane, ∀ p ∈ (s.policies plane).rows, ∃ st ∈ s.stores, st.zone.id = p.2.zoneId
  holder : ∀ plane, ∀ p ∈ (s.policies plane).rows, (p.2.holderId, false) ∈ s.holders plane
  normal : ∀ plane, ∀ p ∈ (s.policies plane).rows,
    normalizePattern (some p.2.recordNamePattern) = .ok p.2.recordNamePattern ∧
      normalizeTypes (some p.2.recordTypes) = .ok p.2.recordTypes

/-- An access of the registry: what stays stays, and integrity is kept. -/
def Accessed [Crates] (s s' : Registry) : Prop := Later s s' ∧ Integrity s'

section Keeps

variable [Crates] {s : Registry}

theorem integrity_empty : Integrity .empty where
  history := ⟨[], rfl⟩
  zone := fun _ _ hp => absurd hp List.not_mem_nil
  holder := fun _ _ hp => absurd hp List.not_mem_nil
  normal := fun _ _ hp => absurd hp List.not_mem_nil

theorem Integrity.dbOk (h : Integrity s) : DbOk s.db := by
  obtain ⟨ops, e⟩ := h.history
  rw [e]
  exact run_ok ops

theorem Accessed.refl (h : Integrity s) : Accessed s s := ⟨.refl s, h⟩

theorem Integrity.history_of_stores (h : Integrity s) {s' : Registry} (hstores : s'.stores = s.stores)
    (hzone : s'.nextZoneId = s.nextZoneId) (hrecord : s'.nextRecordId = s.nextRecordId) : ∃ ops, s'.db = run ops := by
  obtain ⟨ops, e⟩ := h.history
  refine ⟨ops ++ [.setPolicies s'.db.tokenPolicies s'.db.tsigPolicies], ?_⟩
  rw [run_concat, ← e]
  simp [step, execute, Registry.db, hstores, hzone, hrecord]

/-- Only policies go, and every holder of one that stays is still there. -/
theorem Integrity.of_fewer (h : Integrity s) {s' : Registry} (hstores : s'.stores = s.stores)
    (hzone : s'.nextZoneId = s.nextZoneId) (hrecord : s'.nextRecordId = s.nextRecordId)
    (hsub : ∀ plane, ∀ p ∈ (s'.policies plane).rows, p ∈ (s.policies plane).rows ∧
      ((p.2.holderId, false) ∈ s.holders plane → (p.2.holderId, false) ∈ s'.holders plane)) : Integrity s' where
  history := h.history_of_stores hstores hzone hrecord
  zone := fun plane p hp => hstores ▸ h.zone plane p (hsub plane p hp).1
  holder := fun plane p hp => (hsub plane p hp).2 (h.holder plane p (hsub plane p hp).1)
  normal := fun plane p hp => h.normal plane p (hsub plane p hp).1

theorem accessed_clock (h : Integrity s) (t : ℤ) : Accessed s { s with clock := t } :=
  ⟨⟨.refl _, .refl _, fun _ => .refl _⟩,
    h.of_fewer rfl rfl rfl fun _ _ hp => ⟨hp, fun h => h⟩⟩

theorem accessed_insertToken (h : Integrity s) {token : ApiToken} (hclash : ∀ q ∈ s.tokens.rows, ¬ ApiToken.Clash q.2 token) :
    Accessed s { s with tokens := s.tokens.insert token hclash } := by
  refine ⟨⟨Table.since_insert hclash, .refl _, fun _ => .refl _⟩,
    h.of_fewer rfl rfl rfl fun plane p hp => ⟨hp, fun hmem => ?_⟩⟩
  cases plane with
  | token => simpa [Registry.holders, Table.insert] using .inl (by simpa [Registry.holders] using hmem)
  | tsig => exact hmem

theorem accessed_insertKey (h : Integrity s) {key : StoredKey} (hclash : ∀ q ∈ s.keys.rows, ¬ StoredKey.Clash q.2 key) :
    Accessed s { s with keys := s.keys.insert key hclash } := by
  refine ⟨⟨.refl _, Table.since_insert hclash, fun _ => .refl _⟩,
    h.of_fewer rfl rfl rfl fun plane p hp => ⟨hp, fun hmem => ?_⟩⟩
  cases plane with
  | token => exact hmem
  | tsig => simpa [Registry.holders, Table.insert] using .inl (by simpa [Registry.holders] using hmem)

omit [Crates] in
theorem holders_updateToken (id : ℕ) (token : ApiToken) (plane : Plane) :
    (s.updateToken id token).holders plane = s.holders plane := by
  cases plane with
  | tsig => rfl
  | token =>
      simp only [Registry.holders, Registry.updateToken, Table.modify, List.map_map]
      refine List.map_congr_left fun r _ => ?_
      simp only [Function.comp_apply]
      split <;> rfl

/-- A stamp written from what was read earlier changes the time of use only. -/
theorem accessed_updateToken (h : Integrity s) {id : ℕ} {token : ApiToken}
    (hsame : ∀ r, (id, r) ∈ s.tokens.rows → token.Same r) : Accessed s (s.updateToken id token) := by
  have hupdated : ∀ r, (id, r) ∈ s.tokens.rows → r.Same (token.updated r) := fun r hr => by
    have := hsame r hr
    simp only [ApiToken.Same, ApiToken.mk.injEq] at this
    simp [ApiToken.Same, ApiToken.updated, this]
  have htokens : s.tokens.Since ApiToken.Same (s.updateToken id token).tokens :=
    Table.since_modify hupdated (fun _ _ h => h) (fun _ _ h => h)
  refine ⟨⟨htokens, .refl _, fun _ => .refl _⟩, h.of_fewer rfl rfl rfl fun plane p hp => ⟨hp, fun hmem => ?_⟩⟩
  rw [holders_updateToken]
  exact hmem

theorem accessed_deleteToken (h : Integrity s) (id : ℕ) :
    Accessed s { s with
      tokens := s.tokens.keep (·.1 ≠ id)
      policies := Function.update s.policies .token ((s.policies .token).keep (·.2.holderId ≠ id)) } := by
  refine ⟨⟨Table.since_keep _ _, .refl _, fun plane => ?_⟩,
    h.of_fewer rfl rfl rfl fun plane p hp => ?_⟩
  · cases plane with
    | token => exact Table.since_keep _ _
    | tsig => exact .refl _
  · cases plane with
    | tsig => exact ⟨hp, fun h => h⟩
    | token =>
        obtain ⟨hp, hne⟩ := Table.mem_keep.1 hp
        have hne : p.2.holderId ≠ id := by simpa using hne
        refine ⟨hp, fun hmem => ?_⟩
        obtain ⟨r, hr, e⟩ := List.mem_map.1 hmem
        simp only [Prod.mk.injEq] at e
        exact List.mem_map.2 ⟨r, Table.mem_keep.2 ⟨hr, by simpa [e.1] using hne⟩, by simp [e]⟩

theorem accessed_deleteKey (h : Integrity s) {id : ℕ} (hunused : ∀ p ∈ (s.policies .tsig).rows, p.2.holderId ≠ id) :
    Accessed s { s with keys := s.keys.keep (·.1 ≠ id) } := by
  refine ⟨⟨.refl _, Table.since_keep _ _, fun _ => .refl _⟩,
    h.of_fewer rfl rfl rfl fun plane p hp => ⟨hp, fun hmem => ?_⟩⟩
  cases plane with
  | token => exact hmem
  | tsig =>
      obtain ⟨r, hr, e⟩ := List.mem_map.1 hmem
      simp only [Prod.mk.injEq] at e
      exact List.mem_map.2 ⟨r, Table.mem_keep.2 ⟨hr, by simpa [e.1] using hunused p hp⟩, by simp [e]⟩

omit [Crates] in
theorem holders_setPolicies (plane plane' : Plane) (policies : PolicyTable) :
    (s.setPolicies plane policies).holders plane' = s.holders plane' := by
  cases plane' <;> rfl

omit [Crates] in
theorem later_setPolicies {plane : Plane} {policies : PolicyTable} (h : (s.policies plane).Since Eq policies) :
    Later s (s.setPolicies plane policies) := by
  refine ⟨.refl _, .refl _, fun plane' => ?_⟩
  simp only [Registry.setPolicies, Function.update_apply]
  split
  · rename_i e
    rwa [e]
  · exact .refl _

theorem accessed_insertPolicy (h : Integrity s) {plane : Plane} {policy : ZonePolicy}
    (hzone : ∃ st ∈ s.stores, st.zone.id = policy.zoneId) (hholder : (policy.holderId, false) ∈ s.holders plane)
    (hnormal : normalizePattern (some policy.recordNamePattern) = .ok policy.recordNamePattern ∧
      normalizeTypes (some policy.recordTypes) = .ok policy.recordTypes) :
    Accessed s (s.setPolicies plane ((s.policies plane).insert policy fun _ _ => not_false)) := by
  refine ⟨later_setPolicies (Table.since_insert _), ?_⟩
  have hrows : ∀ plane', ∀ p ∈ ((s.setPolicies plane ((s.policies plane).insert policy fun _ _ => not_false)).policies
      plane').rows, p ∈ (s.policies plane').rows ∨ plane' = plane ∧ p.2 = policy := by
    intro plane' p hp
    simp only [Registry.setPolicies, Function.update_apply] at hp
    split at hp
    · rename_i e
      subst e
      rcases Table.mem_insert.1 hp with hp | rfl
      · exact .inl hp
      · exact .inr ⟨rfl, rfl⟩
    · exact .inl hp
  refine ⟨h.history_of_stores rfl rfl rfl, fun plane' p hp => ?_, fun plane' p hp => ?_, fun plane' p hp => ?_⟩
  · rcases hrows plane' p hp with hp | ⟨rfl, e⟩
    · exact h.zone plane' p hp
    · rw [e]
      exact hzone
  · rw [holders_setPolicies]
    rcases hrows plane' p hp with hp | ⟨rfl, e⟩
    · exact h.holder plane' p hp
    · rw [e]
      exact hholder
  · rcases hrows plane' p hp with hp | ⟨rfl, e⟩
    · exact h.normal plane' p hp
    · rw [e]
      exact hnormal

theorem accessed_keepPolicies (h : Integrity s) (plane : Plane) (keep : ℕ × ZonePolicy → Bool) :
    Accessed s (s.setPolicies plane ((s.policies plane).keep keep)) := by
  refine ⟨later_setPolicies (Table.since_keep _ _), h.of_fewer rfl rfl rfl fun plane' p hp => ⟨?_, fun hmem => ?_⟩⟩
  · simp only [Registry.setPolicies, Function.update_apply] at hp
    split at hp
    · rename_i e
      subst e
      exact (Table.mem_keep.1 hp).1
    · exact hp
  · rw [holders_setPolicies]
    exact hmem

/-! ### Operations on zones -/

/-- The policies an operation leaves: those whose zone is still there. -/
structure Cascades (db db' : Db) : Prop where
  token : db'.tokenPolicies = db.tokenPolicies.filter fun p => db'.stores.any (·.zone.id == p.zoneId)
  tsig : db'.tsigPolicies = db.tsigPolicies.filter fun p => db'.stores.any (·.zone.id == p.zoneId)

/-- Every policy has its zone. -/
def PoliciesHaveZones (db : Db) : Prop :=
  ∀ p, p ∈ db.tokenPolicies ∨ p ∈ db.tsigPolicies → ∃ st ∈ db.stores, st.zone.id = p.zoneId

variable {db db' : Db}

omit [Crates] in
theorem cascades_of_zoneIds (hzones : PoliciesHaveZones db)
    (hids : ∀ id ∈ db.stores.map (·.zone.id), id ∈ db'.stores.map (·.zone.id))
    (h : db'.tokenPolicies = db.tokenPolicies ∧ db'.tsigPolicies = db.tsigPolicies) : Cascades db db' := by
  have hany : ∀ p, p ∈ db.tokenPolicies ∨ p ∈ db.tsigPolicies → db'.stores.any (·.zone.id == p.zoneId) = true := by
    intro p hp
    obtain ⟨st, hst, e⟩ := hzones p hp
    obtain ⟨st', hst', e'⟩ := List.mem_map.1 (hids _ (List.mem_map_of_mem hst))
    exact List.any_eq_true.2 ⟨st', hst', by simp [e', e]⟩
  refine ⟨h.1.trans ?_, h.2.trans ?_⟩
  · exact (List.filter_eq_self.2 fun p hp => hany p (.inl hp)).symm
  · exact (List.filter_eq_self.2 fun p hp => hany p (.inr hp)).symm

omit [Crates] in
theorem RecordStep.cascades {L : ℕ → List ZoneChange → Prop} (h : RecordStep L db db') (hzones : PoliciesHaveZones db) :
    Cascades db db' :=
  cascades_of_zoneIds hzones (fun id hid => by rwa [h.zoneIds]) h.policies

omit [Crates] in
theorem cascades_of_inTx {ε α : Type} {st : ZoneStore} {body : Tx → Except ε (Tx × α)} {a : α}
    (hzones : PoliciesHaveZones db) (h : db.inTx st body = .ok (db', a))
    (hid : ∀ tx, body (db.beginTx st) = .ok (tx, a) → tx.store.zone.id = st.zone.id) : Cascades db db' := by
  obtain ⟨⟨tx, a'⟩, htx, h⟩ := Fallible.bind_eq_ok.1 h
  cases h
  exact cascades_of_zoneIds hzones (fun id hmem => by rwa [commit_zoneIds (hid tx htx)]) ⟨rfl, rfl⟩

omit [Crates] in
theorem updateLockedZone_cascades {zoneName : Text} {build : Zone → CreateZoneRequest} {zone : Zone} (hdb : DbOk db)
    (hzones : PoliciesHaveZones db) (h : updateLockedZone db zoneName build = .ok (db', zone)) : Cascades db db' := by
  obtain ⟨st, hst, h⟩ := Fallible.bind_eq_ok.1 h
  obtain ⟨hst, _⟩ := lookupByName_eq_ok hst
  refine cascades_of_inTx hzones h fun tx htx => ?_
  obtain ⟨⟨cs, hc⟩, -⟩ := updateZoneTx_commits (hdb.txOk hst) htx
  exact hc.advances.id

omit [Crates] in
theorem deleteZone_cascades {caller : Caller} {zoneName : Text} (hzones : PoliciesHaveZones db)
    (h : deleteZone db caller zoneName = .ok (db', ())) : Cascades db db' := by
  obtain ⟨_, _, h⟩ := Fallible.bind_eq_ok.1 h
  obtain ⟨st, hst, h⟩ := Fallible.bind_eq_ok.1 h
  obtain ⟨hst, _⟩ := lookupByName_eq_ok hst
  cases h
  have hany : ∀ p, p ∈ db.tokenPolicies ∨ p ∈ db.tsigPolicies →
      (decide (p.zoneId ≠ st.zone.id) =
        (db.stores.filter (·.zone.id ≠ st.zone.id)).any (·.zone.id == p.zoneId)) := by
    intro p hp
    obtain ⟨st', hst', e⟩ := hzones p hp
    rw [Bool.eq_iff_iff, decide_eq_true_eq, List.any_eq_true]
    constructor
    · exact fun hne => ⟨st', List.mem_filter.2 ⟨hst', by simpa [e] using hne⟩, by simp [e]⟩
    · rintro ⟨st'', hst'', e''⟩ heq
      have hne := (List.mem_filter.1 hst'').2
      simp_all
  exact ⟨List.filter_congr fun p hp => hany p (.inl hp), List.filter_congr fun p hp => hany p (.inr hp)⟩

/-- **Operations cascade.**  Every operation on zones leaves the policies of the zones that are still there. -/
theorem execute_cascades {op : Op} (hop : ∀ a b, op ≠ .setPolicies a b) (hdb : DbOk db) (hzones : PoliciesHaveZones db)
    (h : execute db op = some db') : Cascades db db' := by
  cases op with
  | createZone caller request =>
      obtain ⟨_, h⟩ := committed_eq_some.1 h
      obtain ⟨st, hc⟩ := createZone_created h
      exact cascades_of_zoneIds hzones (fun id hid => by rw [hc.stores, List.map_append]; exact List.mem_append_left _ hid)
        hc.policies
  | updateZone caller zoneName request =>
      obtain ⟨_, h⟩ := committed_eq_some.1 h
      obtain ⟨_, _, h⟩ := Fallible.bind_eq_ok.1 h
      obtain ⟨_, _, h⟩ := Fallible.bind_eq_ok.1 h
      exact updateLockedZone_cascades hdb hzones h
  | patchZone caller zoneName patch =>
      obtain ⟨_, h⟩ := committed_eq_some.1 h
      obtain ⟨_, _, h⟩ := Fallible.bind_eq_ok.1 h
      obtain ⟨_, _, h⟩ := Fallible.bind_eq_ok.1 h
      exact updateLockedZone_cascades hdb hzones h
  | deleteZone caller zoneName =>
      obtain ⟨_, h⟩ := committed_eq_some.1 h
      exact deleteZone_cascades hzones h
  | forceIncrementSerial zoneName =>
      obtain ⟨_, h⟩ := committed_eq_some.1 h
      exact (forceIncrementSerial_step hdb h).cascades hzones
  | createRecord caller request =>
      obtain ⟨_, h⟩ := committed_eq_some.1 h
      exact (createRecord_step hdb h).cascades hzones
  | createBulk caller zoneName items dryRun =>
      obtain ⟨_, h⟩ := committed_eq_some.1 h
      exact (createBulk_step hdb h).cascades hzones
  | updateById caller id zoneIdRead request =>
      obtain ⟨_, h⟩ := committed_eq_some.1 h
      exact (updateLocked_step hdb h).cascades hzones
  | patchById caller id zoneIdRead patch =>
      obtain ⟨_, h⟩ := committed_eq_some.1 h
      exact (updateLocked_step hdb h).cascades hzones
  | deleteById caller id zoneIdRead =>
      obtain ⟨_, h⟩ := committed_eq_some.1 h
      exact (deleteById_step hdb h).cascades hzones
  | importZoneFile caller zoneName request =>
      obtain ⟨_, h⟩ := committed_eq_some.1 h
      exact (importZoneFile_step hdb h).cascades hzones
  | applyUpdate update =>
      obtain ⟨_, h⟩ := committed_eq_some.1 h
      exact (applyUpdate_step hdb h).cascades hzones
  | applyChanges caller zonesRead request =>
      obtain ⟨_, h⟩ := committed_eq_some.1 h
      exact (applyChanges_step hdb h).cascades hzones
  | rollback caller hash zoneName targetSerial dryRun =>
      obtain ⟨_, h⟩ := committed_eq_some.1 h
      obtain ⟨_, _, h⟩ := Fallible.bind_eq_ok.1 h
      obtain ⟨_, _, h⟩ := Fallible.bind_eq_ok.1 h
      obtain ⟨st, hst, h⟩ := Fallible.bind_eq_ok.1 h
      obtain ⟨hst, _⟩ := lookupByName_eq_ok hst
      refine cascades_of_inTx hzones h fun tx htx => ?_
      rcases rollbackTx_commits (hdb.txOk hst) htx with ⟨-, rfl⟩ | ⟨-, ⟨cs, hc⟩, -⟩
      · rfl
      · exact hc.advances.id
  | setPolicies tokenPolicies tsigPolicies => exact absurd rfl (hop _ _)

theorem Integrity.policiesHaveZones (h : Integrity s) : PoliciesHaveZones s.db := by
  rintro p (hp | hp)
  · obtain ⟨q, hq, rfl⟩ := List.mem_map.1 hp
    exact h.zone .token q hq
  · obtain ⟨q, hq, rfl⟩ := List.mem_map.1 hp
    exact h.zone .tsig q hq

theorem withZones_db (h : Integrity s) {op : Op} (hop : ∀ a b, op ≠ .setPolicies a b) (hexec : execute s.db op = some db) :
    (s.withZones db).db = db := by
  have hc := execute_cascades hop h.dbOk h.policiesHaveZones hexec
  have htoken : ((s.withZones db).policies .token).rows.map Prod.snd = db.tokenPolicies := by
    rw [hc.token, Registry.db, List.filter_map]
    rfl
  have htsig : ((s.withZones db).policies .tsig).rows.map Prod.snd = db.tsigPolicies := by
    rw [hc.tsig, Registry.db, List.filter_map]
    rfl
  rw [Registry.db, htoken, htsig]
  rfl

theorem withZones_policies (h : Integrity s) (hzones : ∀ st ∈ s.stores, ∃ st' ∈ db.stores, st'.zone.id = st.zone.id) :
    (s.withZones db).policies = s.policies := by
  funext plane
  have hrows : ((s.withZones db).policies plane).rows = (s.policies plane).rows := by
    refine List.filter_eq_self.2 fun p hp => ?_
    obtain ⟨st, hst, e⟩ := h.zone plane p hp
    obtain ⟨st', hst', e'⟩ := hzones st hst
    exact List.any_eq_true.2 ⟨st', hst', by simp [e', e]⟩
  exact Table.ext hrows rfl

theorem accessed_withZones (h : Integrity s) {op : Op} (hop : ∀ a b, op ≠ .setPolicies a b)
    (hexec : execute s.db op = some db) : Accessed s (s.withZones db) := by
  refine ⟨⟨.refl _, .refl _, fun _ => Table.since_keep _ _⟩, ⟨?_, fun plane p hp => ?_, fun plane p hp => ?_, fun plane p hp => ?_⟩⟩
  · obtain ⟨ops, e⟩ := h.history
    refine ⟨ops ++ [op], ?_⟩
    rw [withZones_db h hop hexec, run_concat, ← e, step, hexec, Option.getD_some]
  · obtain ⟨-, hany⟩ := Table.mem_keep.1 hp
    obtain ⟨st, hst, e⟩ := List.any_eq_true.1 hany
    exact ⟨st, hst, by simpa using e⟩
  · have := h.holder plane p (Table.mem_keep.1 hp).1
    cases plane <;> exact this
  · exact h.normal plane p (Table.mem_keep.1 hp).1

end Keeps

/-! ### Accesses among others -/

section Safe

variable [Crates] {s : Registry}

/-- Whatever others do in between, every access of a program keeps the registry. -/
abbrev Keeps {ε α : Type} (p : Program Registry ε α) (s : Registry) : Prop :=
  p.Safe Integrity Later Accessed (fun _ _ => True) s

theorem safe_read_seen {ε α : Type} {f : Registry → α} {Q : Registry → α → Prop} (h : ∀ s, Integrity s → Q s (f s)) :
    (Program.read f : Program Registry ε α).Safe Integrity Later Accessed Q s :=
  Program.safe_read (fun _ _ hI => .refl hI) fun s' _ hI => h s' hI

theorem safe_commit {ε α : Type} {f : Registry → Except ε (α × Registry)}
    (h : ∀ s' a t, Later s s' → Integrity s' → f s' = .ok (a, t) → Accessed s' t) :
    Keeps (Program.transaction f) s :=
  Program.safe_transaction (fun _ _ hI => .refl hI) fun s' a t hr hI hf => ⟨h s' a t hr hI hf, trivial⟩

theorem safe_lift {ε α : Type} (x : Except ε α) :
    Keeps (Program.ofExcept x : Program Registry ε α) s :=
  Program.safe_ofExcept fun _ _ => trivial

theorem safe_now {ε : Type} : Keeps (now : Program Registry ε ℤ) s :=
  safe_read_seen fun _ _ => trivial

theorem safe_lookupZone (zoneName : Text) : Keeps (lookupZone zoneName) s := by
  refine safe_commit fun s' a t _ hI hf => ?_
  obtain ⟨st, -, hf⟩ := Fallible.map_eq_ok.1 (Fallible.mapError_eq_ok.1 hf)
  cases hf
  exact .refl hI

theorem safe_commitOp {ε : Type} {op : Op} (hop : ∀ a b, op ≠ .setPolicies a b) :
    Keeps (commitOp op : Program Registry ε Bool) s := by
  refine safe_commit fun s' a t _ hI hf => ?_
  cases hexec : execute s'.db op with
  | none =>
      rw [hexec] at hf
      cases hf
      exact .refl hI
  | some db =>
      rw [hexec] at hf
      cases hf
      exact accessed_withZones hI hop hexec

/-- One step after another, where the second needs nothing of the first. -/
theorem safe_seq {ε α β : Type} {p : Program Registry ε α} {f : α → Program Registry ε β} {Q : Registry → β → Prop}
    (h : Keeps p s) (hf : ∀ a s', (f a).Safe Integrity Later Accessed Q s') :
    (p >>= f).Safe Integrity Later Accessed Q s :=
  h.bind fun a s' _ => hf a s'

theorem safe_attempt {ε ε' α : Type} {p : Program Registry ε α} (h : Keeps p s) :
    Keeps (p.attempt : Program Registry ε' (Except ε α)) s :=
  h.attempt (fun _ _ _ => trivial) fun _ _ => trivial

end Safe

end Bindizr
