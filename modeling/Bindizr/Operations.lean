import Bindizr.Import
import Bindizr.DynamicUpdate
import Bindizr.ExternalDns
import Bindizr.History

/-! # Operations and runs

Every operation that writes, as one step of the database.  Transactions are atomic and the
exclusive lock on a zone's row serialises the writers of a zone, so a history of the service
is a list of operations; an operation that fails leaves the database as it was.  What an
operation read before its transaction (the zone of a record, the list of zones) is part of
the operation, so that the list covers every interleaving of such reads with writes. -/

namespace Bindizr

variable [Crates]

/-- An operation that writes.  `setPolicies` stands for the management of policies, which
touches no other table and may leave any policies. -/
inductive Op where
  | createZone (caller : Caller) (request : CreateZoneRequest)
  | updateZone (caller : Caller) (zoneName : Text) (request : CreateZoneRequest)
  | patchZone (caller : Caller) (zoneName : Text) (patch : UpdateZonePatch)
  | deleteZone (caller : Caller) (zoneName : Text)
  | forceIncrementSerial (zoneName : Text)
  | createRecord (caller : Caller) (request : CreateRecordRequest)
  | createBulk (caller : Caller) (zoneName : Text) (items : List RecordItem) (dryRun : Bool)
  | updateById (caller : Caller) (id : ℕ) (zoneIdRead : Option ℕ) (request : RecordItem)
  | patchById (caller : Caller) (id : ℕ) (zoneIdRead : Option ℕ) (patch : UpdateRecordPatch)
  | deleteById (caller : Caller) (id : ℕ) (zoneIdRead : Option ℕ)
  | importZoneFile (caller : Caller) (zoneName : Text) (request : ImportZoneFileRequest)
  | applyUpdate (update : DynamicUpdate)
  | applyChanges (caller : Caller) (zonesRead : List ZoneName) (request : ExternalDnsChangesRequest)
  | rollback (caller : Caller) (hash : HashOrder) (zoneName : Text) (targetSerial : ℤ) (dryRun : Bool)
  | setPolicies (tokenPolicies tsigPolicies : List ZonePolicy)

/-- The database a successful operation left. -/
def committed {ε α : Type} : Except ε (Db × α) → Option Db
  | .ok (db, _) => some db
  | .error _ => none

/-- Carry out an operation; nothing when it fails. -/
def execute (db : Db) : Op → Option Db
  | .createZone caller request => committed (createZone db caller request)
  | .updateZone caller zoneName request => committed (updateZone db caller zoneName request)
  | .patchZone caller zoneName patch => committed (patchZone db caller zoneName patch)
  | .deleteZone caller zoneName => committed (deleteZone db caller zoneName)
  | .forceIncrementSerial zoneName => committed (forceIncrementSerial db zoneName)
  | .createRecord caller request => committed (createRecord db caller request)
  | .createBulk caller zoneName items dryRun => committed (createBulk db caller zoneName items dryRun)
  | .updateById caller id zoneIdRead request => committed (updateById db caller id zoneIdRead request)
  | .patchById caller id zoneIdRead patch => committed (patchById db caller id zoneIdRead patch)
  | .deleteById caller id zoneIdRead => committed (deleteById db caller id zoneIdRead)
  | .importZoneFile caller zoneName request => committed (importZoneFile db caller zoneName request)
  | .applyUpdate update => committed (applyUpdate db update)
  | .applyChanges caller zonesRead request => committed (applyChanges db caller zonesRead request)
  | .rollback caller hash zoneName targetSerial dryRun =>
      committed (rollback db caller hash zoneName targetSerial dryRun)
  | .setPolicies tokenPolicies tsigPolicies =>
      some { db with tokenPolicies := tokenPolicies, tsigPolicies := tsigPolicies }

/-- One step: a failed operation leaves the database as it was. -/
def step (db : Db) (op : Op) : Db := (execute db op).getD db

/-- The database after a history of operations. -/
def run (ops : List Op) : Db := ops.foldl step .empty

/-- The operation is accepted after the history, and leaves another database than it found. -/
def Op.Commits (pre : List Op) (op : Op) : Prop := run (pre ++ [op]) ≠ run pre

theorem run_concat (ops : List Op) (op : Op) : run (ops ++ [op]) = step (run ops) op := by
  simp [run]

theorem run_append (ops ops' : List Op) : run (ops ++ ops') = ops'.foldl step (run ops) := by
  simp [run]

omit [Crates] in
theorem committed_eq_some {ε α : Type} {x : Except ε (Db × α)} {db : Db} :
    committed x = some db ↔ ∃ a, x = .ok (db, a) := by
  cases x with
  | error e => simp [committed]
  | ok p => simp [committed, Prod.ext_iff, eq_comm]

/-- What every step keeps holds after every history. -/
theorem run_invariant {I : Db → Prop} (h0 : I .empty)
    (hstep : ∀ db op db', I db → execute db op = some db' → I db') (ops : List Op) : I (run ops) := by
  induction ops using List.reverseRecOn with
  | nil => exact h0
  | append_singleton ops op ih =>
      rw [run_concat, step]
      cases h : execute (run ops) op with
      | none => exact ih
      | some db => exact hstep _ _ _ ih h

/-! ### A history to evaluate -/

def sampleZone : CreateZoneRequest where
  name := lit "example.com"
  primaryNs := lit "ns1.example.com"
  adminEmail := lit "admin@example.com"
  ttl := 3600
  serial := none
  refresh := none
  retry := none
  expire := none
  minimumTtl := none

/-- A record of a zone, with the zone's TTL. -/
def sampleItem (name recordType value : String) : RecordItem where
  name := lit name
  recordType := lit recordType
  value := .string (lit value)
  ttl := none
  priority := none

/-- The zone is created and gets an address. -/
def sampleHistory : List Op :=
  [.createZone .global sampleZone,
    .createRecord .global { sampleItem "www" "A" "192.0.2.1" with zoneName := lit "example.com" }]

end Bindizr
