import Bindizr.Model

/-! # Callers, policies and grants

`bindizr-service/src/authorization` and `policy_pattern`.  A scoped token carries the grants
read when its request was authenticated; they decide which zones it sees.  Its writes are
decided inside the transaction, against the policy rows the transaction reads: every write
must match one policy by owner pattern and by type. -/

namespace Bindizr

/-- The identity a request acts as. -/
inductive Caller where
  | global
  | token (id : ℕ) (grants : List ZonePolicy)
  deriving DecidableEq

/-- One record-plane write to authorize; no type means every type at the name. -/
structure RecordWrite where
  relativeName : OwnerName
  recordType : Option RecordType
  deriving DecidableEq

/-! ### Patterns -/

def patternMatchesName (pattern : Text) (name : OwnerName) : Bool :=
  if pattern = ['*'] then true
  else if pattern = ['@'] then name.isApex
  else
    match stripPrefix ['*', '.'] pattern with
    | some suffix => isLabelSuffix name.labels (OwnerName.fromRow suffix)
    | none => name.labels == OwnerName.fromRow pattern

def typesMatch (types : Text) (recordType : Option RecordType) : Bool :=
  if types = ['*'] then true
  else
    match recordType with
    | none => false
    | some t => (split ',' types).any (· == t.asStr)

def ZonePolicy.covers (p : ZonePolicy) (w : RecordWrite) : Bool :=
  patternMatchesName p.recordNamePattern w.relativeName && typesMatch p.recordTypes w.recordType

/-! ### Callers -/

namespace Caller

def requireGlobal (c : Caller) (action : Text) : Except ServiceError Unit :=
  match c with
  | .global => .ok ()
  | .token _ _ => .error ⟨.forbidden, lit "a global API token is required to " ++ action⟩

def scopeTokenId : Caller → Option ℕ
  | .global => none
  | .token id _ => some id

def zoneVisible (c : Caller) (zoneId : ℕ) : Bool :=
  match c with
  | .global => true
  | .token _ grants => grants.any (·.zoneId == zoneId)

def ensureZoneVisible (c : Caller) (zone : Zone) : Except ServiceError Unit :=
  if c.zoneVisible zone.id then .ok () else .error (.zoneNotFound zone.name.text)

end Caller

/-- The policies one holder has in one zone, as the transaction reads them. -/
def policiesOf (policies : List ZonePolicy) (zoneId holderId : ℕ) : List ZonePolicy :=
  policies.filter fun p => p.zoneId == zoneId && p.holderId == holderId

def authorizeWithPolicies (policies : List ZonePolicy) (zone : Zone) (writes : List RecordWrite) :
    Except ServiceError Unit :=
  writes.forM fun w =>
    if policies.any (·.covers w) then .ok ()
    else .error ⟨.forbidden, lit "API token is not allowed to manage '" ++ w.relativeName.display ++
      lit "' " ++ (w.recordType.map RecordType.asStr).getD (lit "records") ++ lit " in zone '" ++
      zone.name.text ++ lit "'"⟩

/-- `Caller::authorize_record_writes_tx`. -/
def Caller.authorizeRecordWrites (c : Caller) (policies : List ZonePolicy) (zone : Zone)
    (writes : List RecordWrite) : Except ServiceError Unit :=
  match c with
  | .global => .ok ()
  | .token id _ =>
      if policiesOf policies zone.id id = [] then
        .error ⟨.forbidden, lit "API token is not allowed to manage records in zone '" ++
          zone.name.text ++ lit "'"⟩
      else authorizeWithPolicies (policiesOf policies zone.id id) zone writes

/-! ### What authorization grants -/

/-- Whether one of the policies a holder has in a zone covers a write. -/
def Granted (policies : List ZonePolicy) (zoneId holderId : ℕ) (w : RecordWrite) : Prop :=
  ∃ p ∈ policiesOf policies zoneId holderId, p.covers w = true

/-- What a caller may write: a scoped token only what its policies cover. -/
def Caller.Permits (c : Caller) (policies : List ZonePolicy) (zoneId : ℕ) (w : RecordWrite) : Prop :=
  ∀ id grants, c = .token id grants → Granted policies zoneId id w

theorem Caller.permits_of_authorizeRecordWrites {c : Caller} {policies : List ZonePolicy} {zone : Zone}
    {writes : List RecordWrite} (h : c.authorizeRecordWrites policies zone writes = .ok ())
    {w : RecordWrite} (hw : w ∈ writes) : c.Permits policies zone.id w := by
  rintro id grants rfl
  simp only [Caller.authorizeRecordWrites] at h
  split at h
  · cases h
  · have := Fallible.forM_eq_ok.1 h w hw
    split at this
    · rename_i hany
      exact List.any_eq_true.1 hany
    · cases this

theorem ZonePolicy.covers_of_any {p : ZonePolicy} {name : OwnerName}
    (h : p.covers ⟨name, none⟩ = true) (t : RecordType) : p.covers ⟨name, some t⟩ = true := by
  simp only [ZonePolicy.covers, Bool.and_eq_true] at h ⊢
  refine ⟨h.1, ?_⟩
  have h2 := h.2
  unfold typesMatch at h2 ⊢
  split at h2
  · rename_i e
    rw [if_pos e]
  · cases h2

end Bindizr
