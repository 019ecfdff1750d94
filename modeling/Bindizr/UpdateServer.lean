import Bindizr.Credentials
import Bindizr.NsUpdate

/-! # Answering UPDATE messages

`bindizr-dns/src/server/nsupdate`: a message is parsed, the key its TSIG record names is looked up and
the signature verified with it, the update is applied in one transaction, and the answer says how it
went.  An answer is signed once the signature was verified, whatever becomes of the update; a
verification that fails brings its own answer.

Other requests come between the lookup of the key, the transaction and the answer.  However they do
(`nsupdate_handled`), a message that is malformed or not let in changes nothing and is told so; one that
is let in and fails changes nothing, and the answer has the code of the failure; or its update is
applied in one transaction, and the answer says so. -/

namespace Bindizr

open Concurrent (Program)
open Rfc1035 (Name)

/-- Why `domain::tsig::ServerTransaction::request` failed: the TSIG error code, and the message that
`build_message` makes of it. -/
structure TsigServerError where
  error : ℕ
  response : Option (List UInt8)

/-- A TSIG record, as far as an unsigned error echoes it. -/
structure TsigRr where
  owner : Name
  rclass : ℕ
  ttl : ℕ
  algorithm : Name
  timeSigned : ℕ
  fudge : ℕ

/-- The functions of `domain` that answering an UPDATE needs, beside those of `AccessCrates`. -/
class UpdateCrates extends AccessCrates where
  /-- `domain::tsig::Key`. -/
  DomainKey : Type
  /-- `Key::new`, without bounds on the length of signatures. -/
  keyNew : TsigAlgorithm → List UInt8 → Name → Except Text DomainKey
  /-- `domain::tsig::ServerTransaction`. -/
  Signer : Type
  /-- `ServerTransaction::request`, for a store of at most one key, at a time of the clock. -/
  serverRequest : Option DomainKey → List UInt8 → ℤ → Except TsigServerError (Option Signer)
  /-- `ServerTransaction::answer_with_fudge`, at the end of an answer. -/
  answerWithFudge : Signer → List UInt8 → ℤ → ℕ → Option (List UInt8)
  /-- What `MessageBuilder::start_answer` makes of a message and a response code. -/
  startAnswer : List UInt8 → ℕ → Option (List UInt8)
  /-- The last TSIG record of a message's additional section. -/
  lastTsig : List UInt8 → Option TsigRr
  /-- An answer with a TSIG record pushed: with this MAC, original id, error and other data. -/
  pushTsig : List UInt8 → TsigRr → List UInt8 → ℕ → ℕ → List UInt8 → Option (List UInt8)
  /-- The id of a message. -/
  messageId : List UInt8 → ℕ
  /-- `Display` of `TsigRcode`. -/
  tsigRcodeDisplay : ℕ → Text
  /-- `Display` of the error of `Message::from_octets`. -/
  shortMessage : Text

variable [crates : UpdateCrates]

inductive UpdateError where
  | update (e : DynamicUpdateError)
  | tsigFailed (msg : Text) (response : List UInt8)

def defaultFudge : ℕ := 300

/-! ### Signatures -/

def toDomainKey (key : StoredKey) : Except UpdateError crates.DomainKey := do
  let name ← (crates.nameFromStr key.name).mapError fun e =>
    .update (.internal (lit "invalid TSIG key name '" ++ key.name ++ lit "': " ++ e))
  match crates.base64Decode key.secret with
  | none => .error (.update (.internal (lit "stored TSIG secret is not valid base64: " ++
      crates.base64DecodeError key.secret)))
  | some secret =>
      if secret = [] then .error (.update (.internal (lit "stored TSIG secret decodes to an empty key")))
      else (crates.keyNew key.algorithm secret name).mapError fun e =>
        .update (.internal (lit "invalid TSIG key '" ++ key.name ++ lit "': " ++ e))

def buildUnsignedError (queryData : List UInt8) (error : ℕ) : Option (List UInt8) := do
  let record ← crates.lastTsig queryData
  let answer ← crates.startAnswer queryData 9
  crates.pushTsig answer record [] (crates.messageId queryData) error []

/-- `tsig_failure`: a FORMERR of the verification is a signature that does not match. -/
def tsigFailure (queryData : List UInt8) (e : TsigServerError) : UpdateError :=
  match crates.messageHeader queryData with
  | none => .update (.internal (lit "invalid DNS message: " ++ crates.shortMessage))
  | some _ =>
      match if e.error = 1 then buildUnsignedError queryData 16 else e.response with
      | some response => .tsigFailed (lit "TSIG validation failed: " ++ crates.tsigRcodeDisplay e.error) response
      | none => .update (.internal (lit "failed to build TSIG error response (" ++
          crates.tsigRcodeDisplay e.error ++ lit ")"))

/-- `validate_tsig`, at a time of the clock. -/
def validateTsig (queryData : List UInt8) (key : Option crates.DomainKey) (time : ℤ) :
    Except UpdateError crates.Signer :=
  match crates.messageHeader queryData with
  | none => .error (.update (.refused (lit "invalid DNS message: " ++ crates.shortMessage)))
  | some _ =>
      match crates.serverRequest key queryData time with
      | .ok (some signer) => .ok signer
      | .ok none => .error (.update (.internal (lit "TSIG record not found during validation")))
      | .error e => .error (tsigFailure queryData e)

/-- The key of `domain` for the key that was found; none is found for an unknown key. -/
def domainKey : Option (ℕ × StoredKey) → Except UpdateError (Option crates.DomainKey)
  | none => .ok none
  | some (_, key) => (toDomainKey key).map some

/-- `authenticate_request`: the key, and what signs the answer. -/
def authenticateRequest (allowUnsigned : Bool) (request : UpdateRequest) (queryData : List UInt8) :
    Program Registry UpdateError (Option TsigKey × Option crates.Signer) :=
  match request.tsig with
  | none =>
      if allowUnsigned then pure (none, none)
      else Program.fail (.update (.refused (lit "unsigned NSUPDATE refused: no TSIG record present")))
  | some tsig => do
      let key ← TsigKeyService.findByWireName tsig.name
      let domainKey ← domainKey key
      let time ← now
      let signer ← validateTsig queryData domainKey time
      pure (key.map fun r => r.2.tsigKey r.1, some signer)

/-! ### Updates and answers -/

/-- `DynamicUpdateService::apply`, in its transaction. -/
def applyUpdateTransaction (update : DynamicUpdate) : Program Registry UpdateError Bool :=
  .transaction fun s =>
    match applyUpdate s.db update with
    | .ok (db, changed) => .ok (changed, s.withZones db)
    | .error e => .error (.update e)

/-- The rest of `apply_update_inner`, for a request that was authenticated. -/
def applyAuthenticated (request : UpdateRequest) (queryData : List UInt8) (key : Option TsigKey) :
    Program Registry UpdateError Bool := do
  let update ← (toDynamicUpdate request queryData key).mapError UpdateError.update
  applyUpdateTransaction update

/-- `apply_update`: the result, and what signs the answer once the request was authenticated. -/
def applyUpdateRequest (allowUnsigned : Bool) (request : UpdateRequest) (queryData : List UInt8) :
    Program Registry Empty (Except UpdateError Bool × Option crates.Signer) := do
  if trimEndMatches '.' request.zoneName = [] then
    pure (.error (.update (.notZone (lit "root zone is not supported"))), none)
  else
    match ← (authenticateRequest allowUnsigned request queryData).attempt with
    | .error e => pure (.error e, none)
    | .ok (key, signer) => do
        let result ← (applyAuthenticated request queryData key).attempt
        pure (result, signer)

/-- The response code of an error. -/
def DynamicUpdateError.rcode : DynamicUpdateError → ℕ
  | .refused _ => 5
  | .yxDomain _ => 6
  | .yxRrset _ => 7
  | .nxDomain _ => 3
  | .nxRrset _ => 8
  | .notZone _ => 10
  | .internal _ => 2

def buildResponse (queryData : List UInt8) (rcode : ℕ) (signer : Option crates.Signer) (fudge : ℕ) :
    Program Registry Empty (Option (List UInt8)) :=
  match crates.startAnswer queryData rcode, signer with
  | none, _ => pure none
  | some answer, none => pure (some answer)
  | some answer, some signer => do
      let time ← now
      pure (crates.answerWithFudge signer answer time fudge)

/-- How an update is answered. -/
def respond (queryData : List UInt8) (fudge : ℕ) :
    Except UpdateError Bool × Option crates.Signer → Program Registry Empty (Option (List UInt8))
  | (.ok _, signer) => buildResponse queryData 0 signer fudge
  | (.error (.tsigFailed _ response), _) => pure (some response)
  | (.error (.update e), signer) => buildResponse queryData e.rcode signer fudge

def handleNsupdateRequest (allowUnsigned : Bool) (queryData : List UInt8) :
    Program Registry Empty (Option (List UInt8)) :=
  match parseUpdateRequest queryData with
  | .error _ => buildResponse queryData 1 none defaultFudge
  | .ok parsed => do
      let outcome ← applyUpdateRequest allowUnsigned parsed queryData
      respond queryData ((parsed.tsig.map (·.fudge)).getD defaultFudge) outcome

/-! ### Every access keeps the registry -/

section Updates

variable {queryData : List UInt8} {s : Registry}

theorem safe_buildResponse (rcode : ℕ) (signer : Option crates.Signer) (fudge : ℕ) :
    Keeps (buildResponse queryData rcode signer fudge) s := by
  unfold buildResponse
  split
  · trivial
  · trivial
  · exact safe_seq safe_now fun _ _ => trivial

theorem safe_authenticateRequest (allowUnsigned : Bool) (request : UpdateRequest) :
    Keeps (authenticateRequest allowUnsigned request queryData) s := by
  unfold authenticateRequest
  split
  · split <;> trivial
  · exact safe_seq (safe_read_seen fun _ _ => trivial) fun _ _ => safe_seq (safe_lift _) fun _ _ =>
      safe_seq safe_now fun _ _ => safe_seq (safe_lift _) fun _ _ => trivial

theorem safe_applyAuthenticated (request : UpdateRequest) (key : Option TsigKey) :
    Keeps (applyAuthenticated request queryData key) s := by
  refine safe_seq (safe_lift _) fun update _ => safe_commit fun s' a t _ hI hf => ?_
  cases happly : applyUpdate s'.db update with
  | error e =>
      rw [happly] at hf
      cases hf
  | ok result =>
      rw [happly] at hf
      cases hf
      have hexec : execute s'.db (.applyUpdate update) = some result.1 := committed_eq_some.2 ⟨_, happly⟩
      exact accessed_withZones hI (fun _ _ h => by cases h) hexec

theorem safe_handleNsupdateRequest (allowUnsigned : Bool) (queryData : List UInt8) :
    Keeps (handleNsupdateRequest allowUnsigned queryData) s := by
  unfold handleNsupdateRequest
  split
  · exact safe_buildResponse ..
  rename_i request _
  have happly : Keeps (applyUpdateRequest allowUnsigned request queryData) s := by
    unfold applyUpdateRequest
    split
    · trivial
    · refine safe_seq (safe_attempt (safe_authenticateRequest allowUnsigned request)) fun auth _ => ?_
      split
      · trivial
      · exact safe_seq (safe_attempt (safe_applyAuthenticated request _)) fun _ _ => trivial
  refine safe_seq happly fun outcome s' => ?_
  unfold respond
  split
  · exact safe_buildResponse ..
  · trivial
  · exact safe_buildResponse ..

end Updates

/-! ### How a message is handled -/

/-- No message verifies without a key. -/
def UpdateCrates.RefusesUnknownKeys (crates : UpdateCrates) : Prop :=
  ∀ data time signer, crates.serverRequest none data time ≠ .ok (some signer)

/-- The answer to a message, at a time of the clock. -/
def answerAt (queryData : List UInt8) (rcode : ℕ) (signer : Option crates.Signer) (time : ℤ) (fudge : ℕ) :
    Option (List UInt8) :=
  (crates.startAnswer queryData rcode).bind fun answer =>
    match signer with
    | none => some answer
    | some signer => crates.answerWithFudge signer answer time fudge

/-- Why a message was let in: it may go unsigned, or it verified with the key that its TSIG record names, as it
was stored when it was looked up.  What signs the answer is what verified it. -/
inductive LetIn (allowUnsigned : Bool) (queryData : List UInt8) (seen : List (Registry × Registry)) :
    Option TsigRecord → Option TsigKey → Option crates.Signer → Prop
  | unsigned : allowUnsigned = true → LetIn allowUnsigned queryData seen none none none
  | verified {tsig : TsigRecord} {s s' : Registry} {id : ℕ} {key : StoredKey} {domainKey : crates.DomainKey} {time : ℤ}
      {signer : crates.Signer} : (s, s') ∈ seen → (id, key) ∈ s.keys.rows → key.name = wireKeyName tsig.name →
      toDomainKey key = .ok domainKey → crates.serverRequest (some domainKey) queryData time = .ok (some signer) →
      LetIn allowUnsigned queryData seen (some tsig) (some (key.tsigKey id)) (some signer)

/-- Why a message was not let in: it is unsigned, the key it names cannot be used, or it does not verify with what
was stored under that name when it was looked up. -/
inductive NotLetIn (allowUnsigned : Bool) (queryData : List UInt8) (seen : List (Registry × Registry)) :
    Option TsigRecord → UpdateError → Prop
  | unsigned : allowUnsigned = false → NotLetIn allowUnsigned queryData seen none
      (.update (.refused (lit "unsigned NSUPDATE refused: no TSIG record present")))
  | unusable {tsig : TsigRecord} {s s' : Registry} {e : UpdateError} : (s, s') ∈ seen →
      domainKey (s.keys.find (·.name == wireKeyName tsig.name)) = .error e →
      NotLetIn allowUnsigned queryData seen (some tsig) e
  | unverified {tsig : TsigRecord} {s s' : Registry} {key : Option crates.DomainKey} {time : ℤ} {e : UpdateError} :
      (s, s') ∈ seen → domainKey (s.keys.find (·.name == wireKeyName tsig.name)) = .ok key →
      validateTsig queryData key time = .error e → NotLetIn allowUnsigned queryData seen (some tsig) e

/-- Why a message that was let in failed: it is no update that can be applied, or the zones it found refused it. -/
def Fails (request : UpdateRequest) (queryData : List UInt8) (key : Option TsigKey) (seen : List (Registry × Registry))
    (e : DynamicUpdateError) : Prop :=
  toDynamicUpdate request queryData key = .error e ∨
    ∃ update s, (s, s) ∈ seen ∧ toDynamicUpdate request queryData key = .ok update ∧ applyUpdate s.db update = .error e

/-- The answer to a message that failed; a verification that failed brings its own. -/
def errorAnswer (queryData : List UInt8) (e : UpdateError) (signer : Option crates.Signer) (time : ℤ) (fudge : ℕ) :
    Option (List UInt8) :=
  match e with
  | .update e => answerAt queryData e.rcode signer time fudge
  | .tsigFailed _ response => some response

/-- How a message is handled: the states that the accesses found and left, and the answer. -/
inductive Handled (allowUnsigned : Bool) (queryData : List UInt8) : List (Registry × Registry) → Option (List UInt8) → Prop
  | malformed {trace : List (Registry × Registry)} {e : ParseError} {time : ℤ} :
      parseUpdateRequest queryData = .error e → Program.Quiet trace →
      Handled allowUnsigned queryData trace (answerAt queryData 1 none time defaultFudge)
  | notLetIn {trace : List (Registry × Registry)} {request : UpdateRequest} {e : UpdateError} (time : ℤ) (fudge : ℕ) :
      parseUpdateRequest queryData = .ok request →
      trimEndMatches '.' request.zoneName = [] ∧ e = .update (.notZone (lit "root zone is not supported")) ∨
        NotLetIn allowUnsigned queryData trace request.tsig e →
      Program.Quiet trace → Handled allowUnsigned queryData trace (errorAnswer queryData e none time fudge)
  | failed {trace : List (Registry × Registry)} {request : UpdateRequest} {key : Option TsigKey}
      {signer : Option crates.Signer} {e : DynamicUpdateError} {time : ℤ} {fudge : ℕ} :
      parseUpdateRequest queryData = .ok request → LetIn allowUnsigned queryData trace request.tsig key signer →
      Fails request queryData key trace e → Program.Quiet trace →
      Handled allowUnsigned queryData trace (answerAt queryData e.rcode signer time fudge)
  | applied {before after : List (Registry × Registry)} {s : Registry} {db : Db} {request : UpdateRequest}
      {key : Option TsigKey} {signer : Option crates.Signer} {update : DynamicUpdate} {changed : Bool} (time : ℤ) (fudge : ℕ) :
      parseUpdateRequest queryData = .ok request → LetIn allowUnsigned queryData before request.tsig key signer →
      toDynamicUpdate request queryData key = .ok update → applyUpdate s.db update = .ok (db, changed) →
      (changed = false → s.withZones db = s) → Program.Quiet before → Program.Quiet after →
      Handled allowUnsigned queryData (before ++ (s, s.withZones db) :: after) (answerAt queryData 0 signer time fudge)

section Handling

variable {allowUnsigned : Bool} {queryData : List UInt8} {trace : List (Registry × Registry)}

theorem runs_buildResponse {rcode fudge : ℕ} {signer : Option crates.Signer} {reply : Option (List UInt8)}
    (h : (buildResponse queryData rcode signer fudge).Runs trace (.ok reply)) :
    Program.Quiet trace ∧ ∃ time, reply = answerAt queryData rcode signer time fudge := by
  unfold buildResponse at h
  unfold answerAt
  split at h
  · rename_i hstart
    obtain ⟨rfl, hr⟩ := Program.runs_pure h
    cases hr
    exact ⟨Program.quiet_nil, 0, by rw [hstart]; rfl⟩
  · rename_i answer hstart
    obtain ⟨rfl, hr⟩ := Program.runs_pure h
    cases hr
    exact ⟨Program.quiet_nil, 0, by rw [hstart]; rfl⟩
  · rename_i answer signer hstart
    obtain ⟨time, trace₁, trace₂, rfl, h₁, h₂⟩ := Program.runs_bind_ok h
    obtain ⟨s, rfl, -⟩ := Program.runs_read h₁
    obtain ⟨rfl, hr⟩ := Program.runs_pure h₂
    cases hr
    exact ⟨by simpa using Program.quiet_read s, time, by rw [hstart]; rfl⟩

theorem serverRequest_of_validateTsig {key : Option crates.DomainKey} {time : ℤ} {signer : crates.Signer}
    (h : validateTsig queryData key time = .ok signer) : crates.serverRequest key queryData time = .ok (some signer) := by
  unfold validateTsig at h
  split at h
  · cases h
  · split at h
    · rename_i hverified
      cases h
      exact hverified
    · cases h
    · cases h

/-- What verifies with the key that was found under its name is let in; a key that was not found verifies nothing. -/
theorem letIn_of_validateTsig (hkeys : crates.RefusesUnknownKeys) {seen : List (Registry × Registry)} {s s' : Registry}
    (hseen : (s, s') ∈ seen) {tsig : TsigRecord} {key : Option crates.DomainKey}
    (hkey : domainKey (s.keys.find (·.name == wireKeyName tsig.name)) = .ok key) {time : ℤ} {signer : crates.Signer}
    (hsigner : validateTsig queryData key time = .ok signer) : LetIn allowUnsigned queryData seen (some tsig)
      ((s.keys.find (·.name == wireKeyName tsig.name)).map fun r => r.2.tsigKey r.1) (some signer) := by
  have hverified := serverRequest_of_validateTsig hsigner
  cases hfound : s.keys.find (·.name == wireKeyName tsig.name) with
  | none =>
      rw [hfound] at hkey
      cases hkey
      exact absurd hverified (hkeys _ _ _)
  | some row =>
      rw [hfound] at hkey
      obtain ⟨domainKey, hdomain, rfl⟩ := Fallible.map_eq_ok.1 hkey
      obtain ⟨hmem, hname⟩ := Tables.Table.mem_of_find hfound
      exact .verified hseen hmem (by simpa using hname) hdomain hverified

theorem LetIn.mono {seen seen' : List (Registry × Registry)} {tsig : Option TsigRecord} {key : Option TsigKey}
    {signer : Option crates.Signer} (h : LetIn allowUnsigned queryData seen tsig key signer) (hsub : seen ⊆ seen') :
    LetIn allowUnsigned queryData seen' tsig key signer := by
  cases h with
  | unsigned hallow => exact .unsigned hallow
  | verified hseen hmem hname hdomain hverified => exact .verified (hsub hseen) hmem hname hdomain hverified

theorem NotLetIn.mono {seen seen' : List (Registry × Registry)} {tsig : Option TsigRecord} {e : UpdateError}
    (h : NotLetIn allowUnsigned queryData seen tsig e) (hsub : seen ⊆ seen') :
    NotLetIn allowUnsigned queryData seen' tsig e := by
  cases h with
  | unsigned hallow => exact .unsigned hallow
  | unusable hseen hdomain => exact .unusable (hsub hseen) hdomain
  | unverified hseen hdomain hnot => exact .unverified (hsub hseen) hdomain hnot

theorem Fails.mono {seen seen' : List (Registry × Registry)} {request : UpdateRequest} {key : Option TsigKey}
    {e : DynamicUpdateError} (h : Fails request queryData key seen e) (hsub : seen ⊆ seen') :
    Fails request queryData key seen' e := by
  rcases h with h | ⟨update, s, hseen, hupdate, h⟩
  · exact .inl h
  · exact .inr ⟨update, s, hsub hseen, hupdate, h⟩

/-- Authenticating changes nothing, and lets in only what is verified or may go unsigned. -/
theorem runs_authenticateRequest (hkeys : crates.RefusesUnknownKeys) {request : UpdateRequest}
    {result : Except UpdateError (Option TsigKey × Option crates.Signer)}
    (h : (authenticateRequest allowUnsigned request queryData).Runs trace result) :
    Program.Quiet trace ∧
      (∀ key signer, result = .ok (key, signer) → LetIn allowUnsigned queryData trace request.tsig key signer) ∧
      ∀ e, result = .error e → NotLetIn allowUnsigned queryData trace request.tsig e := by
  unfold authenticateRequest at h
  cases htsig : request.tsig with
  | none =>
      rw [htsig] at h
      simp only at h
      split at h
      · rename_i hallow
        obtain ⟨rfl, rfl⟩ := Program.runs_pure h
        refine ⟨Program.quiet_nil, fun key signer e => ?_, fun _ e => by cases e⟩
        cases e
        exact .unsigned hallow
      · rename_i hallow
        cases h
        refine ⟨Program.quiet_nil, (fun _ _ e => by cases e), fun e he => ?_⟩
        cases he
        exact .unsigned (by simpa using hallow)
  | some tsig =>
      rw [htsig] at h
      simp only at h
      rcases Program.runs_bind h with ⟨found, trace₁, trace₂, rfl, h₁, h₂⟩ | ⟨e, he, rfl⟩
      case inr =>
        obtain ⟨s, -, hr⟩ := Program.runs_read he
        cases hr
      obtain ⟨s, rfl, hfound⟩ := Program.runs_read h₁
      cases hfound
      rcases Program.runs_bind h₂ with ⟨dkey, trace₃, trace₄, rfl, h₃, h₄⟩ | ⟨e, he, rfl⟩
      case inr =>
        obtain ⟨rfl, hunusable⟩ := Program.runs_ofExcept he
        refine ⟨Program.quiet_read s, (fun _ _ e => by cases e), fun e' he' => ?_⟩
        cases he'
        exact .unusable (List.mem_cons_self ..) hunusable.symm
      obtain ⟨rfl, hdkey⟩ := Program.runs_ofExcept h₃
      rcases Program.runs_bind h₄ with ⟨time, trace₅, trace₆, rfl, h₅, h₆⟩ | ⟨e, he, rfl⟩
      case inr =>
        obtain ⟨s', -, hr⟩ := Program.runs_read he
        cases hr
      obtain ⟨s', rfl, -⟩ := Program.runs_read h₅
      rcases Program.runs_bind h₆ with ⟨signer, trace₇, trace₈, rfl, h₇, h₈⟩ | ⟨e, he, rfl⟩
      case inr =>
        obtain ⟨rfl, hunverified⟩ := Program.runs_ofExcept he
        refine ⟨(Program.quiet_read s).append (Program.quiet_read s'), (fun _ _ e => by cases e), fun e' he' => ?_⟩
        cases he'
        exact .unverified (List.mem_cons_self ..) hdkey.symm hunverified.symm
      obtain ⟨rfl, hsigner⟩ := Program.runs_ofExcept h₇
      obtain ⟨rfl, rfl⟩ := Program.runs_pure h₈
      refine ⟨(Program.quiet_read s).append (Program.quiet_read s'), fun key signer' e => ?_, fun _ e => by cases e⟩
      cases e
      exact letIn_of_validateTsig hkeys (List.mem_cons_self ..) hdkey.symm hsigner.symm

theorem withZones_self {s : Registry} (h : Integrity s) : s.withZones s.db = s := by
  rw [Registry.withZones, Registry.mk.injEq]
  exact ⟨rfl, rfl, rfl, rfl, rfl, withZones_policies h fun st hst => ⟨st, hst, rfl⟩, rfl⟩

theorem applyUpdate_unchanged {s : Registry} (h : Integrity s) {update : DynamicUpdate} {db : Db}
    (hupdate : applyUpdate s.db update = .ok (db, false)) : s.withZones db = s := by
  obtain ⟨found, hfound, hupdate⟩ := Fallible.bind_eq_ok.1 hupdate
  cases found with
  | none => cases hupdate
  | some st =>
      obtain ⟨name, _, hfound⟩ := Fallible.bind_eq_ok.1 (Fallible.mapError_eq_ok.1 hfound)
      obtain ⟨hst, _⟩ := getZoneByName_eq_some (Except.ok.inj hfound)
      obtain ⟨⟨tx, changed⟩, htx, hupdate⟩ := Fallible.bind_eq_ok.1 hupdate
      cases hupdate
      rcases applyUpdateTx_commits (h.dbOk.txOk hst) htx with ⟨-, rfl⟩ | ⟨e, -⟩
      · rw [commit_beginTx h.dbOk hst, withZones_self h]
      · cases e

/-- An authenticated update is applied in one transaction, or changes nothing. -/
theorem runs_applyAuthenticated {request : UpdateRequest} {key : Option TsigKey} {result : Except UpdateError Bool}
    (h : (applyAuthenticated request queryData key).Runs trace result) :
    (∃ e, result = .error (.update e) ∧ Fails request queryData key trace e ∧ Program.Quiet trace) ∨
      ∃ update s db changed, result = .ok changed ∧ toDynamicUpdate request queryData key = .ok update ∧
        applyUpdate s.db update = .ok (db, changed) ∧ trace = [(s, s.withZones db)] := by
  rcases Program.runs_bind h with ⟨update, trace₁, trace₂, rfl, h₁, h₂⟩ | ⟨e, he, rfl⟩
  case inr =>
    obtain ⟨rfl, herror⟩ := Program.runs_ofExcept he
    refine .inl ?_
    cases hupdate : toDynamicUpdate request queryData key with
    | ok update => simp [hupdate, Except.mapError] at herror
    | error e' =>
        rw [hupdate] at herror
        exact ⟨e', by simpa [Except.mapError] using herror, .inl hupdate, Program.quiet_nil⟩
  obtain ⟨rfl, hupdate⟩ := Program.runs_ofExcept h₁
  have hupdate := Fallible.mapError_eq_ok.1 hupdate.symm
  rcases Program.runs_transaction h₂ with ⟨s, e, happly, rfl, rfl⟩ | ⟨s, changed, s', happly, rfl, rfl⟩
  · cases hs : applyUpdate s.db update with
    | error e' =>
        rw [hs] at happly
        cases happly
        exact .inl ⟨e', rfl, .inr ⟨update, s, List.mem_singleton_self _, hupdate, hs⟩, Program.quiet_read s⟩
    | ok result =>
        rw [hs] at happly
        cases happly
  · cases hs : applyUpdate s.db update with
    | error e =>
        rw [hs] at happly
        cases happly
    | ok result =>
        rw [hs] at happly
        cases happly
        exact .inr ⟨update, s, result.1, result.2, rfl, hupdate, hs, rfl⟩

/-- **Answers are true.**  Whatever others do in between, an UPDATE message that is malformed or not let in changes
nothing and is answered so; one that is let in and fails changes nothing and is answered with the code of the failure;
or its update is applied, in one transaction, and it is answered with NOERROR.  The answer to a message that verified is
signed by what verified it. -/
theorem nsupdate_handled (hkeys : crates.RefusesUnknownKeys) {reply : Option (List UInt8)}
    (h : (handleNsupdateRequest allowUnsigned queryData).Runs trace (.ok reply)) (hI : ∀ t ∈ trace, Integrity t.1) :
    Handled allowUnsigned queryData trace reply := by
  unfold handleNsupdateRequest at h
  cases hparse : parseUpdateRequest queryData with
  | error e =>
      rw [hparse] at h
      obtain ⟨hquiet, time, rfl⟩ := runs_buildResponse h
      exact .malformed hparse hquiet
  | ok request =>
      rw [hparse] at h
      obtain ⟨outcome, trace₁, trace₂, rfl, h₁, h₂⟩ := Program.runs_bind_ok h
      unfold applyUpdateRequest at h₁
      split at h₁
      · rename_i hroot
        obtain ⟨rfl, e⟩ := Program.runs_pure h₁
        cases e
        obtain ⟨hquiet, time, rfl⟩ := runs_buildResponse h₂
        exact .notLetIn time ((request.tsig.map (·.fudge)).getD defaultFudge) hparse (.inl ⟨hroot, rfl⟩) hquiet
      obtain ⟨auth, trace₃, trace₄, rfl, h₃, h₄⟩ := Program.runs_bind_ok h₁
      obtain ⟨r, hr, h₃⟩ := Program.runs_attempt h₃
      cases hr
      obtain ⟨hquiet, hlet, hnot⟩ := runs_authenticateRequest hkeys h₃
      cases auth with
      | error e =>
          obtain ⟨rfl, e'⟩ := Program.runs_pure h₄
          cases e'
          cases e with
          | update e =>
              obtain ⟨hquiet', time, rfl⟩ := runs_buildResponse h₂
              exact .notLetIn time ((request.tsig.map (·.fudge)).getD defaultFudge) hparse (.inr ((hnot _ rfl).mono (by simp)))
                ((hquiet.append Program.quiet_nil).append hquiet')
          | tsigFailed msg response =>
              obtain ⟨rfl, e'⟩ := Program.runs_pure h₂
              cases e'
              exact .notLetIn 0 0 hparse (.inr ((hnot _ rfl).mono (by simp)))
                ((hquiet.append Program.quiet_nil).append Program.quiet_nil)
      | ok pair =>
          have hlet := hlet pair.1 pair.2 rfl
          obtain ⟨attempted, trace₅, trace₆, rfl, h₅, h₆⟩ := Program.runs_bind_ok h₄
          obtain ⟨result, hresult, h₅⟩ := Program.runs_attempt h₅
          cases hresult
          obtain ⟨rfl, e⟩ := Program.runs_pure h₆
          cases e
          rcases runs_applyAuthenticated h₅ with ⟨e, rfl, hfails, hquiet'⟩ | ⟨update, s, db, changed, rfl, hupdate, happly, rfl⟩
          · obtain ⟨hquiet'', time, rfl⟩ := runs_buildResponse h₂
            exact .failed hparse (hlet.mono (by simp)) (hfails.mono (by simp))
              ((hquiet.append (hquiet'.append Program.quiet_nil)).append hquiet'')
          · obtain ⟨hquiet'', time, rfl⟩ := runs_buildResponse h₂
            have hs : Integrity s := hI (s, s.withZones db) (by simp)
            have := Handled.applied time ((request.tsig.map (·.fudge)).getD defaultFudge) hparse hlet
              hupdate happly (fun e => applyUpdate_unchanged hs (e ▸ happly)) hquiet hquiet''
            simpa using this

end Handling

/-- The questions of a message, copied: the names are written out in full. -/
def sampleQuestions (data : List UInt8) : ℕ → ℕ → List UInt8
  | 0, _ => []
  | count + 1, pos =>
      match sampleCrates.parsedName data pos with
      | none => []
      | some (name, next) => name.labels.flatMap (fun l => UInt8.ofNat l.length :: l) ++ 0 ::
          ((data.drop next).take 4 ++ sampleQuestions data count (next + 4))

/-- An answer of `start_answer`: the id, the opcode and the RD bit of the message, the response code, and its questions. -/
def sampleStartAnswer (data : List UInt8) (rcode : ℕ) : Option (List UInt8) := do
  let header ← sampleHeader data
  let (flags, _) ← Rfc1035.readNat 1 data 2
  pure (data.take 2 ++ [UInt8.ofNat (128 + header.opcode * 8 + flags % 2), UInt8.ofNat rcode] ++
    (data.drop 4).take 2 ++ [0, 0, 0, 0, 0, 0] ++ sampleQuestions data header.qdcount 12)

/-- An instance to evaluate with: it has no MAC, so that no signature verifies. -/
abbrev sampleUpdateCrates : UpdateCrates := { sampleCrates with
  toLowercase := toAsciiLowercase
  base64DecodeError := fun _ => lit "invalid base64"
  DomainKey := Name
  keyNew := fun _ _ name => .ok name
  Signer := Empty
  serverRequest := fun _ data _ =>
    match @parseUpdateRequest sampleCrates data with
    | .ok ⟨_, _, _, none⟩ => .ok none
    | _ => .error ⟨16, none⟩
  answerWithFudge := fun signer => signer.elim
  startAnswer := sampleStartAnswer
  lastTsig := fun _ => none
  pushTsig := fun _ _ _ _ _ _ => none
  messageId := fun data => (data.getD 0 0).toNat * 256 + (data.getD 1 0).toNat
  tsigRcodeDisplay := natText
  shortMessage := lit "short message" }

omit crates in
theorem sampleUpdateCrates_refusesUnknownKeys : sampleUpdateCrates.RefusesUnknownKeys := fun _ _ signer =>
  Empty.elim signer

/-- A registry with these zones, and neither credentials nor policies. -/
def Registry.ofDb (db : Db) : Registry :=
  ⟨db.stores, db.nextZoneId, db.nextRecordId, .empty, .empty, fun _ => .empty, 0⟩

theorem integrity_ofDb {ops : List Op} (htoken : (run ops).tokenPolicies = []) (htsig : (run ops).tsigPolicies = []) :
    Integrity (.ofDb (run ops)) where
  history := by
    refine ⟨ops, ?_⟩
    generalize run ops = db at htoken htsig ⊢
    obtain ⟨stores, _, _, nextZoneId, nextRecordId⟩ := db
    simp_all [Registry.db, Registry.ofDb, Tables.Table.empty]
  zone := fun _ _ hp => absurd hp List.not_mem_nil
  holder := fun _ _ hp => absurd hp List.not_mem_nil
  normal := fun _ _ hp => absurd hp List.not_mem_nil

/-- The zones of the sample history. -/
def sampleRegistry : Registry := .ofDb (@run sampleCrates sampleHistory)

/-- An UPDATE message that adds the address 192.0.2.9 to the sample zone, unsigned. -/
def sampleUpdateMessage : List UInt8 :=
  [0, 7, 40, 0, 0, 1, 0, 0, 0, 1, 0, 0] ++ [7, 101, 120, 97, 109, 112, 108, 101, 3, 99, 111, 109, 0, 0, 6, 0, 1] ++
  [4, 109, 97, 105, 108, 192, 12, 0, 1, 0, 1, 0, 0, 0, 60, 0, 4, 192, 0, 2, 9]

/-- Its answer: a response with NOERROR, and the zone section. -/
def sampleUpdateAnswer : List UInt8 :=
  [0, 7, 168, 0, 0, 1, 0, 0, 0, 0, 0, 0] ++ [7, 101, 120, 97, 109, 112, 108, 101, 3, 99, 111, 109, 0, 0, 6, 0, 1]

omit crates in
theorem sampleRegistry_integrity : @Integrity sampleCrates sampleRegistry :=
  @integrity_ofDb sampleUpdateCrates sampleHistory (by decide +kernel) (by decide +kernel)

omit crates in
/-- The message is let in, and the address is stored. -/
theorem nsupdate_handled_sample : ∃ trace,
    (@handleNsupdateRequest sampleUpdateCrates true sampleUpdateMessage).Runs trace (.ok (some sampleUpdateAnswer)) ∧
      (∃ t ∈ trace, ∃ st ∈ t.2.stores, ∃ r ∈ st.records, r.value = lit "192.0.2.9") ∧
      @Handled sampleUpdateCrates true sampleUpdateMessage trace (some sampleUpdateAnswer) := by
  have hruns := (@handleNsupdateRequest sampleUpdateCrates true sampleUpdateMessage).runs_alone sampleRegistry
  have hreply : ((@handleNsupdateRequest sampleUpdateCrates true sampleUpdateMessage).alone sampleRegistry).2 =
      .ok (some sampleUpdateAnswer) := by decide +kernel
  rw [hreply] at hruns
  have hsafe := @safe_handleNsupdateRequest sampleUpdateCrates sampleRegistry true sampleUpdateMessage
  exact ⟨_, hruns, by decide +kernel, @nsupdate_handled sampleUpdateCrates true sampleUpdateMessage _
    sampleUpdateCrates_refusesUnknownKeys _ hruns
    (hsafe.alone Later.refl (fun _ _ _ h => h.2) sampleRegistry_integrity)⟩

end Bindizr
