import Bindizr.Serving

/-! # Authority in flight

Between the authentication of a request and the commits it makes, tokens, keys and policies come and go.
A scoped token is authorized inside each transaction, against the policies stored there, and a policy
never outlives its holder; so what a request in flight may change is what its token may change at the
moment of the commit, however long ago it was authenticated (`bearer_authority`).
A token that is deleted, or whose policies are removed, changes no row from then on.  Only global ones act
on what was true when they were read: a request that presented a global token before it was deleted keeps
its rights to the end.

The proofs are by rely and guarantee.  What the others may do is `Later`, under which a row that was read
keeps its meaning; the states a run goes through are carried along, so that a guarantee can speak of the
moment at which the credential was read. -/

namespace Bindizr

open Concurrent (Program Pool Event)
open Tables (Table)

/-! ### What an access may change -/

/-- An access for a scoped holder.  No zone comes or goes; a zone that changed keeps its row but for the serial, and every
row that changed is, as it was or as it is, `granted`. -/
structure ScopedTo (granted : ℕ → RecordWrite → Prop) (s s' : Registry) : Prop where
  zoneIds : s'.stores.map (·.zone.id) = s.stores.map (·.zone.id)
  zones : ∀ st' ∈ s'.stores, st' ∈ s.stores ∨ ∃ st ∈ s.stores, st'.zone = { st.zone with serial := st.zone.serial + 1 } ∧
    ∀ r, ¬ (r ∈ st.records ↔ r ∈ st'.records) → granted st.zone.id r.write
  rest : s' = { s with stores := s'.stores, nextRecordId := s'.nextRecordId }

theorem ScopedTo.mono {granted granted' : ℕ → RecordWrite → Prop} {s s' : Registry} (h : ScopedTo granted s s')
    (himp : ∀ zoneId w, granted zoneId w → granted' zoneId w) : ScopedTo granted' s s' := by
  refine ⟨h.zoneIds, fun st' hst' => (h.zones st' hst').imp_right ?_, h.rest⟩
  rintro ⟨st, hst, hzone, hrows⟩
  exact ⟨st, hst, hzone, fun r hr => himp _ _ (hrows r hr)⟩

theorem scopedTo_withZones [Crates] {s : Registry} {db : Db} {op : Op} {holder : Holder} (hI : Integrity s)
    (hop : op.holder = some holder) (hexec : execute s.db op = some db) :
    ScopedTo (fun zoneId w => holder.Granted s.db zoneId w) s (s.withZones db) := by
  have hstep := execute_scoped hI.dbOk hop hexec
  refine ⟨hstep.zoneIds, fun st' hst' => (hstep.came st' hst').imp id ?_, ?_⟩
  · rintro ⟨st, hst, cs, ha, hz, hcs⟩
    refine ⟨st, hst, hz, fun r hr => ?_⟩
    obtain ⟨c, hc, e⟩ := ha.logged r hr
    have hgranted := hcs c hc
    rwa [e] at hgranted
  · have hzones : ∀ st ∈ s.stores, ∃ st' ∈ db.stores, st'.zone.id = st.zone.id := fun st hst => by
      have hmem : st.zone.id ∈ db.stores.map (·.zone.id) := hstep.zoneIds ▸ List.mem_map_of_mem hst
      simpa using hmem
    rw [Registry.mk.injEq]
    exact ⟨rfl, hstep.nextZoneId, rfl, rfl, rfl, withZones_policies hI hzones, rfl⟩

/-! ### Bearer tokens -/

variable [crates : UpdateCrates]

/-- A scoped token with this hash is there under its number, and one of its policies in the zone covers the write. -/
def TokenGrants (bearer : Text) (id : ℕ) (s : Registry) (zoneId : ℕ) (w : RecordWrite) : Prop :=
  (∃ row, (id, row) ∈ s.tokens.rows ∧ row.token = hashToken bearer ∧ row.isGlobal = false) ∧
    (Holder.token id).Granted s.db zoneId w

/-- What an access of a request with this bearer text may change: a stamp; whatever a global token admitted in one of the
states may; or what the policies of a scoped one cover that is still there. -/
inductive BearerAccess (states : Registry → Prop) (bearer : Text) (s s' : Registry) : Prop
  | stamped : Stamped (hashToken bearer) s s' → BearerAccess states bearer s s'
  | byGlobal {id : ℕ} {stored : ApiToken} : Admitted states bearer id stored → stored.isGlobal = true → Accessed s s' →
      BearerAccess states bearer s s'
  | byScoped {id : ℕ} {stored : ApiToken} : Admitted states bearer id stored → stored.isGlobal = false →
      ScopedTo (TokenGrants bearer id s) s s' →
      BearerAccess states bearer s s'

section Bearer

variable {states : Registry → Prop} {bearer : Text} {s : Registry}

theorem bearer_getByName (caller : Caller) (zoneName : Text) : (ZoneService.getByName caller zoneName).Safe
    (InRun states) Later (BearerAccess states bearer) (fun _ _ => True) s := by
  refine Program.Safe.bind (Q := fun _ _ => True) ?_ fun zone s' _ => ?_
  · refine Program.safe_transaction (fun s' _ _ => .stamped (.refl _ s')) fun s' a t _ _ hf => ⟨?_, trivial⟩
    obtain ⟨st, -, hf⟩ := Fallible.map_eq_ok.1 (Fallible.mapError_eq_ok.1 hf)
    cases hf
    exact .stamped (.refl _ _)
  · exact Program.Safe.bind (Q := fun _ _ => True) (Program.safe_ofExcept fun _ _ => trivial) fun _ _ _ => trivial

/-- A policy has its holder: what is granted to a token that was read is granted to a token that is there. -/
theorem tokenGrants_of_granted {id : ℕ} {stored : ApiToken} (hhash : stored.token = hashToken bearer)
    (hread : TokenRead id stored s) {s' : Registry} (hl : Later s s') (hI : Integrity s') {zoneId : ℕ} {w : RecordWrite}
    (h : (Holder.token id).Granted s'.db zoneId w) : TokenGrants bearer id s' zoneId w := by
  refine ⟨?_, h⟩
  obtain ⟨p, hp, -⟩ := h
  have hholder : p.holderId = id := (by simpa using List.of_mem_filter hp : _ ∧ p.holderId = id).2
  obtain ⟨q, hq, rfl⟩ := List.mem_map.1 (List.mem_of_mem_filter hp)
  obtain ⟨row, hrow, e⟩ := List.mem_map.1 (hI.holder .token q hq)
  simp only [Prod.mk.injEq] at e
  have hrow : (id, row.2) ∈ s'.tokens.rows := by
    rw [← hholder, ← e.1]
    exact hrow
  have hsame := hread s' hl row.2 hrow
  simp only [ApiToken.Same, ApiToken.mk.injEq] at hsame
  exact ⟨row.2, hrow, hsame.2.1 ▸ hhash, e.2⟩

section Scoped

variable {id : ℕ} (grants : List ZonePolicy)

/-- A zone call of a scoped token changes what the token's policies cover at the commit. -/
theorem bearer_zoneCall {stored : ApiToken} (hadmitted : Admitted states bearer id stored)
    (hglobal : stored.isGlobal = false) (hread : TokenRead id stored s) (call : ZoneCall) :
    ((Call.zone call).program (.token id grants)).Safe (InRun states) Later (BearerAccess states bearer)
      (fun _ _ => True) s := by
  refine Program.Safe.bind (Q := fun _ _ => True) ?_ fun _ _ _ => trivial
  refine Program.safe_transaction (fun s' _ _ => .stamped (.refl _ s')) fun s' a t hl hA hf => ⟨?_, trivial⟩
  cases hexec : execute s'.db (call.op (.token id grants)) with
  | none =>
      rw [hexec] at hf
      cases hf
      exact .stamped (.refl _ _)
  | some db =>
      rw [hexec] at hf
      cases hf
      have hscoped := scopedTo_withZones hA.1 (call.op_holder (.token id grants)) hexec
      exact .byScoped hadmitted hglobal (hscoped.mono fun _ _ => tokenGrants_of_granted hadmitted.hash hread hl hA.1)

/-- A NOTIFY without a bump reads only; one with a bump needs a global token. -/
theorem bearer_notify (zoneName : Option Text) (force : Bool) :
    ((Call.notify zoneName force).program (.token id grants)).Safe (InRun states) Later (BearerAccess states bearer)
      (fun _ _ => True) s := by
  cases force with
  | true => trivial
  | false =>
      have hprepare : ∀ s, (ZoneService.prepareNotify (.token id grants) false zoneName).Safe
          (InRun states) Later (BearerAccess states bearer) (fun _ _ => True) s := by
        intro s
        unfold ZoneService.prepareNotify
        split
        · split
          · trivial
          · exact (bearer_getByName _ _).bind fun _ _ _ => trivial
        · trivial
      have hnotify : (ZoneService.notify (.token id grants) zoneName false).Safe (InRun states) Later
          (BearerAccess states bearer) (fun _ _ => True) s := (hprepare s).bind fun _ _ _ => trivial
      exact hnotify.bind fun _ _ _ => trivial

theorem bearer_scopedCall {stored : ApiToken} (hadmitted : Admitted states bearer id stored)
    (hglobal : stored.isGlobal = false) (hread : TokenRead id stored s) (call : Call) :
    (call.program (.token id grants)).Safe (InRun states) Later (BearerAccess states bearer)
      (fun _ _ => True) s := by
  cases call with
  | zone call => exact bearer_zoneCall grants hadmitted hglobal hread call
  | notify zoneName force => exact bearer_notify grants zoneName force
  -- what is left manages credentials, which needs a global token
  | createToken _ _ _ _ _ | listTokens | deleteToken _ | createKey _ _ _ _ _ | listKeys | getKey _ | deleteKey _
  | addPolicy _ _ _ _ _ | listPolicies _ _ | removePolicy _ _ _ => trivial

end Scoped

theorem bearer_request (call : Call) : (do
    let caller ← Caller.authenticate bearer
    call.program caller : Access CallReply).Safe (InRun states) Later (BearerAccess states bearer)
      (fun _ _ => True) s := by
  have hauth : (Caller.authenticate bearer).Safe (InRun states) Later (BearerAccess states bearer)
      (AdmittedAs states bearer) s := safe_authenticate.imp (fun _ h => h) fun _ _ _ h => .stamped h.2
  refine hauth.bind fun caller s' hcaller => ?_
  cases caller with
  | global =>
      obtain ⟨id, stored, hadmitted, hglobal⟩ := hcaller
      exact (safe_call .global call).imp (fun _ h => h.1) fun _ _ _ h => .byGlobal hadmitted hglobal h
  | token id grants =>
      obtain ⟨stored, hadmitted, hglobal, hread⟩ := hcaller
      exact bearer_scopedCall grants hadmitted hglobal hread call

theorem bearer_http {required : Bool} (hrequired : required = true) (header : AuthHeader) (call : Call) : (do
    let caller ← httpCaller required header
    call.program caller : Access CallReply).Safe (InRun states) Later
      (fun s s' => ∃ bearer, bearerToken header = .ok bearer ∧ BearerAccess states bearer s s') (fun _ _ => True) s := by
  unfold httpCaller
  rw [if_pos hrequired]
  cases hbearer : bearerToken header with
  | error e => trivial
  | ok bearer => exact (bearer_request call).imp (fun _ h => h) fun _ _ _ h => ⟨bearer, rfl, h⟩

end Bearer

/-! ### Every interleaving -/

/-- The states a run went through. -/
def StatesOf (config : ServeConfig) (events : List (Event Request)) (s : Registry) : Prop :=
  ∃ before, before <+: events ∧ s = registryAfter config before

/-- An access is within what its request guarantees, where the guarantees may speak of the states of the run. -/
theorem run_guarantee {config : ServeConfig} {events : List (Event Request)} (G : Request → Registry → Registry → Prop)
    (hsafe : ∀ i s, (serve config i).Safe (InRun (StatesOf config events)) Later (G i) (fun _ _ => True) s)
    {n : ℕ} {i : Request} {q : Program Registry Empty Reply}
    (hn : (idle.run (serve config) events).tasks[n]? = some (i, q)) :
    registryAfter config (events ++ [.advance n]) = registryAfter config events ∨
      G i (registryAfter config events) (registryAfter config (events ++ [.advance n])) := by
  have hA : ∀ before, before <+: events → Integrity (idle.run (serve config) before).state ∧
      StatesOf config events (idle.run (serve config) before).state :=
    fun before hb => ⟨(run_integrity config before).1, before, hb, rfl⟩
  have hprogram : ∀ i s, (serve config i).Safe (InRun (StatesOf config events)) Later
      (fun s s' => Accessed s s' ∧ G i s s') (fun _ _ => True) s := fun i s =>
    (((safe_serve config i).imp (fun _ h => h.1) fun _ _ _ h => h).and (hsafe i s)).mono fun _ _ _ => trivial
  have hok : (idle.run (serve config) events).Ok (InRun (StatesOf config events)) Later
      (fun i s s' => Accessed s s' ∧ G i s s') (fun _ _ => True) :=
    Pool.run_ok Later.refl Later.trans (fun _ _ _ _ h => h.1.1) (fun i s _ => hprogram i s)
      (fun _ h => absurd h List.not_mem_nil) hA
  rw [registryAfter, registryAfter, Pool.run_concat]
  exact (hok.guarantee (serve config) Later.refl (hA events List.prefix_rfl) hn).imp_right (·.2)

/-- **Bearer requests in flight.**  Where authentication is required, an access of an HTTP request changes nothing but a
stamp; or it is made for a token admitted with the request's bearer text.  A global token may change anything.  A scoped
one changes only rows that its policies cover at that moment, in the row's zone, the token being there still. -/
theorem bearer_authority {config : ServeConfig} (hconfig : config.requireAuthentication = true)
    {events : List (Event Request)} {n : ℕ} {header : AuthHeader} {call : Call} {q : Program Registry Empty Reply}
    (hn : (idle.run (serve config) events).tasks[n]? = some (.http header call, q)) :
    registryAfter config (events ++ [.advance n]) = registryAfter config events ∨
      ∃ bearer, bearerToken header = .ok bearer ∧ BearerAccess (StatesOf config events) bearer
        (registryAfter config events) (registryAfter config (events ++ [.advance n])) := by
  have hsafe : ∀ i s, (serve config i).Safe (InRun (StatesOf config events)) Later
      (fun s s' => ∀ header call, i = .http header call → ∃ bearer, bearerToken header = .ok bearer ∧
        BearerAccess (StatesOf config events) bearer s s') (fun _ _ => True) s := by
    intro i s
    cases i with
    | http header call =>
        refine Program.Safe.bind (Q := fun _ _ => True) ?_ fun _ _ _ => trivial
        refine ((bearer_http hconfig header call).attempt (fun _ _ _ => trivial) fun _ _ => trivial).imp (fun _ h => h)
          fun s s' _ hg header' call' e => ?_
        cases e
        exact hg
    | socket call | update message | clock time =>
        exact (safe_serve config _).imp (fun _ h => h.1) fun _ _ _ _ _ _ e => by cases e
  exact (run_guarantee _ hsafe hn).imp_right fun h => h header call rfl

/-- A token, as it was shown when it was created. -/
def sampleRawToken : RawToken := ⟨List.replicate 32 'a', by decide, by decide⟩

/-- A request to add an address of `www` to the sample zone, with that token. -/
def sampleBearerRequest : Request :=
  .http (.text (lit "Bearer " ++ sampleRawToken.text))
    (.zone (.createRecord { sampleItem "www" "A" "192.0.2.25" with zoneName := lit "example.com" }))

/-- The zone, the token and a policy for it are created; the request comes in, and is authenticated. -/
def bearerEvents : List (Event Request) :=
  [.request (.socket (.zone (.createZone sampleZone))), .advance 0,
    .request (.socket (.createToken (lit "dev") none none false sampleRawToken))] ++ List.replicate 4 (.advance 1) ++
  [.request (.socket (.addPolicy .token (lit "example.com") (lit "dev") (some (lit "www")) (some (lit "A"))))] ++
  List.replicate 4 (.advance 2) ++ [.request sampleBearerRequest] ++ List.replicate 4 (.advance 3)

omit crates in
theorem bearer_authority_sample :
    (@registryAfter sampleUpdateCrates ⟨true, false⟩ bearerEvents).stores.map (·.records.length) = [1] ∧
      (@registryAfter sampleUpdateCrates ⟨true, false⟩ (bearerEvents ++ [.advance 3])).stores.map (·.records.length) = [2] ∧
      ∃ bearer, @BearerAccess sampleUpdateCrates (@StatesOf sampleUpdateCrates ⟨true, false⟩ bearerEvents) bearer
        (@registryAfter sampleUpdateCrates ⟨true, false⟩ bearerEvents)
        (@registryAfter sampleUpdateCrates ⟨true, false⟩ (bearerEvents ++ [.advance 3])) := by
  have hbefore : (@registryAfter sampleUpdateCrates ⟨true, false⟩ bearerEvents).stores.map (·.records.length) = [1] := by
    decide +kernel
  have hafter : (@registryAfter sampleUpdateCrates ⟨true, false⟩ (bearerEvents ++ [.advance 3])).stores.map
      (·.records.length) = [2] := by
    decide +kernel
  have htasks := Pool.tasks_run (@serve sampleUpdateCrates ⟨true, false⟩) idle bearerEvents
  have hthird : ((idle.run (@serve sampleUpdateCrates ⟨true, false⟩) bearerEvents).tasks.map Prod.fst)[3]? =
      some sampleBearerRequest := by
    rw [htasks]
    rfl
  rw [List.getElem?_map, Option.map_eq_some_iff] at hthird
  obtain ⟨⟨i, q⟩, hn, e⟩ := hthird
  change i = sampleBearerRequest at e
  subst e
  rcases @bearer_authority sampleUpdateCrates ⟨true, false⟩ rfl bearerEvents 3 _ _ q hn with h | ⟨bearer, -, h⟩
  · rw [h, hbefore] at hafter
    cases hafter
  · exact ⟨hbefore, hafter, bearer, h⟩

end Bindizr
