import Bindizr.Mailbox
import Bindizr.RowLimits

/-! # The SOA fields of zones

The row of a zone, and each of its snapshots, holds the fields of its SOA.  An operation leaves them, sets them from a
request that was validated, or takes them from a snapshot (`Ran.row`).  So after every history the administrator's
address is one that was accepted, and the numbers of seconds fit their columns (`run_soaOk`). -/

namespace Bindizr

/-- The numbers of seconds in a zone's row. -/
def Zone.seconds (z : Zone) : List ℤ := [z.ttl, z.refresh, z.retry, z.expire, z.minimumTtl]

@[inherit_doc Zone.seconds]
def ZoneSnapshot.seconds (sn : ZoneSnapshot) : List ℤ := [sn.ttl, sn.refresh, sn.retry, sn.expire, sn.minimumTtl]

/-- The SOA fields of a zone's row. -/
structure Zone.SoaOk (z : Zone) : Prop where
  email : ∃ a : AdminEmail, a.email = z.adminEmail
  seconds : ∀ n ∈ z.seconds, TtlOk n

structure ZoneSnapshot.SoaOk (sn : ZoneSnapshot) : Prop where
  mailbox : ∃ a : AdminEmail, soaMailboxFromEmail a.email = .ok sn.adminEmail
  seconds : ∀ n ∈ sn.seconds, TtlOk n

theorem Zone.SoaOk.snapshot {z : Zone} (h : z.SoaOk) {sn : ZoneSnapshot} (hsn : z.snapshot = .ok sn) : sn.SoaOk := by
  obtain ⟨a, ha⟩ := h.email
  obtain ⟨mailbox, hmailbox, e⟩ := Fallible.bind_eq_ok.1 hsn
  cases e
  exact ⟨⟨a, by rw [ha]; exact hmailbox⟩, h.seconds⟩

/-! ### Requests -/

def CreateZoneRequest.intervals (request : CreateZoneRequest) : List ℤ :=
  request.refresh.toList ++ request.retry.toList ++ request.expire.toList ++ request.minimumTtl.toList

/-- What the types of the source say of the intervals an operation asks for: they are `i32`s. -/
def Op.IntervalsTyped : Op → Prop
  | .createZone _ request | .updateZone _ _ request => ∀ n ∈ request.intervals, n ≤ i32Max
  | .patchZone _ _ patch =>
      ∀ n ∈ patch.refresh.toList ++ patch.retry.toList ++ patch.expire.toList ++ patch.minimumTtl.toList, n ≤ i32Max
  | _ => True

theorem Op.IntervalsTyped.build {op : Op} (h : op.IntervalsTyped) {zoneName : Text} {build : Zone → CreateZoneRequest}
    (hbuild : op.build = some (zoneName, build)) (z : Zone) : ∀ n ∈ (build z).intervals, n ≤ i32Max := by
  cases op <;> cases hbuild <;> exact h

theorem resolveSoaInterval_ttlOk {value : Option ℤ} {fallback n : ℤ} {field : Text} (hvalue : ∀ v ∈ value, v ≤ i32Max)
    (hfallback : TtlOk fallback) (h : resolveSoaInterval value fallback field = .ok n) : TtlOk n := by
  unfold resolveSoaInterval at h
  split at h
  · cases h
  · rename_i hpos
    cases h
    refine ⟨by omega, ?_⟩
    cases value with
    | none => exact hfallback.2
    | some v => exact hvalue v rfl

theorem resolveSoaTimers_ttlOk {request : CreateZoneRequest} {fallback timers : ResolvedSoaTimers}
    (hrequest : ∀ n ∈ request.intervals, n ≤ i32Max)
    (hfallback : ∀ n ∈ [fallback.refresh, fallback.retry, fallback.expire, fallback.minimumTtl], TtlOk n)
    (h : resolveSoaTimers request fallback = .ok timers) :
    ∀ n ∈ [timers.refresh, timers.retry, timers.expire, timers.minimumTtl], TtlOk n := by
  simp only [CreateZoneRequest.intervals, List.forall_mem_append, Option.mem_toList] at hrequest
  simp only [List.forall_mem_cons] at hfallback
  obtain ⟨⟨⟨hrefresh, hretry⟩, hexpire⟩, hminimum⟩ := hrequest
  obtain ⟨frefresh, fretry, fexpire, fminimum, -⟩ := hfallback
  obtain ⟨refresh, h1, h⟩ := Fallible.bind_eq_ok.1 h
  obtain ⟨retry, h2, h⟩ := Fallible.bind_eq_ok.1 h
  obtain ⟨expire, h3, h⟩ := Fallible.bind_eq_ok.1 h
  obtain ⟨minimum, h4, h⟩ := Fallible.bind_eq_ok.1 h
  cases h
  simp only [List.forall_mem_cons]
  exact ⟨resolveSoaInterval_ttlOk hrefresh frefresh h1, resolveSoaInterval_ttlOk hretry fretry h2,
    resolveSoaInterval_ttlOk hexpire fexpire h3, resolveSoaInterval_ttlOk hminimum fminimum h4, by simp⟩

theorem soaOk_of_request {request : CreateZoneRequest} {v : ValidatedCreateZoneRequest} {fallback timers : ResolvedSoaTimers}
    (hv : validateCreateZoneRequest request = .ok v) (hrequest : ∀ n ∈ request.intervals, n ≤ i32Max)
    (hfallback : ∀ n ∈ [fallback.refresh, fallback.retry, fallback.expire, fallback.minimumTtl], TtlOk n)
    (h : resolveSoaTimers request fallback = .ok timers) (id : ℕ) (serial : ℤ) :
    Zone.SoaOk ⟨id, v.name, v.primaryNs, v.adminEmail, v.ttl, serial, timers.refresh, timers.retry, timers.expire,
      timers.minimumTtl⟩ := by
  obtain ⟨a, _, ha⟩ := validateCreateZoneRequest_adminEmail hv
  exact ⟨⟨a, ha⟩, List.forall_mem_cons.2 ⟨validateCreateZoneRequest_ttl hv, resolveSoaTimers_ttlOk hrequest hfallback h⟩⟩

/-! ### Histories -/

section Histories

variable [Crates] {db db' : Db} {op : Op} {tx tx' : Tx}

/-- What a transaction may do to the row of its zone. -/
inductive RowMoves (op : Op) (st : ZoneStore) (zone : Zone) : Prop
  | serial (n : ℤ) : zone = { st.zone with serial := n } → RowMoves op st zone
  | updated {zoneName : Text} {build : Zone → CreateZoneRequest} {v : ValidatedCreateZoneRequest} {timers : ResolvedSoaTimers}
      (n : ℤ) : op.build = some (zoneName, build) → validateCreateZoneRequest (build st.zone) = .ok v →
      resolveSoaTimers (build st.zone) ⟨st.zone.refresh, st.zone.retry, st.zone.expire, st.zone.minimumTtl⟩ = .ok timers →
      zone = ⟨st.zone.id, v.name, v.primaryNs, v.adminEmail, v.ttl, n, timers.refresh, timers.retry, timers.expire,
        timers.minimumTtl⟩ → RowMoves op st zone
  | restored {sn : ZoneSnapshot} {email : Text} (n : ℤ) : sn ∈ st.snapshots → soaMailboxToEmail sn.adminEmail = .ok email →
      zone = ⟨st.zone.id, st.zone.name, sn.primaryNs, email, sn.ttl, n, sn.refresh, sn.retry, sn.expire, sn.minimumTtl⟩ →
      RowMoves op st zone

theorem Ran.row (hok : TxOk tx) (h : Ran db op tx tx') : RowMoves op tx.store tx'.store.zone := by
  have hrecords : ∀ {cs : List ZoneChange}, CommitsRecords cs tx tx' → RowMoves op tx.store tx'.store.zone :=
    fun hc => .serial _ hc.zone
  have hsame : tx' = tx → RowMoves op tx.store tx'.store.zone := fun e => .serial tx.store.zone.serial (by rw [e])
  cases h with
  | zone hbuild hzone h =>
      obtain ⟨v, timers, n, hv, htimers, e⟩ := updateZoneTx_zone hok h
      exact .updated n hbuild hv htimers e
  | forceIncrementSerial e h => exact hrecords (forceIncrementSerialTx_commits hok h)
  | createRecord e hp h =>
      obtain ⟨cs, hc, _⟩ := createRecordTx_commits hok h
      exact hrecords hc
  | createBulk e hp h =>
      rcases createBulkTx_commits hok h with ⟨_, e⟩ | ⟨_, cs, hc, _⟩
      · exact hsame e
      · exact hrecords hc
  | updateById e h =>
      obtain ⟨_, cs, hc, _⟩ := updateLockedTx_commits hok h
      exact hrecords hc
  | patchById e h =>
      obtain ⟨_, cs, hc, _⟩ := updateLockedTx_commits hok h
      exact hrecords hc
  | deleteById e h =>
      obtain ⟨_, cs, hc, _⟩ := deleteByIdTx_commits hok h
      exact hrecords hc
  | importZoneFile e h =>
      rcases importTx_commits hok h with e | ⟨_, cs, _, hc⟩
      · exact hsame e
      · exact hrecords hc
  | applyUpdate e _ h =>
      rcases applyUpdateTx_commits hok h with ⟨_, e⟩ | ⟨_, cs, _, hc, _⟩
      · exact hsame e
      · exact hrecords hc
  | applyChanges e hpending hgrouped hops h =>
      have hsup := (groupOpsByZone_ok (convertRequest_supported hpending) hgrouped).2 _ hops
      rcases applyZoneOpsTx_commits hok hsup h with ⟨e, _⟩ | ⟨_, _, hc, _⟩
      · exact hsame e
      · exact hrecords hc
  | rollback e hzone h =>
      rcases rollbackTx_zone h with e | ⟨sn, hsn, email, n, hemail, e⟩
      · exact hsame e
      · exact .restored n hsn hemail e

/-- The SOA fields of a zone and of its snapshots. -/
def ZoneStore.SoaOk (st : ZoneStore) : Prop := st.zone.SoaOk ∧ ∀ sn ∈ st.snapshots, sn.SoaOk

omit [Crates] in
theorem RowMoves.soaOk {st : ZoneStore} {zone : Zone} (h : RowMoves op st zone) (hop : op.IntervalsTyped) (hst : st.SoaOk) :
    zone.SoaOk := by
  cases h with
  | serial n e =>
      subst e
      exact ⟨hst.1.email, hst.1.seconds⟩
  | updated n hbuild hv htimers e =>
      subst e
      exact soaOk_of_request hv (hop.build hbuild _) (List.forall_mem_cons.1 hst.1.seconds).2 htimers _ _
  | restored n hsn hemail e =>
      subst e
      obtain ⟨a, ha⟩ := (hst.2 _ hsn).mailbox
      rw [a.toEmail ha, Except.ok.injEq] at hemail
      exact ⟨⟨a, hemail⟩, (hst.2 _ hsn).seconds⟩

theorem execute_soaOk (hdb : DbOk db) (hok : ∀ st ∈ db.stores, st.SoaOk) (hop : op.IntervalsTyped)
    (h : execute db op = some db') : ∀ st ∈ db'.stores, st.SoaOk := by
  intro st' hst'
  have hrow : st'.zone.SoaOk := by
    cases execute_cameBy hdb h st' hst' with
    | kept hst => exact (hok st' hst).1
    | created e hcreate hc =>
        subst e
        obtain ⟨v, timers, serial, hv, htimers, _, hzone⟩ := hc.zone_eq hcreate
        rw [hzone]
        refine soaOk_of_request hv hop ?_ htimers _ _
        simp [defaultTimers, TtlOk, i32Max]
    | ran tx tx' hst htx hran e =>
        subst e
        exact (hran.row htx).soaOk hop (hok _ hst)
  refine ⟨hrow, fun sn hsn => ?_⟩
  rcases mem_snapshots_of_execute hdb h hst' hsn with ⟨st, hst, hsn⟩ | hsn
  · exact (hok st hst).2 sn hsn
  · exact hrow.snapshot hsn

/-- **SOA fields.**  After every history of operations that ask for intervals of the columns' type, every zone and every
snapshot holds the mailbox of an accepted address, and numbers of seconds that fit. -/
theorem run_soaOk {ops : List Op} (hops : ∀ op ∈ ops, op.IntervalsTyped) : ∀ st ∈ (run ops).stores, st.SoaOk := by
  refine run_invariant_where (I := fun db => ∀ st ∈ db.stores, st.SoaOk) (C := fun _ op => op.IntervalsTyped)
    (by simp [Db.empty]) (fun pre op db' hok hC h => execute_soaOk (run_ok pre) hok hC h) fun pre op hpre _ => ?_
  exact hops op (hpre.subset (by simp))

end Histories

end Bindizr
