import Bindizr.Reachable

/-! # Scoped callers stay inside their grants

A scoped token, or a TSIG key that is not global, changes a row only where one of its policies
in the row's zone covers the row (`run_scoped`): the row as it was before the request and as
it is after.  The writes are authorized before the rows are loaded, from the request; each
record operation says which rows its log may hold (`RecordStep`), and a row that changed is
in the log (`Advances.logged`). -/

namespace Bindizr

/-- A holder of policies: a scoped token, or a TSIG key that is not global. -/
inductive Holder where
  | token (id : ℕ)
  | key (id : ℕ)
  deriving DecidableEq

/-- Whether one of the holder's policies in a zone covers a write. -/
def Holder.Granted (db : Db) (zoneId : ℕ) (w : RecordWrite) : Holder → Prop
  | .token id => Bindizr.Granted db.tokenPolicies zoneId id w
  | .key id => Bindizr.Granted db.tsigPolicies zoneId id w

/-- The scoped token a caller is. -/
def Caller.holder : Caller → Option Holder
  | .global => none
  | .token id _ => some (.token id)

/-- The TSIG key, when it is not global. -/
def TsigKey.holder (k : TsigKey) : Option Holder := if k.isGlobal then none else some (.key k.id)

/-- The scoped holder an operation acts for. -/
def Op.holder : Op → Option Holder
  | .createZone caller _ | .updateZone caller _ _ | .patchZone caller _ _ | .deleteZone caller _
  | .createRecord caller _ | .createBulk caller _ _ _ | .updateById caller _ _ _ | .patchById caller _ _ _
  | .deleteById caller _ _ | .importZoneFile caller _ _ | .applyChanges caller _ _
  | .rollback caller _ _ _ _ => caller.holder
  | .applyUpdate update => update.key.bind TsigKey.holder
  | .forceIncrementSerial _ | .setPolicies _ _ => none

theorem Caller.requireGlobal_holder {c : Caller} {holder : Holder} (h : c.holder = some holder) {action : Text} :
    c.requireGlobal action ≠ .ok () := by
  cases c with
  | global => cases h
  | token id grants => simp [Caller.requireGlobal]

theorem Caller.Permits.granted {c : Caller} {db : Db} {zoneId : ℕ} {w : RecordWrite} {holder : Holder}
    (h : c.Permits db.tokenPolicies zoneId w) (hc : c.holder = some holder) : holder.Granted db zoneId w := by
  cases c with
  | global => cases hc
  | token id grants =>
      cases hc
      exact h id grants rfl

theorem TsigPermits.granted {key : Option TsigKey} {db : Db} {zoneId : ℕ} {w : RecordWrite} {holder : Holder}
    (h : TsigPermits key db.tsigPolicies zoneId w) (hk : key.bind TsigKey.holder = some holder) :
    holder.Granted db zoneId w := by
  obtain ⟨k, rfl, hholder⟩ := Option.bind_eq_some_iff.1 hk
  unfold TsigKey.holder at hholder
  split at hholder
  · cases hholder
  · rename_i hglobal
    cases hholder
    exact h k rfl (by simpa using hglobal)

theorem RecordStep.mono {L L' : ℕ → List ZoneChange → Prop} {db db' : Db} (h : RecordStep L db db')
    (hL : ∀ zoneId cs, L zoneId cs → L' zoneId cs) : RecordStep L' db db' := by
  refine ⟨h.ok, fun st hst => (h.came st hst).imp id ?_, h.zoneIds, h.nextZoneId, h.policies⟩
  rintro ⟨st₀, hst₀, cs, ha, hz, hcs⟩
  exact ⟨st₀, hst₀, cs, ha, hz, hL _ _ hcs⟩

section Steps

variable [Crates]

/-- Every operation a scoped holder carries out is a step on records its policies cover. -/
theorem execute_scoped {db db' : Db} {op : Op} {holder : Holder} (hdb : DbOk db)
    (hop : op.holder = some holder) (h : execute db op = some db') :
    RecordStep (Within fun zoneId w => holder.Granted db zoneId w) db db' := by
  cases op with
  | createRecord caller request =>
      obtain ⟨_, h⟩ := committed_eq_some.1 h
      exact (createRecord_step hdb h).mono fun _ _ hcs c hc => (hcs c hc).granted hop
  | createBulk caller zoneName items dryRun =>
      obtain ⟨_, h⟩ := committed_eq_some.1 h
      exact (createBulk_step hdb h).mono fun _ _ hcs c hc => (hcs c hc).granted hop
  | updateById caller id zoneIdRead request =>
      obtain ⟨_, h⟩ := committed_eq_some.1 h
      exact (updateLocked_step hdb h).mono fun _ _ hcs c hc => (hcs c hc).granted hop
  | patchById caller id zoneIdRead patch =>
      obtain ⟨_, h⟩ := committed_eq_some.1 h
      exact (updateLocked_step hdb h).mono fun _ _ hcs c hc => (hcs c hc).granted hop
  | deleteById caller id zoneIdRead =>
      obtain ⟨_, h⟩ := committed_eq_some.1 h
      exact (deleteById_step hdb h).mono fun _ _ hcs c hc => (hcs c hc).granted hop
  | applyChanges caller zonesRead request =>
      obtain ⟨_, h⟩ := committed_eq_some.1 h
      exact (applyChanges_step hdb h).mono fun _ _ hcs c hc => (hcs.2 c hc).granted hop
  | applyUpdate update =>
      obtain ⟨_, h⟩ := committed_eq_some.1 h
      exact (applyUpdate_step hdb h).mono fun _ _ hcs c hc => (hcs.2 c hc).granted hop
  | forceIncrementSerial zoneName => cases hop
  | setPolicies tokenPolicies tsigPolicies => cases hop
  -- what is left manages zones, which needs a global token
  | createZone caller _ | updateZone caller _ _ | patchZone caller _ _ | deleteZone caller _
  | importZoneFile caller _ _ | rollback caller _ _ _ _ =>
      obtain ⟨_, h⟩ := committed_eq_some.1 h
      obtain ⟨_, hglobal, _⟩ := Fallible.bind_eq_ok.1 h
      exact absurd hglobal (Caller.requireGlobal_holder hop)

/-- **Scoped callers stay inside their grants.**  When the request of a scoped token, or of a
TSIG key that is not global, commits, no zone appears, disappears or changes but in its serial,
and every row that changed is, as it was and as it is, covered by one of the holder's policies
in its zone. -/
theorem run_scoped (ops : List Op) {op : Op} {holder : Holder} (hop : op.holder = some holder) {db' : Db}
    (h : execute (run ops) op = some db') :
    db'.stores.map (·.zone.id) = (run ops).stores.map (·.zone.id) ∧
      ∀ st ∈ (run ops).stores, ∀ st' ∈ db'.stores, st'.zone.id = st.zone.id →
        st'.zone = { st.zone with serial := st'.zone.serial } ∧
          ∀ r, ¬ (r ∈ st.records ↔ r ∈ st'.records) → holder.Granted (run ops) st.zone.id r.write := by
  have hdb := run_ok ops
  have hstep := execute_scoped hdb hop h
  refine ⟨hstep.zoneIds, fun st hst st' hst' hid => ?_⟩
  rcases hstep.came st' hst' with hk | ⟨st₀, hst₀, cs, ha, hz, hcs⟩
  · obtain rfl := hdb.eq_of_id_eq hk hst hid
    exact ⟨rfl, fun r hr => absurd Iff.rfl hr⟩
  · have : st₀ = st := hdb.eq_of_id_eq hst₀ hst (ha.id.symm.trans hid)
    subst this
    refine ⟨by rw [ha.serial, hz], fun r hr => ?_⟩
    obtain ⟨c, hc, e⟩ := ha.logged r hr
    have := hcs c hc
    rwa [e] at this

end Steps

/-- The sample zone, with a policy that lets one token write the addresses of one name. -/
def scopedHistory : List Op := sampleHistory ++ [.setPolicies [⟨1, 7, lit "mail", lit "A,AAAA"⟩] []]

/-- The token writes such an address. -/
def scopedRequest : Op :=
  .createRecord (.token 7 [⟨1, 7, lit "mail", lit "A,AAAA"⟩])
    { sampleItem "mail" "A" "192.0.2.25" with zoneName := lit "example.com" }

theorem run_scoped_sample :
    ∃ db', @execute sampleCrates (@run sampleCrates scopedHistory) scopedRequest = some db' ∧
      ∃ st ∈ (@run sampleCrates scopedHistory).stores, ∃ st' ∈ db'.stores, st'.zone.id = st.zone.id ∧
        ∃ r, r ∉ st.records ∧ r ∈ st'.records ∧
          (Holder.token 7).Granted (@run sampleCrates scopedHistory) st.zone.id r.write := by
  obtain ⟨db', h, st, hst, st', hst', hid, r, hr', hr⟩ : ∃ db' ∈ @execute sampleCrates
      (@run sampleCrates scopedHistory) scopedRequest, ∃ st ∈ (@run sampleCrates scopedHistory).stores,
        ∃ st' ∈ db'.stores, st'.zone.id = st.zone.id ∧ ∃ r ∈ st'.records, r ∉ st.records := by
    decide +kernel
  refine ⟨db', h, st, hst, st', hst', hid, r, hr, hr', ?_⟩
  exact ((@run_scoped sampleCrates scopedHistory scopedRequest (.token 7) rfl db' h).2 st hst st' hst' hid).2 r
    fun e => hr (e.2 hr')

end Bindizr
