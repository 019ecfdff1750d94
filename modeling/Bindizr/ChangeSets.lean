import Bindizr.Reachable

/-! # ExternalDNS change sets as sets

`computeZoneChangeSet` scans growing lists, and whether it cancels a deletion or skips a
creation depends on what came before.  What it computes does not: among the rows it leaves, a
resource record is present exactly when some addition lists it, or it was there and no deletion
lists it (`computeZoneChangeSet_semantics`), and on those rows the same operations compute
nothing at all.

The additions are folded one value at a time.  What one value does is said once, in terms of
keys (`createValue_cases`); the invariants of the fold (`Resolved`, `Settled`) follow from it. -/

namespace Bindizr

/-! ### Listed values -/

/-- The key of the resource record an operation lists with one of its values. -/
def ZoneRrsetOp.key (op : ZoneRrsetOp) (value : Text) : OwnerName × RecordType × Text :=
  (op.name, op.recordType, op.recordType.canonicalValue value none)

/-- The operations with their values, one by one, in the order of the loops. -/
def listed (ops : List ZoneRrsetOp) : List (ZoneRrsetOp × Text) :=
  ops.flatMap fun op => op.values.map fun v => (op, v)

def listedKeys (ops : List ZoneRrsetOp) : List (OwnerName × RecordType × Text) :=
  (listed ops).map fun p => p.1.key p.2

theorem mem_listed {ops : List ZoneRrsetOp} {p : ZoneRrsetOp × Text} :
    p ∈ listed ops ↔ p.1 ∈ ops ∧ p.2 ∈ p.1.values := by
  simp only [listed, List.mem_flatMap, List.mem_map]
  constructor
  · rintro ⟨op, hop, v, hv, rfl⟩
    exact ⟨hop, hv⟩
  · rintro ⟨hop, hv⟩
    exact ⟨p.1, hop, p.2, hv, rfl⟩

/-- A row whose canonical rdata does not depend on a priority, as the managed types have them. -/
def RecordData.Plain (r : RecordData) : Prop := r.recordType ∈ externalDnsRecordTypes → r.priority = none

theorem RowOk.plain {r : RecordData} (h : RowOk r) : r.Plain := by
  intro ht
  have hv := h.value
  have hprio : r.recordType.takesPriority = false := by
    simp only [externalDnsRecordTypes, List.mem_cons, List.not_mem_nil, or_false] at ht
    rcases ht with e | e | e | e <;> rw [e] <;> rfl
  unfold RecordType.validateValue at hv
  split at hv
  · cases hv
  · rename_i hp
    simpa [hprio] using hp

theorem ZoneRrsetOp.holds_iff_key {op : ZoneRrsetOp} {value : Text} {r : RecordData}
    (hop : op.recordType ∈ externalDnsRecordTypes) (hr : r.Plain) :
    op.holds value r = true ↔ r.key = op.key value := by
  simp only [ZoneRrsetOp.holds, RecordType.valuesEqual, RecordData.key, ZoneRrsetOp.key,
    RecordData.canonical, Bool.and_eq_true, beq_iff_eq, Prod.mk.injEq, and_assoc]
  refine and_congr_right fun _ => and_congr_right fun ht => ?_
  rw [← ht] at hop
  rw [hr hop, ht]

/-! ### Deletions -/

section Resolve

variable {zone : Zone} {existing : List Record} {ops : ZoneOps}

/-- The rows a change set is computed from. -/
structure Given (existing : List Record) : Prop where
  ids : (existing.map (·.id)).Nodup
  rows : Acceptable ↑(existing.map (·.toRecordData))

theorem Given.plain (h : Given existing) {r : Record} (hr : r ∈ existing) : r.Plain :=
  ((acceptable_coe.1 h.rows).1 _ (List.mem_map_of_mem hr)).plain

theorem mem_deleteValue (h : Given existing) {del : ZoneRrsetOp} {deletes : List Record} {value : Text}
    (hsub : ∀ r ∈ deletes, r ∈ existing) {r : Record} :
    r ∈ deleteValue existing del deletes value ↔
      r ∈ deletes ∨ (r ∈ existing ∧ del.holds value r.toRecordData = true) := by
  unfold deleteValue
  have hpart : ∀ part : List Record, (∀ r ∈ part, r ∈ existing) → ∀ acc : List Record,
      (∀ r ∈ acc, r ∈ existing) →
      (r ∈ part.foldl (fun deletes row => if del.holds value row.toRecordData &&
          !deletes.any (·.id == row.id) then deletes ++ [row] else deletes) acc ↔
        r ∈ acc ∨ (r ∈ part ∧ del.holds value r.toRecordData = true)) := by
    intro part
    induction part with
    | nil => simp
    | cons row part ih =>
        intro hp acc hacc
        have hrow := hp row List.mem_cons_self
        rw [List.foldl_cons, ih fun r hr => hp r (List.mem_cons_of_mem _ hr)]
        · split
          · rename_i hcond
            simp only [Bool.and_eq_true] at hcond
            simp only [List.mem_append, List.mem_cons, List.not_mem_nil, or_false]
            constructor
            · rintro ((hr | rfl) | hr)
              · exact .inl hr
              · exact .inr ⟨.inl rfl, hcond.1⟩
              · exact .inr ⟨.inr hr.1, hr.2⟩
            · rintro (hr | ⟨rfl | hr, hh⟩)
              · exact .inl (.inl hr)
              · exact .inl (.inr rfl)
              · exact .inr ⟨hr, hh⟩
          · rename_i hcond
            simp only [List.mem_cons]
            constructor
            · rintro (hr | hr)
              · exact .inl hr
              · exact .inr ⟨.inr hr.1, hr.2⟩
            · rintro (hr | ⟨rfl | hr, hh⟩)
              · exact .inl hr
              · -- the row holds the value, so the condition failed because it was taken before
                have hany : acc.any (·.id == r.id) = true := by simpa [hh] using hcond
                obtain ⟨s, hs, e⟩ := List.any_eq_true.1 hany
                rw [beq_iff_eq] at e
                exact .inl (eq_of_id_eq h.ids (hacc s hs) hrow e ▸ hs)
              · exact .inr ⟨hr, hh⟩
        · intro r hr
          split at hr
          · rcases List.mem_append.1 hr with hr | hr
            · exact hacc r hr
            · exact List.mem_singleton.1 hr ▸ hrow
          · exact hacc r hr
  exact hpart existing (fun _ hr => hr) deletes hsub

theorem mem_computeDeletes (h : Given existing) {dels : List ZoneRrsetOp}
    (hsup : ∀ op ∈ dels, op.recordType ∈ externalDnsRecordTypes) {r : Record} :
    r ∈ computeDeletes existing dels ↔ r ∈ existing ∧ r.key ∈ listedKeys dels := by
  have hfold : computeDeletes existing dels =
      (listed dels).foldl (fun deletes p => deleteValue existing p.1 deletes p.2) [] := by
    simp [computeDeletes, listed, List.foldl_flatMap, List.foldl_map]
  have hmem : ∀ p ∈ listed dels, p.1.recordType ∈ externalDnsRecordTypes := fun p hp => hsup _ (mem_listed.1 hp).1
  rw [hfold, listedKeys]
  generalize listed dels = ps at hmem
  -- every deletion taken so far is one of the rows, and one the values so far list
  induction ps using List.reverseRecOn generalizing r with
  | nil => simp
  | append_singleton ps p ih =>
      have ih (r : Record) : _ ↔ _ := @ih r fun q hq => hmem q (by simp [hq])
      rw [List.foldl_append, List.foldl_cons, List.foldl_nil,
        mem_deleteValue h fun r hr => ((ih r).1 hr).1, ih r, List.map_append, List.mem_append, List.map_singleton,
        List.mem_singleton]
      constructor
      · rintro (⟨hr, hk⟩ | ⟨hr, hh⟩)
        · exact ⟨hr, .inl hk⟩
        · exact ⟨hr, .inr ((ZoneRrsetOp.holds_iff_key (hmem p (by simp)) (h.plain hr)).1 hh)⟩
      · rintro ⟨hr, hk | hk⟩
        · exact .inl ⟨hr, hk⟩
        · exact .inr ⟨hr, (ZoneRrsetOp.holds_iff_key (hmem p (by simp)) (h.plain hr)).2 hk⟩

/-! ### One value of one addition -/

/-- The row an addition creates for one of its values. -/
def newRow (zone : Zone) (p : ZoneRrsetOp × Text) : RecordData :=
  ⟨p.1.name, p.1.recordType, p.2, p.1.ttl.getD zone.ttl, none⟩

/-- A row that is the record an addition lists with one of its values, TTL included. -/
def Same (zone : Zone) (p : ZoneRrsetOp × Text) (r : RecordData) : Prop :=
  r.key = p.1.key p.2 ∧ r.ttl = p.1.ttl.getD zone.ttl

theorem same_newRow (zone : Zone) (p : ZoneRrsetOp × Text) : Same zone p (newRow zone p) := ⟨rfl, rfl⟩

/-- A change set under construction. -/
structure Sound (existing : List Record) (cs : ZoneChangeSet) : Prop where
  deletes : ∀ r ∈ cs.deletes, r ∈ existing
  nodup : cs.deletes.Nodup
  creates : ∀ c ∈ cs.creates, c.Plain

/-- What one value does: it takes back the one deletion of its record, or finds a row that stays
or an earlier creation, or creates its row. -/
inductive CreateCase (zone : Zone) (existing : List Record) (p : ZoneRrsetOp × Text)
    (cs cs' : ZoneChangeSet) : Prop
  | cancels (d : Record) : d ∈ cs.deletes → Same zone p d.toRecordData →
      (∀ r, r ∈ cs'.deletes ↔ r ∈ cs.deletes ∧ r ≠ d) → cs'.deletes.Nodup → cs'.creates = cs.creates →
      CreateCase zone existing p cs cs'
  | stays (r : Record) : (∀ d ∈ cs.deletes, ¬ Same zone p d.toRecordData) → r ∈ existing → r ∉ cs.deletes →
      r.key = p.1.key p.2 → cs' = cs → CreateCase zone existing p cs cs'
  | repeats (c : RecordData) : (∀ d ∈ cs.deletes, ¬ Same zone p d.toRecordData) → c ∈ cs.creates →
      Same zone p c → cs' = cs → CreateCase zone existing p cs cs'
  | creates : (∀ d ∈ cs.deletes, ¬ Same zone p d.toRecordData) →
      (∀ r ∈ existing, r.key = p.1.key p.2 → r ∈ cs.deletes) →
      cs' = { cs with creates := cs.creates ++ [newRow zone p] } → CreateCase zone existing p cs cs'

theorem createValue_cases (h : Given existing) {cs : ZoneChangeSet} (hcs : Sound existing cs)
    {p : ZoneRrsetOp × Text} (hp : p.1.recordType ∈ externalDnsRecordTypes) :
    CreateCase zone existing p cs (createValue zone existing p.1 cs p.2) := by
  have hsame : ∀ r : RecordData, r.Plain →
      ((p.1.holds p.2 r && r.ttl == p.1.ttl.getD zone.ttl) = true ↔ Same zone p r) := by
    intro r hr
    rw [Bool.and_eq_true, ZoneRrsetOp.holds_iff_key hp hr, beq_iff_eq, Same]
  have hplain : ∀ d ∈ cs.deletes, d.Plain := fun d hd => h.plain (hcs.deletes d hd)
  unfold createValue
  simp only
  split
  · rename_i hany
    obtain ⟨d, hd, hds⟩ := List.any_eq_true.1 hany
    have hdsame := (hsame _ (hplain d hd)).1 hds
    -- only one row has the key, so erasing the first match erases exactly that row
    refine .cancels d hd hdsame (fun r => ?_) (hcs.nodup.sublist List.eraseP_sublist) rfl
    obtain ⟨a, l₁, l₂, hnot, ha, el, ee⟩ := List.exists_of_eraseP
      (p := fun r : Record => p.1.holds p.2 r.toRecordData && r.ttl == p.1.ttl.getD zone.ttl) hd hds
    have hmem : a ∈ cs.deletes := by rw [el]; simp
    have hasame := (hsame _ (hplain a hmem)).1 ha
    obtain rfl : a = d :=
      h.rows.eq_of_key_eq (hcs.deletes a hmem) (hcs.deletes d hd) (hasame.1.trans hdsame.1.symm)
    have hnd := hcs.nodup
    rw [el, List.nodup_append, List.nodup_cons] at hnd
    rw [ee, el]
    simp only [List.mem_append, List.mem_cons]
    constructor
    · rintro (hr | hr)
      · exact ⟨.inl hr, fun e => hnd.2.2 r hr a (by simp) e⟩
      · exact ⟨.inr (.inr hr), fun e => hnd.2.1.1 (e ▸ hr)⟩
    · rintro ⟨hr | hr | hr, hne⟩
      · exact .inl hr
      · exact absurd hr hne
      · exact .inr hr
  rename_i hnone
  have hno : ∀ d ∈ cs.deletes, ¬ Same zone p d.toRecordData := fun d hd hs =>
    hnone (List.any_eq_true.2 ⟨d, hd, (hsame _ (hplain d hd)).2 hs⟩)
  have hout : ∀ r ∈ existing, (cs.deletes.all fun d => d.id != r.id) = true ↔ r ∉ cs.deletes := by
    intro r hr
    simp only [List.all_eq_true, bne_iff_ne, ne_eq]
    constructor
    · exact fun hall hd => hall r hd rfl
    · exact fun hr' d hd e => hr' (eq_of_id_eq h.ids (hcs.deletes d hd) hr e ▸ hd)
  split
  · rename_i hany
    obtain ⟨r, hr, hrs⟩ := List.any_eq_true.1 hany
    rw [Bool.and_eq_true, hout r hr, ZoneRrsetOp.holds_iff_key hp (h.plain hr)] at hrs
    exact .stays r hno hr hrs.1 hrs.2 rfl
  rename_i hstay
  split
  · rename_i hany
    obtain ⟨c, hc, hcsame⟩ := List.any_eq_true.1 hany
    exact .repeats c hno hc ((hsame c (hcs.creates c hc)).1 hcsame) rfl
  · refine .creates hno (fun r hr hk => ?_) rfl
    by_contra hrd
    refine hstay (List.any_eq_true.2 ⟨r, hr, ?_⟩)
    rw [Bool.and_eq_true, hout r hr, ZoneRrsetOp.holds_iff_key hp (h.plain hr)]
    exact ⟨hrd, hk⟩

theorem CreateCase.sound {p : ZoneRrsetOp × Text} {cs cs' : ZoneChangeSet} (hcs : Sound existing cs)
    (h : CreateCase zone existing p cs cs') : Sound existing cs' := by
  cases h with
  | cancels d hd hs hmem hnd hc =>
      exact ⟨fun r hr => hcs.deletes r ((hmem r).1 hr).1, hnd, by rw [hc]; exact hcs.creates⟩
  | stays r _ _ _ _ e =>
      exact e ▸ hcs
  | repeats c _ _ _ e =>
      exact e ▸ hcs
  | creates _ _ e =>
      subst e
      refine ⟨hcs.deletes, hcs.nodup, fun c hc => ?_⟩
      rcases List.mem_append.1 hc with hc | hc
      · exact hcs.creates c hc
      · obtain rfl := List.mem_singleton.1 hc
        exact fun _ => rfl

/-! ### All additions -/

/-- Where the fold over the additions stands after the values `ps`, for deletions of the keys
`gone`.  The first value of a key that is deleted decides the TTL of its record. -/
structure Resolved (zone : Zone) (existing : List Record) (gone : List (OwnerName × RecordType × Text))
    (ps : List (ZoneRrsetOp × Text)) (cs : ZoneChangeSet) : Prop where
  sound : Sound existing cs
  deletes : ∀ r, r ∈ cs.deletes ↔
    r ∈ existing ∧ r.key ∈ gone ∧ ∀ p ∈ ps, ¬ Same zone p r.toRecordData
  creates : ∀ c ∈ cs.creates, ∃ p ∈ ps, c = newRow zone p
  present : ∀ p ∈ ps, (∃ r ∈ existing, r ∉ cs.deletes ∧ r.key = p.1.key p.2) ∨
    ∃ c ∈ cs.creates, c.key = p.1.key p.2
  first : ∀ k ∈ gone, ∀ p, ps.find? (fun q => q.1.key q.2 = k) = some p →
    (∃ r ∈ existing, r ∉ cs.deletes ∧ Same zone p r.toRecordData) ∨ ∃ c ∈ cs.creates, Same zone p c

theorem Resolved.step {gone : List (OwnerName × RecordType × Text)} {ps : List (ZoneRrsetOp × Text)}
    {p : ZoneRrsetOp × Text} {cs cs' : ZoneChangeSet} (hrows : Given existing)
    (h : Resolved zone existing gone ps cs) (hcase : CreateCase zone existing p cs cs') :
    Resolved zone existing gone (ps ++ [p]) cs' := by
  -- nothing that was present goes away
  have hkeep : (∀ r, r ∈ cs'.deletes → r ∈ cs.deletes) ∧ ∀ c ∈ cs.creates, c ∈ cs'.creates := by
    cases hcase with
    | cancels d _ _ hmem _ hc => exact ⟨fun r hr => ((hmem r).1 hr).1, fun c hcc => by rwa [hc]⟩
    | stays r _ _ _ _ e => exact e ▸ ⟨fun _ hr => hr, fun _ hc => hc⟩
    | repeats c _ _ _ e => exact e ▸ ⟨fun _ hr => hr, fun _ hc => hc⟩
    | creates _ _ e => exact e ▸ ⟨fun _ hr => hr, fun c hc => by simp [hc]⟩
  have hdeletes : ∀ r, r ∈ cs'.deletes ↔ r ∈ cs.deletes ∧ ¬ Same zone p r.toRecordData := by
    intro r
    cases hcase with
    | cancels d hd hs hmem _ _ =>
        rw [hmem r]
        refine and_congr_right fun hr => not_congr ⟨fun e => e ▸ hs, fun hr' => ?_⟩
        exact hrows.rows.eq_of_key_eq (h.sound.deletes r hr) (h.sound.deletes d hd) (hr'.1.trans hs.1.symm)
    | stays s hno _ _ _ e =>
        subst e
        exact ⟨fun hr => ⟨hr, hno r hr⟩, fun hr => hr.1⟩
    | repeats c hno _ _ e =>
        subst e
        exact ⟨fun hr => ⟨hr, hno r hr⟩, fun hr => hr.1⟩
    | creates hno _ e =>
        subst e
        exact ⟨fun hr => ⟨hr, hno r hr⟩, fun hr => hr.1⟩
  refine ⟨hcase.sound h.sound, fun r => ?_, fun c hc => ?_, fun q hq => ?_, ?_⟩
  · rw [hdeletes, h.deletes]
    simp only [List.mem_append, List.mem_singleton, or_imp, forall_and, forall_eq, and_assoc]
  · cases hcase with
    | cancels d _ _ _ _ e =>
        obtain ⟨q, hq, e⟩ := h.creates c (e ▸ hc)
        exact ⟨q, by simp [hq], e⟩
    | stays r _ _ _ _ e =>
        obtain ⟨q, hq, e⟩ := h.creates c (e ▸ hc)
        exact ⟨q, by simp [hq], e⟩
    | repeats r _ _ _ e =>
        obtain ⟨q, hq, e⟩ := h.creates c (e ▸ hc)
        exact ⟨q, by simp [hq], e⟩
    | creates _ _ e =>
        subst e
        rcases List.mem_append.1 hc with hc | hc
        · obtain ⟨q, hq, e⟩ := h.creates c hc
          exact ⟨q, by simp [hq], e⟩
        · exact ⟨p, by simp, List.mem_singleton.1 hc⟩
  · rcases List.mem_append.1 hq with hq | hq
    · rcases h.present q hq with ⟨r, hr, hrd, hk⟩ | ⟨c, hc, hk⟩
      · exact .inl ⟨r, hr, fun hrd' => hrd (hkeep.1 r hrd'), hk⟩
      · exact .inr ⟨c, hkeep.2 c hc, hk⟩
    · obtain rfl := List.mem_singleton.1 hq
      cases hcase with
      | cancels d hd hs _ _ _ =>
          exact .inl ⟨d, h.sound.deletes d hd, fun hd' => ((hdeletes d).1 hd').2 hs, hs.1⟩
      | stays r _ hr hrd hk e => exact .inl ⟨r, hr, fun hrd' => hrd (hkeep.1 r hrd'), hk⟩
      | repeats c _ hc hs _ => exact .inr ⟨c, hkeep.2 c hc, hs.1⟩
      | creates _ _ e => exact .inr ⟨newRow zone q, by simp [e], rfl⟩
  · intro k hk q hq
    rw [List.find?_append] at hq
    cases hfirst : ps.find? (fun q => q.1.key q.2 = k) with
    | some q' =>
        rw [hfirst, Option.some_or, Option.some.injEq] at hq
        subst hq
        rcases h.first k hk q' hfirst with ⟨r, hr, hrd, hs⟩ | ⟨c, hc, hs⟩
        · exact .inl ⟨r, hr, fun hrd' => hrd (hkeep.1 r hrd'), hs⟩
        · exact .inr ⟨c, hkeep.2 c hc, hs⟩
    | none =>
        -- the value just processed is the first of its key
        rw [hfirst, Option.none_or] at hq
        have hkey : q.1.key q.2 = k := by simpa using List.find?_some hq
        obtain rfl : q = p := by simpa using List.mem_of_find?_eq_some hq
        cases hcase with
        | cancels d hd hs _ _ _ =>
            exact .inl ⟨d, h.sound.deletes d hd, fun hd' => ((hdeletes d).1 hd').2 hs, hs⟩
        | stays r _ hr hrd hrk e =>
            refine absurd ((h.deletes r).2 ⟨hr, by rwa [hrk, hkey], fun o ho hs => ?_⟩) hrd
            have := List.find?_eq_none.1 hfirst o ho
            simp [← hs.1, hrk, hkey] at this
        | repeats c _ hc hs _ => exact .inr ⟨c, hkeep.2 c hc, hs⟩
        | creates _ _ e => exact .inr ⟨newRow zone q, by simp [e], same_newRow zone q⟩

theorem computeCreates_eq_foldl (zone : Zone) (existing : List Record) (adds : List ZoneRrsetOp)
    (deletes : List Record) : computeCreates zone existing adds deletes =
      (listed adds).foldl (fun cs p => createValue zone existing p.1 cs p.2) ⟨deletes, []⟩ := by
  simp [computeCreates, listed, List.foldl_flatMap, List.foldl_map]

theorem computeCreates_resolved (h : Given existing) (hsup : ops.Supported) :
    Resolved zone existing (listedKeys ops.dels) (listed ops.adds)
      (computeCreates zone existing ops.adds (computeDeletes existing ops.dels)) := by
  have hdels : ∀ op ∈ ops.dels, op.recordType ∈ externalDnsRecordTypes := fun op hop => hsup op (by simp [hop])
  have hmem : ∀ p ∈ listed ops.adds, p.1.recordType ∈ externalDnsRecordTypes := fun p hp =>
    hsup _ (by simp [(mem_listed.1 hp).1])
  rw [computeCreates_eq_foldl]
  generalize listed ops.adds = ps at hmem
  induction ps using List.reverseRecOn with
  | nil =>
      refine ⟨⟨fun r hr => ((mem_computeDeletes h hdels).1 hr).1, (computeDeletes_ok _ _).2, by simp⟩,
        fun r => ?_, by simp, by simp, fun _ _ p hp => by simp at hp⟩
      simpa using mem_computeDeletes h hdels
  | append_singleton ps p ih =>
      have ih := ih fun q hq => hmem q (by simp [hq])
      rw [List.foldl_append, List.foldl_cons, List.foldl_nil]
      exact ih.step h (createValue_cases h ih.sound (hmem p (by simp)))

/-! ### The same operations again -/

/-- Where the fold stands after the values `ps` when every record the additions list is there:
nothing is created, and the deletions left are those of records no value has listed yet. -/
structure Settled (existing : List Record) (gone : List (OwnerName × RecordType × Text))
    (ps : List (ZoneRrsetOp × Text)) (cs : ZoneChangeSet) : Prop where
  sound : Sound existing cs
  deletes : ∀ r, r ∈ cs.deletes ↔ r ∈ existing ∧ r.key ∈ gone ∧ ∀ p ∈ ps, p.1.key p.2 ≠ r.key
  creates : cs.creates = []

/-- One more value, of a record that is there: if its deletion is still to come, the value is the
first of its key and takes the deletion back. -/
theorem Settled.step {gone : List (OwnerName × RecordType × Text)} {ps : List (ZoneRrsetOp × Text)}
    {p : ZoneRrsetOp × Text} {cs cs' : ZoneChangeSet} (hrows : Given existing)
    (h : Settled existing gone ps cs) (hcase : CreateCase zone existing p cs cs')
    (hpresent : ∃ r ∈ existing, r.key = p.1.key p.2)
    (hfirst : ∀ r ∈ cs.deletes, r.key = p.1.key p.2 → Same zone p r.toRecordData) :
    Settled existing gone (ps ++ [p]) cs' := by
  have hdeletes : (∀ r, r ∈ cs'.deletes ↔ r ∈ cs.deletes ∧ p.1.key p.2 ≠ r.key) ∧ cs'.creates = [] := by
    cases hcase with
    | cancels d hd hs hmem _ hc =>
        refine ⟨fun r => ?_, hc.trans h.creates⟩
        rw [hmem r]
        refine and_congr_right fun hr => not_congr ⟨fun e => e ▸ hs.1.symm, fun e => ?_⟩
        exact hrows.rows.eq_of_key_eq (h.sound.deletes r hr) (h.sound.deletes d hd) (e.symm.trans hs.1.symm)
    | stays s _ hs hsd hk e =>
        subst e
        refine ⟨fun r => ⟨fun hr => ⟨hr, fun e => hsd ?_⟩, fun hr => hr.1⟩, h.creates⟩
        rwa [hrows.rows.eq_of_key_eq hs (h.sound.deletes r hr) (hk.trans e)]
    | repeats c _ hc _ _ =>
        rw [h.creates] at hc
        cases hc
    | creates hno hall _ =>
        obtain ⟨r, hr, hk⟩ := hpresent
        exact absurd (hfirst r (hall r hr hk) hk) (hno r (hall r hr hk))
  refine ⟨hcase.sound h.sound, fun r => ?_, hdeletes.2⟩
  rw [hdeletes.1 r, h.deletes r]
  simp only [List.mem_append, List.mem_singleton, or_imp, forall_and, forall_eq, and_assoc]

/-- On rows that hold every record the additions list, deleted ones at the TTL of the first value
that lists them, the operations compute nothing. -/
theorem computeCreates_settled (h : Given existing) (hsup : ops.Supported)
    (hpresent : ∀ p ∈ listed ops.adds, ∃ r ∈ existing, r.key = p.1.key p.2)
    (hfirst : ∀ r ∈ existing, r.key ∈ listedKeys ops.dels →
      ∃ p, (listed ops.adds).find? (fun q => q.1.key q.2 = r.key) = some p ∧ Same zone p r.toRecordData) :
    computeCreates zone existing ops.adds (computeDeletes existing ops.dels) = ⟨[], []⟩ := by
  have hdels : ∀ op ∈ ops.dels, op.recordType ∈ externalDnsRecordTypes := fun op hop => hsup op (by simp [hop])
  have hmem : ∀ p ∈ listed ops.adds, p.1.recordType ∈ externalDnsRecordTypes := fun p hp =>
    hsup _ (by simp [(mem_listed.1 hp).1])
  have hrun : ∀ ps rest, listed ops.adds = ps ++ rest →
      Settled existing (listedKeys ops.dels) ps
        (ps.foldl (fun cs p => createValue zone existing p.1 cs p.2) ⟨computeDeletes existing ops.dels, []⟩) := by
    intro ps
    induction ps using List.reverseRecOn with
    | nil =>
        intro _ _
        refine ⟨⟨fun r hr => ((mem_computeDeletes h hdels).1 hr).1, (computeDeletes_ok _ _).2, by simp⟩,
          fun r => ?_, rfl⟩
        simpa using mem_computeDeletes h hdels
    | append_singleton ps p ih =>
        intro rest e
        have hp : p ∈ listed ops.adds := by rw [e]; simp
        have ih := ih (p :: rest) (by simpa using e)
        rw [List.foldl_append, List.foldl_cons, List.foldl_nil]
        refine ih.step h (createValue_cases h ih.sound (hmem p hp)) (hpresent p hp) fun r hr hk => ?_
        -- no earlier value lists the record, so this one is the first
        obtain ⟨hr, hgone, hno⟩ := (ih.deletes r).1 hr
        obtain ⟨q, hq, hs⟩ := hfirst r hr hgone
        have hnone : ps.find? (fun q => q.1.key q.2 = r.key) = none :=
          List.find?_eq_none.2 fun q hq => by simpa using hno q hq
        rw [e, List.append_assoc, List.find?_append, hnone, Option.none_or, List.singleton_append,
          List.find?_cons_of_pos (by simpa using hk.symm), Option.some.injEq] at hq
        exact hq ▸ hs
  have hend := hrun (listed ops.adds) [] (by simp)
  rw [← computeCreates_eq_foldl] at hend
  have hnone : (computeCreates zone existing ops.adds (computeDeletes existing ops.dels)).deletes = [] := by
    refine List.eq_nil_iff_forall_not_mem.2 fun r hr => ?_
    obtain ⟨hr, hgone, hno⟩ := (hend.deletes r).1 hr
    obtain ⟨p, hp, hs⟩ := hfirst r hr hgone
    exact hno p (List.mem_of_find?_eq_some hp) hs.1.symm
  generalize computeCreates zone existing ops.adds (computeDeletes existing ops.dels) = cs at hend hnone
  obtain ⟨deletes, creates⟩ := cs
  exact congrArg₂ ZoneChangeSet.mk hnone hend.creates

/-! ### Change sets -/

/-- The rows a change set leaves. -/
def ZoneChangeSet.result (cs : ZoneChangeSet) (existing : List Record) : List RecordData :=
  (existing.filter (·.id ∉ cs.deletes.map (·.id))).map (·.toRecordData) ++ cs.creates

theorem mem_kept (h : Given existing) {cs : ZoneChangeSet} (hcs : Sound existing cs) {r : Record} :
    r ∈ existing.filter (·.id ∉ cs.deletes.map (·.id)) ↔ r ∈ existing ∧ r ∉ cs.deletes := by
  rw [List.mem_filter, decide_eq_true_eq]
  refine and_congr_right fun hr => not_congr ⟨fun hid => ?_, fun hd => List.mem_map_of_mem hd⟩
  obtain ⟨d, hd, e⟩ := List.mem_map.1 hid
  exact eq_of_id_eq h.ids (hcs.deletes d hd) hr e ▸ hd

/-- What a change set is for: the records the additions list are there, those the deletions list
are gone unless added, everything else is as it was, the rows are acceptable, and on them the
same operations compute nothing. -/
structure SetSemantics (zone : Zone) (existing : List Record) (ops : ZoneOps) (result : List RecordData) :
    Prop where
  present : ∀ k : OwnerName × RecordType × Text, k.2.1 ∈ externalDnsRecordTypes →
    (k ∈ result.map RecordData.key ↔
      k ∈ listedKeys ops.adds ∨ (k ∈ existing.map (·.key) ∧ k ∉ listedKeys ops.dels))
  untouched : result.filter (fun r => ¬ OnOps (ops.adds ++ ops.dels) r) =
    (existing.map (·.toRecordData)).filter (fun r => ¬ OnOps (ops.adds ++ ops.dels) r)
  acceptable : Acceptable ↑result
  idempotent : ∀ after : List Record, (after.map (·.id)).Nodup →
    (after.map (·.toRecordData)).Perm result → computeZoneChangeSet zone after ops = .ok ⟨[], []⟩

theorem onOps_of_key {ops : List ZoneRrsetOp} {r : RecordData} (h : r.key ∈ listedKeys ops) : OnOps ops r := by
  obtain ⟨p, hp, e⟩ := List.mem_map.1 h
  simp only [RecordData.key, ZoneRrsetOp.key, Prod.mk.injEq] at e
  exact ⟨p.1, (mem_listed.1 hp).1, e.1.symm, e.2.1.symm⟩

theorem mem_listedKeys {ops : List ZoneRrsetOp} {p : ZoneRrsetOp × Text} (h : p ∈ listed ops) :
    p.1.key p.2 ∈ listedKeys ops := List.mem_map_of_mem (f := fun p : ZoneRrsetOp × Text => p.1.key p.2) h

theorem Resolved.mem_result {cs : ZoneChangeSet} (h : Given existing)
    (hcs : Resolved zone existing (listedKeys ops.dels) (listed ops.adds) cs)
    (k : OwnerName × RecordType × Text) :
    k ∈ (cs.result existing).map RecordData.key ↔
      k ∈ listedKeys ops.adds ∨ (k ∈ existing.map (·.key) ∧ k ∉ listedKeys ops.dels) := by
  simp only [ZoneChangeSet.result, List.map_append, List.map_map, List.mem_append]
  constructor
  · rintro (hk | hk)
    · obtain ⟨r, hr, rfl⟩ := List.mem_map.1 hk
      obtain ⟨hr, hrd⟩ := (mem_kept h hcs.sound).1 hr
      -- a row that stays was not deleted, or an addition took its deletion back
      by_cases hgone : r.key ∈ listedKeys ops.dels
      · rw [hcs.deletes] at hrd
        simp only [hr, hgone, true_and, not_forall, not_not] at hrd
        obtain ⟨p, hp, hs⟩ := hrd
        exact .inl (by simpa [hs.1] using mem_listedKeys hp)
      · exact .inr ⟨List.mem_map_of_mem (f := fun r : Record => r.key) hr, hgone⟩
    · obtain ⟨c, hc, rfl⟩ := List.mem_map.1 hk
      obtain ⟨p, hp, rfl⟩ := hcs.creates c hc
      exact .inl (mem_listedKeys hp)
  · rintro (hk | ⟨hk, hgone⟩)
    · obtain ⟨p, hp, rfl⟩ := List.mem_map.1 hk
      rcases hcs.present p hp with ⟨r, hr, hrd, e⟩ | ⟨c, hc, e⟩
      · exact .inl (List.mem_map.2 ⟨r, (mem_kept h hcs.sound).2 ⟨hr, hrd⟩, e⟩)
      · exact .inr (List.mem_map.2 ⟨c, hc, e⟩)
    · obtain ⟨r, hr, rfl⟩ := List.mem_map.1 hk
      refine .inl (List.mem_map.2 ⟨r, (mem_kept h hcs.sound).2 ⟨hr, fun hrd => hgone ?_⟩, rfl⟩)
      exact ((hcs.deletes r).1 hrd).2.1

theorem Resolved.untouched {cs : ZoneChangeSet}
    (hcs : Resolved zone existing (listedKeys ops.dels) (listed ops.adds) cs) (h : Given existing) :
    (cs.result existing).filter (fun r => ¬ OnOps (ops.adds ++ ops.dels) r) =
      (existing.map (·.toRecordData)).filter (fun r => ¬ OnOps (ops.adds ++ ops.dels) r) := by
  have hmono : ∀ {l : List ZoneRrsetOp} {r : RecordData}, (∀ op ∈ l, op ∈ ops.adds ++ ops.dels) → OnOps l r →
      OnOps (ops.adds ++ ops.dels) r := fun hl ⟨op, hop, e⟩ => ⟨op, hl op hop, e⟩
  have hcreates : cs.creates.filter (fun r => ¬ OnOps (ops.adds ++ ops.dels) r) = [] := by
    refine List.filter_eq_nil_iff.2 fun c hc => ?_
    obtain ⟨p, hp, rfl⟩ := hcs.creates c hc
    simpa using hmono (fun op hop => by simp [hop]) (onOps_of_key (r := newRow zone p) (mem_listedKeys hp))
  rw [ZoneChangeSet.result, List.filter_append, hcreates, List.append_nil, List.filter_map, List.filter_map,
    List.filter_filter]
  congr 1
  refine List.filter_congr fun r hr => ?_
  simp only [Function.comp_apply, Bool.and_eq_left_iff_imp, decide_eq_true_eq]
  intro hon hid
  obtain ⟨d, hd, e⟩ := List.mem_map.1 hid
  obtain ⟨hde, hgone, _⟩ := (hcs.deletes d).1 hd
  obtain rfl := eq_of_id_eq h.ids hde hr e
  exact hon (hmono (fun op hop => by simp [hop]) (onOps_of_key hgone))

/-- **Change sets have set semantics.**  When the operations of one zone resolve against its rows,
the rows left are the ones the operations say, whatever their order and repetitions, and on them
the same operations resolve to nothing. -/
theorem computeZoneChangeSet_semantics (h : Given existing) (hsup : ops.Supported) {cs : ZoneChangeSet}
    (hcs : computeZoneChangeSet zone existing ops = .ok cs) :
    SetSemantics zone existing ops (cs.result existing) := by
  obtain ⟨_, hval, e⟩ := Fallible.bind_eq_ok.1 hcs
  cases e
  have hres : Resolved zone existing _ _ _ := computeCreates_resolved h hsup
  set cs := computeCreates zone existing ops.adds (computeDeletes existing ops.dels)
  have hfilter : (existing.filter fun row => cs.deletes.all fun d => d.id != row.id) =
      existing.filter (·.id ∉ cs.deletes.map (·.id)) := by
    refine List.filter_congr fun r _ => ?_
    rw [Bool.eq_iff_iff]
    simp [List.all_eq_true]
  rw [hfilter] at hval
  obtain ⟨hadds, hcomp⟩ := validateEach_eq_ok.1 hval
  have hacc : Acceptable ↑(cs.result existing) := by
    refine acceptable_append.2 ⟨?_, hadds, fun r hr c hc => ?_⟩
    · exact Acceptable.mono (Multiset.coe_le.2 (List.filter_sublist.map _).subperm) h.rows
    · obtain ⟨r', hr', rfl⟩ := List.mem_map.1 hr
      exact hcomp r' hr' c hc
  refine ⟨fun k _ => hres.mem_result h k, hres.untouched h, hacc, fun after hids hperm => ?_⟩
  have hafter : Given after := ⟨hids, by rw [Multiset.coe_eq_coe.2 hperm]; exact hacc⟩
  have hkeys : ∀ k, k ∈ after.map (·.key) ↔ k ∈ (cs.result existing).map RecordData.key := by
    intro k
    rw [← (hperm.map RecordData.key).mem_iff, List.map_map]
    rfl
  have hsettled : computeCreates zone after ops.adds (computeDeletes after ops.dels) = ⟨[], []⟩ :=
    computeCreates_settled hafter hsup ?_ ?_
  · simp [computeZoneChangeSet, hsettled, validateEach, pure, Except.pure]
  · intro p hp
    obtain ⟨r, hr, e⟩ := List.mem_map.1 ((hkeys _).2 ((hres.mem_result h _).2 (.inl (mem_listedKeys hp))))
    exact ⟨r, hr, e⟩
  · intro r hr hgone
    -- a deleted record that is there is listed by an addition, the first of which decided its TTL
    have hk := (hres.mem_result h _).1 ((hkeys _).1 (List.mem_map_of_mem (f := fun r : Record => r.key) hr))
    have hadd : r.key ∈ listedKeys ops.adds := hk.resolve_right fun hk => hk.2 hgone
    obtain ⟨q, hq, e⟩ := List.mem_map.1 hadd
    have hsome : ((listed ops.adds).find? fun q => q.1.key q.2 = r.key).isSome :=
      List.find?_isSome.2 ⟨q, hq, by simpa using e⟩
    obtain ⟨p, hp⟩ := Option.isSome_iff_exists.1 hsome
    refine ⟨p, hp, ?_⟩
    obtain ⟨s, hs, hsame⟩ : ∃ s ∈ cs.result existing, Same zone p s := by
      rcases hres.first r.key hgone p hp with ⟨s, hs, hsd, hsame⟩ | ⟨c, hc, hsame⟩
      · exact ⟨s.toRecordData, List.mem_append_left _ (List.mem_map_of_mem ((mem_kept h hres.sound).2 ⟨hs, hsd⟩)),
          hsame⟩
      · exact ⟨c, List.mem_append_right _ hc, hsame⟩
    obtain ⟨s', hs', rfl⟩ := List.mem_map.1 (hperm.mem_iff.2 hs)
    have hpk : p.1.key p.2 = r.key := by simpa using List.find?_some hp
    rwa [hafter.rows.eq_of_key_eq hr hs' (hpk.symm.trans hsame.1.symm)]

end Resolve

def wwwOwner : OwnerName := ⟨[lit "www"], by decide +kernel⟩

/-- An update that moves `www` from one address to another. -/
def moveWww : ZoneOps where
  adds := [⟨wwwOwner, .a, none, [lit "192.0.2.2"]⟩]
  dels := [⟨wwwOwner, .a, none, [lit "192.0.2.1"]⟩]

theorem computeZoneChangeSet_semantics_moveWww :
    ∃ st ∈ (@run sampleCrates sampleHistory).stores, ∃ cs,
      computeZoneChangeSet st.zone st.records moveWww = .ok cs ∧ cs.deletes.length = 1 ∧
        cs.creates.length = 1 ∧ SetSemantics st.zone st.records moveWww (cs.result st.records) := by
  obtain ⟨st, hst, hlen⟩ : ∃ st ∈ (@run sampleCrates sampleHistory).stores,
      (computeZoneChangeSet st.zone st.records moveWww).map
        (fun cs => (cs.deletes.length, cs.creates.length)) = .ok (1, 1) := by
    decide +kernel
  obtain ⟨cs, hcs, e⟩ := Fallible.map_eq_ok.1 hlen
  rw [Prod.mk.injEq] at e
  have hok := @run_ok sampleCrates sampleHistory
  have hsup : moveWww.Supported := by simp [ZoneOps.Supported, moveWww, externalDnsRecordTypes]
  exact ⟨st, hst, cs, hcs, e.1, e.2,
    computeZoneChangeSet_semantics ⟨(hok.ids st hst).nodup, (hok.store st hst).rows⟩ hsup hcs⟩

end Bindizr
