import Bindizr.ForeignOwners
import Bindizr.LogOrder
import Bindizr.NameReuse
import Bindizr.Rfc1995
import Bindizr.Values

/-! # Incremental and full transfers

An incremental response regroups the log: under each serial it sends everything that was deleted, then everything that
was added.  A client that applies it to the records the zone had at its serial ends with the records that were added
and not deleted under a later serial, and the old ones that were never deleted (`mem_applyAll_iff`).  A full transfer has
the same when the log regroups (`leadsTo_iff`), which every log does unless one UPDATE deletes what it added, or a zone
is renamed (`run_regroups`). -/

namespace Bindizr

open Rfc1035 (Name ResourceRecord Rdata LabelText LabelsText Displays isPlain)
open Rfc1995 (isSoa Delta Copy readIncremental readFull)
open Sending (answersOf found Sends)

/-! ### The name of a question -/

theorem isPlain_of_labelText {l : List UInt8} {s : Text} (h : LabelText l s) (hs : '\\' ∉ s) : ∀ c ∈ s, isPlain c = true := by
  induction h with
  | nil => simp
  | cons octet rest ih =>
      rw [List.mem_append, not_or] at hs
      refine List.forall_mem_append.2 ⟨?_, ih hs.2⟩
      cases octet with
      | plain h => simpa using h
      | escaped => simp at hs
      | decimal => simp at hs

/-- Without a backslash, the text of labels holds plain characters and dots, and ends in no dot. -/
theorem isPlain_of_labelsText {ls : List (List UInt8)} {t : Text} (h : LabelsText ls t) (ht : '\\' ∉ t) (hls : ∀ l ∈ ls, l ≠ []) :
    (∀ c ∈ t, c = '.' ∨ isPlain c = true) ∧ t ≠ [] ∧ t.getLast? ≠ some '.' := by
  have hne : ∀ {l : List UInt8} {s : Text}, LabelText l s → l ≠ [] → s ≠ [] := by
    intro l s h hl
    cases h with
    | nil => exact absurd rfl hl
    | cons octet rest => cases octet <;> simp
  induction h with
  | single label =>
      have hplain := isPlain_of_labelText label ht
      refine ⟨fun c hc => .inr (hplain c hc), hne label (hls _ (by simp)), fun hlast => ?_⟩
      exact (isPlain_eq (hplain _ (List.mem_of_getLast? hlast))).2.2.1 rfl
  | cons label rest ih =>
      rw [List.mem_append, List.mem_cons, not_or, not_or] at ht
      obtain ⟨hall, hrest, hlast⟩ := ih ht.2.2 fun l hl => hls l (List.mem_cons_of_mem _ hl)
      refine ⟨?_, by simp, ?_⟩
      · exact List.forall_mem_append.2 ⟨fun c hc => .inr (isPlain_of_labelText label ht.1 c hc),
          List.forall_mem_cons.2 ⟨.inl rfl, hall⟩⟩
      · rw [List.getLast?_append_of_ne_nil _ (by simp), List.getLast?_cons_of_ne_nil hrest]
        exact hlast

theorem mem_dropWhile {p : Char → Bool} {t : Text} {c : Char} (h : c ∈ t) (hc : p c = false) : c ∈ t.dropWhile p := by
  rw [← List.takeWhile_append_dropWhile (p := p) (l := t), List.mem_append] at h
  refine h.resolve_left fun h => ?_
  rw [List.mem_takeWhile_imp h] at hc
  cases hc

theorem mem_rdropWhile {p : Char → Bool} {t : Text} {c : Char} (h : c ∈ t) (hc : p c = false) : c ∈ t.rdropWhile p :=
  List.mem_reverse.2 (mem_dropWhile (List.mem_reverse.2 h) hc)

theorem mem_trim {t : Text} {c : Char} (h : c ∈ t) (hc : isWhitespace c = false) : c ∈ trim t :=
  mem_rdropWhile (mem_dropWhile h hc) hc

theorem mem_stripOneSuffix {t : Text} {c d : Char} (h : c ∈ t) (hc : c ≠ d) : c ∈ stripOneSuffix d t := by
  unfold stripOneSuffix
  split
  · rename_i hlast
    obtain ⟨u, rfl⟩ := List.getLast?_eq_some_iff.1 hlast
    rw [List.dropLast_concat]
    simpa [hc] using h
  · exact h

theorem text_of_normalizeZoneName {value : Text} {z : ZoneName} (h : normalizeZoneName value = .ok z) :
    z.text = toAsciiLowercase (stripOneSuffix '.' (trim (trim value))) := by
  unfold normalizeZoneName at h
  simp only at h
  split at h
  · cases h
  split at h
  · cases h
  have h := Fallible.mapError_eq_ok.1 h
  unfold ZoneName.parse at h
  split at h
  · cases h
  split at h
  · cases h
  split at h
  · cases h
  split at h
  · cases h
  split at h
  · cases h
  · cases h
    rfl

/-- A query as `parse_query` leaves it: the zone name is the name of the question without its last dots. -/
def ParsedQuery.Parsed (query : ParsedQuery) : Prop :=
  ∃ presentation, Displays query.qname presentation ∧ query.zoneName = trimEndMatches '.' presentation

theorem ParsedQuery.Parsed.lower_labels {query : ParsedQuery} (h : query.Parsed) {z : ZoneName}
    (hz : normalizeZoneName query.zoneName = .ok z) : query.qname.lower.labels = wireLabels z.labels := by
  obtain ⟨t, hdisplays, hname⟩ := h
  have htext := text_of_normalizeZoneName hz
  rw [hname] at htext
  rcases hdisplays with hlabels | ⟨-, rfl | rfl⟩
  · by_cases hback : '\\' ∈ t
    · -- a backslash is no character of a zone name, and no trimming takes it away
      have hmem : '\\' ∈ stripOneSuffix '.' (trim (trim (trimEndMatches '.' t))) :=
        mem_stripOneSuffix (mem_trim (mem_trim (mem_rdropWhile hback rfl) rfl) rfl) (by decide)
      have htext' : '\\' ∈ z.text := by
        rw [htext]
        exact List.mem_map.2 ⟨_, hmem, rfl⟩
      exact absurd htext' (z.not_mem_text (by decide) rfl)
    · obtain ⟨hall, hne, hlast⟩ := isPlain_of_labelsText hlabels hback fun l hl => by
        have := (query.qname.isName.1 l hl).1
        rintro rfl
        simp at this
      have htrim : trim t = t := trim_eq_self fun c hc => by
        rcases hall c hc with rfl | hc
        · rfl
        · obtain ⟨hprint, hspace, -⟩ := isPlain_eq hc
          exact Bool.eq_false_iff.2 fun h => hspace ((isWhitespace_of_isPrintable hprint).1 h)
      have hdots : trimEndMatches '.' t = t := by
        rw [trimEndMatches, List.rdropWhile_eq_self_iff]
        intro hne' h
        exact hlast (by rw [List.getLast?_eq_some_getLast hne', beq_iff_eq.1 h])
      rw [hdots, htrim, htrim, stripOneSuffix, if_neg hlast] at htext
      refine (decodeLabels_labelsText hlabels).1 ?_
      have hlower : z.labels.map toAsciiLowercase = z.labels :=
        (List.map_congr_left fun l hl => (z.isZoneText.2 l hl).2).trans (List.map_id' _)
      rw [← htext, ← z.joinLabels_labels, (decodeLabels_joinLabels z.labels_ne_nil).1, hlower]
  · exact absurd htext z.text_ne_nil
  · exact absurd htext z.text_ne_nil

section Records

variable [crates : Crates]

/-! ### The records of rows -/

/-- The resource record a row of a zone is served as. -/
def RecordData.rrIn (zone : ZoneName) (r : RecordData) : Option ResourceRecord :=
  match parseName (r.name.toFqdn zone), r.served with
  | .ok owner, some data => some ⟨owner, asU32 r.ttl, data⟩
  | _, _ => none

theorem RecordData.rrIn_eq_some {r : RecordData} {zone : ZoneName} {a : ResourceRecord} : r.rrIn zone = some a ↔
    ∃ n d, parseName (r.name.toFqdn zone) = .ok n ∧ r.served = some d ∧ a = ⟨n, asU32 r.ttl, d⟩ := by
  unfold RecordData.rrIn
  cases parseName (r.name.toFqdn zone) <;> cases r.served <;> simp [eq_comm]

theorem RecordData.notSoa_of_rrIn {r : RecordData} {zone : ZoneName} {a : ResourceRecord} (h : r.rrIn zone = some a) :
    r.recordType ≠ .soa := by
  intro hsoa
  obtain ⟨_, d, -, hd, -⟩ := RecordData.rrIn_eq_some.1 h
  rw [RecordData.served, hsoa] at hd
  cases hd

omit crates in
theorem RecordType.code_injective : Function.Injective RecordType.code := by
  intro t t' h
  cases t <;> cases t' <;> first | rfl | cases h

theorem RecordData.isSoa_rrIn {r : RecordData} {zone : ZoneName} {a : ResourceRecord} (h : r.rrIn zone = some a) :
    isSoa a = false := by
  have hsoa := RecordData.notSoa_of_rrIn h
  obtain ⟨n, d, -, hd, rfl⟩ := RecordData.rrIn_eq_some.1 h
  cases d with
  | soa => exact absurd (RecordType.code_injective (served_shape hd).1.symm) hsoa
  | _ => rfl

theorem key_eq_of_rrIn_eq (hwire : crates.Rfc1035Wire) (hbase64 : crates.Base64RoundTrip) {r s : RecordData} (hr : RowOk r)
    (hs : RowOk s) (hrtxt : TxtOk r) (hstxt : TxtOk s) {zone : ZoneName} {a : ResourceRecord} (hra : r.rrIn zone = some a)
    (hsa : s.rrIn zone = some a) : r.name = s.name ∧ r.recordType = s.recordType ∧ r.canonical = s.canonical := by
  obtain ⟨n, d, hn, hd, rfl⟩ := RecordData.rrIn_eq_some.1 hra
  obtain ⟨m, d', hm, hd', e⟩ := RecordData.rrIn_eq_some.1 hsa
  rw [ResourceRecord.mk.injEq] at e
  obtain ⟨rfl, -, rfl⟩ := e
  have hname : r.name = s.name := by
    have h := wireLabels_injective (((parseName_toFqdn hwire).1 hn).2.symm.trans ((parseName_toFqdn hwire).1 hm).2)
    exact OwnerName.ext (List.append_cancel_right h)
  have ht : r.recordType = s.recordType :=
    RecordType.code_injective ((served_shape hd).1.symm.trans (served_shape hd').1)
  exact ⟨hname, ht, (canonical_eq_iff_served hwire hbase64 ht hr.value hs.value hrtxt hstxt hd hd').2 rfl⟩

/-- The rows of a record set are served as different records. -/
theorem Acceptable.rrIn_nodup (hwire : crates.Rfc1035Wire) (hbase64 : crates.Base64RoundTrip) {zone : ZoneName}
    {s : Multiset RecordData} (h : Acceptable s) (hs : ∀ r ∈ s, TxtOk r ∧ (r.rrIn zone).isSome) :
    (s.map (RecordData.rrIn zone)).Nodup := by
  induction s using Quotient.inductionOn with
  | h l =>
      obtain ⟨hrows, hpair⟩ := acceptable_coe.1 h
      refine Multiset.coe_nodup.2 (List.pairwise_map.2 (hpair.imp_of_mem fun {r s} hr hs' hc e => ?_))
      obtain ⟨hrtxt, hra⟩ := hs r hr
      obtain ⟨a, hra⟩ := Option.isSome_iff_exists.1 hra
      obtain ⟨hname, hkey⟩ := key_eq_of_rrIn_eq hwire hbase64 (hrows r hr) (hrows s hs') hrtxt (hs s hs').1 hra (e ▸ hra)
      exact (hc hname).1 hkey

/-! ### What is added to messages -/

variable {qname : Name}

theorem found_addRecordParts {r : RecordData} {zone : ZoneName} {a : Option ResourceRecord}
    (h : found qname (·.addRecordParts zone r) = .ok a) :
    a = r.rrIn zone ∧ (r.recordType ≠ .soa → (r.rrIn zone).isSome) := by
  obtain ⟨b, hb, rfl⟩ := Fallible.map_eq_ok.1 h
  by_cases hsoa : r.recordType = .soa
  · have hnone : r.rrIn zone = none := Option.eq_none_iff_forall_ne_some.2 fun a ha => RecordData.notSoa_of_rrIn ha hsoa
    simp only [DnsMessageBuilder.addRecordParts, hsoa] at hb
    cases hb
    exact ⟨hnone.symm, fun h => absurd hsoa h⟩
  · obtain ⟨n, d, hn, hd, rfl⟩ := (addRecordParts_eq_ok hsoa).1 hb
    have hsome : r.rrIn zone = some ⟨n, asU32 r.ttl, d⟩ := RecordData.rrIn_eq_some.2 ⟨n, d, hn, hd, rfl⟩
    rw [hsome]
    exact ⟨rfl, fun _ => rfl⟩

/-- The SOA of a snapshot, as it is sent. -/
structure IsSoaOf (qname : Name) (sn : ZoneSnapshot) (a : ResourceRecord) : Prop where
  eq : ∃ mname rname serial, parseName sn.primaryNs.text = .ok mname ∧ parseName sn.adminEmail = .ok rname ∧
    serialToU32 sn.serial = .ok serial ∧ a = ⟨qname, asU32 sn.ttl, .soa mname rname serial (asU32 sn.refresh)
      (asU32 sn.retry) (asU32 sn.expire) (asU32 sn.minimumTtl)⟩

theorem IsSoaOf.isSoa {sn : ZoneSnapshot} {a : ResourceRecord} (h : IsSoaOf qname sn a) : Rfc1995.isSoa a = true := by
  obtain ⟨_, _, _, -, -, -, rfl⟩ := h.eq
  rfl

theorem found_addSoaFromSnapshot {sn : ZoneSnapshot} {a : Option ResourceRecord}
    (h : found qname (·.addSoaFromSnapshot sn) = .ok a) : ∃ soa, a = some soa ∧ IsSoaOf qname sn soa := by
  obtain ⟨b, hb, rfl⟩ := Fallible.map_eq_ok.1 h
  obtain ⟨serial, hserial, hb⟩ := Fallible.bind_eq_ok.1 hb
  obtain ⟨mname, hmname, hb⟩ := Fallible.bind_eq_ok.1 hb
  obtain ⟨rname, hrname, hb⟩ := Fallible.bind_eq_ok.1 hb
  cases hb
  exact ⟨_, rfl, ⟨mname, rname, serial, hmname, hrname, hserial, rfl⟩⟩

omit crates in
theorem answersOf_cons_eq_ok {add : AddAnswer} {adds : List AddAnswer} {answers : List ResourceRecord} :
    answersOf qname (add :: adds) = .ok answers ↔
      ∃ a rest, found qname add = .ok a ∧ answersOf qname adds = .ok rest ∧ answers = a.toList ++ rest := by
  rw [Sending.answersOf_cons, Fallible.bind_eq_ok]
  constructor
  · rintro ⟨a, ha, h⟩
    obtain ⟨rest, hrest, h⟩ := Fallible.bind_eq_ok.1 h
    cases h
    exact ⟨a, rest, ha, hrest, rfl⟩
  · rintro ⟨a, rest, ha, hrest, rfl⟩
    exact ⟨a, ha, Fallible.bind_eq_ok.2 ⟨rest, hrest, rfl⟩⟩

omit crates in
theorem answersOf_append_eq_ok {adds adds' : List AddAnswer} {answers : List ResourceRecord} :
    answersOf qname (adds ++ adds') = .ok answers ↔
      ∃ as as', answersOf qname adds = .ok as ∧ answersOf qname adds' = .ok as' ∧ answers = as ++ as' := by
  rw [Sending.answersOf_append, Fallible.bind_eq_ok]
  constructor
  · rintro ⟨as, has, h⟩
    obtain ⟨as', has', h⟩ := Fallible.bind_eq_ok.1 h
    cases h
    exact ⟨as, as', has, has', rfl⟩
  · rintro ⟨as, as', has, has', rfl⟩
    exact ⟨as, has, Fallible.bind_eq_ok.2 ⟨as', has', rfl⟩⟩

theorem answersOf_rows {rows : List RecordData} {zone : ZoneName} {answers : List ResourceRecord}
    (h : answersOf qname (rows.map fun r b => b.addRecordParts zone r) = .ok answers) :
    answers = rows.filterMap (RecordData.rrIn zone) ∧ ∀ r ∈ rows, r.recordType ≠ .soa → (r.rrIn zone).isSome := by
  induction rows generalizing answers with
  | nil =>
      cases h
      exact ⟨rfl, by simp⟩
  | cons r rows ih =>
      obtain ⟨a, rest, ha, hrest, rfl⟩ := answersOf_cons_eq_ok.1 h
      obtain ⟨rfl, hsome⟩ := found_addRecordParts ha
      obtain ⟨rfl, hall⟩ := ih hrest
      refine ⟨?_, List.forall_mem_cons.2 ⟨hsome, hall⟩⟩
      cases hr : r.rrIn zone <;> simp [hr]

/-! ### The versions of an incremental response -/

/-- The changes of one serial, as they are sent. -/
structure IsDelta (qname : Name) (zone : ZoneName) (changes : List ZoneChange) (snapshots : ℕ → Option ZoneSnapshot)
    (serial : ℕ) (d : Delta) : Prop where
  deleted : ∀ a, a ∈ d.deleted ↔ ∃ c ∈ changes, c.serial = serial ∧ c.operation = .del ∧ c.record.rrIn zone = some a
  added : ∀ a, a ∈ d.added ↔ ∃ c ∈ changes, c.serial = serial ∧ c.operation = .add ∧ c.record.rrIn zone = some a
  newSoa : ∃ sn, snapshots serial = some sn ∧ IsSoaOf qname sn d.newSoa
  composed : ∀ c ∈ changes, c.serial = serial → c.record.recordType ≠ .soa → (c.record.rrIn zone).isSome

theorem found_addSoaAt {snapshot : Option ZoneSnapshot} {missing : Text} {a : Option ResourceRecord}
    (h : found qname (addSoaAt snapshot missing) = .ok a) :
    ∃ sn soa, snapshot = some sn ∧ a = some soa ∧ IsSoaOf qname sn soa := by
  cases snapshot with
  | none => cases h
  | some sn =>
      obtain ⟨soa, rfl, hsoa⟩ := found_addSoaFromSnapshot h
      exact ⟨sn, soa, rfl, rfl, hsoa⟩

theorem answersOf_changesAt {zone : ZoneName} {changes : List ZoneChange} {operation : ChangeOp} {serial : ℕ}
    {answers : List ResourceRecord} (h : answersOf qname ((changesAt changes operation serial).map (addChange zone)) = .ok answers) :
    (∀ a, a ∈ answers ↔ ∃ c ∈ changes, c.serial = serial ∧ c.operation = operation ∧ c.record.rrIn zone = some a) ∧
      ∀ c ∈ changes, c.serial = serial → c.operation = operation → c.record.recordType ≠ .soa → (c.record.rrIn zone).isSome := by
  have hrows : (changesAt changes operation serial).map (addChange zone) =
      ((changesAt changes operation serial).map (·.record)).map fun r b => b.addRecordParts zone r := by
    rw [List.map_map]
    rfl
  rw [hrows] at h
  obtain ⟨rfl, hall⟩ := answersOf_rows h
  have hmem : ∀ c, c ∈ changesAt changes operation serial ↔ c ∈ changes ∧ c.serial = serial ∧ c.operation = operation := by
    intro c
    simp [changesAt]
  refine ⟨fun a => ?_, fun c hc hserial hop => hall _ (List.mem_map_of_mem ((hmem c).2 ⟨hc, hserial, hop⟩))⟩
  simp only [List.mem_filterMap, List.mem_map]
  constructor
  · rintro ⟨_, ⟨c, hc, rfl⟩, ha⟩
    obtain ⟨hc, hserial, hop⟩ := (hmem c).1 hc
    exact ⟨c, hc, hserial, hop, ha⟩
  · rintro ⟨c, hc, hserial, hop, ha⟩
    exact ⟨_, ⟨c, (hmem c).2 ⟨hc, hserial, hop⟩, rfl⟩, ha⟩

theorem exists_deltas {zone : ZoneName} {changes : List ZoneChange} {snapshots : ℕ → Option ZoneSnapshot} {oldSerial : ℕ}
    {serials : List ℕ} {answers : List ResourceRecord}
    (h : answersOf qname (deltaAdds zone changes snapshots oldSerial serials) = .ok answers) :
    ∃ ds, answers = ds.flatMap Delta.answers ∧ (∀ d ∈ ds, d.WellFormed) ∧
      List.Forall₂ (IsDelta qname zone changes snapshots) serials ds := by
  induction serials generalizing oldSerial answers with
  | nil =>
      cases h
      exact ⟨[], rfl, by simp, .nil⟩
  | cons serial serials ih =>
      obtain ⟨_, rest, hfirst, hrest, rfl⟩ := answersOf_append_eq_ok.1 h
      obtain ⟨_, _, hold, hnew, rfl⟩ := answersOf_append_eq_ok.1 hfirst
      obtain ⟨_, deleted, hfold, hdeleted, rfl⟩ := answersOf_cons_eq_ok.1 hold
      obtain ⟨_, added, hfnew, hadded, rfl⟩ := answersOf_cons_eq_ok.1 hnew
      obtain ⟨_, oldSoa, -, rfl, holdSoa⟩ := found_addSoaAt hfold
      obtain ⟨sn, newSoa, hsn, rfl, hnewSoa⟩ := found_addSoaAt hfnew
      obtain ⟨hdel, hdelAll⟩ := answersOf_changesAt hdeleted
      obtain ⟨hadd, haddAll⟩ := answersOf_changesAt hadded
      obtain ⟨ds, rfl, hwell, hds⟩ := ih hrest
      refine ⟨⟨oldSoa, deleted, newSoa, added⟩ :: ds, by simp [Delta.answers],
        List.forall_mem_cons.2 ⟨⟨holdSoa.isSoa, ?_, hnewSoa.isSoa, ?_⟩, hwell⟩,
        .cons ⟨hdel, hadd, ⟨sn, hsn, hnewSoa⟩, fun c hc hserial hsoa => ?_⟩ hds⟩
      · intro a ha
        obtain ⟨c, -, -, -, ha⟩ := (hdel a).1 ha
        exact RecordData.isSoa_rrIn ha
      · intro a ha
        obtain ⟨c, -, -, -, ha⟩ := (hadd a).1 ha
        exact RecordData.isSoa_rrIn ha
      · cases hop : c.operation with
        | add => exact haddAll c hc hserial hop hsoa
        | del => exact hdelAll c hc hserial hop hsoa

/-! ### Reading an incremental response -/

omit crates in
theorem natCast_of_serialToU32 {serial : ℤ} {n : ℕ} (h : serialToU32 serial = .ok n) : serial = n := by
  unfold serialToU32 at h
  split at h
  · cases h
  · cases h
    omega

omit crates in
theorem mem_sortedSerials {changes : List ZoneChange} {serials : List ℕ}
    (h : (changes.mapM fun c => serialToU32 c.serial) = .ok serials) :
    (∀ k ∈ sortedSerials serials, ∃ c ∈ changes, c.serial = k) ∧ ∀ c ∈ changes, ∃ k ∈ sortedSerials serials, c.serial = k := by
  have hmem : ∀ k, k ∈ sortedSerials serials ↔ k ∈ serials := fun k => by
    rw [sortedSerials, List.mem_dedup, List.mem_mergeSort]
  refine ⟨fun k hk => ?_, fun c hc => ?_⟩
  · obtain ⟨c, hc, hk⟩ := Fallible.mem_of_mapM h ((hmem k).1 hk)
    exact ⟨c, hc, natCast_of_serialToU32 hk⟩
  · obtain ⟨k, hk, hc⟩ := Fallible.exists_of_mapM h hc
    exact ⟨k, (hmem k).2 hk, natCast_of_serialToU32 hc⟩

omit crates in
theorem sortedSerials_replicate (n k : ℕ) : sortedSerials (List.replicate (k + 1) n) = [n] := by
  have hsorted : (List.replicate (k + 1) n).Pairwise fun a b => decide (a ≤ b) = true := by
    rw [List.pairwise_replicate]
    simp
  rw [sortedSerials, List.mergeSort_of_pairwise hsorted, List.replicate_dedup (by omega)]

/-- The answers of an incremental response: the changes of each serial between two copies of the current SOA. -/
theorem ixfrAdds_eq {zone : Zone} {s current : ℕ} {changes : List ZoneChange} {snapshots : ℕ → Option ZoneSnapshot}
    {sn : ZoneSnapshot} {serials : List ℕ} (hcurrent : serialToU32 zone.serial = .ok current) (hsn : snapshots current = some sn)
    (hserials : (changes.mapM fun c => serialToU32 c.serial) = .ok serials) : ixfrAdds zone s changes snapshots =
      (·.addSoaFromSnapshot sn) :: (deltaAdds zone.name changes snapshots s (sortedSerials serials) ++
        [(·.addSoaFromSnapshot sn)]) := by
  rw [ixfrAdds, hcurrent]
  simp only
  rw [hsn, hserials]

theorem readIncremental_ixfrAdds {st : ZoneStore} {s : ℕ} {changes : List ZoneChange} {snapshots : ℕ → Option ZoneSnapshot}
    {serials : List ℕ} (hserials : (changes.mapM fun c => serialToU32 c.serial) = .ok serials)
    {answers : List ResourceRecord} (h : answersOf qname (ixfrAdds st.zone s changes snapshots) = .ok answers) :
    ∃ ds, readIncremental answers = some ds ∧
      List.Forall₂ (IsDelta qname st.zone.name changes snapshots) (sortedSerials serials) ds := by
  cases hcurrent : serialToU32 st.zone.serial with
  | error e =>
      rw [ixfrAdds, hcurrent] at h
      cases h
  | ok current =>
      cases hsn : snapshots current with
      | none =>
          rw [ixfrAdds, hcurrent] at h
          simp only [hsn] at h
          cases h
      | some sn =>
          rw [ixfrAdds_eq hcurrent hsn hserials] at h
          obtain ⟨_, _, hfirst, hrest, rfl⟩ := answersOf_cons_eq_ok.1 h
          obtain ⟨_, _, hdeltas, hend, rfl⟩ := answersOf_append_eq_ok.1 hrest
          obtain ⟨_, _, hlast, hnil, rfl⟩ := answersOf_cons_eq_ok.1 hend
          rw [hfirst] at hlast
          cases hlast
          cases hnil
          obtain ⟨soa, rfl, hsoa⟩ := found_addSoaFromSnapshot hfirst
          obtain ⟨ds, rfl, hwell, hds⟩ := exists_deltas hdeltas
          exact ⟨ds, Rfc1995.readIncremental_answers hwell hsoa.isSoa, hds⟩

/-- A record that the log adds, and deletes under no later serial. -/
def AddedLast (zone : ZoneName) (log : List ZoneChange) (a : ResourceRecord) : Prop :=
  ∃ c ∈ log, c.operation = .add ∧ c.record.rrIn zone = some a ∧
    ∀ d ∈ log, c.serial < d.serial → d.operation = .del → d.record.rrIn zone ≠ some a

/-- A record that the log deletes. -/
def DeletedIn (zone : ZoneName) (log : List ZoneChange) (a : ResourceRecord) : Prop :=
  ∃ d ∈ log, d.operation = .del ∧ d.record.rrIn zone = some a

/-- **What a client ends with.** -/
theorem mem_applyAll_iff {zone : ZoneName} {changes : List ZoneChange} {snapshots : ℕ → Option ZoneSnapshot} {s : ℕ}
    {serials : List ℕ} (hserials : (changes.mapM fun c => serialToU32 c.serial) = .ok serials)
    (hchain : (s :: sortedSerials serials).IsChain (· < ·)) {ds : List Delta}
    (hds : List.Forall₂ (IsDelta qname zone changes snapshots) (sortedSerials serials) ds) {c : Copy} {a : ResourceRecord} :
    a ∈ (c.applyAll ds).records ↔ AddedLast zone changes a ∨ a ∈ c.records ∧ ¬ DeletedIn zone changes a := by
  obtain ⟨hfrom, hto⟩ := mem_sortedSerials hserials
  have hlt : (sortedSerials serials).Pairwise (· < ·) := (List.pairwise_cons.1 (List.isChain_iff_pairwise.1 hchain)).2
  let sent (operation : ChangeOp) (k : ℕ) : Set ResourceRecord :=
    {a | ∃ c ∈ changes, c.serial = k ∧ c.operation = operation ∧ c.record.rrIn zone = some a}
  have hsent : List.Forall₂ (fun k d => ∀ r, (r ∈ d.added ↔ r ∈ sent .add k) ∧ (r ∈ d.deleted ↔ r ∈ sent .del k))
      (sortedSerials serials) ds := hds.imp fun k d hd r => ⟨hd.added r, hd.deleted r⟩
  rw [Copy.mem_applyAll hsent hlt]
  refine or_congr ⟨?_, ?_⟩ (and_congr_right fun _ => ⟨?_, ?_⟩)
  · rintro ⟨k, hk, ⟨c, hc, hck, hop, ha⟩, hlater⟩
    refine ⟨c, hc, hop, ha, fun d hd hcd hdel hda => ?_⟩
    obtain ⟨j, hj, hdj⟩ := hto d hd
    exact hlater j hj (by omega) ⟨d, hd, hdj, hdel, hda⟩
  · rintro ⟨c, hc, hop, ha, hlater⟩
    obtain ⟨k, hk, hck⟩ := hto c hc
    refine ⟨k, hk, ⟨c, hc, hck, hop, ha⟩, ?_⟩
    rintro j hj hkj ⟨d, hd, hdj, hdel, hda⟩
    exact hlater d hd (by omega) hdel hda
  · rintro hnot ⟨d, hd, hdel, hda⟩
    obtain ⟨j, hj, hdj⟩ := hto d hd
    exact hnot j hj ⟨d, hd, hdj, hdel, hda⟩
  · rintro hnot j hj ⟨d, hd, hdj, hdel, hda⟩
    exact hnot ⟨d, hd, hdel, hda⟩

/-! ### What the zone holds -/

/-- The records of a zone's rows, under a zone name. -/
def ZoneStore.rrsIn (zone : ZoneName) (st : ZoneStore) : Set ResourceRecord :=
  {a | ∃ r ∈ st.liveRecords, r.rrIn zone = some a}

theorem ZoneStore.mem_rrsIn {zone : ZoneName} {st : ZoneStore} {a : ResourceRecord} :
    a ∈ st.rrsIn zone ↔ some a ∈ st.rows.map (RecordData.rrIn zone) := by
  rw [Multiset.mem_map]
  rfl

/-- A log that leads from one state of a zone to another, all of it served under one zone name. -/
structure ServedLog (zone : ZoneName) (log : List ZoneChange) (st₀ st : ZoneStore) : Prop where
  run : Journal.Run Acceptable (recordLog log) st₀.rows st.rows
  sorted : log.Pairwise fun c d => c.serial ≤ d.serial
  oldTxt : ∀ r ∈ st₀.liveRecords, TxtOk r
  logTxt : ∀ c ∈ log, TxtOk c.record
  logServed : ∀ c ∈ log, c.record.recordType ≠ .soa → (c.record.rrIn zone).isSome
  served : ∀ r ∈ st.liveRecords, (r.rrIn zone).isSome

namespace ServedLog

variable {zone : ZoneName} {log : List ZoneChange} {st₀ st : ZoneStore} {a : ResourceRecord}

theorem del_mem_map : .del (some a) ∈ (recordLog log).map (Journal.Change.map (RecordData.rrIn zone)) ↔
    DeletedIn zone log a := by
  rw [List.mem_map]
  constructor
  · rintro ⟨e, he, hmap⟩
    cases e with
    | add r => cases hmap
    | del r =>
        obtain ⟨d, hd, hdel, rfl, -⟩ := del_mem_recordLog.1 he
        rw [Journal.Change.map, Journal.Change.del.injEq] at hmap
        exact ⟨d, hd, hdel, hmap⟩
  · rintro ⟨d, hd, hdel, ha⟩
    exact ⟨.del d.record, del_mem_recordLog.2 ⟨d, hd, hdel, rfl, RecordData.notSoa_of_rrIn ha⟩, by
      rw [Journal.Change.map, ha]⟩

/-- The log leads from the old records to the new ones, through sets of records. -/
theorem runRecords (hwire : crates.Rfc1035Wire) (hbase64 : crates.Base64RoundTrip) (h : ServedLog zone log st₀ st) :
    Journal.Run Multiset.Nodup ((recordLog log).map (Journal.Change.map (RecordData.rrIn zone)))
      (st₀.rows.map (RecordData.rrIn zone)) (st.rows.map (RecordData.rrIn zone)) := by
  refine (h.run.forall (P := fun r => TxtOk r ∧ (r.rrIn zone).isSome) (fun r hr => ⟨h.oldTxt r hr, ?_⟩) fun r hr => ?_).map
    fun s hs => hs.1.rrIn_nodup hwire hbase64 hs.2
  · -- an old row is in the log, or still there
    by_cases hdel : .del r ∈ recordLog log
    · obtain ⟨d, hd, -, rfl, hsoa⟩ := del_mem_recordLog.1 hdel
      exact h.logServed d hd hsoa
    · exact h.served r (h.run.mem_of_not_deleted hr hdel)
  · obtain ⟨c, hc, -, rfl, hsoa⟩ := add_mem_recordLog.1 hr
    exact ⟨h.logTxt c hc, h.logServed c hc hsoa⟩

/-- A record that the log adds and does not delete any more. -/
theorem addedLast_of_split (h : ServedLog zone log st₀ st) {before after : List (Journal.Change (Option ResourceRecord))}
    (hsplit : (recordLog log).map (Journal.Change.map (RecordData.rrIn zone)) = before ++ .add (some a) :: after)
    (hafter : .del (some a) ∉ after) : AddedLast zone log a := by
  obtain ⟨l₁, l₂, hlog, -, hl₂⟩ := List.map_eq_append_iff.1 hsplit
  obtain ⟨e, l₃, rfl, he, rfl⟩ := List.map_eq_cons_iff.1 hl₂
  obtain ⟨c₁, c₂, hcs, -, hc₂⟩ := List.filterMap_eq_append_iff.1 hlog
  obtain ⟨d₁, c, d₂, rfl, -, hentry, rfl⟩ := List.filterMap_eq_cons_iff.1 hc₂
  cases e with
  | del r => cases he
  | add r =>
      rw [Journal.Change.map, Journal.Change.add.injEq] at he
      obtain ⟨hop, rfl, -⟩ := ZoneChange.entry_eq_add.1 hentry
      rw [← List.append_assoc] at hcs
      refine ⟨c, by simp [hcs], hop, he, fun d hd hlt hdel hda => hafter ?_⟩
      -- what has a later serial comes after it in the log
      have hd₂ : d ∈ d₂ := by
        have hsorted := h.sorted
        rw [hcs] at hd hsorted
        obtain ⟨-, -, hbefore⟩ := List.pairwise_append.1 hsorted
        rcases List.mem_append.1 hd with hd | hd
        · have := hbefore d hd c List.mem_cons_self
          omega
        · rcases List.mem_cons.1 hd with rfl | hd
          · omega
          · exact hd
      exact del_mem_map.2 ⟨d, hd₂, hdel, hda⟩

theorem mem_rrsIn_cases (hwire : crates.Rfc1035Wire) (hbase64 : crates.Base64RoundTrip) (h : ServedLog zone log st₀ st)
    (ha : a ∈ st.rrsIn zone) : AddedLast zone log a ∨ a ∈ st₀.rrsIn zone ∧ ¬ DeletedIn zone log a := by
  rcases (h.runRecords hwire hbase64).mem_end (fun _ hs => hs) (ZoneStore.mem_rrsIn.1 ha) with ⟨hold, hdel⟩ | ⟨before, after, hsplit, hafter⟩
  · exact .inr ⟨ZoneStore.mem_rrsIn.2 hold, fun h => hdel (del_mem_map.2 h)⟩
  · exact .inl (h.addedLast_of_split hsplit hafter)

theorem mem_rrsIn_of_not_deleted (hwire : crates.Rfc1035Wire) (hbase64 : crates.Base64RoundTrip)
    (h : ServedLog zone log st₀ st) (ha : a ∈ st₀.rrsIn zone) (hdel : ¬ DeletedIn zone log a) : a ∈ st.rrsIn zone :=
  ZoneStore.mem_rrsIn.2 ((h.runRecords hwire hbase64).mem_of_not_deleted (ZoneStore.mem_rrsIn.1 ha) fun h =>
    hdel (del_mem_map.1 h))

end ServedLog

/-! ### When the two agree -/

/-- The log since an old state, sent serial by serial, leads from the old records to the new ones: what is added and
deleted under no later serial is there now, and what the log does not name has the names it had. -/
structure Regroups (st₀ st : ZoneStore) : Prop where
  added : ∀ a, AddedLast st.zone.name (st.changesBetween st₀.zone.serial st.zone.serial) a → a ∈ st.rrsIn st.zone.name
  named : ∀ a, ¬ AddedLast st.zone.name (st.changesBetween st₀.zone.serial st.zone.serial) a →
    ¬ DeletedIn st.zone.name (st.changesBetween st₀.zone.serial st.zone.serial) a →
      (a ∈ st₀.rrsIn st₀.zone.name ↔ a ∈ st₀.rrsIn st.zone.name)

theorem eq_rrsIn_iff (hwire : crates.Rfc1035Wire) (hbase64 : crates.Base64RoundTrip) {st₀ st : ZoneStore}
    (h : ServedLog st.zone.name (st.changesBetween st₀.zone.serial st.zone.serial) st₀ st) {held : Set ResourceRecord}
    (hheld : ∀ a, a ∈ held ↔ AddedLast st.zone.name (st.changesBetween st₀.zone.serial st.zone.serial) a ∨
      a ∈ st₀.rrsIn st₀.zone.name ∧ ¬ DeletedIn st.zone.name (st.changesBetween st₀.zone.serial st.zone.serial) a) :
    held = st.rrsIn st.zone.name ↔ Regroups st₀ st := by
  constructor
  · rintro rfl
    refine ⟨fun a ha => (hheld a).2 (.inl ha), fun a hadd hdel => ⟨fun ha => ?_, fun ha => ?_⟩⟩
    · rcases h.mem_rrsIn_cases hwire hbase64 ((hheld a).2 (.inr ⟨ha, hdel⟩)) with ha | ⟨ha, -⟩
      · exact absurd ha hadd
      · exact ha
    · rcases (hheld a).1 (h.mem_rrsIn_of_not_deleted hwire hbase64 ha hdel) with ha | ⟨ha, -⟩
      · exact absurd ha hadd
      · exact ha
  · intro hr
    ext a
    rw [hheld]
    constructor
    · rintro (ha | ⟨ha, hdel⟩)
      · exact hr.added a ha
      · by_cases hadd : AddedLast st.zone.name (st.changesBetween st₀.zone.serial st.zone.serial) a
        · exact hr.added a hadd
        · exact h.mem_rrsIn_of_not_deleted hwire hbase64 ((hr.named a hadd hdel).1 ha) hdel
    · intro ha
      by_cases hadd : AddedLast st.zone.name (st.changesBetween st₀.zone.serial st.zone.serial) a
      · exact .inl hadd
      · obtain ⟨ha, hdel⟩ := (h.mem_rrsIn_cases hwire hbase64 ha).resolve_left hadd
        exact .inr ⟨(hr.named a hadd hdel).2 ha, hdel⟩

theorem found_addSoa {zone : Zone} {serial : ℕ} {a : Option ResourceRecord} (h : found qname (·.addSoa zone serial) = .ok a) :
    ∃ owner mailbox mname rname, zone.soaMailbox = .ok mailbox ∧ parseName zone.name.text = .ok owner ∧
      parseName zone.primaryNs.text = .ok mname ∧ parseName mailbox = .ok rname ∧
      a = some ⟨owner, asU32 zone.ttl, .soa mname rname serial (asU32 zone.refresh) (asU32 zone.retry) (asU32 zone.expire)
        (asU32 zone.minimumTtl)⟩ := by
  obtain ⟨b, hb, rfl⟩ := Fallible.map_eq_ok.1 h
  obtain ⟨mailbox, hmailbox, hb⟩ := Fallible.bind_eq_ok.1 hb
  obtain ⟨mname, hmname, hb⟩ := Fallible.bind_eq_ok.1 hb
  obtain ⟨rname, hrname, hb⟩ := Fallible.bind_eq_ok.1 hb
  obtain ⟨owner, howner, hb⟩ := Fallible.bind_eq_ok.1 hb
  cases hb
  exact ⟨owner, mailbox, mname, rname, Fallible.mapError_eq_ok.1 hmailbox, howner, hmname, hrname, rfl⟩

theorem readFull_zoneAdds {st : ZoneStore} (hok : StoreOk st) {serial : ℕ} {full : List ResourceRecord}
    (h : answersOf qname (zoneAdds st.zone serial st.listRecords) = .ok full) :
    ∃ soa, found qname (·.addSoa st.zone serial) = .ok (some soa) ∧
      readFull full = some ⟨soa, st.rrsIn st.zone.name⟩ ∧ ∀ r ∈ st.liveRecords, (r.rrIn st.zone.name).isSome := by
  obtain ⟨_, _, hfirst, hend, rfl⟩ := answersOf_append_eq_ok.1 h
  obtain ⟨_, _, hsoa, hrows, rfl⟩ := answersOf_cons_eq_ok.1 hfirst
  obtain ⟨_, _, hlast, hnil, rfl⟩ := answersOf_cons_eq_ok.1 hend
  rw [hsoa] at hlast
  cases hlast
  cases hnil
  have hmap : (st.listRecords.map fun r b => b.addRecord r st.zone.name) =
      (st.listRecords.map (·.toRecordData)).map fun r (b : DnsMessageBuilder) => b.addRecordParts st.zone.name r := by
    rw [List.map_map]
    rfl
  rw [hmap] at hrows
  obtain ⟨rfl, hall⟩ := answersOf_rows hrows
  have hmem : ∀ r, r ∈ st.listRecords.map (·.toRecordData) ↔ r ∈ st.liveRecords := fun r => by
    simp [ZoneStore.liveRecords, ZoneStore.listRecords]
  obtain ⟨owner, mailbox, mname, rname, -, -, -, -, e⟩ := found_addSoa hsoa
  subst e
  refine ⟨_, hsoa, ?_, fun r hr => hall r ((hmem r).2 hr) (hok.rows.1 r hr).notSoa⟩
  have hrecords : {a | a ∈ (st.listRecords.map (·.toRecordData)).filterMap (RecordData.rrIn st.zone.name)} =
      st.rrsIn st.zone.name := by
    ext a
    simp only [Set.mem_ofPred_eq, List.mem_filterMap, hmem]
    rfl
  rw [← hrecords]
  exact Rfc1995.readFull_answers rfl _

theorem newSoa_eq (hwire : crates.Rfc1035Wire) {st : ZoneStore} (hok : StoreOk st) {snapshots : ℕ → Option ZoneSnapshot}
    (hsnapshots : ∀ k sn, snapshots k = some sn → sn ∈ st.snapshots ∧ sn.serial = k) {changes : List ZoneChange} {serial : ℕ}
    (hserial : st.zone.serial = serial) (hqname : qname.lower.labels = wireLabels st.zone.name.labels) {d : Delta}
    (hd : IsDelta qname st.zone.name changes snapshots serial d) {soa : ResourceRecord}
    (hsoa : found qname (·.addSoa st.zone serial) = .ok (some soa)) :
    d.newSoa.owner.lower = soa.owner.lower ∧ d.newSoa.ttl = soa.ttl ∧ d.newSoa.data = soa.data := by
  obtain ⟨sn, hsn, hnew⟩ := hd.newSoa
  obtain ⟨mname, rname, serial', hmname, hrname, hserial', e⟩ := hnew.eq
  obtain ⟨owner, mailbox, mname', rname', hmailbox, howner, hmname', hrname', e'⟩ := found_addSoa hsoa
  -- the snapshot of the current serial is of the zone's row
  obtain ⟨hmem, hsnSerial⟩ := hsnapshots _ _ hsn
  obtain rfl : serial' = serial := by
    have h := natCast_of_serialToU32 hserial'
    rw [hsnSerial] at h
    exact_mod_cast h.symm
  obtain ⟨current, hcurrent, hlast⟩ := hok.current
  have hsame : sn = current := by
    have h := hok.snapshotBySerial_serial hmem
    rw [hsnSerial, ← hserial, ← Zone.snapshot_serial hcurrent,
      hok.snapshotBySerial_serial (List.mem_of_getLast? hlast)] at h
    exact (Option.some.inj h).symm
  subst hsame
  obtain ⟨m, hm, hz⟩ := Fallible.bind_eq_ok.1 hcurrent
  cases hz
  rw [hmailbox] at hm
  cases hm
  rw [hmname] at hmname'
  cases hmname'
  rw [hrname] at hrname'
  cases hrname'
  cases e'
  rw [e]
  refine ⟨Name.ext ?_, rfl, rfl⟩
  have hlabels : owner.labels = wireLabels st.zone.name.labels := by
    obtain ⟨n, hn, hlabels⟩ := exists_parseName_zone hwire st.zone.name (.inl rfl)
    rw [List.append_nil, howner] at hn
    cases hn
    exact hlabels
  have hlower : st.zone.name.labels.map toAsciiLowercase = st.zone.name.labels :=
    (List.map_congr_left fun l hl => (st.zone.name.isZoneText.2 l hl).2).trans (List.map_id' _)
  rw [hqname, lower_labels_eq hlabels, hlower]

omit crates in
theorem mem_snapshotsBySerial {snapshots : List ZoneSnapshot} {serial : ℕ} {sn : ZoneSnapshot}
    (h : snapshotsBySerial snapshots serial = some sn) : sn ∈ snapshots ∧ sn.serial = serial := by
  have hmem := List.mem_of_getLast? h
  simp only [List.mem_filter, decide_eq_true_eq] at hmem
  exact hmem

theorem exists_getLast? {zone : ZoneName} {changes : List ZoneChange} {snapshots : ℕ → Option ZoneSnapshot} {serials : List ℕ}
    {ds : List Delta} (h : List.Forall₂ (IsDelta qname zone changes snapshots) serials ds) {k : ℕ} (hk : serials.getLast? = some k) :
    ∃ d, ds.getLast? = some d ∧ IsDelta qname zone changes snapshots k d := by
  obtain ⟨before, rfl⟩ := List.getLast?_eq_some_iff.1 hk
  have h := List.forall₂_reverse_iff.2 h
  rw [List.reverse_append, List.reverse_singleton, List.singleton_append, List.forall₂_cons_left_iff] at h
  obtain ⟨d, rest, hd, -, e⟩ := h
  rw [List.reverse_eq_cons_iff] at e
  exact ⟨d, by simp [e], hd⟩

/-! ### Requests -/

/-- An incremental answer leads from the records `base` to what a full transfer holds, whatever SOA was held. -/
def LeadsTo (base : Set ResourceRecord) (answers full : List ResourceRecord) : Prop :=
  ∃ ds c, readIncremental answers = some ds ∧ readFull full = some c ∧ ∀ soa, (Copy.applyAll ⟨soa, base⟩ ds).Same c

/-- The log since an earlier state, when all of it and all of the zone is served. -/
theorem servedLog_of_heldAt (htxt : crates.TxtOctets) {ops : List Op} (hops : ∀ op ∈ ops, op.WellTyped) {st st₀ : ZoneStore}
    (hst : st ∈ (run ops).stores) {s : ℤ} (hheld : HeldAt ops st s st₀)
    (hlog : ∀ c ∈ st.changesBetween s st.zone.serial, c.record.recordType ≠ .soa → (c.record.rrIn st.zone.name).isSome)
    (hrows : ∀ r ∈ st.liveRecords, (r.rrIn st.zone.name).isSome) :
    ServedLog st.zone.name (st.changesBetween st₀.zone.serial st.zone.serial) st₀ st := by
  obtain ⟨pre, hpre, hst₀, hid, rfl⟩ := hheld
  have hev := run_evolves hpre hst₀ hst hid
  have h₀ := (run_ok pre).store st₀ hst₀
  have h := (run_ok ops).store st hst
  obtain ⟨log, hchanges, hlt, hrun⟩ := hev.log h₀
  have hbetween := changesBetween_eq h₀ h hchanges hlt
  rw [hbetween] at hlog ⊢
  refine ⟨hrun, ?_, fun r hr => ?_, fun c hc => ?_, hlog, hrows⟩
  · have hsorted := List.pairwise_map.1 h.sorted
    rw [hchanges] at hsorted
    exact (List.pairwise_append.1 hsorted).2.1
  · obtain ⟨row, hrow, rfl⟩ := List.mem_map.1 hr
    exact (run_txtOk htxt (fun op hop => hops op (hpre.subset hop)) st₀ hst₀).1 row hrow
  · exact (run_txtOk htxt hops st hst).2 c (by rw [hchanges]; exact List.mem_append_right _ hc)

/-- **One request.**  A client that held the zone at serial `s` and applies an incremental answer has what a full transfer
sends exactly when the log since `s` regroups. -/
theorem leadsTo_iff (hwire : crates.Rfc1035Wire) (hbase64 : crates.Base64RoundTrip) (htxt : crates.TxtOctets) {ops : List Op}
    (hops : ∀ op ∈ ops, op.WellTyped) {st : ZoneStore} (hst : st ∈ (run ops).stores) {cat : Except XfrError (Zone × List Text)}
    {query : ParsedQuery} (hquery : query.Parsed) {s : ℕ} {changes : List ZoneChange} {snapshots : ℕ → Option ZoneSnapshot}
    (hplan : ixfrPlan ((run ops).transferReads cat) query = .ok (.incremental st.zone s changes snapshots))
    {answers full : List ResourceRecord} (hanswers : answersOf query.qname (ixfrAdds st.zone s changes snapshots) = .ok answers)
    {adds : List AddAnswer} (hadds : axfrAdds ((run ops).transferReads cat) query = .ok adds)
    (hfull : answersOf query.qname adds = .ok full) {st₀ : ZoneStore} (hheld : HeldAt ops st s st₀) :
    LeadsTo (st₀.rrsIn st₀.zone.name) answers full ↔ Regroups st₀ st := by
  have hdb := run_ok ops
  obtain ⟨st', hst', hzone, hname, -, hcatalog, hinc⟩ := ixfrPlan_incremental hdb hplan
  obtain rfl := hdb.eq_of_id_eq hst' hst (congrArg Zone.id hzone)
  have hok := hdb.store st' hst'
  have hserial : st'.zone.serial = (st'.zone.serial.toNat : ℤ) := by
    have := hinc.lt
    omega
  -- what the full transfer sends
  rw [(delivers_of_mem hdb hst' hcatalog hname hserial).axfrAdds] at hadds
  cases hadds
  obtain ⟨soa, hsoa, hread, hrows⟩ := readFull_zoneAdds hok hfull
  -- what the incremental answer sends
  obtain ⟨serials, hserials, hchain, hlast, -⟩ := hinc.serials
  obtain ⟨ds, hreadInc, hds⟩ := readIncremental_ixfrAdds hserials hanswers
  obtain ⟨d, hd, hdelta⟩ := exists_getLast? hds hlast
  have hcomposed := (List.forall₂_and_left (p := fun k : ℕ => ∀ c ∈ changes, c.serial = k → c.record.recordType ≠ .soa →
    (c.record.rrIn st'.zone.name).isSome) _ _).1 (hds.imp fun k d h => ⟨h.composed, h⟩) |>.1
  have hsame := newSoa_eq hwire hok (fun k sn h => by
    rw [hinc.snapshotsRead] at h
    obtain ⟨hmem, hk⟩ := mem_snapshotsBySerial h
    exact ⟨List.mem_of_mem_filter hmem, hk⟩) hserial (hquery.lower_labels hname) hdelta hsoa
  have hs : st₀.zone.serial = s := by
    obtain ⟨_, _, _, _, hs⟩ := hheld
    exact hs
  have hlog := servedLog_of_heldAt htxt hops hst' hheld (fun c hc => by
    rw [← hinc.changesRead] at hc
    obtain ⟨k, hk, hck⟩ := (mem_sortedSerials hserials).2 c hc
    exact hcomposed k hk c hc hck) hrows
  have hiff : ∀ soa₀, (Copy.applyAll ⟨soa₀, st₀.rrsIn st₀.zone.name⟩ ds).records = st'.rrsIn st'.zone.name ↔ Regroups st₀ st' := by
    intro soa₀
    refine eq_rrsIn_iff hwire hbase64 hlog fun a => ?_
    rw [mem_applyAll_iff hserials hchain hds, hs, hinc.changesRead]
  constructor
  · rintro ⟨ds', c, hds', hc, hall⟩
    rw [hreadInc] at hds'
    rw [hread] at hc
    cases hds'
    cases hc
    exact (hiff soa).1 (hall soa).records
  · intro hr
    refine ⟨ds, _, hreadInc, hread, fun soa₀ => ⟨?_, ?_, ?_, (hiff soa₀).2 hr⟩⟩
    · rw [Copy.applyAll_soa hd]
      exact hsame.1
    · rw [Copy.applyAll_soa hd]
      exact hsame.2.1
    · rw [Copy.applyAll_soa hd]
      exact hsame.2.2

/-! ### Histories -/

/-- Commits that keep the zone's name and undo nothing they log leave what they log last. -/
theorem exists_log_of_steadily {st₀ st : ZoneStore} (h : Relation.ReflTransGen Steadily st₀ st) (zone : ZoneName) :
    st.zone.name = st₀.zone.name ∧ ∃ log, st.changes = st₀.changes ++ log ∧
      (∀ c ∈ log, st₀.zone.serial < c.serial ∧ c.serial ≤ st.zone.serial) ∧ st₀.zone.serial ≤ st.zone.serial ∧
      ∀ a, AddedLast zone log a → a ∈ st.rrsIn zone := by
  induction h with
  | refl => exact ⟨rfl, [], by simp, by simp, le_rfl, fun a ⟨c, hc, _⟩ => by cases hc⟩
  | @tail st₁ st _ hstep ih =>
      obtain ⟨hname, log, hlog, hserials, hle, hadded⟩ := ih
      obtain ⟨cs, ha, hlast, hname'⟩ := hstep
      have hserial := ha.serial
      refine ⟨hname'.trans hname, log ++ cs, by rw [ha.changes, hlog, List.append_assoc], fun c hc => ?_, by omega, ?_⟩
      · rcases List.mem_append.1 hc with hc | hc
        · have := hserials c hc
          omega
        · have := ha.serials c hc
          omega
      · rintro a ⟨c, hc, hop, hca, hlater⟩
        rcases List.mem_append.1 hc with hc | hc
        · -- it was there before the commit, which does not delete it
          obtain ⟨r, hr, hra⟩ := hadded a ⟨c, hc, hop, hca, fun d hd => hlater d (List.mem_append_left _ hd)⟩
          refine ⟨r, ha.run.mem_of_not_deleted hr fun hdel => ?_, hra⟩
          obtain ⟨d, hd, hddel, rfl, -⟩ := del_mem_recordLog.1 hdel
          have h1 := hserials c hc
          have h2 := ha.serials d hd
          exact hlater d (List.mem_append_right _ hd) (by omega) hddel hra
        · exact ⟨c.record, ha.run.mem_of_lasting hlast
            (add_mem_recordLog.2 ⟨c, hc, hop, rfl, RecordData.notSoa_of_rrIn hca⟩), hca⟩

theorem run_regroups {ops : List Op} (hops : ∀ op ∈ ops, op.Steady) {st st₀ : ZoneStore} (hst : st ∈ (run ops).stores)
    {s : ℤ} (hheld : HeldAt ops st s st₀) : Regroups st₀ st := by
  obtain ⟨pre, hpre, hst₀, hid, -⟩ := hheld
  have h₀ := (run_ok pre).store st₀ hst₀
  have h := (run_ok ops).store st hst
  obtain ⟨hname, log, hlog, hserials, -, hadded⟩ :=
    exists_log_of_steadily (run_steadily hpre hops hst₀ hst hid) st.zone.name
  have hbetween := changesBetween_eq h₀ h hlog fun c hc => (hserials c hc).1
  refine ⟨by rw [hbetween]; exact hadded, fun a _ _ => ?_⟩
  rw [hname]

/-! ### The full transfer instead -/

omit crates in
theorem serialToU32_of_nonneg {serial : ℤ} (h : 0 ≤ serial) : serialToU32 serial = .ok serial.toNat :=
  if_neg (by omega)

omit crates in
theorem ixfrPlan_of_isIncremental {db : Db} (hdb : DbOk db) (cat : Except XfrError (Zone × List Text)) {st : ZoneStore}
    (hst : st ∈ db.stores) {query : ParsedQuery} (hcatalog : isCatalogZone query.zoneName = false)
    (hname : normalizeZoneName query.zoneName = .ok st.zone.name) {s : ℕ} (hclient : query.clientSerial = some s)
    {changes : List ZoneChange} {snapshots : ℕ → Option ZoneSnapshot} (h : IsIncremental st s changes snapshots) :
    ixfrPlan (db.transferReads cat) query = .ok (.incremental st.zone s changes snapshots) := by
  have hbound := (hdb.store st hst).bound
  rw [i32Max] at hbound
  have hlt := h.lt
  obtain ⟨serials, hserials, hchain, hlast, hsnapshots⟩ := h.serials
  obtain ⟨current, hcurrent⟩ : ∃ current : ℕ, st.zone.serial = current := ⟨st.zone.serial.toNat, by omega⟩
  have hdelivers := @delivers_of_mem _ hdb cat _ hst _ hcatalog hname _ hcurrent
  have hchanges : readOr ((db.transferReads cat).listChangesBetweenSerials st.zone.id (asI32 s) (asI32 current)) = .ok changes := by
    rw [show (db.transferReads cat).listChangesBetweenSerials st.zone.id (asI32 s) (asI32 current) =
      .ok (db.listById st.zone.id (·.changesBetween (asI32 s) (asI32 current))) from rfl, hdb.listById_eq hst,
      asI32_of_lt (by omega), asI32_of_lt (by omega), ← hcurrent, ← h.changesRead]
    rfl
  have hfound : readOr ((db.transferReads cat).listSnapshotsInRange st.zone.id (asI32 s) (asI32 current)) =
      .ok (st.snapshots.filter fun sn => (s : ℤ) ≤ sn.serial ∧ sn.serial ≤ st.zone.serial) := by
    rw [show (db.transferReads cat).listSnapshotsInRange st.zone.id (asI32 s) (asI32 current) =
      .ok (db.listById st.zone.id fun st => st.snapshots.filter fun sn => asI32 s ≤ sn.serial ∧ sn.serial ≤ asI32 current)
      from rfl, hdb.listById_eq hst, asI32_of_lt (by omega), asI32_of_lt (by omega), ← hcurrent]
    rfl
  rw [hcurrent, Int.toNat_natCast] at hlast
  rw [ixfrPlan, hcatalog, if_neg Bool.false_ne_true, hdelivers.zoneRead, Fallible.ok_bind, hdelivers.serialSent, Fallible.ok_bind,
    hclient]
  simp only
  rw [if_neg (by omega), if_neg (by omega), deltaPlan, hchanges, Fallible.ok_bind, if_neg h.ne_nil, hserials, Fallible.ok_bind]
  simp only
  rw [if_neg (not_not.2 hchain), if_neg (not_not.2 hlast), hfound, Fallible.ok_bind, ← h.snapshotsRead, if_pos hsnapshots]
  rfl

omit crates in
theorem exists_ixfrPlan {db : Db} (hdb : DbOk db) {cat : Except XfrError (Zone × List Text)} {query : ParsedQuery} {zone : Zone}
    (hzone : (db.transferReads cat).zone query = .ok zone) (hclient : query.clientSerial ≠ some zone.serial.toNat) :
    ixfrPlan (db.transferReads cat) query = .ok .fallback ∨ ∃ s changes snapshots,
      ixfrPlan (db.transferReads cat) query = .ok (.incremental zone s changes snapshots) := by
  obtain ⟨st, hst, rfl, -⟩ := zone_eq_ok hzone
  have hok := hdb.store st hst
  have hbound := hok.bound
  rw [i32Max] at hbound
  have hpos : 0 ≤ st.zone.serial := by
    obtain ⟨first, k, h1, h2, -⟩ := hok.snapshots
    omega
  unfold ixfrPlan
  split
  · exact .inl rfl
  rw [hzone, Fallible.ok_bind, serialToU32_of_nonneg hpos, Fallible.ok_bind]
  cases hserial : query.clientSerial with
  | none => exact .inl rfl
  | some s =>
      simp only
      rw [if_neg (by rintro rfl; exact hclient hserial)]
      split
      · exact .inl rfl
      rename_i hle
      have hreads : ∀ c ∈ db.listById st.zone.id (·.changesBetween (asI32 s) (asI32 st.zone.serial.toNat)), 0 ≤ c.serial := by
        intro c hc
        rw [hdb.listById_eq hst, asI32_of_lt (by omega), ZoneStore.changesBetween, List.mem_mergeSort, List.mem_filter,
          Bool.and_eq_true, decide_eq_true_eq] at hc
        omega
      obtain ⟨serials, hserials⟩ := Fallible.mapM_eq_ok_of_forall (f := fun c : ZoneChange => serialToU32 c.serial)
        fun c hc => ⟨_, serialToU32_of_nonneg (hreads c hc)⟩
      have hchanges : readOr ((db.transferReads cat).listChangesBetweenSerials st.zone.id (asI32 s)
          (asI32 st.zone.serial.toNat)) = .ok (db.listById st.zone.id (·.changesBetween (asI32 s) (asI32 st.zone.serial.toNat))) := rfl
      rw [deltaPlan, hchanges, Fallible.ok_bind]
      split
      · exact .inl rfl
      rw [hserials, Fallible.ok_bind]
      simp only
      split
      · exact .inl rfl
      split
      · exact .inl rfl
      have hsnapshots : ∃ found, readOr ((db.transferReads cat).listSnapshotsInRange st.zone.id (asI32 s)
          (asI32 st.zone.serial.toNat)) = .ok found := ⟨_, rfl⟩
      obtain ⟨found, hfound⟩ := hsnapshots
      rw [hfound, Fallible.ok_bind]
      split
      · exact .inr ⟨_, _, _, rfl⟩
      · exact .inl rfl

/-- The handler sends an incremental answer, at least its first message, or goes on with a full transfer. -/
theorem ixfrResponse_fallback {db : Db} (hdb : DbOk db) {cat : Except XfrError (Zone × List Text)} {query : ParsedQuery}
    {zone : Zone} (hzone : (db.transferReads cat).zone query = .ok zone) (hclient : query.clientSerial ≠ some zone.serial.toNat)
    (w : Writer) : (∃ w', ixfrResponse (db.transferReads cat) query w = (.fallback, w')) ∨
      ∃ s changes snapshots, ixfrPlan (db.transferReads cat) query = .ok (.incremental zone s changes snapshots) ∧
        ((Sending.stream ⟨w, .new query.queryId query.qname rtypeIxfr, 0⟩ (ixfrAdds zone s changes snapshots)).1 = .ok () ∨
          0 < (Sending.stream ⟨w, .new query.queryId query.qname rtypeIxfr, 0⟩ (ixfrAdds zone s changes snapshots)).2.messagesSent) := by
  rcases exists_ixfrPlan hdb hzone hclient with hplan | ⟨s, changes, snapshots, hplan⟩
  · exact .inl ⟨w, by rw [ixfrResponse, hplan]⟩
  · rw [ixfrResponse_incremental hplan]
    cases hstream : Sending.stream ⟨w, .new query.queryId query.qname rtypeIxfr, 0⟩ (ixfrAdds zone s changes snapshots) with
    | mk result sent =>
        cases result with
        | ok _ => exact .inr ⟨s, changes, snapshots, hplan, .inl (by rw [hstream])⟩
        | error e =>
            by_cases hsent : 0 < sent.messagesSent
            · exact .inr ⟨s, changes, snapshots, hplan, .inr (by rw [hstream]; exact hsent)⟩
            · exact .inl ⟨sent.writer, by simp [hsent]⟩

/-- **Incremental and full transfers.**  A client that held a zone at serial `s` and applies an incremental answer has the
records and the SOA of a full transfer exactly when the log since `s` regroups.  In a history where no UPDATE deletes what
it added and no zone is renamed, every log does.  A request about a zone, from a client at another serial, is
answered incrementally or by a full transfer, unless the incremental answer fails after its first message. -/
theorem ixfr_equals_axfr (hwire : crates.Rfc1035Wire) (hbase64 : crates.Base64RoundTrip) (htxt : crates.TxtOctets)
    {ops : List Op} (hops : ∀ op ∈ ops, op.WellTyped) :
    (∀ st ∈ (run ops).stores, ∀ cat query s changes snapshots answers adds full st₀, query.Parsed →
      ixfrPlan ((run ops).transferReads cat) query = .ok (.incremental st.zone s changes snapshots) →
      Sends query.queryId query.qname rtypeIxfr (ixfrAdds st.zone s changes snapshots) answers →
      axfrAdds ((run ops).transferReads cat) query = .ok adds → Sends query.queryId query.qname rtypeAxfr adds full →
      HeldAt ops st s st₀ → (LeadsTo (st₀.rrsIn st₀.zone.name) answers full ↔ Regroups st₀ st)) ∧
    ((∀ op ∈ ops, op.Steady) → ∀ st ∈ (run ops).stores, ∀ s st₀, HeldAt ops st s st₀ → Regroups st₀ st) ∧
    ∀ cat query zone w, ((run ops).transferReads cat).zone query = .ok zone → query.clientSerial ≠ some zone.serial.toNat →
      (∃ w', ixfrResponse ((run ops).transferReads cat) query w = (.fallback, w')) ∨
        ∃ s changes snapshots, ixfrPlan ((run ops).transferReads cat) query = .ok (.incremental zone s changes snapshots) ∧
          ((Sending.stream ⟨w, .new query.queryId query.qname rtypeIxfr, 0⟩ (ixfrAdds zone s changes snapshots)).1 = .ok () ∨
            0 < (Sending.stream ⟨w, .new query.queryId query.qname rtypeIxfr, 0⟩
              (ixfrAdds zone s changes snapshots)).2.messagesSent) := by
  refine ⟨?_, fun hsteady st hst s st₀ hheld => run_regroups hsteady hst hheld, fun cat query zone w hzone hclient =>
    ixfrResponse_fallback (run_ok ops) hzone hclient w⟩
  intro st hst cat query s changes snapshots answers adds full st₀ hquery hplan hanswers hadds hfull hheld
  exact leadsTo_iff hwire hbase64 htxt hops hst hquery hplan hanswers.1 hadds hfull.1 hheld

/-- Whether what is added fits in messages of its own. -/
def fits (qname : Name) (adds : List AddAnswer) : Bool :=
  (answersOf qname adds).toOption.any fun answers =>
    answers.all fun a => decide (12 + qname.len + 4 + (crates.composeRecord a).length ≤ dnsTcpMaxSize)

theorem exists_sends_of_fits {queryId : ℕ} {qname : Name} {qtype : ℕ} {adds : List AddAnswer}
    (hadds : ∀ add ∈ adds, Sending.AddsFound qname add) (h : fits qname adds = true) :
    ∃ answers, Sends queryId qname qtype adds answers := by
  obtain ⟨answers, hanswers, hall⟩ := (Option.any_eq_true _ _).1 h
  exact ⟨answers, (Sending.sends_iff hadds).2 ⟨by
    cases hr : answersOf qname adds with
    | error e =>
        rw [hr] at hanswers
        cases hanswers
    | ok _ =>
        rw [hr] at hanswers
        cases hanswers
        rfl, fun a ha => by simpa using List.all_eq_true.1 hall a ha⟩⟩

end Records

theorem changesBetween_of_last {st : ZoneStore} (h : StoreOk st) {s : ℤ} (hs : ∀ c ∈ st.changes, s < c.serial) :
    st.changesBetween s st.zone.serial = st.changes := by
  have hfilter : (st.changes.filter fun c => decide (s < c.serial) && decide (c.serial ≤ st.zone.serial)) = st.changes := by
    refine List.filter_eq_self.2 fun c hc => ?_
    simp [hs c hc, h.changesLe c hc]
  rw [ZoneStore.changesBetween, hfilter]
  refine List.mergeSort_of_pairwise ((List.pairwise_map.1 h.sorted).imp fun hle => ?_)
  simpa using hle

/-- The SOAs a client at serial `s` is answered with. -/
def ZoneStore.snapshotsFrom (st : ZoneStore) (s : ℕ) : ℕ → Option ZoneSnapshot :=
  snapshotsBySerial (st.snapshots.filter fun sn => (s : ℤ) ≤ sn.serial ∧ sn.serial ≤ st.zone.serial)

section Sample

attribute [local instance] sampleCrates

/-- One update message that adds an address and deletes it again. -/
def undoneUpdate : DynamicUpdate where
  zoneName := lit "example.com"
  key := none
  prerequisites := []
  updates := [.add (lit "new.example.com.") .a (lit "192.0.2.9") 300 none, .deleteRrset (lit "new.example.com.") (some .a)]

/-- The sample zone, and the update. -/
def undone : List Op := sampleHistory.take 1 ++ [.applyUpdate undoneUpdate]

theorem toDynamicUpdate_undone : toDynamicUpdate ⟨lit "example.com.", [],
    [⟨lit "new.example.com.", 1, 1, 300, [192, 0, 2, 9], 0⟩, ⟨lit "new.example.com.", 1, 255, 0, [], 4⟩], none⟩ [192, 0, 2, 9] none =
      .ok undoneUpdate := by
  rfl

theorem sampleQuery_parsed : sampleQuery.Parsed := ⟨lit "example.com", .inl labelsText_exampleCom, by decide⟩

/-- The address is deleted before it is added in the answer, so that a client ends with it; a full transfer does not have it. -/
theorem undone_address_kept : ∃ st ∈ (run undone).stores, ∃ changes snapshots answers adds full st₀,
    sampleQuery.Parsed ∧
    ixfrPlan ((run undone).transferReads noCatalog) sampleQuery = .ok (.incremental st.zone 1 changes snapshots) ∧
    Sends sampleQuery.queryId sampleQuery.qname rtypeIxfr (ixfrAdds st.zone 1 changes snapshots) answers ∧
    axfrAdds ((run undone).transferReads noCatalog) sampleQuery = .ok adds ∧
    Sends sampleQuery.queryId sampleQuery.qname rtypeAxfr adds full ∧ HeldAt undone st 1 st₀ ∧
    ¬ LeadsTo (st₀.rrsIn st₀.zone.name) answers full := by
  obtain ⟨st, hst, hname, hid, hserial, hall, hmapM, hsnapshots, hixfr, haxfr, c, hc, hadd, hsome, hgone⟩ :
      ∃ st ∈ (run undone).stores, normalizeZoneName sampleQuery.zoneName = .ok st.zone.name ∧ st.zone.id = 1 ∧
      st.zone.serial = 2 ∧ (∀ c ∈ st.changes, c.serial = 2) ∧
      (st.changes.mapM fun c => serialToU32 c.serial) = .ok [2, 2] ∧ hasSnapshots (st.snapshotsFrom 1) 1 [2] = true ∧
      ((st.snapshotsFrom 1 2).any fun sn => fits sampleQuery.qname
        ((·.addSoaFromSnapshot sn) :: (deltaAdds st.zone.name st.changes
          (st.snapshotsFrom 1) 1 [2] ++ [(·.addSoaFromSnapshot sn)]))) = true ∧
      fits sampleQuery.qname (zoneAdds st.zone 2 st.listRecords) = true ∧
      ∃ c ∈ st.changes, c.operation = .add ∧ (c.record.rrIn st.zone.name).isSome = true ∧
        ∀ r ∈ st.records, r.toRecordData.rrIn st.zone.name ≠
          c.record.rrIn st.zone.name := by
    decide +kernel
  obtain ⟨st₀, hst₀, hid₀, hserial₀⟩ : ∃ st₀ ∈ (run (sampleHistory.take 1)).stores,
      st₀.zone.id = 1 ∧ st₀.zone.serial = 1 := by decide +kernel
  have hok := @run_ok sampleCrates undone
  have hlog : st.changesBetween 1 st.zone.serial = st.changes :=
    changesBetween_of_last (hok.store st hst) fun c hc => by rw [hall c hc]; decide
  have hsorted : sortedSerials [2, 2] = [2] := sortedSerials_replicate 2 1
  have hinc : IsIncremental st 1 st.changes (st.snapshotsFrom 1) := by
    refine ⟨by rw [hserial]; decide, hlog.symm, List.ne_nil_of_mem hc, ⟨[2, 2], hmapM, ?_⟩, rfl⟩
    rw [hsorted, hserial]
    exact ⟨by decide, rfl, hsnapshots⟩
  have hplan := ixfrPlan_of_isIncremental hok noCatalog hst (show isCatalogZone sampleQuery.zoneName = false by decide +kernel)
    hname rfl hinc
  have hdelivers := @delivers_of_mem _ hok noCatalog st hst sampleQuery (by decide +kernel) hname 2 hserial
  obtain ⟨sn, hsn, hfits⟩ := (Option.any_eq_true _ _).1 hixfr
  rw [← hsorted, ← @ixfrAdds_eq sampleCrates st.zone 1 2 st.changes (st.snapshotsFrom 1) sn [2, 2] hdelivers.serialSent hsn hmapM]
    at hfits
  obtain ⟨answers, hanswers⟩ := @exists_sends_of_fits sampleCrates sampleQuery.queryId _ rtypeIxfr _
    (@addsFound_ixfrAdds sampleCrates _ _ _ _ _) hfits
  obtain ⟨full, hfull⟩ := @exists_sends_of_fits sampleCrates sampleQuery.queryId _ rtypeAxfr _
    (@addsFound_zoneAdds sampleCrates _ _ _ _) haxfr
  have hheld : HeldAt undone st 1 st₀ :=
    ⟨sampleHistory.take 1, List.prefix_append _ _, hst₀, hid₀.trans hid.symm, hserial₀⟩
  refine ⟨st, hst, st.changes, st.snapshotsFrom 1, answers, _, full, st₀, sampleQuery_parsed, hplan, hanswers,
    @Delivers.axfrAdds sampleCrates _ _ _ _ _ hdelivers, hfull, hheld, fun hleads => ?_⟩
  have htyped : ∀ op ∈ undone, Op.WellTyped op := by
    simp only [undone, sampleHistory, List.take_succ_cons, List.take_zero, List.cons_append, List.nil_append, List.forall_mem_cons]
    refine ⟨?_, ?_, by simp⟩
    · simp [Op.WellTyped, Op.requestedTtls, Op.items]
    · exact ⟨by simp [Op.requestedTtls, Op.items], _, _, _, toDynamicUpdate_undone⟩
  have hregroups := (@leadsTo_iff sampleCrates sampleCrates_wire sampleCrates_base64 sampleCrates_txt _ htyped _ hst noCatalog _
    sampleQuery_parsed _ _ _ hplan _ _ hanswers.1 _ (@Delivers.axfrAdds sampleCrates _ _ _ _ _ hdelivers) hfull.1 _ hheld).1 hleads
  obtain ⟨a, ha⟩ := Option.isSome_iff_exists.1 hsome
  obtain ⟨r, hr, hra⟩ := @Regroups.added sampleCrates _ _ hregroups a
    ⟨c, by rw [hserial₀, hlog]; exact hc, hadd, ha, fun d hd hlt => by
      rw [hserial₀, hlog] at hd
      rw [hall c hc, hall d hd] at hlt
      exact absurd hlt (lt_irrefl _)⟩
  obtain ⟨row, hrow, rfl⟩ := List.mem_map.1 hr
  exact hgone row hrow (hra.trans ha.symm)

/-- The address of the sample zone is deleted. -/
def withdrawn : List Op := sampleHistory ++ [.deleteById .global 2 (some 1)]

theorem withdrawn_steady : ∀ op ∈ withdrawn, Op.Steady op := by
  simp only [withdrawn, sampleHistory, List.cons_append, List.nil_append, List.forall_mem_cons]
  refine ⟨⟨?_, ?_⟩, ⟨?_, ?_⟩, ⟨?_, ?_⟩, by simp⟩
  all_goals simp [Op.build]

/-- The address is deleted at the client too. -/
theorem ixfr_equals_axfr_withdrawn : ∃ st ∈ (run withdrawn).stores, ∃ changes snapshots answers adds full st₀,
    (queryFrom 2).Parsed ∧
    ixfrPlan ((run withdrawn).transferReads noCatalog) (queryFrom 2) = .ok (.incremental st.zone 2 changes snapshots) ∧
    Sends (queryFrom 2).queryId (queryFrom 2).qname rtypeIxfr (ixfrAdds st.zone 2 changes snapshots)
      answers ∧
    axfrAdds ((run withdrawn).transferReads noCatalog) (queryFrom 2) = .ok adds ∧
    Sends (queryFrom 2).queryId (queryFrom 2).qname rtypeAxfr adds full ∧ HeldAt withdrawn st 2 st₀ ∧
    LeadsTo (st₀.rrsIn st₀.zone.name) answers full := by
  obtain ⟨st, hst, hname, hid, hserial, hlog, hserials, hsnapshots, hixfr, haxfr⟩ :
      ∃ st ∈ (run withdrawn).stores, normalizeZoneName (queryFrom 2).zoneName = .ok st.zone.name ∧ st.zone.id = 1 ∧
      st.zone.serial = 3 ∧ st.changesBetween (2 : ℕ) 3 ≠ [] ∧
      ((st.changesBetween (2 : ℕ) 3).mapM fun c => serialToU32 c.serial) = .ok [3] ∧
      hasSnapshots (st.snapshotsFrom 2) 2 [3] = true ∧
      fits (queryFrom 2).qname
        (ixfrAdds st.zone 2 (st.changesBetween (2 : ℕ) 3) (st.snapshotsFrom 2)) = true ∧
      fits (queryFrom 2).qname (zoneAdds st.zone 3 st.listRecords) = true := by
    decide +kernel
  obtain ⟨st₀, hst₀, hid₀, hserial₀⟩ : ∃ st₀ ∈ (run sampleHistory).stores,
      st₀.zone.id = 1 ∧ st₀.zone.serial = 2 := by decide +kernel
  have hok := @run_ok sampleCrates withdrawn
  have htyped : ∀ op ∈ withdrawn, Op.WellTyped op := by
    simp [withdrawn, sampleHistory, Op.WellTyped, Op.requestedTtls, Op.items, sampleItem]
  have hsorted : sortedSerials [3] = [3] := sortedSerials_replicate 3 0
  have hinc : IsIncremental st 2 (st.changesBetween (2 : ℕ) 3) (st.snapshotsFrom 2) := by
    refine ⟨by rw [hserial]; decide, by rw [hserial], hlog, ⟨[3], hserials, ?_⟩, rfl⟩
    rw [hsorted, hserial]
    exact ⟨by decide, rfl, hsnapshots⟩
  have hcatalog : isCatalogZone (queryFrom 2).zoneName = false := by decide +kernel
  have hplan := ixfrPlan_of_isIncremental hok noCatalog hst hcatalog hname rfl hinc
  have hdelivers := @delivers_of_mem _ hok noCatalog st hst (queryFrom 2) hcatalog hname 3 hserial
  have haxfrAdds := @Delivers.axfrAdds sampleCrates _ _ _ _ _ hdelivers
  obtain ⟨answers, hanswers⟩ := @exists_sends_of_fits sampleCrates (queryFrom 2).queryId _ rtypeIxfr _
    (@addsFound_ixfrAdds sampleCrates _ _ _ _ _) hixfr
  obtain ⟨full, hfull⟩ := @exists_sends_of_fits sampleCrates (queryFrom 2).queryId _ rtypeAxfr _
    (@addsFound_zoneAdds sampleCrates _ _ _ _) haxfr
  have hheld : HeldAt withdrawn st 2 st₀ :=
    ⟨sampleHistory, List.prefix_append _ _, hst₀, hid₀.trans hid.symm, hserial₀⟩
  obtain ⟨hiff, hregroups, -⟩ := @ixfr_equals_axfr sampleCrates sampleCrates_wire sampleCrates_base64 sampleCrates_txt _ htyped
  exact ⟨st, hst, _, _, answers, _, full, st₀, sampleQuery_parsed, hplan, hanswers, haxfrAdds, hfull, hheld,
    (hiff st hst noCatalog (queryFrom 2) 2 _ _ answers _ full st₀ sampleQuery_parsed hplan hanswers haxfrAdds hfull hheld).2
      (hregroups withdrawn_steady st hst 2 st₀ hheld)⟩

end Sample

end Bindizr
