import Bindizr.Catalog
import Bindizr.Reads

/-! # Transfers

`bindizr-dns/src/server/{axfr,ixfr,delta}.rs`.  A full transfer sends the SOA, the records and the
SOA again.  An incremental one sends, between two copies of the current SOA, the changes of each
serial since the client's: the old SOA and what was deleted, the new SOA and what was added.  Where
the history does not lead from the client's serial to the current one the handler answers with a
full transfer (`ixfrPlan`).

An incremental response that fails is followed by a full transfer on the same stream when no
message was sent yet.  A message counts as sent once it was written and flushed, so a writer that
fails within the first one, after taking some of its octets, has a full transfer follow them: the
stream is left clean exactly when the first message is never reached, or is taken whole, or fails
before its first octet (`fallback_clean_iff`). -/

namespace Bindizr

open Rfc1035 (Name ResourceRecord)

/-! ### Requests and reads -/

/-- `ParsedQuery`, without the type of the question, which chose the handler. -/
structure ParsedQuery where
  qname : Name
  zoneName : Text
  clientSerial : Option ℕ
  queryId : ℕ

def rtypeIxfr : ℕ := 251

def rtypeAxfr : ℕ := 252

/-- The cast of a `u32` to `i32`. -/
def asI32 (n : ℕ) : ℤ := if n < 2147483648 then n else (n : ℤ) - 4294967296

/-- What the handlers read; each read may fail. -/
structure TransferReads where
  findByName : Text → Except ServiceError (Option Zone)
  findSnapshotBySerial : ℕ → ℤ → Except ServiceError (Option ZoneSnapshot)
  listChangesBetweenSerials : ℕ → ℤ → ℤ → Except ServiceError (List ZoneChange)
  listSnapshotsInRange : ℕ → ℤ → ℤ → Except ServiceError (List ZoneSnapshot)
  /-- `zone_cache::list_records`. -/
  listRecords : ℕ → ℤ → Except ServiceError (List Record)
  generateCatalogZone : Except XfrError (Zone × List Text)

/-- A read whose failure is a `DatabaseError`. -/
def readOr {α : Type} (x : Except ServiceError α) : Except XfrError α :=
  x.mapError fun e => .databaseError e.message

def TransferReads.zone (reads : TransferReads) (query : ParsedQuery) : Except XfrError Zone := do
  match ← readOr (reads.findByName query.zoneName) with
  | some zone => pure zone
  | none => .error (.zoneNotFound query.zoneName)

/-- The rows of a zone, by its id. -/
def Db.listById {α : Type} (db : Db) (id : ℕ) (rows : ZoneStore → List α) : List α :=
  match db.getZoneById id with
  | some st => rows st
  | none => []

/-- The reads of a database that does not change, without a zone cache. -/
def Db.transferReads (db : Db) (generateCatalogZone : Except XfrError (Zone × List Text)) : TransferReads where
  findByName zoneName := do
    let name ← normalizeZoneName zoneName
    pure ((db.getZoneByName name).map (·.zone))
  findSnapshotBySerial id serial := .ok ((db.getZoneById id).bind (·.snapshotBySerial serial))
  listChangesBetweenSerials id fromSerial toSerial := .ok (db.listById id (·.changesBetween fromSerial toSerial))
  listSnapshotsInRange id fromSerial toSerial :=
    .ok (db.listById id fun st => st.snapshots.filter fun sn => fromSerial ≤ sn.serial ∧ sn.serial ≤ toSerial)
  listRecords id _ := .ok (db.listById id (·.listRecords))
  generateCatalogZone := generateCatalogZone

section Handlers

variable [crates : Crates]

/-! ### Full transfers -/

/-- The answers of a zone's records between its SOA. -/
def zoneAdds (zone : Zone) (serial : ℕ) (records : List Record) : List AddAnswer :=
  (·.addSoa zone serial) :: (records.map fun r b => b.addRecord r zone.name) ++ [(·.addSoa zone serial)]

/-- The answers of `handle_axfr`. -/
def axfrAdds (reads : TransferReads) (query : ParsedQuery) : Except XfrError (List AddAnswer) :=
  if isCatalogZone query.zoneName then do
    let (zone, memberZones) ← reads.generateCatalogZone
    let serial ← serialToU32 zone.serial
    pure (catalogAdds zone serial memberZones)
  else do
    let zone ← reads.zone query
    let records ← readOr (reads.listRecords zone.id zone.serial)
    let serial ← serialToU32 zone.serial
    pure (zoneAdds zone serial records)

def handleAxfr (reads : TransferReads) (query : ParsedQuery) (responseQtype : ℕ) (w : Writer) :
    Except XfrError Unit × Writer :=
  match axfrAdds reads query with
  | .error e => (.error e, w)
  | .ok adds =>
      let (result, s) := Sending.stream ⟨w, .new query.queryId query.qname responseQtype, 0⟩ adds
      (result, s.writer)

/-! ### Incremental responses -/

/-- The snapshots by serial, as a map: the last one of a serial counts. -/
def snapshotsBySerial (snapshots : List ZoneSnapshot) (serial : ℕ) : Option ZoneSnapshot :=
  (snapshots.filter fun sn => sn.serial = (serial : ℤ)).getLast?

/-- The serials of changes, in order, each once. -/
def sortedSerials (serials : List ℕ) : List ℕ := (serials.mergeSort fun a b => decide (a ≤ b)).dedup

/-- Every step of a chain of serials has its old and its new SOA. -/
def hasSnapshots (snapshots : ℕ → Option ZoneSnapshot) : ℕ → List ℕ → Bool
  | _, [] => true
  | oldSerial, serial :: rest =>
      (snapshots oldSerial).isSome && (snapshots serial).isSome && hasSnapshots snapshots serial rest

/-- How `handle_ixfr` answers. -/
inductive IxfrPlan where
  | fallback
  | upToDate (soa : ZoneSnapshot)
  | incremental (zone : Zone) (clientSerial : ℕ) (changes : List ZoneChange) (snapshots : ℕ → Option ZoneSnapshot)

/-- The history between two serials, for a client that is behind. -/
def deltaPlan (reads : TransferReads) (zone : Zone) (clientSerial currentSerial : ℕ) : Except XfrError IxfrPlan := do
  let changes ← readOr (reads.listChangesBetweenSerials zone.id (asI32 clientSerial) (asI32 currentSerial))
  if changes = [] then pure .fallback
  else do
    let serials ← changes.mapM fun c => serialToU32 c.serial
    let serialsInChanges := sortedSerials serials
    if ¬ (clientSerial :: serialsInChanges).IsChain (· < ·) then pure .fallback
    else if serialsInChanges.getLast? ≠ some currentSerial then pure .fallback
    else do
      let found ← readOr (reads.listSnapshotsInRange zone.id (asI32 clientSerial) (asI32 currentSerial))
      let snapshots := snapshotsBySerial found
      if hasSnapshots snapshots clientSerial serialsInChanges then
        pure (.incremental zone clientSerial changes snapshots)
      else pure .fallback

/-- What `handle_ixfr` finds before it writes. -/
def ixfrPlan (reads : TransferReads) (query : ParsedQuery) : Except XfrError IxfrPlan :=
  if isCatalogZone query.zoneName then .ok .fallback
  else do
    let zone ← reads.zone query
    let currentSerial ← serialToU32 zone.serial
    match query.clientSerial with
    | none => pure .fallback
    | some clientSerial =>
        if clientSerial = currentSerial then do
          match ← readOr (reads.findSnapshotBySerial zone.id (asI32 currentSerial)) with
          | some soa => pure (.upToDate soa)
          | none => pure .fallback
        else if currentSerial < clientSerial then pure .fallback
        else deltaPlan reads zone clientSerial currentSerial

/-- A failure between two answers. -/
def failing (e : XfrError) : AddAnswer := fun _ => .error e

def addSoaAt (snapshot : Option ZoneSnapshot) (missing : Text) : AddAnswer :=
  match snapshot with
  | some soa => (·.addSoaFromSnapshot soa)
  | none => failing (.protocolError missing)

def addChange (zoneName : ZoneName) (change : ZoneChange) : AddAnswer := (·.addRecordParts zoneName change.record)

/-- The changes of one operation under one serial. -/
def changesAt (changes : List ZoneChange) (operation : ChangeOp) (serial : ℕ) : List ZoneChange :=
  changes.filter fun c => c.serial = serial ∧ c.operation = operation

/-- The changes of a chain of serials. -/
def deltaAdds (zoneName : ZoneName) (changes : List ZoneChange) (snapshots : ℕ → Option ZoneSnapshot) :
    ℕ → List ℕ → List AddAnswer
  | _, [] => []
  | oldSerial, serial :: rest =>
      addSoaAt (snapshots oldSerial) (lit "Missing old SOA snapshot for serial " ++ natText oldSerial) ::
        (changesAt changes .del serial).map (addChange zoneName) ++
      addSoaAt (snapshots serial) (lit "Missing new SOA snapshot for serial " ++ natText serial) ::
        (changesAt changes .add serial).map (addChange zoneName) ++
      deltaAdds zoneName changes snapshots serial rest

/-- The answers of `stream_ixfr_body`. -/
def ixfrAdds (zone : Zone) (clientSerial : ℕ) (changes : List ZoneChange) (snapshots : ℕ → Option ZoneSnapshot) :
    List AddAnswer :=
  match serialToU32 zone.serial with
  | .error e => [failing e]
  | .ok currentSerial =>
      match snapshots currentSerial with
      | none => [failing (.protocolError (lit "Missing current serial SOA snapshot for IXFR"))]
      | some current =>
          (·.addSoaFromSnapshot current) ::
            match changes.mapM fun c => serialToU32 c.serial with
            | .error e => [failing e]
            | .ok serials =>
                deltaAdds zone.name changes snapshots clientSerial (sortedSerials serials) ++
                  [(·.addSoaFromSnapshot current)]

inductive IxfrSendError where
  | notStarted (error : XfrError)
  | midStream (error : XfrError)

def sendIxfrResponse (query : ParsedQuery) (adds : List AddAnswer) (w : Writer) : Except IxfrSendError Unit × Writer :=
  match Sending.stream ⟨w, .new query.queryId query.qname rtypeIxfr, 0⟩ adds with
  | (.ok (), s) => (.ok (), s.writer)
  | (.error e, s) => (.error (if 0 < s.messagesSent then .midStream e else .notStarted e), s.writer)

def sendUpToDateResponse (query : ParsedQuery) (soa : ZoneSnapshot) (w : Writer) : Except XfrError Unit × Writer :=
  match (DnsMessageBuilder.new query.queryId query.qname rtypeIxfr).addSoaFromSnapshot soa with
  | .error e => (.error e, w)
  | .ok b =>
      let (result, s) := Sending.flushMessageIfNotEmpty ⟨w, b, 0⟩
      (result.map fun _ => (), s.writer)

/-- How `handle_ixfr` ends: with a result, or by calling `handle_axfr`. -/
inductive IxfrEnd where
  | returned (result : Except XfrError Unit)
  | fallback
  deriving DecidableEq

/-- `handle_ixfr`, up to the call of `handle_axfr`. -/
def ixfrResponse (reads : TransferReads) (query : ParsedQuery) (w : Writer) : IxfrEnd × Writer :=
  match ixfrPlan reads query with
  | .error e => (.returned (.error e), w)
  | .ok .fallback => (.fallback, w)
  | .ok (.upToDate soa) =>
      let (result, w) := sendUpToDateResponse query soa w
      (.returned result, w)
  | .ok (.incremental zone clientSerial changes snapshots) =>
      match sendIxfrResponse query (ixfrAdds zone clientSerial changes snapshots) w with
      | (.ok (), w) => (.returned (.ok ()), w)
      | (.error (.notStarted _), w) => (.fallback, w)
      | (.error (.midStream e), w) => (.returned (.error e), w)

/-- `handle_ixfr`; the full transfer reads the database again. -/
def handleIxfr (reads later : TransferReads) (query : ParsedQuery) (w : Writer) : Except XfrError Unit × Writer :=
  match ixfrResponse reads query w with
  | (.returned result, w) => (result, w)
  | (.fallback, w) => handleAxfr later query rtypeIxfr w

/-! ### The first message -/

namespace Sending

/-- The first message that answers fill, when they get that far. -/
def firstMessage (b : DnsMessageBuilder) : List AddAnswer → Option DnsMessageBuilder
  | [] => if b.answers = [] then none else some b
  | add :: rest =>
      match add b with
      | .error _ => none
      | .ok b' =>
          if b'.messageLen ≤ dnsTcpMaxSize then firstMessage b' rest
          else if b.answers = [] then none
          else some b

/-- What was sent stays sent. -/
def Extends (s s' : Sending) : Prop := s.messagesSent ≤ s'.messagesSent ∧ s.writer.taken <+: s'.writer.taken

omit crates in
theorem Extends.refl (s : Sending) : s.Extends s := ⟨le_rfl, List.prefix_rfl⟩

omit crates in
theorem Extends.trans {s t u : Sending} (h : s.Extends t) (h' : t.Extends u) : s.Extends u :=
  ⟨h.1.trans h'.1, h.2.trans h'.2⟩

omit crates in
theorem taken_writeAll (w : Writer) (octets : List UInt8) : w.taken <+: (w.writeAll octets).2.taken := by
  unfold Writer.writeAll
  split <;> exact List.prefix_append _ _

omit crates in
theorem taken_flush (w : Writer) : w.flush.2.taken = w.taken := by
  unfold Writer.flush
  split <;> rfl

omit crates in
theorem taken_send (w : Writer) (frame : List UInt8) : w.taken <+: (w.send frame).2.taken := by
  have hwrite := taken_writeAll w frame
  unfold Writer.send
  rcases h : w.writeAll frame with ⟨_ | _, w'⟩ <;> rw [h] at hwrite
  · exact hwrite
  · rw [taken_flush]
    exact hwrite

theorem extends_flush (s : Sending) : s.Extends s.flushMessageIfNotEmpty.2 := by
  unfold flushMessageIfNotEmpty
  split
  · exact .refl s
  split
  · exact .refl s
  · rename_i frame _
    have hsend := taken_send s.writer frame
    rcases h : s.writer.send frame with ⟨_ | _, w⟩ <;> rw [h] at hsend <;> exact ⟨le_rfl, hsend⟩

theorem extends_addAnswer (s : Sending) (add : AddAnswer) : s.Extends (s.addAnswerAndFlushIfNeeded add).2 := by
  unfold addAnswerAndFlushIfNeeded
  split
  · exact .refl s
  split
  · exact .refl s
  split
  · exact .refl s
  rename_i popped _
  split
  · exact .refl s
  have hflush := extends_flush { s with builder := popped }
  rcases h : flushMessageIfNotEmpty { s with builder := popped } with ⟨_ | n, s'⟩ <;> rw [h] at hflush
  · exact hflush
  · simp only
    split <;> exact ⟨hflush.1.trans (Nat.le_add_right _ _), hflush.2⟩

theorem extends_addAnswers (s : Sending) (adds : List AddAnswer) : s.Extends (s.addAnswers adds).2 := by
  induction adds generalizing s with
  | nil => exact .refl s
  | cons add adds ih =>
      have hstep := extends_addAnswer s add
      rw [addAnswers]
      rcases h : s.addAnswerAndFlushIfNeeded add with ⟨_ | _, s'⟩ <;> rw [h] at hstep
      · exact hstep
      · exact hstep.trans (ih s')

theorem extends_stream (s : Sending) (adds : List AddAnswer) : s.Extends (s.stream adds).2 := by
  have hadds := extends_addAnswers s adds
  rw [stream]
  rcases h : s.addAnswers adds with ⟨_ | _, s'⟩ <;> rw [h] at hadds
  · exact hadds
  · have hflush := hadds.trans (extends_flush s')
    simp only
    rcases h' : s'.flushMessageIfNotEmpty with ⟨_ | n, s''⟩ <;> rw [h'] at hflush
    · exact hflush
    · exact ⟨hflush.1.trans (Nat.le_add_right _ _), hflush.2⟩

theorem stream_cons (s : Sending) (add : AddAnswer) (adds : List AddAnswer) : s.stream (add :: adds) =
    match s.addAnswerAndFlushIfNeeded add with
    | (.error e, s) => (.error e, s)
    | (.ok (), s) => s.stream adds := by
  rw [stream, addAnswers]
  rcases s.addAnswerAndFlushIfNeeded add with ⟨_ | _, s'⟩ <;> rfl

theorem firstMessage_cons {b : DnsMessageBuilder} {add : AddAnswer} (hadd : AddsFound b.qname add)
    (hlen : b.messageLen ≤ dnsTcpMaxSize) (adds : List AddAnswer) : firstMessage b (add :: adds) =
      match found b.qname add with
      | .error _ => none
      | .ok none => firstMessage b adds
      | .ok (some a) =>
          if (b.pushAnswer a).messageLen ≤ dnsTcpMaxSize then firstMessage (b.pushAnswer a) adds
          else if b.answers = [] then none
          else some b := by
  rw [firstMessage, hadd b rfl]
  rcases found b.qname add with e | _ | a
  · rfl
  · simp only [Except.map, pushFound]
    rw [if_pos hlen]
  · rfl

/-- **The first message.**  A transfer leaves the writer alone until it sends its first message; if that one is not sent
the transfer ends with its error and nothing counts as sent, and otherwise something does. -/
theorem stream_firstMessage {s : Sending} {adds : List AddAnswer} (hadds : ∀ add ∈ adds, AddsFound s.builder.qname add)
    (hlen : s.builder.messageLen ≤ dnsTcpMaxSize) :
    match firstMessage s.builder adds with
    | none => (s.stream adds).2.writer = s.writer ∧ (s.stream adds).2.messagesSent = s.messagesSent
    | some m =>
        match s.writer.send (frame m) with
        | (.error e, w) => (s.stream adds).1 = .error e ∧ (s.stream adds).2.writer = w ∧
            (s.stream adds).2.messagesSent = s.messagesSent
        | (.ok (), w) => w.taken <+: (s.stream adds).2.writer.taken ∧ s.messagesSent < (s.stream adds).2.messagesSent := by
  induction adds generalizing s with
  | nil =>
      by_cases hempty : s.builder.answers = []
      · simp only [firstMessage, if_pos hempty, stream, addAnswers, flushMessageIfNotEmpty, Nat.add_zero, and_self]
      · simp only [firstMessage, if_neg hempty, stream, addAnswers, flushMessageIfNotEmpty_eq hempty hlen]
        rcases s.writer.send (frame s.builder) with ⟨_ | _, w⟩ <;> simp
  | cons add adds ih =>
      have hadd := hadds add (by simp)
      have hadds' : ∀ add ∈ adds, AddsFound s.builder.qname add := fun add h => hadds add (by simp [h])
      rw [firstMessage_cons hadd hlen, stream_cons, addAnswerAndFlushIfNeeded_found hadd hlen]
      rcases found s.builder.qname add with e | _ | a
      · exact ⟨rfl, rfl⟩
      · exact ih hadds' hlen
      · simp only [addAnswerAndFlushIfNeeded_eq s a hlen]
        by_cases hfits : (s.builder.pushAnswer a).messageLen ≤ dnsTcpMaxSize
        · rw [if_pos hfits, if_pos hfits]
          exact @ih { s with builder := s.builder.pushAnswer a } hadds' hfits
        rw [if_neg hfits, if_neg hfits]
        by_cases hempty : s.builder.answers = []
        · rw [if_pos hempty, if_pos hempty]
          exact ⟨rfl, rfl⟩
        rw [if_neg hempty, if_neg hempty]
        simp only
        rcases s.writer.send (frame s.builder) with ⟨_ | _, w⟩
        · exact ⟨rfl, rfl, rfl⟩
        -- the message was sent, and what follows only extends it
        by_cases hlarge : dnsTcpMaxSize < (s.builder.clearAnswers.pushAnswer a).messageLen
        · simp only [if_pos hlarge]
          exact ⟨List.prefix_rfl, Nat.lt_succ_self _⟩
        · simp only [if_neg hlarge]
          obtain ⟨hsent, htaken⟩ := extends_stream ⟨w, s.builder.clearAnswers.pushAnswer a, s.messagesSent + 1⟩ adds
          exact ⟨htaken, hsent⟩

end Sending

/-! ### The full transfer after an incremental one -/

open Sending (AddsFound firstMessage frame)

theorem addsFound_failing {qname : Name} (e : XfrError) : AddsFound qname (failing e) := Sending.addsFound_error e

theorem addsFound_addSoaAt {qname : Name} (snapshot : Option ZoneSnapshot) (missing : Text) :
    AddsFound qname (addSoaAt snapshot missing) := by
  cases snapshot with
  | none => exact addsFound_failing _
  | some soa => exact Sending.addsFound_addSoaFromSnapshot soa

theorem addsFound_deltaAdds {qname : Name} (zoneName : ZoneName) (changes : List ZoneChange)
    (snapshots : ℕ → Option ZoneSnapshot) (oldSerial : ℕ) (serials : List ℕ) :
    ∀ add ∈ deltaAdds zoneName changes snapshots oldSerial serials, AddsFound qname add := by
  have hchanges : ∀ cs : List ZoneChange, ∀ add ∈ cs.map (addChange zoneName), AddsFound qname add := by
    intro cs add hadd
    obtain ⟨c, -, rfl⟩ := List.mem_map.1 hadd
    exact Sending.addsFound_addRecordParts zoneName c.record
  induction serials generalizing oldSerial with
  | nil => simp [deltaAdds]
  | cons serial serials ih =>
      simp only [deltaAdds, List.cons_append, List.forall_mem_cons, List.forall_mem_append]
      exact ⟨addsFound_addSoaAt _ _, ⟨hchanges _, addsFound_addSoaAt _ _, hchanges _⟩, ih serial⟩

theorem addsFound_ixfrAdds {qname : Name} (zone : Zone) (clientSerial : ℕ) (changes : List ZoneChange)
    (snapshots : ℕ → Option ZoneSnapshot) :
    ∀ add ∈ ixfrAdds zone clientSerial changes snapshots, AddsFound qname add := by
  unfold ixfrAdds
  split
  · simpa using addsFound_failing _
  split
  · simpa using addsFound_failing _
  rename_i current _
  have hsoa : AddsFound qname (·.addSoaFromSnapshot current) := Sending.addsFound_addSoaFromSnapshot current
  refine List.forall_mem_cons.2 ⟨hsoa, ?_⟩
  split
  · simpa using addsFound_failing _
  · exact List.forall_mem_append.2 ⟨addsFound_deltaAdds _ _ _ _ _, by simpa using hsoa⟩

theorem addsFound_zoneAdds {qname : Name} (zone : Zone) (serial : ℕ) (records : List Record) :
    ∀ add ∈ zoneAdds zone serial records, AddsFound qname add := by
  have hsoa : AddsFound qname (·.addSoa zone serial) := Sending.addsFound_addSoa zone serial
  refine List.forall_mem_append.2 ⟨List.forall_mem_cons.2 ⟨hsoa, List.forall_mem_map.2 fun r _ => ?_⟩, by simpa using hsoa⟩
  exact Sending.addsFound_addRecordParts _ _

omit crates in
/-- The first write fails before its first octet, or the first write and the first flush are done. -/
def Writer.TakesFirst (w : Writer) : Prop :=
  match w.calls with
  | .fails n _ :: _ => n = 0
  | .done :: .fails _ _ :: _ => False
  | _ => True

omit crates in
theorem Writer.takesFirst_iff {w : Writer} {octets : List UInt8} (h : 2 ≤ octets.length) :
    w.TakesFirst ↔ ∀ e w', w.send octets = (.error e, w') → w'.taken = w.taken := by
  have hne : octets ≠ [] := by
    rintro rfl
    simp at h
  obtain ⟨taken, calls⟩ := w
  unfold TakesFirst
  match calls with
  | [] => simp [send, writeAll, flush]
  | [.done] => simp [send, writeAll, flush]
  | .done :: .done :: calls => simp [send, writeAll, flush]
  | .done :: .fails n e :: calls => simp [send, writeAll, flush, hne]
  | .fails n e :: calls =>
      have hsend : send ⟨taken, .fails n e :: calls⟩ octets =
          (.error (.ioError e), ⟨taken ++ octets.dropLast.take n, calls⟩) := rfl
      have hdrop : octets.dropLast ≠ [] := fun hnil => by
        have hlen := congrArg List.length hnil
        rw [List.length_dropLast, List.length_nil] at hlen
        omega
      rw [hsend]
      constructor
      · rintro rfl _ _ ⟨⟩
        simp
      · intro hall
        simpa [hdrop] using hall _ _ rfl

/-- The first message of the incremental response, when there is one. -/
def ixfrFirstMessage (reads : TransferReads) (query : ParsedQuery) : Option DnsMessageBuilder :=
  match ixfrPlan reads query with
  | .ok (.incremental zone clientSerial changes snapshots) =>
      firstMessage (.new query.queryId query.qname rtypeIxfr) (ixfrAdds zone clientSerial changes snapshots)
  | _ => none

theorem ixfrResponse_incremental {reads : TransferReads} {query : ParsedQuery} {zone : Zone} {clientSerial : ℕ}
    {changes : List ZoneChange} {snapshots : ℕ → Option ZoneSnapshot}
    (h : ixfrPlan reads query = .ok (.incremental zone clientSerial changes snapshots)) (w : Writer) :
    ixfrResponse reads query w =
      match Sending.stream ⟨w, .new query.queryId query.qname rtypeIxfr, 0⟩
        (ixfrAdds zone clientSerial changes snapshots) with
      | (.ok (), s) => (.returned (.ok ()), s.writer)
      | (.error e, s) => if 0 < s.messagesSent then (.returned (.error e), s.writer) else (.fallback, s.writer) := by
  rw [ixfrResponse, h]
  simp only [sendIxfrResponse]
  rcases Sending.stream _ _ with ⟨_ | _, s⟩
  · by_cases hsent : 0 < s.messagesSent
    · simp only [if_pos hsent]
    · simp only [if_neg hsent]
  · rfl

omit crates in
theorem two_le_length_frame [Crates] (b : DnsMessageBuilder) : 2 ≤ (frame b).length := by
  rw [frame, List.length_append, Rfc1035.length_bigEndian]
  omega

theorem stream_clean_iff {w : Writer} {b : DnsMessageBuilder} {adds : List AddAnswer}
    (hadds : ∀ add ∈ adds, AddsFound b.qname add) (hlen : b.messageLen ≤ dnsTcpMaxSize) :
    (∀ e s, Sending.stream ⟨w, b, 0⟩ adds = (.error e, s) → s.messagesSent = 0 → s.writer.taken = w.taken) ↔
      firstMessage b adds = none ∨ w.TakesFirst := by
  have hfirst := @Sending.stream_firstMessage crates ⟨w, b, 0⟩ adds hadds hlen
  cases hm : firstMessage b adds with
  | none =>
      simp only [hm] at hfirst
      simp only [true_or, iff_true]
      rintro e s hs -
      rw [hs] at hfirst
      rw [hfirst.1]
  | some m =>
      simp only [hm] at hfirst
      rw [Writer.takesFirst_iff (two_le_length_frame m)]
      simp only [reduceCtorEq, false_or]
      cases hsend : w.send (frame m) with
      | mk result w' =>
          simp only [hsend] at hfirst
          cases result with
          | error e =>
              obtain ⟨hresult, rfl, hsent⟩ := hfirst
              constructor
              · rintro h _ _ ⟨⟩
                exact h e _ (Prod.ext hresult rfl) hsent
              · rintro h _ s hs -
                rw [hs] at h
                exact h e _ rfl
          | ok _ =>
              constructor
              · rintro - _ _ ⟨⟩
              · intro _ e s hs hsent
                rw [hs] at hfirst
                exact absurd hsent hfirst.2.ne'

/-- **A full transfer after an incremental one.**  A full transfer is begun only on a stream that took no octet of the
incremental response, and a response that fails after one returns its error and writes nothing more, exactly when the
response fails before its first message, or the writer takes that message or refuses its first octet. -/
theorem fallback_clean_iff (reads later : TransferReads) (query : ParsedQuery) (w : Writer) :
    ((∀ w', ixfrResponse reads query w = (.fallback, w') → w'.taken = w.taken) ∧
      ∀ zone clientSerial changes snapshots e s,
        ixfrPlan reads query = .ok (.incremental zone clientSerial changes snapshots) →
        Sending.stream ⟨w, .new query.queryId query.qname rtypeIxfr, 0⟩ (ixfrAdds zone clientSerial changes snapshots) =
          (.error e, s) →
        s.writer.taken ≠ w.taken → handleIxfr reads later query w = (.error e, s.writer)) ↔
    ixfrFirstMessage reads query = none ∨ w.TakesFirst := by
  cases hplan : ixfrPlan reads query with
  | error e => simp [ixfrFirstMessage, ixfrResponse, hplan]
  | ok plan =>
      cases plan with
      | fallback => simp [ixfrFirstMessage, ixfrResponse, hplan, eq_comm]
      | upToDate soa => simp [ixfrFirstMessage, ixfrResponse, hplan]
      | incremental zone clientSerial changes snapshots =>
          rw [ixfrFirstMessage, hplan, ← stream_clean_iff (addsFound_ixfrAdds zone clientSerial changes snapshots)
            (Sending.messageLen_new query.queryId query.qname rtypeIxfr)]
          simp only [handleIxfr, ixfrResponse_incremental hplan]
          constructor
          · rintro ⟨hfallback, -⟩ e s hs hsent
            refine hfallback s.writer ?_
            rw [hs]
            simp [hsent]
          · intro hclean
            refine ⟨fun w' hw' => ?_, ?_⟩
            · cases hstream : Sending.stream ⟨w, .new query.queryId query.qname rtypeIxfr, 0⟩
                (ixfrAdds zone clientSerial changes snapshots) with
              | mk result s =>
                  rw [hstream] at hw'
                  cases result with
                  | ok _ => cases hw'
                  | error e =>
                      simp only at hw'
                      split at hw'
                      · cases hw'
                      · rename_i hsent
                        cases hw'
                        exact hclean e s hstream (Nat.eq_zero_of_not_pos hsent)
            · rintro _ _ _ _ e s ⟨⟩ hs htaken
              have hsent : 0 < s.messagesSent := Nat.pos_of_ne_zero fun h => htaken (hclean e s hs h)
              rw [hs]
              simp [hsent]

end Handlers

/-- A client at the first serial asks for the changes. -/
def sampleQuery : ParsedQuery where
  qname := ⟨[asBytes (lit "example"), asBytes (lit "com")], by decide⟩
  zoneName := lit "example.com"
  clientSerial := some 1
  queryId := 7

/-- The connection breaks after one octet, and a full transfer is begun all the same. -/
theorem fallback_after_octet :
    let response := @ixfrResponse sampleCrates ((@run sampleCrates sampleHistory).transferReads (.error (.databaseError [])))
      sampleQuery ⟨[], [.fails 1 (lit "broken pipe")]⟩
    response.1 = .fallback ∧ response.2.taken ≠ [] := by
  decide +kernel

end Bindizr
