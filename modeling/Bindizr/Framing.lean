import Bindizr.Wire

/-! # Framing

`bindizr-dns/src/wire`: before a message would pass 65535 octets it is sent as one TCP frame, its
length before it, and the next one is begun (`addAnswerAndFlushIfNeeded`).  The last answer is
added, and taken back when it does not fit.  A writer takes the octets of a call, or fails after
some of them (`Writer`); what a failed transfer leaves is its state at the failure.

What adds an answer finds it whatever the message holds (`AddsFound`), so a transfer is known by its
answers (`answersOf`): with a writer that never fails it succeeds when all are found and fit a
message alone (`exists_stream_iff`), and nothing is lost (`framing_lossless`): reading the stream
message by message gives every answer once, in order, and each message holds as many as it says. -/

namespace Bindizr

open Rfc1035 (Name ResourceRecord bigEndian)

/-! ### Writers -/

inductive WriterCall where
  | done
  /-- At most so many octets are taken, and not all. -/
  | fails (taken : ℕ) (error : Text)
  deriving DecidableEq

/-- A writer: the octets it has taken, and how its next calls end; every later call is done. -/
structure Writer where
  taken : List UInt8
  calls : List WriterCall
  deriving DecidableEq

namespace Writer

def writeAll (w : Writer) (octets : List UInt8) : Except XfrError Unit × Writer :=
  match w.calls with
  | [] => (.ok (), ⟨w.taken ++ octets, []⟩)
  | .done :: calls => (.ok (), ⟨w.taken ++ octets, calls⟩)
  | .fails n error :: calls => (.error (.ioError error), ⟨w.taken ++ octets.dropLast.take n, calls⟩)

def flush (w : Writer) : Except XfrError Unit × Writer :=
  match w.calls with
  | [] => (.ok (), w)
  | .done :: calls => (.ok (), ⟨w.taken, calls⟩)
  | .fails _ error :: calls => (.error (.ioError error), ⟨w.taken, calls⟩)

/-- A frame is written, and the writer flushed. -/
def send (w : Writer) (frame : List UInt8) : Except XfrError Unit × Writer :=
  match w.writeAll frame with
  | (.error e, w) => (.error e, w)
  | (.ok (), w) => w.flush

end Writer

section Sending

variable [crates : Crates]

/-- A transfer under way: its writer, the message being built, and the messages sent. -/
structure Sending where
  writer : Writer
  builder : DnsMessageBuilder
  messagesSent : ℕ
  deriving DecidableEq

abbrev AddAnswer := DnsMessageBuilder → Except XfrError DnsMessageBuilder

namespace Sending

def flushMessageIfNotEmpty (s : Sending) : Except XfrError ℕ × Sending :=
  if s.builder.answers = [] then (.ok 0, s)
  else
    match s.builder.buildTcpFrame with
    | .error e => (.error e, s)
    | .ok frame =>
        match s.writer.send frame with
        | (.error e, w) => (.error e, { s with writer := w })
        | (.ok (), w) => (.ok 1, { s with writer := w, builder := s.builder.clearAnswers })

/-- The error for an answer that fits no message. -/
def tooLarge (b : DnsMessageBuilder) : XfrError :=
  .protocolError (lit "Single DNS answer is too large: " ++ natText b.messageLen ++ lit " bytes")

def addAnswerAndFlushIfNeeded (s : Sending) (addAnswer : AddAnswer) : Except XfrError Unit × Sending :=
  match addAnswer s.builder with
  | .error e => (.error e, s)
  | .ok b =>
      if b.messageLen ≤ dnsTcpMaxSize then (.ok (), { s with builder := b })
      else
        match b.popLastAnswer with
        | none =>
            (.error (.protocolError (lit "DNS message exceeded maximum size without answers")), { s with builder := b })
        | some (lastAnswer, popped) =>
            if popped.answers = [] then
              (.error (tooLarge (popped.pushAnswer lastAnswer)), { s with builder := popped.pushAnswer lastAnswer })
            else
              match flushMessageIfNotEmpty { s with builder := popped } with
              | (.error e, s) => (.error e, s)
              | (.ok n, s) =>
                  let b := s.builder.pushAnswer lastAnswer
                  let s := { s with builder := b, messagesSent := s.messagesSent + n }
                  if dnsTcpMaxSize < b.messageLen then (.error (tooLarge b), s) else (.ok (), s)

/-- Answers are added one after another. -/
def addAnswers (s : Sending) : List AddAnswer → Except XfrError Unit × Sending
  | [] => (.ok (), s)
  | addAnswer :: rest =>
      match s.addAnswerAndFlushIfNeeded addAnswer with
      | (.error e, s) => (.error e, s)
      | (.ok (), s) => addAnswers s rest

/-- Answers are added, and what is left of them is flushed. -/
def stream (s : Sending) (adds : List AddAnswer) : Except XfrError Unit × Sending :=
  match s.addAnswers adds with
  | (.error e, s) => (.error e, s)
  | (.ok (), s) =>
      match s.flushMessageIfNotEmpty with
      | (.error e, s) => (.error e, s)
      | (.ok n, s) => (.ok (), { s with messagesSent := s.messagesSent + n })

end Sending

end Sending

/-! ### Reading -/

/-- `read_tcp_message`: a message, and what follows it on the stream. -/
def readTcpMessage : List UInt8 → Except XfrError (List UInt8 × List UInt8)
  | [] => .error (.ioError (lit "connection closed"))
  | [_] => .error (.protocolError (lit "Incomplete DNS TCP length prefix"))
  | b₀ :: b₁ :: rest =>
      let len := 256 * b₀.toNat + b₁.toNat
      if dnsTcpMaxSize < len then
        .error (.protocolError (lit "Message too large: " ++ natText len ++ lit " bytes"))
      else if rest.length < len then
        .error (.protocolError (lit "Incomplete DNS TCP message: expected " ++ natText len ++ lit " bytes"))
      else .ok (rest.take len, rest.drop len)

theorem readTcpMessage_length {octets message rest : List UInt8} (h : readTcpMessage octets = .ok (message, rest)) :
    rest.length < octets.length := by
  unfold readTcpMessage at h
  split at h
  · cases h
  · cases h
  · simp only at h
    split at h
    · cases h
    split at h
    · cases h
    · cases h
      simp only [List.length_drop, List.length_cons]
      omega

/-- The messages of a stream, read until it ends. -/
def readTcpMessages (octets : List UInt8) : Except XfrError (List (List UInt8)) :=
  if octets = [] then .ok []
  else
    match h : readTcpMessage octets with
    | .error e => .error e
    | .ok (message, rest) =>
        have := readTcpMessage_length h
        (readTcpMessages rest).map (message :: ·)
termination_by octets.length

theorem readTcpMessages_nil : readTcpMessages [] = .ok [] := by
  rw [readTcpMessages, if_pos rfl]

theorem readTcpMessages_cons {message : List UInt8} (h : message.length ≤ 65535) (rest : List UInt8) :
    readTcpMessages (bigEndian 2 message.length ++ message ++ rest) = (readTcpMessages rest).map (message :: ·) := by
  obtain ⟨b₀, b₁, hb⟩ := List.length_eq_two.1 (Rfc1035.length_bigEndian 2 message.length)
  have hlen := Rfc1035.foldl_bigEndian 2 message.length
  rw [hb] at hlen
  simp only [List.foldl_cons, List.foldl_nil] at hlen
  have hlen : 256 * b₀.toNat + b₁.toNat = message.length := by omega
  have hread : readTcpMessage (b₀ :: b₁ :: (message ++ rest)) = .ok (message, rest) := by
    simp only [readTcpMessage, hlen, dnsTcpMaxSize]
    rw [if_neg (by omega), if_neg (by simp)]
    simp
  rw [hb, List.append_assoc]
  simp only [List.cons_append, List.nil_append]
  rw [readTcpMessages, if_neg (by simp)]
  split
  · rename_i e he
    rw [hread] at he
    cases he
  · rename_i message' rest' he
    rw [hread] at he
    cases he
    rfl

section Lossless

variable [crates : Crates]

/-! ### The message being built -/

namespace DnsMessageBuilder

/-- The length that is tracked is the length of the answers. -/
def Tracks (b : DnsMessageBuilder) : Prop := b.answersLen = (b.answers.map fun a => (crates.composeRecord a).length).sum

/-- The message of a question with some answers. -/
def holding (queryId : ℕ) (qname : Name) (qtype : ℕ) (answers : List ResourceRecord) : DnsMessageBuilder :=
  ⟨queryId, qname, qtype, answers, (answers.map fun a => (crates.composeRecord a).length).sum⟩

variable {queryId qtype : ℕ} {qname : Name}

theorem holding_tracks (answers : List ResourceRecord) : (holding queryId qname qtype answers).Tracks := rfl

theorem new_eq_holding : new queryId qname qtype = holding queryId qname qtype [] := rfl

theorem pushAnswer_holding (answers : List ResourceRecord) (a : ResourceRecord) :
    (holding queryId qname qtype answers).pushAnswer a = holding queryId qname qtype (answers ++ [a]) := by
  simp [pushAnswer, holding]

theorem clearAnswers_holding (answers : List ResourceRecord) :
    (holding queryId qname qtype answers).clearAnswers = holding queryId qname qtype [] := rfl

/-- The octets before the answers. -/
def header (queryId : ℕ) (qname : Name) (qtype count : ℕ) : List UInt8 :=
  bigEndian 2 queryId ++ [0x84, 0x00] ++ bigEndian 2 1 ++ bigEndian 2 count ++ bigEndian 2 0 ++ bigEndian 2 0 ++
    qname.octets ++ bigEndian 2 qtype ++ bigEndian 2 1

omit crates in
theorem length_header (queryId : ℕ) (qname : Name) (qtype count : ℕ) :
    (header queryId qname qtype count).length = 12 + qname.len + 4 := by
  simp only [header, List.length_append, Rfc1035.length_bigEndian, Rfc1035.Name.length_octets, List.length_cons,
    List.length_nil]

theorem buildMessage_holding (answers : List ResourceRecord) : (holding queryId qname qtype answers).buildMessage =
    header queryId qname qtype answers.length ++ answers.flatMap crates.composeRecord := rfl

theorem length_buildMessage (answers : List ResourceRecord) :
    (holding queryId qname qtype answers).buildMessage.length = (holding queryId qname qtype answers).messageLen := by
  rw [buildMessage_holding, List.length_append, length_header, List.length_flatMap, messageLen]
  rfl

omit crates in
theorem readNat_header {count : ℕ} (h : count < 65536) (rest : List UInt8) :
    Rfc1035.readNat 2 (header queryId qname qtype count ++ rest) 6 = some (count, 8) := by
  have hsplit : header queryId qname qtype count ++ rest = (bigEndian 2 queryId ++ [0x84, 0x00] ++ bigEndian 2 1) ++
      (bigEndian 2 count ++ (bigEndian 2 0 ++ bigEndian 2 0 ++ qname.octets ++ bigEndian 2 qtype ++ bigEndian 2 1 ++ rest)) := by
    simp [header]
  have hdrop : (header queryId qname qtype count ++ rest).drop 6 =
      bigEndian 2 count ++ (bigEndian 2 0 ++ bigEndian 2 0 ++ qname.octets ++ bigEndian 2 qtype ++ bigEndian 2 1 ++ rest) := by
    rw [hsplit, List.drop_left' (by simp [Rfc1035.length_bigEndian])]
  have hcount := Rfc1035.foldl_bigEndian 2 count
  rw [Nat.mod_eq_of_lt (by omega)] at hcount
  have hlen := length_header queryId qname qtype count
  rw [Rfc1035.readNat, Rfc1035.readOctets, if_pos (by rw [List.length_append]; omega), hdrop,
    List.take_left' (Rfc1035.length_bigEndian 2 count), Option.map_some]
  simp only [hcount]

end DnsMessageBuilder

/-! ### Frames -/

namespace Sending

open DnsMessageBuilder (holding)

variable {queryId qtype : ℕ} {qname : Name}

def frame (b : DnsMessageBuilder) : List UInt8 := bigEndian 2 b.messageLen ++ b.buildMessage

/-- What adds an answer that was composed. -/
def push (a : ResourceRecord) : AddAnswer := fun b => .ok (b.pushAnswer a)

/-! ### What is added -/

/-- A message with what was found for it. -/
def pushFound (b : DnsMessageBuilder) : Option ResourceRecord → DnsMessageBuilder
  | none => b
  | some a => b.pushAnswer a

/-- What is added to an empty message of a question name. -/
def found (qname : Name) (add : AddAnswer) : Except XfrError (Option ResourceRecord) :=
  (add (.new 0 qname 0)).map (·.answers.head?)

/-- What is added does not depend on what the message holds: it is nothing, or one answer. -/
def AddsFound (qname : Name) (add : AddAnswer) : Prop :=
  ∀ b : DnsMessageBuilder, b.qname = qname → add b = (found qname add).map (pushFound b)

def answersOf (qname : Name) (adds : List AddAnswer) : Except XfrError (List ResourceRecord) :=
  (adds.mapM (found qname)).map List.reduceOption

theorem addsFound_error (e : XfrError) : AddsFound qname fun _ => .error e := fun _ _ => rfl

theorem addsFound_skip : AddsFound qname .ok := fun _ _ => rfl

theorem addsFound_answer (owner : Name) (ttl : ℕ) (data : Rfc1035.Rdata) :
    AddsFound qname fun b => .ok (b.addAnswer owner ttl data) := fun _ _ => rfl

theorem AddsFound.bind {α : Type} (x : Except XfrError α) {f : α → AddAnswer} (h : ∀ a, AddsFound qname (f a)) :
    AddsFound qname fun b => x >>= fun a => f a b := by
  cases x with
  | error e => exact addsFound_error e
  | ok a => exact h a

theorem addsFound_addTargetRecord (data : Name → Rfc1035.Rdata) (name target : Text) (ttl : ℕ) :
    AddsFound qname fun b => b.addTargetRecord data name ttl target :=
  .bind _ fun owner => .bind _ fun target => addsFound_answer owner ttl (data target)

theorem addsFound_addTxtRecord (name text : Text) (ttl : ℕ) : AddsFound qname fun b => b.addTxtRecord name ttl text := by
  refine .bind _ fun owner => ?_
  cases txtFromEncoded text with
  | some rdata => exact .bind _ fun data => addsFound_answer owner ttl (.txt data)
  | none => exact .bind _ fun data => addsFound_answer owner ttl (.txt data)

theorem addsFound_addRecordParts (zone : ZoneName) (r : RecordData) :
    AddsFound qname fun b => b.addRecordParts zone r := by
  unfold DnsMessageBuilder.addRecordParts
  cases r.recordType with
  | a =>
      cases parseIpv4 r.value with
      | none => exact addsFound_error _
      | some addr => exact .bind _ fun owner => addsFound_answer owner _ _
  | aaaa =>
      cases parseIpv6 r.value with
      | none => exact addsFound_error _
      | some addr => exact .bind _ fun owner => addsFound_answer owner _ _
  | cname => exact addsFound_addTargetRecord .cname _ _ _
  | ns => exact addsFound_addTargetRecord .ns _ _ _
  | ptr => exact addsFound_addTargetRecord .ptr _ _ _
  | mx => exact .bind _ fun mx => addsFound_addTargetRecord (.mx mx.priority) _ _ _
  | srv => exact .bind _ fun srv => .bind _ fun target => .bind _ fun owner => addsFound_answer owner _ _
  | txt => exact addsFound_addTxtRecord _ _ _
  | soa => exact addsFound_skip

theorem addsFound_addSoaFromSnapshot (soa : ZoneSnapshot) : AddsFound qname fun b => b.addSoaFromSnapshot soa :=
  .bind _ fun _ => .bind _ fun _ => .bind _ fun _ => fun b hb => by rw [hb]; rfl

theorem addsFound_addSoa (zone : Zone) (serial : ℕ) : AddsFound qname fun b => b.addSoa zone serial :=
  .bind _ fun _ => .bind _ fun _ => .bind _ fun _ => .bind _ fun owner => addsFound_answer owner _ _

omit crates in
theorem answersOf_cons (add : AddAnswer) (adds : List AddAnswer) : answersOf qname (add :: adds) = (do
    let a ← found qname add
    let as ← answersOf qname adds
    pure (a.toList ++ as)) := by
  rw [answersOf, List.mapM_cons, answersOf]
  cases found qname add with
  | error e => rfl
  | ok a =>
      cases adds.mapM (found qname) with
      | error e => rfl
      | ok as => cases a <;> rfl

omit crates in
theorem answersOf_append (adds adds' : List AddAnswer) : answersOf qname (adds ++ adds') = (do
    let as ← answersOf qname adds
    let as' ← answersOf qname adds'
    pure (as ++ as')) := by
  induction adds with
  | nil =>
      have hnil : answersOf qname [] = .ok [] := rfl
      rw [List.nil_append, hnil]
      cases answersOf qname adds' <;> rfl
  | cons add adds ih =>
      rw [List.cons_append, answersOf_cons, ih, answersOf_cons]
      cases found qname add with
      | error e => rfl
      | ok a =>
          cases answersOf qname adds with
          | error e => rfl
          | ok as => cases answersOf qname adds' <;> simp [pure, Except.pure]

omit crates in
theorem exists_found_of_answersOf {adds : List AddAnswer} {answers : List ResourceRecord}
    (h : answersOf qname adds = .ok answers) {add : AddAnswer} (hadd : add ∈ adds) :
    ∃ a, found qname add = .ok a := by
  obtain ⟨_, hfound, _⟩ := Fallible.map_eq_ok.1 h
  obtain ⟨a, _, ha⟩ := Fallible.exists_of_mapM hfound hadd
  exact ⟨a, ha⟩

theorem popLastAnswer_pushAnswer (b : DnsMessageBuilder) (a : ResourceRecord) :
    (b.pushAnswer a).popLastAnswer = some (a, b) := by
  simp [DnsMessageBuilder.popLastAnswer, DnsMessageBuilder.pushAnswer]

theorem flushMessageIfNotEmpty_eq {s : Sending} (hne : s.builder.answers ≠ [])
    (hlen : s.builder.messageLen ≤ dnsTcpMaxSize) : s.flushMessageIfNotEmpty =
      match s.writer.send (frame s.builder) with
      | (.error e, w) => (.error e, { s with writer := w })
      | (.ok (), w) => (.ok 1, { s with writer := w, builder := s.builder.clearAnswers }) := by
  have hframe : s.builder.buildTcpFrame = .ok (frame s.builder) := by
    rw [DnsMessageBuilder.buildTcpFrame, if_neg (Nat.not_lt.2 hlen), frame]
  simp only [flushMessageIfNotEmpty, if_neg hne, hframe]

theorem addAnswerAndFlushIfNeeded_eq (s : Sending) (a : ResourceRecord)
    (hlen : s.builder.messageLen ≤ dnsTcpMaxSize) : s.addAnswerAndFlushIfNeeded (push a) =
      if (s.builder.pushAnswer a).messageLen ≤ dnsTcpMaxSize then (.ok (), { s with builder := s.builder.pushAnswer a })
      else if s.builder.answers = [] then
        (.error (tooLarge (s.builder.pushAnswer a)), { s with builder := s.builder.pushAnswer a })
      else
        match s.writer.send (frame s.builder) with
        | (.error e, w) => (.error e, { s with writer := w })
        | (.ok (), w) =>
            let b := s.builder.clearAnswers.pushAnswer a
            if dnsTcpMaxSize < b.messageLen then (.error (tooLarge b), ⟨w, b, s.messagesSent + 1⟩)
            else (.ok (), ⟨w, b, s.messagesSent + 1⟩) := by
  rw [addAnswerAndFlushIfNeeded]
  simp only [push, popLastAnswer_pushAnswer]
  by_cases hfits : (s.builder.pushAnswer a).messageLen ≤ dnsTcpMaxSize
  · rw [if_pos hfits, if_pos hfits]
  rw [if_neg hfits, if_neg hfits]
  by_cases hempty : s.builder.answers = []
  · rw [if_pos hempty, if_pos hempty]
  rw [if_neg hempty, if_neg hempty]
  have hflush := @flushMessageIfNotEmpty_eq crates s hempty hlen
  rw [hflush]
  rcases s.writer.send (frame s.builder) with ⟨_ | _, w⟩ <;> rfl

theorem addAnswerAndFlushIfNeeded_ok {s s' : Sending} {a : ResourceRecord}
    (hlen : s.builder.messageLen ≤ dnsTcpMaxSize) (h : s.addAnswerAndFlushIfNeeded (push a) = (.ok (), s')) :
    s'.builder.qname = s.builder.qname ∧ s'.builder.messageLen ≤ dnsTcpMaxSize ∧
      12 + s.builder.qname.len + 4 + (crates.composeRecord a).length ≤ dnsTcpMaxSize := by
  rw [addAnswerAndFlushIfNeeded_eq s a hlen] at h
  split at h
  · rename_i hfits
    cases h
    refine ⟨rfl, hfits, ?_⟩
    simp only [DnsMessageBuilder.messageLen, DnsMessageBuilder.pushAnswer] at hfits
    omega
  split at h
  · cases h
  split at h
  · cases h
  · simp only at h
    split at h
    · cases h
    · rename_i hfits
      cases h
      refine ⟨rfl, Nat.not_lt.1 hfits, ?_⟩
      simp only [DnsMessageBuilder.messageLen, DnsMessageBuilder.pushAnswer, DnsMessageBuilder.clearAnswers] at hfits
      omega

theorem addAnswerAndFlushIfNeeded_found {s : Sending} {add : AddAnswer} (hadd : AddsFound s.builder.qname add)
    (hlen : s.builder.messageLen ≤ dnsTcpMaxSize) : s.addAnswerAndFlushIfNeeded add =
      match found s.builder.qname add with
      | .error e => (.error e, s)
      | .ok none => (.ok (), s)
      | .ok (some a) => s.addAnswerAndFlushIfNeeded (push a) := by
  rw [addAnswerAndFlushIfNeeded, hadd s.builder rfl]
  rcases found s.builder.qname add with e | _ | a
  · rfl
  · simp only [Except.map, pushFound]
    rw [if_pos hlen]
  · rfl

theorem addAnswers_answersOf {s : Sending} {adds : List AddAnswer} {answers : List ResourceRecord}
    (hadds : ∀ add ∈ adds, AddsFound s.builder.qname add) (hlen : s.builder.messageLen ≤ dnsTcpMaxSize)
    (h : answersOf s.builder.qname adds = .ok answers) : s.addAnswers adds = s.addAnswers (answers.map push) := by
  induction adds generalizing s answers with
  | nil =>
      cases h
      rfl
  | cons add adds ih =>
      rw [answersOf_cons] at h
      obtain ⟨found, hfound, h⟩ := Fallible.bind_eq_ok.1 h
      obtain ⟨rest, hrest, h⟩ := Fallible.bind_eq_ok.1 h
      cases h
      have hadds' : ∀ add ∈ adds, AddsFound s.builder.qname add := fun add h => hadds add (by simp [h])
      rw [addAnswers, addAnswerAndFlushIfNeeded_found (hadds add (by simp)) hlen, hfound]
      cases found with
      | none => exact ih hadds' hlen hrest
      | some a =>
          rw [Option.toList_some, List.singleton_append, List.map_cons, addAnswers]
          simp only
          cases hstep : s.addAnswerAndFlushIfNeeded (push a) with
          | mk result s' =>
              cases result with
              | error e => rfl
              | ok u =>
                  obtain ⟨hqname, hlen', -⟩ := addAnswerAndFlushIfNeeded_ok hlen hstep
                  exact ih (hqname ▸ hadds') hlen' (hqname ▸ hrest)

/-- Where something is not found, not all is added. -/
theorem exists_answersOf {s s' : Sending} {adds : List AddAnswer}
    (hadds : ∀ add ∈ adds, AddsFound s.builder.qname add) (hlen : s.builder.messageLen ≤ dnsTcpMaxSize)
    (h : s.addAnswers adds = (.ok (), s')) : ∃ answers, answersOf s.builder.qname adds = .ok answers := by
  induction adds generalizing s with
  | nil => exact ⟨[], rfl⟩
  | cons add adds ih =>
      have hadds' : ∀ add ∈ adds, AddsFound s.builder.qname add := fun add h => hadds add (by simp [h])
      rw [addAnswers, addAnswerAndFlushIfNeeded_found (hadds add (by simp)) hlen] at h
      rw [answersOf_cons]
      rcases hfound : found s.builder.qname add with e | _ | a <;> rw [hfound] at h
      · cases h
      · obtain ⟨answers, hanswers⟩ := ih hadds' hlen h
        exact ⟨answers, by rw [hanswers]; rfl⟩
      · simp only at h
        cases hstep : s.addAnswerAndFlushIfNeeded (push a) with
        | mk result s₁ =>
            rw [hstep] at h
            cases result with
            | error e => cases h
            | ok u =>
                obtain ⟨hqname, hlen', -⟩ := addAnswerAndFlushIfNeeded_ok hlen hstep
                obtain ⟨answers, hanswers⟩ := ih (hqname ▸ hadds') hlen' h
                exact ⟨a :: answers, by rw [hqname] at hanswers; rw [hanswers]; rfl⟩

theorem fits_of_addAnswers {s s' : Sending} {answers : List ResourceRecord} (hlen : s.builder.messageLen ≤ dnsTcpMaxSize)
    (h : s.addAnswers (answers.map push) = (.ok (), s')) :
    ∀ a ∈ answers, 12 + s.builder.qname.len + 4 + (crates.composeRecord a).length ≤ dnsTcpMaxSize := by
  induction answers generalizing s with
  | nil => simp
  | cons a answers ih =>
      rw [List.map_cons, addAnswers] at h
      cases hstep : s.addAnswerAndFlushIfNeeded (push a) with
      | mk result s₁ =>
          rw [hstep] at h
          cases result with
          | error e => cases h
          | ok u =>
              obtain ⟨hqname, hlen', hfits⟩ := addAnswerAndFlushIfNeeded_ok hlen hstep
              exact List.forall_mem_cons.2 ⟨hfits, hqname ▸ ih hlen' h⟩

theorem addAnswerAndFlushIfNeeded_push {answers : List ResourceRecord} {a : ResourceRecord}
    (hlen : (holding queryId qname qtype answers).messageLen ≤ dnsTcpMaxSize)
    (hfit : (holding queryId qname qtype [a]).messageLen ≤ dnsTcpMaxSize) (taken : List UInt8) (n : ℕ) :
    addAnswerAndFlushIfNeeded ⟨⟨taken, []⟩, holding queryId qname qtype answers, n⟩ (push a) =
      if (holding queryId qname qtype (answers ++ [a])).messageLen ≤ dnsTcpMaxSize then
        (.ok (), ⟨⟨taken, []⟩, holding queryId qname qtype (answers ++ [a]), n⟩)
      else (.ok (), ⟨⟨taken ++ frame (holding queryId qname qtype answers), []⟩, holding queryId qname qtype [a], n + 1⟩) := by
  rw [addAnswerAndFlushIfNeeded_eq _ _ hlen]
  simp only [DnsMessageBuilder.pushAnswer_holding]
  split
  · rfl
  · rename_i hlong
    have hne : answers ≠ [] := by
      rintro rfl
      exact hlong hfit
    rw [if_neg (show ¬ (holding queryId qname qtype answers).answers = [] from hne)]
    simp only [Writer.send, Writer.writeAll, Writer.flush, DnsMessageBuilder.clearAnswers_holding,
      DnsMessageBuilder.pushAnswer_holding, List.nil_append]
    rw [if_neg (Nat.not_lt.2 hfit)]

theorem addAnswers_push {answers : List ResourceRecord} {adds : List ResourceRecord}
    (hlen : (holding queryId qname qtype answers).messageLen ≤ dnsTcpMaxSize)
    (hfit : ∀ a ∈ adds, (holding queryId qname qtype [a]).messageLen ≤ dnsTcpMaxSize) (taken : List UInt8) (n : ℕ) :
    ∃ (groups : List (List ResourceRecord)) (last : List ResourceRecord), addAnswers ⟨⟨taken, []⟩, holding queryId qname qtype answers, n⟩ (adds.map push) =
        (.ok (), ⟨⟨taken ++ groups.flatMap fun g => frame (holding queryId qname qtype g), []⟩,
          holding queryId qname qtype last, n + groups.length⟩) ∧
      groups.flatten ++ last = answers ++ adds ∧
      (∀ g ∈ groups, g ≠ [] ∧ (holding queryId qname qtype g).messageLen ≤ dnsTcpMaxSize) ∧
      (holding queryId qname qtype last).messageLen ≤ dnsTcpMaxSize := by
  induction adds generalizing answers taken n with
  | nil => exact ⟨[], answers, by simp [addAnswers], by simp, by simp, hlen⟩
  | cons a adds ih =>
      have ha := hfit a (by simp)
      have hrest : ∀ b ∈ adds, (holding queryId qname qtype [b]).messageLen ≤ dnsTcpMaxSize := fun b hb =>
        hfit b (by simp [hb])
      have hstep := addAnswerAndFlushIfNeeded_push hlen ha taken n
      rw [List.map_cons, addAnswers, hstep]
      by_cases hshort : (holding queryId qname qtype (answers ++ [a])).messageLen ≤ dnsTcpMaxSize
      · rw [if_pos hshort]
        obtain ⟨groups, last, hrun, hflat, hgroups, hlast⟩ := ih hshort hrest taken n
        exact ⟨groups, last, hrun, by simp [hflat], hgroups, hlast⟩
      · rw [if_neg hshort]
        have hne : answers ≠ [] := by
          rintro rfl
          exact hshort ha
        obtain ⟨groups, last, hrun, hflat, hgroups, hlast⟩ :=
          ih ha hrest (taken ++ frame (holding queryId qname qtype answers)) (n + 1)
        refine ⟨answers :: groups, last, ?_, by simp [hflat], List.forall_mem_cons.2 ⟨⟨hne, hlen⟩, hgroups⟩, hlast⟩
        simp only
        rw [hrun, List.flatMap_cons, List.append_assoc, List.length_cons, Nat.add_assoc, Nat.add_comm 1]

/-- The whole of the answers is sent, in messages that hold some. -/
theorem stream_push {adds : List ResourceRecord} (hqname : (holding queryId qname qtype []).messageLen ≤ dnsTcpMaxSize)
    (hfit : ∀ a ∈ adds, (holding queryId qname qtype [a]).messageLen ≤ dnsTcpMaxSize) :
    ∃ groups : List (List ResourceRecord), stream ⟨⟨[], []⟩, .new queryId qname qtype, 0⟩ (adds.map push) =
        (.ok (), ⟨⟨groups.flatMap fun g => frame (holding queryId qname qtype g), []⟩, holding queryId qname qtype [],
          groups.length⟩) ∧
      groups.flatten = adds ∧ ∀ g ∈ groups, g ≠ [] ∧ (holding queryId qname qtype g).messageLen ≤ dnsTcpMaxSize := by
  obtain ⟨groups, last, hrun, hflat, hgroups, hlast⟩ := addAnswers_push hqname hfit [] 0
  rw [List.nil_append, Nat.zero_add] at hrun
  rw [DnsMessageBuilder.new_eq_holding, stream, hrun]
  simp only
  by_cases hne : last = []
  · refine ⟨groups, ?_, by simpa [hne] using hflat, hgroups⟩
    rw [hne]
    rfl
  · refine ⟨groups ++ [last], ?_, by simpa using hflat, ?_⟩
    · rw [flushMessageIfNotEmpty_eq hne hlast]
      simp [Writer.send, Writer.writeAll, Writer.flush, DnsMessageBuilder.clearAnswers_holding]
    · intro g hg
      rcases List.mem_append.1 hg with hg | hg
      · exact hgroups g hg
      · rw [List.mem_singleton.1 hg]
        exact ⟨hne, hlast⟩

omit crates in
theorem messageLen_new (queryId : ℕ) (qname : Name) (qtype : ℕ) :
    (DnsMessageBuilder.new queryId qname qtype).messageLen ≤ dnsTcpMaxSize := by
  have := qname.len_le
  simp only [DnsMessageBuilder.messageLen, DnsMessageBuilder.new, dnsTcpMaxSize]
  omega

theorem stream_answersOf {s : Sending} {adds : List AddAnswer} {answers : List ResourceRecord}
    (hadds : ∀ add ∈ adds, AddsFound s.builder.qname add) (hlen : s.builder.messageLen ≤ dnsTcpMaxSize)
    (h : answersOf s.builder.qname adds = .ok answers) : s.stream adds = s.stream (answers.map push) := by
  rw [stream, addAnswers_answersOf hadds hlen h, stream]

/-- **Which transfers succeed.**  With a writer that never fails, those whose answers are all found and fit a message
alone. -/
theorem exists_stream_iff {adds : List AddAnswer} (hadds : ∀ add ∈ adds, AddsFound qname add) :
    (∃ s, stream ⟨⟨[], []⟩, .new queryId qname qtype, 0⟩ adds = (.ok (), s)) ↔
      ∃ answers, answersOf qname adds = .ok answers ∧
        ∀ a ∈ answers, 12 + qname.len + 4 + (crates.composeRecord a).length ≤ dnsTcpMaxSize := by
  have hnew := messageLen_new queryId qname qtype
  constructor
  · rintro ⟨s, hs⟩
    rw [stream] at hs
    cases hrun : addAnswers ⟨⟨[], []⟩, .new queryId qname qtype, 0⟩ adds with
    | mk result s₁ =>
        rw [hrun] at hs
        cases result with
        | error e => cases hs
        | ok u =>
            obtain ⟨answers, hanswers⟩ := @exists_answersOf crates ⟨⟨[], []⟩, .new queryId qname qtype, 0⟩ s₁ adds hadds hnew hrun
            rw [addAnswers_answersOf hadds hnew hanswers] at hrun
            exact ⟨answers, hanswers, fits_of_addAnswers hnew hrun⟩
  · rintro ⟨answers, hanswers, hfits⟩
    obtain ⟨groups, hrun, -⟩ := @stream_push crates queryId qtype qname answers hnew fun a ha => by
      simpa [DnsMessageBuilder.messageLen, holding] using hfits a ha
    exact ⟨_, by rw [stream_answersOf hadds hnew hanswers, hrun]⟩

/-- A transfer with these answers is sent whole to a writer that never fails. -/
def Sends (queryId : ℕ) (qname : Name) (qtype : ℕ) (adds : List AddAnswer) (answers : List ResourceRecord) : Prop :=
  answersOf qname adds = .ok answers ∧ ∃ s, stream ⟨⟨[], []⟩, .new queryId qname qtype, 0⟩ adds = (.ok (), s)

theorem sends_iff {adds : List AddAnswer} (hadds : ∀ add ∈ adds, AddsFound qname add) {answers : List ResourceRecord} :
    Sends queryId qname qtype adds answers ↔ answersOf qname adds = .ok answers ∧
      ∀ a ∈ answers, 12 + qname.len + 4 + (crates.composeRecord a).length ≤ dnsTcpMaxSize := by
  refine and_congr_right fun hanswers => ?_
  rw [exists_stream_iff hadds]
  constructor
  · rintro ⟨answers', hanswers', hfits⟩
    rw [hanswers, Except.ok.injEq] at hanswers'
    exact hanswers' ▸ hfits
  · exact fun hfits => ⟨answers, hanswers, hfits⟩

theorem readTcpMessages_frames {groups : List (List ResourceRecord)}
    (h : ∀ g ∈ groups, (holding queryId qname qtype g).messageLen ≤ dnsTcpMaxSize) :
    readTcpMessages (groups.flatMap fun g => frame (holding queryId qname qtype g)) =
      .ok (groups.map fun g => (holding queryId qname qtype g).buildMessage) := by
  induction groups with
  | nil => exact readTcpMessages_nil
  | cons g groups ih =>
      have hg := h g (by simp)
      rw [List.flatMap_cons, frame, ← DnsMessageBuilder.length_buildMessage, readTcpMessages_cons (by
        rw [DnsMessageBuilder.length_buildMessage]; exact hg), ih fun g hg => h g (by simp [hg])]
      rfl

/-- Answers of at least 11 octets are fewer in a message than the count can say. -/
theorem length_lt_of_messageLen {g : List ResourceRecord} (hsize : ∀ a ∈ g, 11 ≤ (crates.composeRecord a).length)
    (h : (holding queryId qname qtype g).messageLen ≤ dnsTcpMaxSize) : g.length < 65536 := by
  have hsum : 11 * g.length ≤ (g.map fun a => (crates.composeRecord a).length).sum := by
    induction g with
    | nil => simp
    | cons a g ih =>
        have ha := hsize a (by simp)
        have hrest := ih (fun b hb => hsize b (by simp [hb])) (by
          simp only [DnsMessageBuilder.messageLen, holding, List.map_cons, List.sum_cons] at h ⊢
          omega)
        rw [List.map_cons, List.sum_cons, List.length_cons]
        omega
  simp only [DnsMessageBuilder.messageLen, holding, dnsTcpMaxSize] at h
  omega

end Sending

/-- **Framing.**  Answers of at least 11 octets that fit a message alone are sent whole and in order: the stream is
read as messages of at most 65535 octets, as many as were counted, each with at least one answer and with
the count of its answers, and the answers of the messages are those that were added.  At every answer the
length that is tracked is the length of the answers in the message. -/
theorem framing_lossless (queryId : ℕ) (qname : Name) (qtype : ℕ) (answers : List ResourceRecord)
    (hsize : ∀ a ∈ answers, 11 ≤ (crates.composeRecord a).length)
    (hfit : ∀ a ∈ answers, 12 + qname.len + 4 + (crates.composeRecord a).length ≤ 65535) :
    (∃ s messages groups,
      Sending.stream ⟨⟨[], []⟩, .new queryId qname qtype, 0⟩ (answers.map Sending.push) = (.ok (), s) ∧
      readTcpMessages s.writer.taken = .ok messages ∧ groups.flatten = answers ∧
      List.Forall₂ (fun message group => message.length ≤ 65535 ∧ group ≠ [] ∧
        Rfc1035.readNat 2 message 6 = some (group.length, 8) ∧
        message.drop (12 + qname.len + 4) = group.flatMap crates.composeRecord) messages groups ∧
      s.messagesSent = messages.length ∧ s.builder.Tracks) ∧
    ∀ k, (Sending.addAnswers ⟨⟨[], []⟩, .new queryId qname qtype, 0⟩
      ((answers.take k).map Sending.push)).2.builder.Tracks := by
  have hqname := Sending.messageLen_new queryId qname qtype
  have hfit : ∀ a ∈ answers, (DnsMessageBuilder.holding queryId qname qtype [a]).messageLen ≤ dnsTcpMaxSize := fun a ha => by
    simpa [DnsMessageBuilder.messageLen, DnsMessageBuilder.holding, dnsTcpMaxSize] using hfit a ha
  refine ⟨?_, fun k => ?_⟩
  · obtain ⟨groups, hrun, hflat, hgroups⟩ := Sending.stream_push hqname hfit
    refine ⟨_, _, groups, hrun, Sending.readTcpMessages_frames fun g hg => (hgroups g hg).2, hflat, ?_, by simp,
      DnsMessageBuilder.holding_tracks []⟩
    rw [List.forall₂_map_left_iff, List.forall₂_same]
    intro g hg
    obtain ⟨hne, hlen⟩ := hgroups g hg
    have hcount := Sending.length_lt_of_messageLen
      (fun a ha => hsize a (hflat ▸ List.mem_flatten.2 ⟨g, hg, ha⟩)) hlen
    refine ⟨by rw [DnsMessageBuilder.length_buildMessage]; exact hlen, hne, ?_, ?_⟩
    · rw [DnsMessageBuilder.buildMessage_holding, DnsMessageBuilder.readNat_header hcount]
    · rw [DnsMessageBuilder.buildMessage_holding, List.drop_left' (DnsMessageBuilder.length_header _ _ _ _)]
  · obtain ⟨groups, last, hrun, -⟩ :=
      Sending.addAnswers_push hqname (fun a ha => hfit a (List.mem_of_mem_take ha)) [] 0
    rw [DnsMessageBuilder.new_eq_holding, hrun]
    exact DnsMessageBuilder.holding_tracks last

end Lossless

theorem framing_lossless_address : ∃ (a : ResourceRecord) (s : Sending) (messages : List (List UInt8))
    (groups : List (List ResourceRecord)), @Sending.stream sampleCrates ⟨⟨[], []⟩, .new 7 Name.root 252, 0⟩
        ([a, a].map (@Sending.push sampleCrates)) = (.ok (), s) ∧
      readTcpMessages s.writer.taken = .ok messages ∧ groups.flatten = [a, a] ∧ s.messagesSent = messages.length := by
  let a : ResourceRecord := ⟨Name.root, 300, .a ![192, 0, 2, 1]⟩
  obtain ⟨⟨s, messages, groups, hrun, hread, hflat, -, hsent, -⟩, -⟩ :=
    @framing_lossless sampleCrates 7 Name.root 252 [a, a] (by decide +kernel) (by decide +kernel)
  exact ⟨a, s, messages, groups, hrun, hread, hflat, hsent⟩

end Bindizr
