import Bindizr.TxtForms

/-! # TXT rdata by index

`TxtRecordValue` works on slices: `from_string` keeps the start and the length of the chunk it
reads and cuts it out of the octets of the whole string, and the decoders move a position over
the rdata by the length octets they find.  Here these loops are modelled with their indices, an
index past the end being `none` (a panic).  On what `from_encoded` accepts they compute what the
loops over lists of `RecordValue` compute, so none of them panics (`txt_indexing`). -/

namespace Bindizr

/-- `&octets[start..stop]`. -/
def slice (octets : List UInt8) (start stop : ℕ) : Option (List UInt8) :=
  if start ≤ stop ∧ stop ≤ octets.length then some ((octets.drop start).take (stop - start)) else none

theorem slice_append (a b c : List UInt8) : slice (a ++ b ++ c) a.length (a.length + b.length) = some b := by
  rw [slice, if_pos (by simp), List.append_assoc]
  simp

namespace TxtRecordValue

/-! ### The loops -/

/-- The loop of `from_string` over the characters that are left. -/
def fromStringFrom (octets : List UInt8) :
    Text → (idx chunkStart chunkLen : ℕ) → (rdata : List UInt8) → Option (List UInt8)
  | [], _, chunkStart, chunkLen, rdata => do
      let chunk ← slice octets chunkStart octets.length
      some (rdata ++ UInt8.ofNat chunkLen :: chunk)
  | ch :: chars, idx, chunkStart, chunkLen, rdata =>
      if 255 < chunkLen + ch.utf8Size then do
        let chunk ← slice octets chunkStart idx
        fromStringFrom octets chars (idx + ch.utf8Size) idx ch.utf8Size (rdata ++ UInt8.ofNat chunkLen :: chunk)
      else fromStringFrom octets chars (idx + ch.utf8Size) chunkStart (chunkLen + ch.utf8Size) rdata

def fromString (value : Text) : Option (List UInt8) := fromStringFrom (asBytes value) value 0 0 0 []

/-- The loop of `is_valid_txt_rdata`. -/
def isValidFrom (rdata : List UInt8) (pos : ℕ) : Option Bool :=
  if _h : pos < rdata.length then do
    let chunkLen ← rdata[pos]?
    if rdata.length < pos + 1 + chunkLen.toNat then some false
    else isValidFrom rdata (pos + 1 + chunkLen.toNat)
  else some true
termination_by rdata.length - pos

def toContentFrom (rdata : List UInt8) (pos : ℕ) (segments : List Text) : Option (Option (List Text)) :=
  if _h : pos < rdata.length then do
    let chunkLen ← rdata[pos]?
    let octets ← slice rdata (pos + 1) (pos + 1 + chunkLen.toNat)
    match fromUtf8 octets with
    | none => some none
    | some chunk => toContentFrom rdata (pos + 1 + chunkLen.toNat) (segments ++ [chunk])
  else some (some segments)
termination_by rdata.length - pos

def toContent (rdata : List UInt8) : Option (Option TxtContent) :=
  if rdata = [] then some none
  else do
    let segments ← toContentFrom rdata 0 []
    some (match segments with
      | none => none
      | some [single] => some (.single single)
      | some segments => some (.segments segments))

def toPresentationFrom (rdata : List UInt8) (pos : ℕ) (segments : List Text) : Option (List Text) :=
  if _h : pos < rdata.length then do
    let len ← rdata[pos]?
    let octets ← slice rdata (pos + 1) (pos + 1 + len.toNat)
    toPresentationFrom rdata (pos + 1 + len.toNat) (segments ++ [txtToQuotedCharstr octets])
  else some segments
termination_by rdata.length - pos

def toPresentation (rdata : List UInt8) : Option Text := do
  let segments ← toPresentationFrom rdata 0 []
  some (join [' '] (if segments = [] then [['"', '"']] else segments))

def fromEncoded [crates : Crates] (stored : Text) : Option (Option (List UInt8)) :=
  match (stripPrefix rawTxtRdataPrefix stored).bind crates.base64Decode with
  | none => some none
  | some rdata => do
      let valid ← isValidFrom rdata 0
      some (if valid then some rdata else none)

/-! ### Cutting a string -/

/-- The invariant of the loop: what is read is the text before the chunk, then the chunk. -/
theorem fromStringFrom_eq (done chunk chars : Text) (rdata : List UInt8) :
    fromStringFrom (asBytes (done ++ chunk ++ chars)) chars (byteLen (done ++ chunk)) (byteLen done) (byteLen chunk) rdata =
      some (rdata ++ txtFromStringFrom chars chunk) := by
  induction chars generalizing done chunk rdata with
  | nil =>
      have hslice := slice_append (asBytes done) (asBytes chunk) []
      rw [List.append_nil, ← asBytes_append, length_asBytes, length_asBytes] at hslice
      rw [fromStringFrom, List.append_nil, length_asBytes, byteLen_append, hslice]
      rfl
  | cons ch chars ih =>
      rw [fromStringFrom, txtFromStringFrom]
      split
      · have hslice := slice_append (asBytes done) (asBytes chunk) (asBytes (ch :: chars))
        rw [← asBytes_append, ← asBytes_append, length_asBytes, length_asBytes, ← byteLen_append] at hslice
        have hnext := ih (done ++ chunk) [ch] (rdata ++ UInt8.ofNat (byteLen chunk) :: asBytes chunk)
        simp only [byteLen_append, byteLen_cons, byteLen_nil, Nat.add_zero, List.append_assoc, List.cons_append,
          List.nil_append, Nat.add_assoc] at hnext hslice ⊢
        rw [hslice, Option.bind_eq_bind, Option.bind_some, hnext, characterString]
        simp
      · have hnext := ih done (chunk ++ [ch]) rdata
        simp only [byteLen_append, byteLen_cons, byteLen_nil, Nat.add_zero, List.append_assoc, List.cons_append,
          List.nil_append, Nat.add_assoc] at hnext ⊢
        exact hnext

theorem fromString_eq (value : Text) : fromString value = some (txtFromString value) :=
  fromStringFrom_eq [] [] value []

/-! ### Moving over rdata -/

theorem isValidTxtRdataFrom_eq (n : ℕ) (octets : List UInt8) :
    isValidTxtRdataFrom n octets = (decide (n ≤ octets.length) && isValidTxtRdata (octets.drop n)) := by
  induction octets generalizing n with
  | nil => cases n <;> simp [isValidTxtRdataFrom, isValidTxtRdata]
  | cons b octets ih =>
      cases n with
      | zero => simp [isValidTxtRdata]
      | succ n => simp [isValidTxtRdataFrom, ih]

theorem drop_eq_cons {rdata : List UInt8} {pos : ℕ} (h : pos < rdata.length) :
    ∃ n, rdata[pos]? = some n ∧ rdata.drop pos = n :: rdata.drop (pos + 1) :=
  ⟨rdata[pos], List.getElem?_eq_getElem h, List.drop_eq_getElem_cons h⟩

theorem isValidFrom_eq (rdata : List UInt8) (pos : ℕ) :
    isValidFrom rdata pos = some (isValidTxtRdata (rdata.drop pos)) := by
  fun_induction isValidFrom rdata pos with
  | case1 pos h ih =>
      obtain ⟨n, hn, hdrop⟩ := drop_eq_cons h
      rw [hn, Option.bind_eq_bind, Option.bind_some, hdrop, isValidTxtRdata, isValidTxtRdataFrom,
        isValidTxtRdataFrom_eq, List.length_drop, List.drop_drop]
      split
      · rename_i hlong
        rw [decide_eq_false (by omega), Bool.false_and]
      · rename_i hlong
        rw [ih n hlong, decide_eq_true (by omega), Bool.true_and]
  | case2 pos h =>
      rw [List.drop_eq_nil_of_le (by omega)]
      rfl

theorem slice_of_valid {rdata : List UInt8} {pos : ℕ} (h : pos < rdata.length)
    (hvalid : isValidTxtRdata (rdata.drop pos) = true) :
    ∃ n octets, rdata[pos]? = some n ∧ slice rdata (pos + 1) (pos + 1 + n.toNat) = some octets ∧
      isValidTxtRdata (rdata.drop (pos + 1 + n.toNat)) = true ∧
      txtChunks (rdata.drop pos) = octets :: txtChunks (rdata.drop (pos + 1 + n.toNat)) := by
  obtain ⟨n, hn, hdrop⟩ := drop_eq_cons h
  rw [hdrop, isValidTxtRdata, isValidTxtRdataFrom, isValidTxtRdataFrom_eq, Bool.and_eq_true, decide_eq_true_eq,
    List.length_drop, List.drop_drop] at hvalid
  have hlen : ((rdata.drop (pos + 1)).take n.toNat).length = n.toNat := by
    rw [List.length_take, List.length_drop]
    omega
  refine ⟨n, (rdata.drop (pos + 1)).take n.toNat, hn, ?_, hvalid.2, ?_⟩
  · rw [slice, if_pos (by omega), Nat.add_sub_cancel_left]
  · have hsplit := List.take_append_drop n.toNat (rdata.drop (pos + 1))
    rw [List.drop_drop] at hsplit
    have hchunks := @txtChunks_cons ((rdata.drop (pos + 1)).take n.toNat) (by have := n.toNat_lt; omega)
      (rdata.drop (pos + 1 + n.toNat))
    rwa [hlen, UInt8.ofNat_toNat, hsplit, ← hdrop] at hchunks

theorem toContentFrom_eq {rdata : List UInt8} {pos : ℕ} {segments : List Text}
    (hvalid : isValidTxtRdata (rdata.drop pos) = true) : toContentFrom rdata pos segments =
      some (((txtChunks (rdata.drop pos)).mapM fromUtf8).map (segments ++ ·)) := by
  fun_induction toContentFrom rdata pos segments with
  | case1 pos segments h ih =>
      obtain ⟨n, octets, hn, hslice, hrest, hchunks⟩ := slice_of_valid h hvalid
      rw [hn, Option.bind_eq_bind, Option.bind_some, hslice, Option.bind_eq_bind, Option.bind_some, hchunks, List.mapM_cons]
      cases hu : fromUtf8 octets with
      | none => rfl
      | some chunk =>
          simp only
          rw [ih n chunk hrest]
          cases (txtChunks (rdata.drop (pos + 1 + n.toNat))).mapM fromUtf8 <;> simp
  | case2 pos segments h =>
      rw [List.drop_eq_nil_of_le (by omega)]
      simp [txtChunks, txtChunksFrom]

theorem toPresentationFrom_eq {rdata : List UInt8} {pos : ℕ} {segments : List Text}
    (hvalid : isValidTxtRdata (rdata.drop pos) = true) : toPresentationFrom rdata pos segments =
      some (segments ++ (txtChunks (rdata.drop pos)).map txtToQuotedCharstr) := by
  fun_induction toPresentationFrom rdata pos segments with
  | case1 pos segments h ih =>
      obtain ⟨n, octets, hn, hslice, hrest, hchunks⟩ := slice_of_valid h hvalid
      rw [hn, Option.bind_eq_bind, Option.bind_some, hslice, Option.bind_eq_bind, Option.bind_some, hchunks,
        ih n octets hrest]
      simp
  | case2 pos segments h =>
      rw [List.drop_eq_nil_of_le (by omega)]
      simp [txtChunks, txtChunksFrom]

/-- On valid rdata, the decoders compute what the loops over lists compute. -/
theorem decoders_eq {rdata : List UInt8} (hvalid : isValidTxtRdata rdata = true) :
    toContent rdata = some (txtToContent rdata) ∧ toPresentation rdata = some (txtToPresentation rdata) := by
  constructor
  · unfold toContent txtToContent
    split
    · rfl
    · rw [toContentFrom_eq (by simpa using hvalid), List.drop_zero]
      cases (txtChunks rdata).mapM fromUtf8 with
      | none => rfl
      | some segments => rfl
  · unfold toPresentation txtToPresentation
    rw [toPresentationFrom_eq (by simpa using hvalid), List.drop_zero, List.nil_append]
    cases txtChunks rdata with
    | nil => rfl
    | cons c chunks => rfl

theorem fromEncoded_eq [Crates] (stored : Text) : fromEncoded stored = some (txtFromEncoded stored) := by
  unfold fromEncoded txtFromEncoded
  cases stripPrefix rawTxtRdataPrefix stored with
  | none => rfl
  | some encoded =>
      simp only [Option.bind_some, Option.bind_eq_bind]
      cases Crates.base64Decode encoded with
      | none => rfl
      | some rdata => simp [isValidFrom_eq]

end TxtRecordValue

/-- **TXT rdata.**  A string is cut into character-strings of at most 255 octets, each UTF-8, that put it together
again, with an empty one only for the empty string.  What `from_string`, `from_segments` or `parse` made
comes back from its stored form.  Whatever a row holds, decoding it, and showing what was decoded, reads
nothing past the end. -/
theorem txt_indexing [crates : Crates] (hbase64 : crates.Base64RoundTrip) :
    (∀ s : Text, ∃ segments, TxtRecordValue.fromString s = some (txtRdata segments) ∧
      (∀ t ∈ segments, byteLen t ≤ 255) ∧ segments.flatten = s ∧ ([] ∈ segments → segments = [[]])) ∧
    (∀ rdata, (∃ s, TxtRecordValue.fromString s = some rdata) ∨ (∃ segments, txtFromSegments segments = .ok rdata) ∨
      (∃ t, txtParse t = .ok rdata) → TxtRecordValue.fromEncoded (txtIntoEncoded rdata) = some (some rdata)) ∧
    ∀ stored, ∃ decoded, TxtRecordValue.fromEncoded stored = some decoded ∧
      ∀ rdata, decoded = some rdata →
        (∃ content, TxtRecordValue.toContent rdata = some content) ∧ ∃ t, TxtRecordValue.toPresentation rdata = some t := by
  refine ⟨fun s => ?_, fun rdata h => ?_, fun stored => ⟨_, TxtRecordValue.fromEncoded_eq stored, fun rdata h => ?_⟩⟩
  · obtain ⟨segments, e, hlen, hflat, -, hempty⟩ := @txtFromStringFrom_segments s [] (by simp)
    exact ⟨segments, by rw [TxtRecordValue.fromString_eq, txtFromString, e], hlen, hflat, hempty⟩
  · rw [TxtRecordValue.fromEncoded_eq, txtFromEncoded_txtIntoEncoded hbase64]
    rcases h with ⟨s, h⟩ | ⟨segments, h⟩ | ⟨t, h⟩
    · rw [TxtRecordValue.fromString_eq, Option.some.injEq] at h
      exact h ▸ txtFromStringFrom_isTxtRdata (by simp)
    · exact txtFromSegments_isTxtRdata h
    · exact txtParse_isTxtRdata h
  · obtain ⟨encoded, -, h⟩ := Option.bind_eq_some_iff.1 h
    obtain ⟨decoded, -, h⟩ := Option.bind_eq_some_iff.1 h
    split at h
    · rename_i hvalid
      cases h
      obtain ⟨hcontent, hshow⟩ := TxtRecordValue.decoders_eq hvalid
      exact ⟨⟨_, hcontent⟩, _, hshow⟩
    · cases h

theorem txt_indexing_sample : ∃ segments, TxtRecordValue.fromString (lit "v=spf1 -all") = some (txtRdata segments) ∧
    segments.flatten = lit "v=spf1 -all" ∧
    @TxtRecordValue.fromEncoded sampleCrates (@txtIntoEncoded sampleCrates (txtRdata segments)) =
      some (some (txtRdata segments)) ∧ ∃ t, TxtRecordValue.toPresentation (txtRdata segments) = some t := by
  obtain ⟨hcut, hback, hdecode⟩ := @txt_indexing sampleCrates sampleCrates_base64
  obtain ⟨segments, hs, -, hflat, -⟩ := hcut (lit "v=spf1 -all")
  have hread := hback _ (.inl ⟨_, hs⟩)
  obtain ⟨decoded, hd, hshow⟩ := hdecode (@txtIntoEncoded sampleCrates (txtRdata segments))
  rw [hread, Option.some.injEq] at hd
  exact ⟨segments, hs, hflat, hread, (hshow _ hd.symm).2⟩

end Bindizr
