import Bindizr.StoredTxt
import Bindizr.OwnerForms

/-! # The presentation form of TXT rdata

`bindizr-core/src/dns/record/txt`: TXT rdata is shown as quoted character-strings with a space
between two, each octet that is not printable ASCII an escape of three digits
(`txtToPresentation`), and read by a machine that takes one octet at a time (`parseQuotedFrom`).
Reading what is shown gives the rdata back (`txt_presentation`): the machine adds exactly one
octet to the string it reads for each octet that was shown, and the strings come back as UTF-8. -/

namespace Bindizr

/-! ### Character-strings of rdata -/

theorem txtChunksFrom_append {octets : List UInt8} (hne : octets ≠ []) (read rest : List UInt8) :
    txtChunksFrom octets.length read (octets ++ rest) = (read ++ octets) :: txtChunksFrom 0 [] rest := by
  induction octets generalizing read with
  | nil => exact absurd rfl hne
  | cons b octets ih =>
      cases octets with
      | nil => simp [txtChunksFrom]
      | cons d octets =>
          rw [List.length_cons, List.cons_append, txtChunksFrom, if_neg (by simp), ih (by simp)]
          simp

theorem txtChunks_cons {octets : List UInt8} (h : octets.length ≤ 255) (rest : List UInt8) :
    txtChunks (UInt8.ofNat octets.length :: (octets ++ rest)) = octets :: txtChunks rest := by
  have hlen : (UInt8.ofNat octets.length).toNat = octets.length := by
    rw [UInt8.toNat_ofNat']
    omega
  rw [txtChunks, txtChunksFrom]
  cases octets with
  | nil => simp [txtChunks]
  | cons b octets =>
      have hne : UInt8.ofNat (b :: octets).length ≠ 0 := by
        intro e
        rw [e] at hlen
        cases hlen
      rw [if_neg hne, hlen, txtChunksFrom_append (by simp), List.nil_append, txtChunks]

theorem txtChunks_txtRdata {segments : List Text} (h : ∀ s ∈ segments, byteLen s ≤ 255) :
    txtChunks (txtRdata segments) = segments.map asBytes := by
  induction segments with
  | nil => rfl
  | cons s segments ih =>
      have hs := h s (by simp)
      rw [← length_asBytes] at hs
      rw [txtRdata, List.flatMap_cons, characterString, List.cons_append, ← length_asBytes, txtChunks_cons hs]
      exact congrArg _ (ih fun s hs => h s (by simp [hs]))

/-! ### Reading a quoted string -/

theorem asBytes_ofNat {n : ℕ} (h : n < 128) : asBytes [Char.ofNat n] = [UInt8.ofNat n] := by
  have hn : (Char.ofNat n).toNat = n := by rw [Char.toNat_ofNat, if_pos (.inl (by omega))]
  rw [asBytes_cons, utf8EncodeChar_of_lt (by omega), hn]
  rfl

theorem toNat_digitOctet {n : ℕ} (h : n < 10) : (UInt8.ofNat (48 + n)).toNat = 48 + n := by
  rw [UInt8.toNat_ofNat']
  omega

theorem isDigitOctet_ofNat {n : ℕ} (h : n < 10) : isDigitOctet (UInt8.ofNat (48 + n)) = true := by
  simp only [isDigitOctet, toNat_digitOctet h, Bool.and_eq_true, decide_eq_true_eq]
  omega

theorem parseQuotedFrom_digits {x y z : ℕ} (hx : x < 10) (hy : y < 10) (hz : z < 10) (h : 100 * x + 10 * y + z ≤ 255)
    (segment rest : List UInt8) :
    parseQuotedFrom (.inside segment)
        (92 :: UInt8.ofNat (48 + x) :: UInt8.ofNat (48 + y) :: UInt8.ofNat (48 + z) :: rest) =
      parseQuotedFrom (.inside (segment ++ [UInt8.ofNat (100 * x + 10 * y + z)])) rest := by
  have e : 10 * (10 * (48 + x - 48) + (48 + y - 48)) + (48 + z - 48) = 100 * x + 10 * y + z := by omega
  rw [parseQuotedFrom, if_neg (by decide), if_pos rfl, parseQuotedFrom, if_pos (isDigitOctet_ofNat hx), parseQuotedFrom,
    if_neg (by rw [isDigitOctet_ofNat hy]; decide), if_pos rfl, parseQuotedFrom, if_neg (by rw [isDigitOctet_ofNat hz]; decide),
    if_neg (by decide), toNat_digitOctet hx, toNat_digitOctet hy, toNat_digitOctet hz, e, if_neg (by omega)]

theorem parseQuotedFrom_quotedOctet (b : UInt8) (segment rest : List UInt8) :
    parseQuotedFrom (.inside segment) (asBytes (quotedOctet b) ++ rest) =
      parseQuotedFrom (.inside (segment ++ [b])) rest := by
  have hb := b.toNat_lt
  unfold quotedOctet
  split
  · rename_i h
    subst h
    simp [parseQuotedFrom, isDigitOctet, asBytes, String.utf8EncodeChar]
  split
  · rename_i h
    subst h
    simp [parseQuotedFrom, isDigitOctet, asBytes, String.utf8EncodeChar]
  split
  · rename_i h1 h2 h3
    rw [asBytes_ofNat (by omega), UInt8.ofNat_toNat, List.singleton_append, parseQuotedFrom, if_neg h1, if_neg h2]
  · have hdigits : ∀ x y z : ℕ, x < 10 → y < 10 → z < 10 →
        asBytes ['\\', Char.ofNat (48 + x), Char.ofNat (48 + y), Char.ofNat (48 + z)] =
          [92, UInt8.ofNat (48 + x), UInt8.ofNat (48 + y), UInt8.ofNat (48 + z)] := by
      intro x y z hx hy hz
      have hcat : ∀ c d e f : Char, asBytes [c, d, e, f] = asBytes [c] ++ asBytes [d] ++ asBytes [e] ++ asBytes [f] := by
        simp
      rw [hcat, asBytes_ofNat (n := 48 + x) (by omega), asBytes_ofNat (n := 48 + y) (by omega),
        asBytes_ofNat (n := 48 + z) (by omega)]
      rfl
    have hvalue : 100 * (b.toNat / 100) + 10 * (b.toNat / 10 % 10) + b.toNat % 10 = b.toNat := by omega
    rw [hdigits _ _ _ (by omega) (by omega) (by omega)]
    simp only [List.cons_append, List.nil_append]
    rw [parseQuotedFrom_digits (by omega) (by omega) (by omega) (by omega), hvalue, UInt8.ofNat_toNat]

theorem parseQuotedFrom_octets (octets segment rest : List UInt8) :
    parseQuotedFrom (.inside segment) (asBytes (octets.flatMap quotedOctet) ++ rest) =
      parseQuotedFrom (.inside (segment ++ octets)) rest := by
  induction octets generalizing segment with
  | nil => simp
  | cons b octets ih =>
      rw [List.flatMap_cons, asBytes_append, List.append_assoc, parseQuotedFrom_quotedOctet, ih]
      simp

theorem parseQuotedFrom_charstr {state : QuoteState} (hstate : state = .start ∨ state = .spaces) {s : Text}
    (hs : byteLen s ≤ 255) (rest : List UInt8) :
    parseQuotedFrom state (asBytes (txtToQuotedCharstr (asBytes s)) ++ rest) = (do
      let ts ← parseQuotedFrom .closed rest
      pure (s :: ts)) := by
  have hopen : ∀ bs, parseQuotedFrom state (34 :: bs) = parseQuotedFrom (.inside []) bs := by
    intro bs
    rcases hstate with rfl | rfl <;> simp [parseQuotedFrom]
  have hquote : asBytes ['"'] = [34] := rfl
  have hclose : closeSegment (asBytes s) = .ok s := by
    rw [closeSegment, if_neg (by rw [length_asBytes]; omega), fromUtf8_asBytes]
  rw [txtToQuotedCharstr, asBytes_append, asBytes_append, hquote, List.append_assoc, List.append_assoc,
    List.singleton_append, hopen, parseQuotedFrom_octets, List.nil_append, List.singleton_append, parseQuotedFrom,
    if_pos rfl, hclose, Fallible.ok_bind]

theorem join_cons_cons (a b : Text) (l : List Text) : join [' '] (a :: b :: l) = a ++ ' ' :: join [' '] (b :: l) := by
  simp [join, List.intercalate]

theorem parseQuotedFrom_join {state : QuoteState} (hstate : state = .start ∨ state = .spaces) {segments : List Text}
    (hne : segments ≠ []) (h : ∀ s ∈ segments, byteLen s ≤ 255) :
    parseQuotedFrom state (asBytes (join [' '] ((segments.map asBytes).map txtToQuotedCharstr))) = .ok segments := by
  induction segments generalizing state with
  | nil => exact absurd rfl hne
  | cons s segments ih =>
      have hs := h s (by simp)
      cases segments with
      | nil =>
          have hread := parseQuotedFrom_charstr hstate hs []
          rw [List.append_nil] at hread
          simpa [join, parseQuotedFrom, pure, Except.pure] using hread
      | cons s' segments =>
          have hrest := ih (.inr rfl) (by simp) fun t ht => h t (by simp [ht])
          have hspace : ∀ t : Text, asBytes (' ' :: t) = 32 :: asBytes t := fun t => by
            rw [asBytes_cons]
            rfl
          simp only [List.map_cons] at hrest ⊢
          rw [join_cons_cons, asBytes_append, parseQuotedFrom_charstr hstate hs, hspace, parseQuotedFrom, if_pos rfl, hrest]
          rfl

/-! ### Rdata and back -/

theorem txtRdata_eq_nil {segments : List Text} : txtRdata segments = [] ↔ segments = [] := by
  cases segments <;> simp [txtRdata, characterString]

theorem txtSegmentsRdata_eq_ok {segments : List Text} (h : ∀ s ∈ segments, byteLen s ≤ 255) :
    txtSegmentsRdata segments = .ok (txtRdata segments) := by
  induction segments with
  | nil => rfl
  | cons s segments ih =>
      rw [txtSegmentsRdata, if_neg (Nat.not_lt.2 (h s (by simp))), ih fun t ht => h t (by simp [ht])]
      rfl

theorem txtFromSegments_ne_nil {segments : List Text} {rdata : List UInt8} (h : txtFromSegments segments = .ok rdata) :
    rdata ≠ [] := by
  obtain ⟨rdata', hrdata, h⟩ := Fallible.bind_eq_ok.1 h
  split at h
  · cases h
  · rename_i hne
    cases h
    cases segments with
    | nil => exact absurd rfl hne
    | cons s segments =>
        rw [txtSegmentsRdata] at hrdata
        split at hrdata
        · cases hrdata
        · obtain ⟨rest, -, hrdata⟩ := Fallible.bind_eq_ok.1 hrdata
          cases hrdata
          simp [characterString]

theorem ends_join_charstr {chunks : List (List UInt8)} (hne : chunks ≠ []) :
    (join [' '] (chunks.map txtToQuotedCharstr)).head? = some '"' ∧
      (join [' '] (chunks.map txtToQuotedCharstr)).getLast? = some '"' := by
  induction chunks with
  | nil => exact absurd rfl hne
  | cons c chunks ih =>
      cases chunks with
      | nil =>
          have hone : join [' '] ([c].map txtToQuotedCharstr) = txtToQuotedCharstr c := by simp [join]
          rw [hone]
          exact ⟨rfl, List.getLast?_concat⟩
      | cons d chunks =>
          obtain ⟨-, hlast⟩ := ih (by simp)
          rw [List.map_cons] at hlast
          rw [List.map_cons, List.map_cons, join_cons_cons]
          refine ⟨by simp [txtToQuotedCharstr], ?_⟩
          rw [List.getLast?_append, List.getLast?_cons, hlast]
          rfl

theorem txtParse_join {segments : List Text} (hne : segments ≠ []) (h : ∀ s ∈ segments, byteLen s ≤ 255) :
    txtParse (join [' '] ((segments.map asBytes).map txtToQuotedCharstr)) = .ok (txtRdata segments) := by
  obtain ⟨hhead, hlast⟩ := @ends_join_charstr (segments.map asBytes) (by simpa using hne)
  have htrim : trim (join [' '] ((segments.map asBytes).map txtToQuotedCharstr)) =
      join [' '] ((segments.map asBytes).map txtToQuotedCharstr) := by
    refine trim_eq_self_iff.2 ⟨fun c hc => ?_, fun c hc => ?_⟩
    · rw [hhead] at hc
      cases hc
      rfl
    · rw [hlast] at hc
      cases hc
      rfl
  unfold txtParse
  rw [htrim, if_neg (not_not.2 hhead), parseQuotedSegments, parseQuotedFrom_join (.inl rfl) hne h, Fallible.ok_bind,
    if_neg hne]
  show txtFromSegments segments = _
  rw [txtFromSegments, txtSegmentsRdata_eq_ok h, Fallible.ok_bind, if_neg hne]
  rfl

theorem txtParse_toPresentation {rdata : List UInt8} (h : IsTxtRdata rdata) (hne : rdata ≠ []) :
    txtParse (txtToPresentation rdata) = .ok rdata := by
  obtain ⟨segments, hlen, rfl⟩ := h
  have hsegments : segments ≠ [] := fun e => hne (txtRdata_eq_nil.2 e)
  unfold txtToPresentation
  rw [txtChunks_txtRdata hlen]
  split
  · rename_i e
    exact absurd (List.map_eq_nil_iff.1 e) hsegments
  · exact txtParse_join hsegments hlen

/-- A string is cut into character-strings that put it together again; only the empty string has an empty one. -/
theorem txtFromStringFrom_segments {t chunk : Text} (h : byteLen chunk ≤ 255) :
    ∃ segments, txtFromStringFrom t chunk = txtRdata segments ∧ (∀ s ∈ segments, byteLen s ≤ 255) ∧
      segments.flatten = chunk ++ t ∧ segments ≠ [] ∧ ([] ∈ segments → segments = [[]]) := by
  induction t generalizing chunk with
  | nil =>
      refine ⟨[chunk], by simp [txtFromStringFrom, txtRdata], by simpa using h, by simp, by simp, fun hmem => ?_⟩
      rw [← List.mem_singleton.1 hmem]
  | cons c t ih =>
      have hc := c.utf8Size_le_four
      rw [txtFromStringFrom]
      split
      · rename_i hfull
        obtain ⟨segments, e, hlen, hflat, -, hempty⟩ := @ih [c] (by simp; omega)
        refine ⟨chunk :: segments, by rw [e]; rfl, List.forall_mem_cons.2 ⟨h, hlen⟩, by simp [hflat], by simp, ?_⟩
        intro hmem
        rcases List.mem_cons.1 hmem with hmem | hmem
        · rw [← hmem, byteLen_nil] at hfull
          omega
        · rw [hempty hmem] at hflat
          cases hflat
      · obtain ⟨segments, e, hlen, hflat, hrest⟩ := @ih (chunk ++ [c]) (by simp; omega)
        exact ⟨segments, e, hlen, by simp [hflat], hrest⟩

theorem txtFromString_ne_nil (t : Text) : txtFromString t ≠ [] := by
  obtain ⟨segments, e, -, -, hne, -⟩ := @txtFromStringFrom_segments t [] (by simp)
  rw [txtFromString, e]
  exact fun hnil => hne (txtRdata_eq_nil.1 hnil)

theorem txtParse_ne_nil {t : Text} {rdata : List UInt8} (h : txtParse t = .ok rdata) : rdata ≠ [] := by
  unfold txtParse at h
  split at h
  · split at h
    · cases h
    · cases h
      exact txtFromString_ne_nil t
  · obtain ⟨segments, -, h⟩ := Fallible.bind_eq_ok.1 h
    exact txtFromSegments_ne_nil h

section Rows

variable [crates : Crates]

/-- A value that holds TXT rdata with a character-string. -/
def IsFilledTxt (value : Text) : Prop := ∃ rdata, value = txtIntoEncoded rdata ∧ rdata ≠ []

theorem toEncodedValue_filled {request : RecordValueRequest} {stored : Text} {priority : Option ℤ}
    (h : request.toEncodedValue .txt priority = .ok stored) : IsFilledTxt stored := by
  cases request with
  | string value =>
      cases h
      exact ⟨_, rfl, txtFromString_ne_nil value⟩
  | segments ss =>
      obtain ⟨rdata, hrdata, rfl⟩ := Fallible.map_eq_ok.1 h
      exact ⟨rdata, rfl, txtFromSegments_ne_nil hrdata⟩

theorem run_txtFilled (hnonempty : crates.TxtNonempty) {ops : List Op} (hops : ∀ op ∈ ops, op.WellTyped) :
    RowsWhere (fun r => r.recordType = .txt → IsFilledTxt r.value) (run ops) := by
  refine run_rowsWhere (C := Op.WellTyped) (fun zone ttl ht => ?_) (fun hC hx hrecords hchanges => ?_) hops
  · cases ht
  · refine hx.txtWhere (fun _ _ _ => toEncodedValue_filled) (fun value priority stored h => ?_)
      (fun d value priority hd => ?_) hC hrecords hchanges
    · obtain ⟨rdata, hrdata, rfl⟩ := Fallible.map_eq_ok.1 h
      exact ⟨rdata, rfl, txtParse_ne_nil hrdata⟩
    · cases hd with
      | @txt octets chunks hchunks _ =>
          refine ⟨octets, rfl, fun hnil => ?_⟩
          rw [hnil] at hchunks
          exact hnonempty chunks hchunks

end Rows

/-- **TXT presentation.**  Showing TXT rdata and reading what is shown gives the rdata back; so no two rdata are
shown alike, and reading is not changed by showing what was read. -/
theorem txt_presentation :
    (∀ rdata, IsTxtRdata rdata → rdata ≠ [] → txtParse (txtToPresentation rdata) = .ok rdata) ∧
    (∀ rdata rdata', IsTxtRdata rdata → rdata ≠ [] → IsTxtRdata rdata' → rdata' ≠ [] →
      txtToPresentation rdata = txtToPresentation rdata' → rdata = rdata') ∧
    ∀ t rdata, txtParse t = .ok rdata → txtParse (txtToPresentation rdata) = .ok rdata := by
  refine ⟨fun rdata h hne => txtParse_toPresentation h hne, fun rdata rdata' h hne h' hne' e => ?_, fun t rdata h => ?_⟩
  · have hread := txtParse_toPresentation h hne
    rw [e, txtParse_toPresentation h' hne'] at hread
    exact (Except.ok.inj hread).symm
  · exact txtParse_toPresentation (txtParse_isTxtRdata h) (txtParse_ne_nil h)

theorem txt_presentation_quoted :
    txtToPresentation (txtRdata [lit "say \"é\"", []]) = lit "\"say \\\"\\195\\169\\\"\" \"\"" ∧
    txtParse (lit "\"say \\\"\\195\\169\\\"\" \"\"") = .ok (txtRdata [lit "say \"é\"", []]) := by
  have hshow : txtToPresentation (txtRdata [lit "say \"é\"", []]) = lit "\"say \\\"\\195\\169\\\"\" \"\"" := by
    decide +kernel
  refine ⟨hshow, ?_⟩
  rw [← hshow]
  exact txt_presentation.1 _ ⟨_, by decide +kernel, rfl⟩ (by simp [txtRdata, characterString])

end Bindizr
