import Bindizr.ZoneCommits

/-! # The administrator's mailbox

A zone holds its administrator's address (`normalizeEmail`), its SOA the address as a name: the
local part is the first label, with its dots escaped, and the domain's labels follow
(`soaMailboxFromEmail`).  Three functions of the source read the escapes on their own: the
encoder, `soaMailboxToEmail` and the label decoder of the wire check (`mailboxLabelsFrom`).  On
every address that is accepted they agree (`mailbox_faithful`). -/

namespace Bindizr

/-- The labels that the wire check reads a mailbox as. -/
def mailboxLabels (mailbox : Text) : Except Text (List Text) := mailboxLabelsFrom (trimEndMatches '.' mailbox) []

/-- An address that zone validation accepted, with its normalised form. -/
structure AdminEmail where
  value : Text
  email : Text
  normalized : normalizeEmail value = .ok email
  wireSafe : validateSoaWireSafety email = .ok ()

theorem validateCreateZoneRequest_adminEmail {request : CreateZoneRequest} {v : ValidatedCreateZoneRequest}
    (h : validateCreateZoneRequest request = .ok v) :
    ∃ a : AdminEmail, a.value = request.adminEmail ∧ a.email = v.adminEmail := by
  obtain ⟨_, _, h⟩ := Fallible.bind_eq_ok.1 h
  obtain ⟨_, _, h⟩ := Fallible.bind_eq_ok.1 h
  obtain ⟨email, hemail, h⟩ := Fallible.bind_eq_ok.1 h
  obtain ⟨_, _, h⟩ := Fallible.bind_eq_ok.1 h
  obtain ⟨_, hsafe, h⟩ := Fallible.bind_eq_ok.1 h
  cases h
  exact ⟨⟨request.adminEmail, email, hemail, hsafe⟩, rfl, rfl⟩

/-! ### Reading a mailbox -/

theorem mailboxLabelsFrom_plain {c : Char} (h1 : c ≠ '.') (h2 : c ≠ '\\') (cs label : Text) :
    mailboxLabelsFrom (c :: cs) label = mailboxLabelsFrom cs (label ++ [c]) := by
  rw [mailboxLabelsFrom.eq_def]
  simp [h1, h2]

theorem mailboxLabelsFrom_dot (cs label : Text) : mailboxLabelsFrom ('.' :: cs) label = (do
    let labels ← mailboxLabelsFrom cs []
    pure (label :: labels)) := by
  rw [mailboxLabelsFrom.eq_def]
  simp

/-- Reading an escaped local part adds it to the label being read. -/
theorem mailboxLabelsFrom_escapeLocalPart (localPart rest label : Text) :
    mailboxLabelsFrom (escapeLocalPart localPart ++ rest) label = mailboxLabelsFrom rest (label ++ localPart) := by
  induction localPart generalizing label with
  | nil => simp [escapeLocalPart]
  | cons c localPart ih =>
      by_cases h : c = '.' ∨ c = '\\'
      · have e : escapeLocalPart (c :: localPart) = '\\' :: c :: escapeLocalPart localPart := by
          simp [escapeLocalPart, h]
        rw [e, List.cons_append, List.cons_append, mailboxLabelsFrom.eq_def]
        simpa using ih (label ++ [c])
      · have e : escapeLocalPart (c :: localPart) = c :: escapeLocalPart localPart := by
          simp [escapeLocalPart, h]
        rw [not_or] at h
        rw [e, List.cons_append, mailboxLabelsFrom_plain h.1 h.2, ih]
        simp

theorem mailboxLabelsFrom_of_not_mem {t : Text} (h : '\\' ∉ t) (label : Text) :
    mailboxLabelsFrom t label = .ok ((split '.' t).modifyHead (label ++ ·)) := by
  unfold split
  induction t generalizing label with
  | nil => simp [mailboxLabelsFrom]
  | cons c t ih =>
      rw [List.mem_cons, not_or] at h
      rw [List.splitOn_cons_eq_if_modifyHead]
      obtain ⟨m, ms, e⟩ := List.exists_cons_of_ne_nil (List.splitOn_ne_nil '.' t)
      by_cases hc : c = '.'
      · subst hc
        rw [mailboxLabelsFrom_dot, ih h.2, if_pos (by simp), e]
        simp [pure, Except.pure]
      · rw [mailboxLabelsFrom_plain hc (Ne.symm h.1), ih h.2, if_neg (by simpa using hc), e]
        simp

theorem byteLen_le_escapeLocalPart (localPart : Text) : byteLen localPart ≤ byteLen (escapeLocalPart localPart) := by
  induction localPart with
  | nil => simp
  | cons c localPart ih =>
      have e : escapeLocalPart (c :: localPart) =
          (if c = '.' ∨ c = '\\' then ['\\', c] else [c]) ++ escapeLocalPart localPart := by
        simp [escapeLocalPart]
      rw [e, byteLen_append, byteLen_cons]
      split <;> simp <;> omega

/-! ### Addresses -/

namespace AdminEmail

variable (a : AdminEmail)

theorem bare_mailbox (localPart : Text) (domain : ZoneName) :
    trimEndMatches '.' (escapeLocalPart localPart ++ ['.'] ++ domain.text ++ ['.']) =
      escapeLocalPart localPart ++ '.' :: domain.text := by
  have hdot : trimEndMatches '.' domain.text = domain.text :=
    trimEndMatches_eq_self_of_labels fun l hl => (domain.isZoneText.2 l hl).1
  rw [trimEndMatches, List.rdropWhile_concat_pos _ _ _ (by simp), ← trimEndMatches,
    trimEndMatches_append domain.text_ne_nil hdot, List.append_assoc, List.singleton_append]

theorem exists_parts : ∃ (localPart : Text) (domain : ZoneName), a.email = localPart ++ ['@'] ++ domain.text ∧
    (∀ c ∈ localPart, isValidEmailLocalChar c = true) ∧
    soaMailboxFromEmail a.email = .ok (escapeLocalPart localPart ++ ['.'] ++ domain.text ++ ['.']) ∧
    mailboxLabels (escapeLocalPart localPart ++ ['.'] ++ domain.text ++ ['.']) = .ok (localPart :: domain.labels) := by
  obtain ⟨localPart, domain, e, -, hat, hchars⟩ := normalizeEmail_eq_ok a.normalized
  refine ⟨localPart, domain, e, hchars, ?_, ?_⟩
  · have hsplit : split '@' (localPart ++ ['@'] ++ domain.text) = [localPart, domain.text] := by
      rw [List.append_assoc, List.singleton_append, split_append_sep hat (domain.not_mem_text (by decide) rfl)]
    rw [e, soaMailboxFromEmail, hsplit]
    simp only [trimEndMatches_eq_self_of_labels fun l hl => (domain.isZoneText.2 l hl).1]
  · obtain ⟨l, ls, hls⟩ := List.exists_cons_of_ne_nil domain.labels_ne_nil
    rw [mailboxLabels, bare_mailbox, mailboxLabelsFrom_escapeLocalPart, mailboxLabelsFrom_dot,
      mailboxLabelsFrom_of_not_mem (domain.not_mem_text (by decide) rfl)]
    rw [ZoneName.labels] at hls ⊢
    simp [hls, pure, Except.pure]

theorem classify_ok {mailbox : Text} (h : soaMailboxFromEmail a.email = .ok mailbox) :
    byteLen (trimEndMatches '.' mailbox) ≤ 253 ∧
      ∀ labels, mailboxLabels mailbox = .ok labels → ∀ l ∈ labels, l ≠ [] ∧ byteLen l ≤ 63 := by
  obtain ⟨m, hm, hc⟩ := Fallible.bind_eq_ok.1 a.wireSafe
  rw [Fallible.mapError_eq_ok, h, Except.ok.injEq] at hm
  subst hm
  have hc := Fallible.mapError_eq_ok.1 hc
  unfold soaMailboxClassifyWireLabels at hc
  simp only at hc
  split at hc
  · cases hc
  · rename_i hlen
    refine ⟨not_lt.1 hlen, fun labels hlabels l hl => ?_⟩
    obtain ⟨ls, hls, hc⟩ := Fallible.bind_eq_ok.1 hc
    rw [← mailboxLabels, hlabels, Except.ok.injEq] at hls
    subst hls
    have hl := Fallible.forM_eq_ok.1 hc l hl
    split at hl
    · cases hl
    · rename_i hne
      split at hl
      · cases hl
      · rename_i hlong
        exact ⟨hne, not_lt.1 hlong⟩

/-- The mailbox of an accepted address reads back as the address. -/
theorem toEmail {mailbox : Text} (h : soaMailboxFromEmail a.email = .ok mailbox) : soaMailboxToEmail mailbox = .ok a.email := by
  obtain ⟨m, hm, hback⟩ := normalizeEmail_emailOk a.normalized
  rw [hm, Except.ok.injEq] at h
  rwa [← h]

theorem wireLen_le {localPart : Text} {domain : ZoneName}
    (h : soaMailboxFromEmail a.email = .ok (escapeLocalPart localPart ++ ['.'] ++ domain.text ++ ['.'])) :
    wireLen (localPart :: domain.labels) ≤ 255 := by
  have hlen := (a.classify_ok h).1
  rw [AdminEmail.bare_mailbox, byteLen_append, byteLen_cons] at hlen
  have hle := byteLen_le_escapeLocalPart localPart
  have hdot : Char.utf8Size '.' = 1 := rfl
  have hdomain := wireLen_split domain.text
  rw [← ZoneName.labels, wireLen] at hdomain
  rw [wireLen, List.map_cons, List.sum_cons]
  omega

end AdminEmail

/-- **The administrator's mailbox.**  An accepted address has a mailbox, which reads back as the address.  Its labels
are the local part and the labels of the domain, each of 1 to 63 octets, and at most 255 on the wire.  Different
addresses have different mailboxes. -/
theorem mailbox_faithful (a : AdminEmail) : ∃ (localPart : Text) (domain : ZoneName) (mailbox : Text),
    a.email = localPart ++ ['@'] ++ domain.text ∧ soaMailboxFromEmail a.email = .ok mailbox ∧
    soaMailboxToEmail mailbox = .ok a.email ∧ mailboxLabels mailbox = .ok (localPart :: domain.labels) ∧
    (∀ l ∈ localPart :: domain.labels, 1 ≤ byteLen l ∧ byteLen l ≤ 63) ∧ wireLen (localPart :: domain.labels) ≤ 255 ∧
    ∀ a' : AdminEmail, a'.email ≠ a.email → soaMailboxFromEmail a'.email ≠ .ok mailbox := by
  obtain ⟨localPart, domain, e, -, hmailbox, hlabels⟩ := a.exists_parts
  refine ⟨localPart, domain, _, e, hmailbox, a.toEmail hmailbox, hlabels, fun l hl => ?_, a.wireLen_le hmailbox,
    fun a' hne hsame => ?_⟩
  · obtain ⟨hne, hle⟩ := (a.classify_ok hmailbox).2 _ hlabels l hl
    exact ⟨(List.length_pos_iff.2 hne).trans_le (length_le_byteLen l), hle⟩
  · have h := a'.toEmail hsame
    rw [a.toEmail hmailbox, Except.ok.injEq] at h
    exact hne h.symm

/-- An address whose local part holds a dot. -/
def sampleEmail : AdminEmail := ⟨lit " host.master@Example.COM. ", lit "host.master@example.com", by decide +kernel, by decide +kernel⟩

example : soaMailboxFromEmail sampleEmail.email = .ok (lit "host\\.master.example.com.") := by decide +kernel

end Bindizr
