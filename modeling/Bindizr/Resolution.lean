import Bindizr.ExternalDns
import Bindizr.OwnerForms

/-! # The zone of a name

`bindizr-service/src/external_dns/policy.rs`: an ExternalDNS request names its owners absolutely,
and each is given to the most specific zone it lies in.  The source compares the lengths of the
zones' texts, among the zones whose labels end the name's.  Those zones end one another, so the
longest text has the most labels, and there is one such zone (`findAuthoritativeZone_eq_some_iff`).
The name is then parsed again, in that zone; the text it was normalised to is never `@`, keeps
every label, and so the `expect` of the source holds (`zone_resolution`). -/

namespace Bindizr

open OwnerName

/-- The zone with the most labels among those that a name lies in. -/
structure IsClosest (zones : List ZoneName) (labels : List Text) (z : ZoneName) : Prop where
  mem : z ∈ zones
  suffix : z.labels <:+ labels
  longest : ∀ z' ∈ zones, z'.labels <:+ labels → z'.labels.length ≤ z.labels.length

/-! ### Zones that a name lies in -/

theorem wireLen_append (ls ms : List Text) : wireLen (ls ++ ms) + 1 = wireLen ls + wireLen ms := by
  simp only [wireLen, List.map_append, List.sum_append]
  omega

theorem ZoneName.labels_injective : Function.Injective ZoneName.labels := fun a b h =>
  ZoneName.text_injective (by rw [← a.joinLabels_labels, h, b.joinLabels_labels])

theorem ZoneName.byteLen_text (z : ZoneName) : byteLen z.text + 2 = wireLen z.labels := (wireLen_split z.text).symm

/-- Of two zones a name lies in, the one with the longer text has the more labels. -/
theorem length_labels_le {labels : List Text} {z z' : ZoneName} (h : z.labels <:+ labels) (h' : z'.labels <:+ labels)
    (hle : byteLen z'.text ≤ byteLen z.text) : z'.labels.length ≤ z.labels.length := by
  rcases List.suffix_or_suffix_of_suffix h h' with ⟨p, e⟩ | hs
  · have hlen := wireLen_append p z.labels
    rw [e, ← z.byteLen_text, ← z'.byteLen_text] at hlen
    cases p with
    | nil => simp [← e]
    | cons l p =>
        have : 1 < wireLen (l :: p) := by
          rw [wireLen, List.map_cons, List.sum_cons]
          omega
        omega
  · exact hs.length_le

theorem eq_of_length_labels {labels : List Text} {z z' : ZoneName} (h : z.labels <:+ labels) (h' : z'.labels <:+ labels)
    (hlen : z.labels.length = z'.labels.length) : z = z' := by
  refine ZoneName.labels_injective ?_
  rcases List.suffix_or_suffix_of_suffix h h' with hs | hs
  · exact hs.eq_of_length hlen
  · exact (hs.eq_of_length hlen.symm).symm

theorem IsClosest.unique {zones : List ZoneName} {labels : List Text} {z z' : ZoneName} (h : IsClosest zones labels z)
    (h' : IsClosest zones labels z') : z = z' :=
  eq_of_length_labels h.suffix h'.suffix
    (Nat.le_antisymm (h'.longest z h.mem h.suffix) (h.longest z' h'.mem h'.suffix))

theorem IsClosest.of_mem_iff {zones zones' : List ZoneName} {labels : List Text} {z : ZoneName}
    (hmem : ∀ z, z ∈ zones ↔ z ∈ zones') (h : IsClosest zones labels z) : IsClosest zones' labels z :=
  ⟨(hmem z).1 h.mem, h.suffix, fun z' hz' hs => h.longest z' ((hmem z').2 hz') hs⟩

/-! ### The search -/

theorem longestName_eq_none {zones : List ZoneName} : longestName zones = none ↔ zones = [] := by
  cases zones with
  | nil => simp [longestName]
  | cons z zones =>
      simp only [longestName, reduceCtorEq, iff_false]
      cases longestName zones with
      | none => simp
      | some best => simp only; split <;> simp

theorem longestName_eq_some {zones : List ZoneName} {z : ZoneName} (h : longestName zones = some z) :
    z ∈ zones ∧ ∀ z' ∈ zones, byteLen z'.text ≤ byteLen z.text := by
  induction zones generalizing z with
  | nil => cases h
  | cons y zones ih =>
      rw [longestName] at h
      cases hbest : longestName zones with
      | none =>
          rw [hbest] at h
          cases h
          simp [longestName_eq_none.1 hbest]
      | some best =>
          obtain ⟨hmem, hmax⟩ := ih hbest
          simp only [hbest] at h
          split at h
          · rename_i hlt
            cases h
            simp only [List.mem_cons, true_or, forall_eq_or_imp, le_refl, true_and]
            exact fun z' hz' => (hmax z' hz').trans hlt.le
          · rename_i hle
            cases h
            simp only [List.mem_cons, hmem, or_true, forall_eq_or_imp, true_and]
            exact ⟨not_lt.1 hle, hmax⟩

section Search

variable {name : Text} {labels : List Text} {absolute : Bool} (hd : decodeNameLabels name = .ok (labels, absolute))

include hd

/-- **The search finds the closest zone.** -/
theorem findAuthoritativeZone_eq_some_iff (zones : List ZoneName) (z : ZoneName) :
    findAuthoritativeZone zones name = some z ↔ IsClosest zones labels z := by
  have hmem : ∀ z', z' ∈ zones.filter (fun z => isLabelSuffix labels z.labels) ↔ z' ∈ zones ∧ z'.labels <:+ labels :=
    fun z' => by rw [List.mem_filter, isLabelSuffix_iff]
  have hfound : ∀ z', findAuthoritativeZone zones name = some z' → IsClosest zones labels z' := fun z' h => by
    simp only [findAuthoritativeZone, hd] at h
    obtain ⟨hz, hmax⟩ := longestName_eq_some h
    obtain ⟨hz, hs⟩ := (hmem z').1 hz
    exact ⟨hz, hs, fun y hy hys => length_labels_le hs hys (hmax y ((hmem y).2 ⟨hy, hys⟩))⟩
  refine ⟨hfound z, fun h => ?_⟩
  cases hfind : findAuthoritativeZone zones name with
  | some z' => rw [(hfound z' hfind).unique h]
  | none =>
      simp only [findAuthoritativeZone, hd] at hfind
      exact absurd ((hmem z).2 ⟨h.mem, h.suffix⟩) (by simp [longestName_eq_none.1 hfind])

theorem findAuthoritativeZone_eq_none_iff (zones : List ZoneName) :
    findAuthoritativeZone zones name = none ↔ ∀ z ∈ zones, ¬ z.labels <:+ labels := by
  simp only [findAuthoritativeZone, hd, longestName_eq_none, List.filter_eq_nil_iff, isLabelSuffix_iff]

theorem findAuthoritativeZone_congr {zones zones' : List ZoneName} (hmem : ∀ z, z ∈ zones ↔ z ∈ zones') :
    findAuthoritativeZone zones name = findAuthoritativeZone zones' name := by
  refine Option.ext fun z => ?_
  rw [findAuthoritativeZone_eq_some_iff hd, findAuthoritativeZone_eq_some_iff hd]
  exact ⟨fun h => h.of_mem_iff hmem, fun h => h.of_mem_iff fun z => (hmem z).symm⟩

end Search

/-! ### Names in lookup form -/

theorem parseAbsoluteInZone_joinLabels {ls : List Text} {zone : ZoneName} (h : IsOwner ls) (hs : zone.labels <:+ ls) :
    ∃ o : OwnerName, parseAbsoluteInZone (joinLabels ls) zone = .ok o ∧ o.labels ++ zone.labels = ls := by
  obtain ⟨p, rfl⟩ := hs
  have hne : p ++ zone.labels ≠ [] := by simp [zone.labels_ne_nil]
  have hp : IsOwner p := stripZoneSuffix_isOwner h (stripZoneSuffix_append p zone.labels)
  refine ⟨⟨p, hp⟩, parseAbsoluteInZone_eq_ok.2 ?_, rfl⟩
  simp only [parseAbsoluteInZoneLabels, trim_joinLabels_owner h.1, joinLabels_ne_at hne h.1, if_false,
    (decodeNameLabels_joinLabels hne h.1).1, if_pos h.2, Fallible.ok_bind, stripZoneSuffix_append]

theorem normalizeLookupName_eq_ok {name normalized : Text} (h : normalizeLookupName name = .ok normalized) :
    ∃ labels absolute, decodeNameLabels (trim name) = .ok (labels, absolute) ∧ normalized = joinLabels labels ∧
      IsOwner labels ∧ decodeNameLabels normalized = .ok (labels, false) := by
  obtain ⟨labels, absolute, hd, rfl⟩ := toLookupName_eq_ok (Fallible.mapError_eq_ok.1 h)
  have hvalid := decodeNameLabels_valid hd
  refine ⟨labels, absolute, hd, rfl, hvalid, ?_⟩
  rw [(decodeNameLabels_joinLabels (decodeNameLabels_ne_nil hd) hvalid.1).1, if_pos hvalid.2]

/-- The only way that grouping fails: an operation's name lies in no zone. -/
theorem groupOpsByZone_error {zones : List ZoneName} {ops : List PendingOp} {e : ServiceError}
    (hops : ∀ p ∈ ops, ∃ name, normalizeLookupName name = .ok p.op.name) (h : groupOpsByZone zones ops = .error e) :
    ∃ p ∈ ops, findAuthoritativeZone zones p.op.name = none ∧
      e = ⟨.zoneNotFound, lit "No zone is authoritative for '" ++ p.op.name ++ lit "'"⟩ := by
  unfold groupOpsByZone at h
  generalize ([] : List (ZoneName × ZoneOps)) = grouped at h
  induction ops generalizing grouped with
  | nil => cases h
  | cons p ops ih =>
      rw [List.foldlM_cons] at h
      cases hfind : findAuthoritativeZone zones p.op.name with
      | none =>
          simp only [hfind] at h
          cases h
          exact ⟨p, by simp, hfind, rfl⟩
      | some z =>
          obtain ⟨name, hname⟩ := hops p (by simp)
          obtain ⟨labels, -, -, heq, hvalid, hd⟩ := normalizeLookupName_eq_ok hname
          have hclosest := (findAuthoritativeZone_eq_some_iff hd zones z).1 hfind
          obtain ⟨o, ho, -⟩ := parseAbsoluteInZone_joinLabels hvalid hclosest.suffix
          rw [← heq] at ho
          simp only [hfind, ho, Fallible.ok_bind] at h
          obtain ⟨q, hq, hnone⟩ := ih (fun q hq => hops q (List.mem_cons_of_mem _ hq)) _ h
          exact ⟨q, List.mem_cons_of_mem _ hq, hnone⟩

/-- **The zone of a name.**  For a name that is accepted, with the labels it denotes: the zone found is the one with
the most labels among those that end the name's, and none exactly when none do; the order of the zones does not
matter; and in the zone found the name parses to the labels before the zone's.  Grouping operations with such
names fails only on a name that lies in no zone. -/
theorem zone_resolution {name normalized : Text} {labels : List Text} {absolute : Bool}
    (h : normalizeLookupName name = .ok normalized) (hd : decodeNameLabels (trim name) = .ok (labels, absolute))
    (zones : List ZoneName) :
    (∀ z, findAuthoritativeZone zones normalized = some z ↔ IsClosest zones labels z) ∧
    (findAuthoritativeZone zones normalized = none ↔ ∀ z ∈ zones, ¬ z.labels <:+ labels) ∧
    (∀ zones', zones'.Perm zones → findAuthoritativeZone zones' normalized = findAuthoritativeZone zones normalized) ∧
    (∀ z, findAuthoritativeZone zones normalized = some z →
      ∃ o : OwnerName, parseAbsoluteInZone normalized z = .ok o ∧ o.labels ++ z.labels = labels) ∧
    ∀ ops : List PendingOp, (∀ p ∈ ops, ∃ name', normalizeLookupName name' = .ok p.op.name) →
      ∀ e, groupOpsByZone zones ops = .error e → e.code = .zoneNotFound ∧
        ∃ p ∈ ops, findAuthoritativeZone zones p.op.name = none := by
  obtain ⟨labels', absolute', hd', rfl, hvalid, hnorm⟩ := normalizeLookupName_eq_ok h
  rw [hd, Except.ok.injEq, Prod.mk.injEq] at hd'
  obtain ⟨rfl, -⟩ := hd'
  refine ⟨findAuthoritativeZone_eq_some_iff hnorm zones, findAuthoritativeZone_eq_none_iff hnorm zones,
    fun zones' hperm => findAuthoritativeZone_congr hnorm fun z => hperm.mem_iff, fun z hz => ?_,
    fun ops hops e he => ?_⟩
  · have hclosest := (findAuthoritativeZone_eq_some_iff hnorm zones z).1 hz
    exact parseAbsoluteInZone_joinLabels hvalid hclosest.suffix
  · obtain ⟨p, hp, hnone, rfl⟩ := groupOpsByZone_error hops he
    exact ⟨rfl, p, hp, hnone⟩

/-- A name in a child zone of another, and a name in none. -/
theorem zone_resolution_child : ∃ (parent child : ZoneName) (o : OwnerName), parent.text = lit "example.com" ∧
    child.text = lit "dev.example.com" ∧ o.labels = [lit "a.b", lit "@"] ∧
    findAuthoritativeZone [child, parent] (lit "a\\.b.\\@.dev.example.com") = some child ∧
    findAuthoritativeZone [parent, child] (lit "a\\.b.\\@.dev.example.com") = some child ∧
    parseAbsoluteInZone (lit "a\\.b.\\@.dev.example.com") child = .ok o := by
  let parent : ZoneName := ⟨lit "example.com", by decide +kernel⟩
  let child : ZoneName := ⟨lit "dev.example.com", by decide +kernel⟩
  have hnorm : normalizeLookupName (lit "A\\.b.@.DEV.example.com.") = .ok (lit "a\\.b.\\@.dev.example.com") := by
    decide +kernel
  have hd : decodeNameLabels (trim (lit "A\\.b.@.DEV.example.com.")) =
      .ok ([lit "a.b", lit "@", lit "dev", lit "example", lit "com"], true) := by decide +kernel
  have hchild : child.labels = [lit "dev", lit "example", lit "com"] := by decide +kernel
  have hparent : parent.labels = [lit "example", lit "com"] := by decide +kernel
  obtain ⟨hsome, -, hperm, hparse, -⟩ := zone_resolution hnorm hd [child, parent]
  have hfind := (hsome child).2 ⟨by simp, ⟨[lit "a.b", lit "@"], by rw [hchild]; rfl⟩, by
    simp [hchild, hparent]⟩
  obtain ⟨o, ho, holabels⟩ := hparse child hfind
  refine ⟨parent, child, o, rfl, rfl, ?_, hfind, (hperm _ (List.Perm.swap _ _ _)).trans hfind, ho⟩
  rw [hchild] at holabels
  exact List.append_cancel_right (holabels.trans (by rfl : _ = [lit "a.b", lit "@"] ++ [lit "dev", lit "example", lit "com"]))

end Bindizr
