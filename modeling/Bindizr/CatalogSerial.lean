import Bindizr.Catalog

/-! # The serial of the catalog

The catalog's serial is kept in one row of `catalog_zone_state`, beside the signature of what was
served: a digest of the members and their serials.  A handler lists the zones, and then updates the
row in a transaction of its own, so other handlers and writers can come between; `CatalogRun`
interleaves them in any way.  Serials stay below `i32::MAX`.

The digest is taken to be injective.  What is digested can be read back (`preimage_eq_iff`), since
no name holds a zero octet and no number a line feed; so the signature stands for the map from
members to serials, and the serial tells two catalogs apart (`catalog_serials`), whichever of the
three databases keeps the row. -/

namespace Bindizr

/-! ### Signatures -/

/-- A digit of `{:02x}`. -/
def hexDigit (n : ℕ) : Char := (lit "0123456789abcdef").getD n '0'

/-- `{:02x}`. -/
def hexByte (b : UInt8) : Text := [hexDigit (b.toNat / 16), hexDigit (b.toNat % 16)]

/-- The serial of a zone, by its name: the last one of a name counts. -/
def serialByName (zones : List Zone) (name : Text) : Option ℤ :=
  ((zones.filter (·.name.text = name)).getLast?).map (·.serial)

def memberOctets (member : Text) (serial : ℤ) : List UInt8 :=
  asBytes member ++ [0] ++ asBytes (intText serial) ++ [10]

/-- What `catalog_signature` digests. -/
def catalogPreimage (memberZones : List Text) (zones : List Zone) : List UInt8 :=
  ((memberZones.map toAsciiLowercase).mergeSort fun a b => decide (a ≤ b)).flatMap fun member =>
    match serialByName zones member with
    | some serial => memberOctets member serial
    | none => []

def catalogSignature [crates : Crates] (memberZones : List Text) (zones : List Zone) : Text :=
  (crates.sha256 (catalogPreimage memberZones zones)).flatMap hexByte

/-! ### The stored serial -/

/-- The databases a service can run on. -/
inductive Backend where
  | sqlite
  | postgres
  | mysql
  deriving DecidableEq

/-- A row of `catalog_zone_state`, without its name. -/
@[ext]
structure CatalogRow where
  signature : Text
  serial : ℤ
  deriving DecidableEq

/-- The row an insertion leaves when there was none, or what its conflict clause leaves. -/
def CatalogRow.upsert (onConflict : CatalogRow → CatalogRow → CatalogRow) (row : Option CatalogRow) (excluded : CatalogRow) :
    CatalogRow :=
  match row with
  | none => excluded
  | some row => onConflict row excluded

/-- `update_serial_for_signature_tx` for SQLite, whose assignments read the row as it was. -/
def sqliteUpdate (row excluded : CatalogRow) : CatalogRow where
  serial := if row.signature = excluded.signature then row.serial else max (row.serial + 1) excluded.serial
  signature := excluded.signature

/-- `update_serial_for_signature_tx` for PostgreSQL, whose assignments read the row as it was. -/
def postgresUpdate (row excluded : CatalogRow) : CatalogRow where
  serial := if row.signature = excluded.signature then row.serial else max (row.serial + 1) excluded.serial
  signature := excluded.signature

/-- `update_serial_for_signature_tx` for MySQL, whose assignments read what those before them left. -/
def mysqlUpdate (row excluded : CatalogRow) : CatalogRow :=
  let row := { row with
    serial := if row.signature = excluded.signature then row.serial else max (row.serial + 1) excluded.serial }
  { row with signature := excluded.signature }

/-- `update_serial_for_signature_tx`: the row it leaves, whose serial it returns. -/
def Backend.updateSerialForSignature : Backend → Option CatalogRow → Text → ℤ → CatalogRow
  | .sqlite, row, signature, baseSerial => .upsert sqliteUpdate row ⟨signature, baseSerial⟩
  | .postgres, row, signature, baseSerial => .upsert postgresUpdate row ⟨signature, baseSerial⟩
  | .mysql, row, signature, baseSerial => .upsert mysqlUpdate row ⟨signature, baseSerial⟩

/-! ### Generations -/

section Generations

variable [crates : Crates]

/-- A catalog that was generated: the zones that were listed for it, and its serial. -/
structure Generation where
  zones : List Zone
  serial : ℤ

def Generation.members (g : Generation) : List ZoneName := memberZones g.zones

/-- What the handlers share, and what each has listed. -/
structure CatalogRun where
  db : Db
  row : Option CatalogRow
  listed : ℕ → Option (List Zone)
  generated : List Generation

/-- A writer's operation, or a step of a handler. -/
inductive CatalogEvent where
  | write (op : Op)
  | list (handler : ℕ)
  | update (handler : ℕ)

/-- `generate_catalog_serial`, for zones that were listed. -/
def generateCatalogSerial (backend : Backend) (row : Option CatalogRow) (zones : List Zone) : CatalogRow :=
  backend.updateSerialForSignature row (catalogSignature ((memberZones zones).map (·.text)) zones)
    ((zones.map (·.serial)).max?.getD 1)

/-- One event: `generate_catalog_zone` lists the zones, and then updates the row with what was listed. -/
def CatalogRun.step (backend : Backend) (s : CatalogRun) : CatalogEvent → CatalogRun
  | .write op => { s with db := Bindizr.step s.db op }
  | .list handler => { s with listed := Function.update s.listed handler (some s.db.listZones) }
  | .update handler =>
      match s.listed handler with
      | none => s
      | some zones =>
          let row := generateCatalogSerial backend s.row zones
          ⟨s.db, some row, Function.update s.listed handler none, s.generated ++ [⟨zones, row.serial⟩]⟩

/-- The state after a history of events. -/
def CatalogRun.run (backend : Backend) (events : List CatalogEvent) : CatalogRun :=
  events.foldl (step backend) ⟨.empty, none, fun _ => none, []⟩

def memberSerials (zones : List Zone) (name : ZoneName) : Option ℤ :=
  if name = catalogZoneName then none else serialByName zones name.text

end Generations

/-! ### What is digested can be read back -/

theorem hexDigit_inj : ∀ m < 16, ∀ n < 16, hexDigit m = hexDigit n → m = n := by decide

theorem hexByte_inj {b c : UInt8} (h : hexByte b = hexByte c) : b = c := by
  simp only [hexByte, List.cons.injEq, and_true] at h
  have hb := b.toNat_lt
  have hc := c.toNat_lt
  have hhigh := hexDigit_inj _ (by omega) _ (by omega) h.1
  have hlow := hexDigit_inj _ (by omega) _ (by omega) h.2
  exact UInt8.toNat.inj (by omega)

theorem flatMap_hexByte_inj {bs cs : List UInt8} (h : bs.flatMap hexByte = cs.flatMap hexByte) : bs = cs := by
  induction bs generalizing cs with
  | nil =>
      cases cs with
      | nil => rfl
      | cons c cs => simp [hexByte] at h
  | cons b bs ih =>
      cases cs with
      | nil => simp [hexByte] at h
      | cons c cs =>
          rw [List.flatMap_cons, List.flatMap_cons] at h
          obtain ⟨hhead, hrest⟩ := List.append_inj h rfl
          rw [hexByte_inj hhead, ih hrest]

theorem memberOctets_eq (member : Text) (serial : ℤ) :
    memberOctets member serial = asBytes (member ++ '\x00' :: (intText serial ++ ['\n'])) := by
  have hzero : asBytes ['\x00'] = [0] := by decide
  have hline : asBytes ['\n'] = [10] := by decide
  rw [← List.singleton_append, asBytes_append, asBytes_append, asBytes_append, hzero, hline]
  simp [memberOctets]

theorem not_mem_intText {c : Char} (hdigit : isAsciiDigit c = false) (hdash : c ≠ '-') (i : ℤ) : c ∉ intText i := by
  intro h
  have hnat : ∀ n, c ∉ natText n := fun n hn => by simp [isAsciiDigit_of_mem_natText hn] at hdigit
  cases i with
  | ofNat n => exact hnat n h
  | negSucc n =>
      rcases List.mem_cons.1 h with h | h
      · exact hdash h
      · exact hnat _ h

theorem memberTexts_inj {ps qs : List (Text × ℤ)} (hps : ∀ p ∈ ps, '\x00' ∉ p.1) (hqs : ∀ q ∈ qs, '\x00' ∉ q.1)
    (h : (ps.flatMap fun p => p.1 ++ '\x00' :: (intText p.2 ++ ['\n'])) =
      qs.flatMap fun q => q.1 ++ '\x00' :: (intText q.2 ++ ['\n'])) : ps = qs := by
  induction ps generalizing qs with
  | nil =>
      cases qs with
      | nil => rfl
      | cons q qs => simp at h
  | cons p ps ih =>
      cases qs with
      | nil => simp at h
      | cons q qs =>
          have hline : ∀ i, '\n' ∉ intText i := not_mem_intText (by decide) (by decide)
          simp only [List.flatMap_cons, List.append_assoc, List.cons_append, List.nil_append] at h
          obtain ⟨hname, h⟩ := (append_sep_inj (hps p (by simp)) (hqs q (by simp))).1 h
          obtain ⟨hserial, h⟩ := (append_sep_inj (hline _) (hline _)).1 h
          rw [Prod.ext hname (intText_inj.1 hserial),
            ih (fun p hp => hps p (by simp [hp])) (fun q hq => hqs q (by simp [hq])) h]

/-- What was digested for the members, in order, gives the members and their serials. -/
theorem memberOctets_flatMap_inj {ps qs : List (Text × ℤ)} (hps : ∀ p ∈ ps, '\x00' ∉ p.1) (hqs : ∀ q ∈ qs, '\x00' ∉ q.1)
    (h : ps.flatMap (fun p => memberOctets p.1 p.2) = qs.flatMap fun q => memberOctets q.1 q.2) : ps = qs := by
  have htext : ∀ rs : List (Text × ℤ), (rs.flatMap fun r => memberOctets r.1 r.2) =
      asBytes (rs.flatMap fun r => r.1 ++ '\x00' :: (intText r.2 ++ ['\n'])) := by
    intro rs
    simp [memberOctets_eq, asBytes, List.flatMap_assoc]
  rw [htext, htext] at h
  exact memberTexts_inj hps hqs (asBytes_injective h)

/-! ### Members and their serials -/

/-- The members in the order they are digested in. -/
def sortedMembers (zones : List Zone) : List Text :=
  (((memberZones zones).map (·.text)).map toAsciiLowercase).mergeSort fun a b => decide (a ≤ b)

theorem isSome_serialByName {zones : List Zone} {t : Text} :
    (serialByName zones t).isSome ↔ ∃ z ∈ zones, z.name.text = t := by
  rw [serialByName, Option.isSome_map, List.getLast?_isSome, Ne, List.filter_eq_nil_iff]
  simp

theorem map_toAsciiLowercase_members (zones : List Zone) :
    ((memberZones zones).map (·.text)).map toAsciiLowercase = (memberZones zones).map (·.text) := by
  rw [List.map_map]
  exact List.map_congr_left fun z _ => z.toAsciiLowercase_text

theorem isSome_memberSerials {zones : List Zone} {name : ZoneName} :
    (memberSerials zones name).isSome ↔ name ∈ memberZones zones := by
  rw [memberSerials, memberZones, List.mem_filter, List.mem_map, decide_eq_true_eq]
  split
  · rename_i hcatalog
    simp [hcatalog]
  · rename_i hne
    rw [isSome_serialByName, and_iff_left hne]
    exact exists_congr fun z => and_congr_right fun _ => ZoneName.text_injective.eq_iff

theorem mem_sortedMembers {zones : List Zone} {t : Text} :
    t ∈ sortedMembers zones ↔ ∃ name ∈ memberZones zones, name.text = t := by
  rw [sortedMembers, List.mem_mergeSort, map_toAsciiLowercase_members, List.mem_map]

theorem text_mem_sortedMembers {zones : List Zone} {name : ZoneName} :
    name.text ∈ sortedMembers zones ↔ (memberSerials zones name).isSome := by
  rw [mem_sortedMembers, isSome_memberSerials]
  exact ⟨fun ⟨_, hmem, e⟩ => ZoneName.text_injective e ▸ hmem, fun hmem => ⟨name, hmem, rfl⟩⟩

theorem memberSerials_eq {zones : List Zone} {name : ZoneName} (h : name.text ∈ sortedMembers zones) :
    memberSerials zones name = some ((serialByName zones name.text).getD 0) := by
  have hsome := text_mem_sortedMembers.1 h
  rw [memberSerials] at hsome ⊢
  split at hsome
  · cases hsome
  · rename_i hne
    obtain ⟨serial, hserial⟩ := Option.isSome_iff_exists.1 hsome
    rw [if_neg hne, hserial, Option.getD_some]

theorem sortedMembers_nodup {zones : List Zone} (h : (zones.map (·.name)).Nodup) : (sortedMembers zones).Nodup := by
  rw [sortedMembers, (List.mergeSort_perm _ _).nodup_iff, map_toAsciiLowercase_members]
  exact (h.filter _).map ZoneName.text_injective

/-- The members are digested in one order, whatever the zones were listed in. -/
theorem sortedMembers_eq {zones zones' : List Zone} (h : (zones.map (·.name)).Nodup) (h' : (zones'.map (·.name)).Nodup)
    (hmem : ∀ t, t ∈ sortedMembers zones ↔ t ∈ sortedMembers zones') : sortedMembers zones = sortedMembers zones' := by
  have hsorted : ∀ zones, (sortedMembers zones).Pairwise (· ≤ ·) := fun zones => by
    have hsort := @List.pairwise_mergeSort Text (fun a b => decide (a ≤ b))
      (fun a b c hab hbc => by
        rw [decide_eq_true_eq] at hab hbc ⊢
        exact hab.trans hbc)
      (fun a b => by simpa using le_total a b) (((memberZones zones).map (·.text)).map toAsciiLowercase)
    exact hsort.imp of_decide_eq_true
  exact List.Perm.eq_of_pairwise' (hsorted zones) (hsorted zones')
    ((List.perm_ext_iff_of_nodup (sortedMembers_nodup h) (sortedMembers_nodup h')).2 hmem)

theorem catalogPreimage_eq (zones : List Zone) :
    catalogPreimage ((memberZones zones).map (·.text)) zones =
      ((sortedMembers zones).map fun t => (t, (serialByName zones t).getD 0)).flatMap fun p => memberOctets p.1 p.2 := by
  rw [catalogPreimage, List.flatMap_map]
  refine List.flatMap_congr fun t ht => ?_
  obtain ⟨name, -, rfl⟩ := mem_sortedMembers.1 ht
  have hserial := memberSerials_eq ht
  rw [memberSerials] at hserial
  split at hserial
  · cases hserial
  · rw [hserial]
    rfl

/-- **What is digested** stands for the map from members to serials. -/
theorem preimage_eq_iff {zones zones' : List Zone} (h : (zones.map (·.name)).Nodup) (h' : (zones'.map (·.name)).Nodup) :
    catalogPreimage ((memberZones zones).map (·.text)) zones = catalogPreimage ((memberZones zones').map (·.text)) zones' ↔
      memberSerials zones = memberSerials zones' := by
  rw [catalogPreimage_eq, catalogPreimage_eq]
  constructor
  · intro heq
    have hzero : ∀ zones, ∀ p ∈ (sortedMembers zones).map fun t => (t, (serialByName zones t).getD 0), '\x00' ∉ p.1 := by
      intro zones p hp
      obtain ⟨t, ht, rfl⟩ := List.mem_map.1 hp
      obtain ⟨name, -, rfl⟩ := mem_sortedMembers.1 ht
      exact name.not_mem_text (by decide) rfl
    have hpairs := memberOctets_flatMap_inj (hzero zones) (hzero zones') heq
    have hmembers : sortedMembers zones = sortedMembers zones' := by
      simpa [Function.comp_def] using congrArg (List.map Prod.fst) hpairs
    rw [hmembers] at hpairs
    funext name
    by_cases hmem : name.text ∈ sortedMembers zones'
    · have hserial := (List.map_inj_left.1 hpairs) name.text hmem
      rw [memberSerials_eq (hmembers ▸ hmem), memberSerials_eq hmem, (Prod.mk.inj hserial).2]
    · have hnone : memberSerials zones' name = none := by
        simpa using mt text_mem_sortedMembers.2 hmem
      have hnone' : memberSerials zones name = none := by
        simpa using mt text_mem_sortedMembers.2 (hmembers ▸ hmem)
      rw [hnone, hnone']
  · intro heq
    have hmembers : sortedMembers zones = sortedMembers zones' := sortedMembers_eq h h' fun t => by
      simp only [mem_sortedMembers, ← isSome_memberSerials, heq]
    rw [hmembers]
    congr 1
    refine List.map_congr_left fun t ht => ?_
    obtain ⟨name, -, rfl⟩ := mem_sortedMembers.1 ht
    have hname := congrFun heq name
    rw [memberSerials_eq (hmembers ▸ ht), memberSerials_eq ht, Option.some.injEq] at hname
    rw [hname]

/-! ### The stored serial -/

/-- The three databases leave the same row. -/
theorem updateSerialForSignature_eq (backend : Backend) (row : Option CatalogRow) (signature : Text) (baseSerial : ℤ) :
    backend.updateSerialForSignature row signature baseSerial =
      Backend.sqlite.updateSerialForSignature row signature baseSerial := by
  cases backend <;> cases row <;> rfl

theorem updateSerialForSignature_some (backend : Backend) (row : CatalogRow) (signature : Text) (baseSerial : ℤ) :
    let row' := backend.updateSerialForSignature (some row) signature baseSerial
    row'.signature = signature ∧ row.serial ≤ row'.serial ∧ (row.serial = row'.serial ↔ row.signature = signature) := by
  rw [updateSerialForSignature_eq]
  simp only [Backend.updateSerialForSignature, CatalogRow.upsert, sqliteUpdate]
  refine ⟨trivial, ?_⟩
  split
  · rename_i h
    simp [h]
  · rename_i h
    simp only [h, iff_false]
    omega

section Runs

variable [crates : Crates]

/-- The digest never gives one value for two inputs. -/
def Crates.Sha256Injective (crates : Crates) : Prop := Function.Injective crates.sha256

theorem catalogSignature_eq_iff (hsha : crates.Sha256Injective) {zones zones' : List Zone}
    (h : (zones.map (·.name)).Nodup) (h' : (zones'.map (·.name)).Nodup) :
    catalogSignature ((memberZones zones).map (·.text)) zones = catalogSignature ((memberZones zones').map (·.text)) zones' ↔
      memberSerials zones = memberSerials zones' := by
  rw [← preimage_eq_iff h h', catalogSignature, catalogSignature]
  exact ⟨fun e => hsha (flatMap_hexByte_inj e), fun e => by rw [e]⟩

/-- Two catalogs, the second one later: the serial does not go down, and stays only for the same members with the same
serials. -/
def Generation.Before (g g' : Generation) : Prop :=
  g.serial ≤ g'.serial ∧ (g.serial = g'.serial → memberSerials g.zones = memberSerials g'.zones)

def Generation.Next (g g' : Generation) : Prop :=
  g.serial ≤ g'.serial ∧ (g.serial = g'.serial ↔ memberSerials g.zones = memberSerials g'.zones)

namespace CatalogRun

/-- What holds after every history of events: listings name each zone once, and the row holds the serial and the
signature of the last catalog. -/
structure Ok (s : CatalogRun) : Prop where
  reachable : ∃ ops, s.db = Bindizr.run ops
  listed : ∀ handler zones, s.listed handler = some zones → (zones.map (·.name)).Nodup
  row : s.row = s.generated.getLast?.map fun g => ⟨catalogSignature (g.members.map (·.text)) g.zones, g.serial⟩
  zones : ∀ g ∈ s.generated, (g.zones.map (·.name)).Nodup
  chain : s.generated.IsChain Generation.Next
  order : s.generated.Pairwise Generation.Before

omit crates in
theorem nodup_listZones {db : Db} (h : DbOk db) : (db.listZones.map (·.name)).Nodup := by
  rw [Db.listZones, ((List.mergeSort_perm _ _).map _).nodup_iff, List.map_map]
  exact h.zoneNames

theorem ok_init : Ok ⟨.empty, none, fun _ => none, []⟩ where
  reachable := ⟨[], rfl⟩
  listed := by simp
  row := rfl
  zones := by simp
  chain := .nil
  order := .nil

theorem next_generated (hsha : crates.Sha256Injective) {s : CatalogRun} (h : s.Ok) (backend : Backend) {zones : List Zone}
    (hzones : (zones.map (·.name)).Nodup) :
    ∀ g ∈ s.generated.getLast?, g.Next ⟨zones, (generateCatalogSerial backend s.row zones).serial⟩ := by
  intro g hg
  have hmem : g ∈ s.generated := List.mem_of_getLast? hg
  have hrow : s.row = some ⟨catalogSignature (g.members.map (·.text)) g.zones, g.serial⟩ := by
    rw [h.row, Option.mem_def.1 hg, Option.map_some]
  obtain ⟨-, hle, hiff⟩ := updateSerialForSignature_some backend
    ⟨catalogSignature (g.members.map (·.text)) g.zones, g.serial⟩
    (catalogSignature ((memberZones zones).map (·.text)) zones) ((zones.map (·.serial)).max?.getD 1)
  rw [← hrow] at hle hiff
  exact ⟨hle, hiff.trans (catalogSignature_eq_iff hsha (h.zones g hmem) hzones)⟩

omit crates in
/-- What comes after the last catalog comes after all of them. -/
theorem before_of_last {generated : List Generation} (horder : generated.Pairwise Generation.Before) {g g' : Generation}
    (hg : g ∈ generated) (hnext : ∀ last ∈ generated.getLast?, last.Next g') : g.Before g' := by
  obtain ⟨init, last, rfl⟩ := List.eq_nil_or_concat generated |>.resolve_left (List.ne_nil_of_mem hg)
  obtain ⟨hle, hiff⟩ := hnext last (by simp)
  rw [List.concat_eq_append] at hg horder
  rcases List.mem_append.1 hg with hg | hg
  · obtain ⟨hle', hsame⟩ := (List.pairwise_append.1 horder).2.2 g hg last (by simp)
    refine ⟨hle'.trans hle, fun e => ?_⟩
    have hlast : last.serial = g'.serial := le_antisymm hle (e ▸ hle')
    rw [hsame (e.trans hlast.symm), hiff.1 hlast]
  · rw [List.mem_singleton.1 hg]
    exact ⟨hle, hiff.1⟩

theorem signature_generateCatalogSerial (backend : Backend) (row : Option CatalogRow) (zones : List Zone) :
    (generateCatalogSerial backend row zones).signature = catalogSignature ((memberZones zones).map (·.text)) zones := by
  cases row with
  | none => cases backend <;> rfl
  | some row => exact (updateSerialForSignature_some backend row _ _).1

omit crates in
theorem forall_update {P : List Zone → Prop} {listed : ℕ → Option (List Zone)} {new : Option (List Zone)}
    (h : ∀ handler zones, listed handler = some zones → P zones) (hnew : ∀ zones, new = some zones → P zones)
    (handler handler' : ℕ) (zones : List Zone) (hzones : Function.update listed handler new handler' = some zones) :
    P zones := by
  by_cases hsame : handler' = handler
  · subst hsame
    rw [Function.update_self] at hzones
    exact hnew zones hzones
  · rw [Function.update_of_ne hsame] at hzones
    exact h handler' zones hzones

theorem Ok.step (hsha : crates.Sha256Injective) {s : CatalogRun} (h : s.Ok) (backend : Backend) (event : CatalogEvent) :
    (s.step backend event).Ok := by
  cases event with
  | write op =>
      obtain ⟨ops, hops⟩ := h.reachable
      exact { h with reachable := ⟨ops ++ [op], by rw [run_concat, ← hops]; rfl⟩ }
  | list handler =>
      obtain ⟨ops, hops⟩ := h.reachable
      have hzones : ∀ zones, some s.db.listZones = some zones → (zones.map (·.name)).Nodup := by
        rintro _ ⟨⟩
        exact nodup_listZones (hops ▸ run_ok ops)
      exact { h with listed := forall_update h.listed hzones handler }
  | update handler =>
      rw [CatalogRun.step]
      cases hlisted : s.listed handler with
      | none => exact h
      | some zones =>
          have hzones := h.listed handler zones hlisted
          have hnext := next_generated hsha h backend hzones
          exact
            { reachable := h.reachable
              listed := forall_update h.listed (by simp) handler
              row := by
                rw [List.getLast?_concat, Option.map_some]
                exact congrArg some (CatalogRow.ext (signature_generateCatalogSerial backend s.row zones) rfl)
              zones := by
                intro g hg
                rcases List.mem_append.1 hg with hg | hg
                · exact h.zones g hg
                · rw [List.mem_singleton.1 hg]
                  exact hzones
              chain := h.chain.append (.singleton _) (by simpa using hnext)
              order := by
                refine List.pairwise_append.2 ⟨h.order, List.pairwise_singleton _ _, fun g hg g' hg' => ?_⟩
                rw [List.mem_singleton.1 hg']
                exact before_of_last h.order hg hnext }

/-- **The invariant** holds after every history of events. -/
theorem run_ok (hsha : crates.Sha256Injective) (backend : Backend) (events : List CatalogEvent) :
    (run backend events).Ok := by
  induction events using List.reverseRecOn with
  | nil => exact ok_init
  | append_singleton events event ih =>
      rw [run, List.foldl_append]
      exact ih.step hsha backend event

theorem run_eq (backend : Backend) (events : List CatalogEvent) : run backend events = run .sqlite events := by
  have hstep : ∀ s event, step backend s event = step .sqlite s event := by
    intro s event
    cases event with
    | write op => rfl
    | list handler => rfl
    | update handler => simp only [step, generateCatalogSerial, updateSerialForSignature_eq backend]
  rw [run, run, funext₂ hstep]

end CatalogRun

/-- **The serial of the catalog.**  Whatever writers and handlers do, on any of the three databases, and with a digest
that is injective: serials never go down from one update to the next, and change exactly when the members or their
serials do; catalogs with one serial have the same members; and the databases serve the same. -/
theorem catalog_serials (hsha : crates.Sha256Injective) (backend : Backend) (events : List CatalogEvent) :
    (((CatalogRun.run backend events).generated.map (·.serial)).Pairwise (· ≤ ·) ∧
      (CatalogRun.run backend events).generated.IsChain (fun g g' =>
        g.serial ≠ g'.serial ↔ memberSerials g.zones ≠ memberSerials g'.zones)) ∧
    (∀ g ∈ (CatalogRun.run backend events).generated, ∀ g' ∈ (CatalogRun.run backend events).generated,
      g.serial = g'.serial → ∀ z, z ∈ g.members ↔ z ∈ g'.members) ∧
    ∀ backend', (CatalogRun.run backend' events).generated = (CatalogRun.run backend events).generated := by
  have hok := CatalogRun.run_ok hsha backend events
  refine ⟨⟨List.pairwise_map.2 (hok.order.imp And.left), hok.chain.imp fun _ _ h => not_congr h.2⟩, ?_, fun backend' => ?_⟩
  · intro g hg g' hg' hserial z
    have hsymm : Std.Symm fun g g' : Generation => g.serial = g'.serial → memberSerials g.zones = memberSerials g'.zones :=
      ⟨fun _ _ h e => (h e.symm).symm⟩
    have hsame := List.Pairwise.forall_of_forall (fun _ _ _ => rfl) (hok.order.imp fun h => h.2) hg hg' hserial
    rw [Generation.members, Generation.members, ← isSome_memberSerials, ← isSome_memberSerials, hsame]
  · rw [CatalogRun.run_eq, ← CatalogRun.run_eq backend]

end Runs

theorem sampleCrates_sha256 : sampleCrates.Sha256Injective := fun _ _ h => h

/-- A catalog is generated, and again after a change. -/
def sampleEvents : List CatalogEvent :=
  [.write (.createZone .global sampleZone), .list 0, .update 0, .write (.forceIncrementSerial (lit "example.com")),
    .list 0, .list 1, .update 1, .update 0]

theorem catalog_serials_sampleEvents :
    (@CatalogRun.run sampleCrates .mysql sampleEvents).generated.map (·.serial) = [1, 2, 2] ∧
      (@CatalogRun.run sampleCrates .mysql sampleEvents).generated.IsChain (fun g g' =>
        g.serial ≠ g'.serial ↔ memberSerials g.zones ≠ memberSerials g'.zones) :=
  ⟨by decide +kernel, (@catalog_serials sampleCrates sampleCrates_sha256 .mysql sampleEvents).1.2⟩

end Bindizr
