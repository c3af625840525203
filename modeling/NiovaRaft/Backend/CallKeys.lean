import NiovaRaft.Backend.PosixHeader
import NiovaRaft.Backend.RocksLog
import NiovaRaft.Model.BackendCalls
import NiovaRaft.Spec.Log

/-!
# What calls do to the keys

The server's model has the contents of the backend as a value, and the model of the RocksDB backend
has a database of keys.  Here a call does the same to both: the keys stand for the contents before
it and after it, and a database that stands for contents is read as they are.

The segment of the log is the one between the entries that were compacted and the end.  An entry may
be written in the place of another one.
-/

namespace NiovaRaft

open Base Base.Handler

variable {n : Nat}

/-! ## The contents -/

namespace Db

variable {db : Db n} {i : Nat}

theorem read_isSome : (db.read i).isSome ↔ db.reaped ≤ i ∧ i < db.entries.length := by
  rw [read]
  split
  · next h => simp [h]
  · next h => simp [h]

/-- An entry is written at the end of the log, or in the place of another one. -/
theorem read_write {re : Entry} (hlow : db.reaped ≤ re.header.index.toNat)
    (hle : re.header.index.toNat ≤ db.entries.length) :
    (db.write re).read i = if i = re.header.index.toNat then some re else db.read i := by
  show (if db.reaped ≤ i then (db.write re).entries[i]? else none) = _
  rw [getElem?_write hle, read]
  by_cases hi : i = re.header.index.toNat
  · rw [if_pos hi, if_pos (hi ▸ hlow), if_pos hi]
  · rw [if_neg hi, if_neg hi]

theorem read_truncate (k : Nat) :
    (db.truncate k).read i = if k ≤ i then none else db.read i := by
  show (if db.reaped ≤ i then (db.entries.take k)[i]? else none) = _
  rcases Nat.lt_or_ge i k with hlt | hge
  · rw [if_neg (Nat.not_le.mpr hlt), List.getElem?_take_of_lt hlt, read]
  · rw [if_pos hge, List.getElem?_eq_none, ite_self]
    rw [List.length_take]
    omega

theorem read_reap (k : Nat) : (db.reap k).read i = if i < k then none else db.read i := by
  show (if max db.reaped k ≤ i then db.entries[i]? else none) = _
  by_cases hlt : i < k
  · rw [if_pos hlt, if_neg (by omega)]
  · rw [if_neg hlt, read]
    by_cases hlow : db.reaped ≤ i
    · rw [if_pos hlow, if_pos (by omega)]
    · rw [if_neg hlow, if_neg (by omega)]

end Db

namespace Rocks.LogSegment

/-- An entry that is put in its place, or at the end. -/
def write (seg : LogSegment) (re : RocksEntry) : LogSegment :=
  let i := (rehIndex re.header).toNat
  if i < seg.endIdx then { seg with entries := seg.entries.set (i - seg.lowest) re }
  else seg.append re

theorem get?_write {seg : LogSegment} {re : RocksEntry}
    (hlow : seg.lowest ≤ (rehIndex re.header).toNat)
    (hend : seg.entries = [] ∨ (rehIndex re.header).toNat ≤ seg.endIdx) (j : Nat) :
    (seg.write re).get? j = if j = (rehIndex re.header).toNat then some re else seg.get? j := by
  rw [write]
  split
  · next hlt =>
    rw [endIdx] at hlt
    by_cases hj : j = (rehIndex re.header).toNat
    · rw [if_pos hj, hj, get?, if_pos hlow]
      exact List.getElem?_set_self (by omega)
    · rw [if_neg hj, get?, get?]
      simp only
      split
      · exact List.getElem?_set_ne (by omega)
      · rfl
  · next hge =>
    have hnonneg := re.index_nonneg
    exact get?_append (hend.imp_right fun hle => by omega) j

theorem lowest_write {seg : LogSegment} {re : RocksEntry}
    (h : seg.entries = [] → (rehIndex re.header).toNat = seg.lowest) :
    (seg.write re).lowest = seg.lowest := by
  rw [write]
  split
  · rfl
  · rw [append]
    split
    · next hnil => exact h hnil
    · rfl

end Rocks.LogSegment

/-! ## Keys that are none of the log -/

namespace Rocks

variable {db db' : RocksDb} {key : Key}

theorem get_writeSupplementsPut_congr (h : db.get key = db'.get key) (ws : List WrSupp) :
    (writeSupplementsPut db ws).get key = (writeSupplementsPut db' ws).get key := by
  induction ws generalizing db db' with
  | nil => exact h
  | cons w ws ih =>
    rw [writeSupplementsPut, writeSupplementsPut, List.foldl_cons, List.foldl_cons]
    refine ih ?_
    cases w with
    | write key' value => rw [OrderedStore.get_put, OrderedStore.get_put, h]
    | delete key' => rw [OrderedStore.get_delete, OrderedStore.get_delete, h]

theorem get_deleteRange_of_not_inLog {lo hi : Key} (hlo : headerEnd ≤ lo) (hhi : hi ≤ lastEntry)
    (h : ¬InLog key) : (db.deleteRange lo hi).get key = db.get key := by
  rw [OrderedStore.get_deleteRange, if_neg]
  rintro ⟨hge, hlt⟩
  exact h ⟨hlo.trans hge, hlt.trans_le hhi⟩

end Rocks

namespace RocksNames

variable {names : RocksNames n}

theorem lastEntry_prefix_lastEntryKey : Rocks.lastEntry <+: names.lastEntryKey :=
  Rocks.lastEntry_prefix_lastEntryKey ..

theorem not_inLog_logHeaderKey : ¬Rocks.InLog names.logHeaderKey := by
  intro h
  have hlt := Rocks.logHeaderKey_lt_headerEnd names.raftUuidStr names.thisPeerUuidStr []
  rw [List.append_nil] at hlt
  exact absurd hlt (not_lt_of_ge h.1)

theorem logHeaderKey_ne_lastEntryKey : names.logHeaderKey ≠ names.lastEntryKey :=
  ne_of_lt (cons_lt_cons_of_lt (by decide : (97 : UInt8) < 122) _ _)

/-- The keys that an application may write. -/
def AppKey (names : RocksNames n) (key : Key) : Prop :=
  Rocks.AppKey names.lastEntryKey key ∧ key ≠ names.logHeaderKey

/-- An entry in memory. -/
structure InMemory (names : RocksNames n) (mem : EntryMemory) (re : Entry)
    (raw : Rocks.RocksEntry) : Prop where
  header : raw.header = names.headerBytes mem re.header
  data : raw.data = (re.data ++ mem.rest).takeD re.header.dataSize 0
  index : rehIndex raw.header = re.header.index

theorem inMemory_eq_some {mem : EntryMemory} {re : Entry} {raw : Rocks.RocksEntry}
    (h : names.inMemory mem re = some raw) : names.InMemory mem re raw := by
  rw [inMemory] at h
  split at h
  · next hrange =>
    obtain rfl := Option.some.inj h
    exact ⟨rfl, rfl, rehIndex_entryHeaderBytes (by omega) hrange.2.1⟩
  · cases h

end RocksNames

namespace DbCall

/-- What is asked of the world outside the server: log indexes stay below sixteen digits, the log
header fits its fields, and the application keeps to its keys. -/
structure Admitted (names : RocksNames n) (c : DbCall n) : Prop where
  index : ∀ sync re mem ws, c = .entryWrite sync re mem ws → re.header.index + 1 < 10 ^ 16
  header : ∀ hdr, c = .headerWrite hdr → (names.logHeader hdr).Fits
  app : ∀ w ∈ c.ws, names.AppKey w.key

/-- The call is made where its argument fits the log. -/
def InPlace (names : RocksNames n) (db : Db n) : DbCall n → Prop
  | entryWrite _ re mem _ => (names.inMemory mem re).isSome ∧ 0 ≤ re.header.index ∧
      db.reaped ≤ re.header.index ∧ re.header.index ≤ db.entries.length
  | logTruncate k => k < 10 ^ 16 ∧ (db.reaped = 0 ∨ db.reaped < k)
  | logReap k => k < 10 ^ 16 ∧ (k = 0 ∨ k < db.entries.length)
  | _ => True

variable {names : RocksNames n} {keys : RocksDb} {db : Db n} {key : Key}

/-- What is not of the log is changed by supplements, and the log header when it is written. -/
theorem get_onKeys_of_not_inLog {c : DbCall n} (hc : c.InPlace names db) (hkey : ¬Rocks.InLog key)
    (hhdr : ∀ hdr, c = .headerWrite hdr → key ≠ names.logHeaderKey) :
    (c.onKeys names keys).get key = (Rocks.writeSupplementsPut keys c.ws).get key := by
  have hentry : ∀ suffix i, key ≠ Rocks.entryKeyWith suffix i := by
    rintro suffix i rfl
    exact hkey (Rocks.inLog_entryKeyWith ..)
  cases c with
  | entryWrite sync re mem ws =>
    obtain ⟨raw, hraw⟩ := Option.isSome_iff_exists.mp hc.1
    simp only [onKeys, hraw, Option.elim_some]
    exact Rocks.get_writeSupplementsPut_congr (Rocks.get_entryPuts (hentry _ _) (hentry _ _)) _
  | logTruncate k =>
    exact Rocks.get_deleteRange_of_not_inLog (Rocks.inLog_entryKeyWith ..).1 (le_refl _) hkey
  | logReap k =>
    exact Rocks.get_deleteRange_of_not_inLog (Rocks.inLog_entryKeyWith ..).1
      (Rocks.inLog_entryKeyWith ..).2.le hkey
  | headerWrite hdr => exact OrderedStore.get_put_of_ne (hhdr hdr rfl)
  | smApplyOpt la batch =>
    refine Rocks.get_writeSupplementsPut_congr (OrderedStore.get_put_of_ne ?_) _
    rintro rfl
    exact hkey (Rocks.inLog_headerEnd_append _)
  | checkpoint idx => rfl
  | backendSync ts =>
    refine OrderedStore.get_put_of_ne ?_
    rintro rfl
    exact hkey (Rocks.inLog_headerEnd_append _)

/-- The application's keys are not the server's. -/
theorem Admitted.get_writeSupplementsPut {c : DbCall n} (h : c.Admitted names)
    (hkey : ¬names.AppKey key) : (Rocks.writeSupplementsPut keys c.ws).get key = keys.get key :=
  Rocks.get_writeSupplementsPut fun w hw heq => hkey (heq ▸ h.app w hw)

theorem get_onKeys_logHeaderKey {c : DbCall n} (hc : c.InPlace names db) (h : c.Admitted names)
    {hdr : LogHeader n} (hget : keys.get names.logHeaderKey = some (names.logHeader hdr).bytes) :
    (c.onKeys names keys).get names.logHeaderKey =
      some (names.logHeader (c.onDb { db with hdr := hdr }).hdr).bytes := by
  have hkept : (∀ hdr', c = .headerWrite hdr' → names.logHeaderKey ≠ names.logHeaderKey) →
      (c.onKeys names keys).get names.logHeaderKey = some (names.logHeader hdr).bytes := by
    intro hne
    rw [get_onKeys_of_not_inLog hc names.not_inLog_logHeaderKey hne,
      h.get_writeSupplementsPut fun happ => happ.2 rfl, hget]
  cases c with
  | headerWrite hdr' => exact OrderedStore.get_put_self
  | entryWrite | logTruncate | logReap | smApplyOpt | checkpoint | backendSync =>
    exact hkept fun _ heq => by cases heq

theorem get_onKeys_lastAppliedKey {c : DbCall n} (hc : c.InPlace names db) (h : c.Admitted names)
    {la : Option LastApplied} (hget : keys.get Rocks.lastAppliedKey = la.map LastApplied.bytes) :
    (c.onKeys names keys).get Rocks.lastAppliedKey =
      (c.onDb { db with lastApplied := la }).lastApplied.map LastApplied.bytes := by
  have hlog : Rocks.InLog Rocks.lastAppliedKey := Rocks.inLog_headerEnd_append _
  have hws : ∀ {keys' : RocksDb}, (Rocks.writeSupplementsPut keys' c.ws).get Rocks.lastAppliedKey =
      keys'.get Rocks.lastAppliedKey :=
    h.get_writeSupplementsPut fun happ => happ.1.1 hlog
  have hentry : ∀ suffix i, Rocks.lastAppliedKey ≠ Rocks.entryKeyWith suffix i :=
    fun _ _ => Rocks.headerEnd_append_ne_entryKeyWith _ _ _
  have hrange : ∀ i hi, (keys.deleteRange (Rocks.entryKey i) hi).get Rocks.lastAppliedKey =
      keys.get Rocks.lastAppliedKey := by
    intro i hi
    rw [OrderedStore.get_deleteRange, if_neg]
    exact fun hin => absurd hin.1 (not_le_of_gt (Rocks.headerEnd_lt_entryKeyWith ..))
  cases c with
  | entryWrite sync re mem ws =>
    obtain ⟨raw, hraw⟩ := Option.isSome_iff_exists.mp hc.1
    simp only [onKeys, hraw, Option.elim_some, Rocks.entryWrite]
    exact hws.trans ((Rocks.get_entryPuts (hentry _ _) (hentry _ _)).trans hget)
  | logTruncate k => exact (hrange ..).trans hget
  | logReap k => exact (hrange ..).trans hget
  | headerWrite hdr =>
    refine (OrderedStore.get_put_of_ne ?_).trans hget
    intro heq
    refine names.not_inLog_logHeaderKey ?_
    rw [show names.logHeaderKey = Rocks.lastAppliedKey from heq.symm]
    exact hlog
  | smApplyOpt la' batch => exact hws.trans OrderedStore.get_put_self
  | checkpoint idx => exact hget
  | backendSync ts => exact (OrderedStore.get_put_of_ne (by decide)).trans hget

end DbCall

/-! ## What the keys stand for -/

open Rocks (LogSegment Represents)

/-- The segment is the log in the contents. -/
structure RocksNames.LogIn (names : RocksNames n) (db : Db n) (seg : LogSegment) : Prop where
  lowest : seg.lowest = db.reaped
  held : ∀ i re, db.read i = some re →
    ∃ mem raw, names.inMemory mem re = some raw ∧ seg.get? i = some raw
  absent : ∀ i, db.read i = none → seg.get? i = none

/-- The database holds the contents, and what the application has written. -/
structure Backs (names : RocksNames n) (keys app : RocksDb) (db : Db n) : Prop where
  log : ∃ seg, Represents names.lastEntryKey keys seg ∧ names.LogIn db seg
  compacted : db.reaped = 0 ∨ db.reaped < db.entries.length
  logHeader : keys.get names.logHeaderKey = some (names.logHeader db.hdr).bytes
  fits : (names.logHeader db.hdr).Fits
  lastApplied : keys.get Rocks.lastAppliedKey = db.lastApplied.map LastApplied.bytes
  app : ∀ key, names.AppKey key → keys.get key = app.get key

namespace RocksNames.LogIn

variable {names : RocksNames n} {db db' : Db n} {seg seg' : LogSegment}

theorem congr (h : names.LogIn db seg) (hreaped : db'.reaped = db.reaped)
    (hentries : db'.entries = db.entries) : names.LogIn db' seg := by
  have hread : ∀ i, db'.read i = db.read i := by
    intro i
    rw [Db.read, Db.read, hreaped, hentries]
  refine ⟨h.lowest.trans hreaped.symm, fun i re hi => ?_, fun i hi => ?_⟩
  · exact h.held i re (hread i ▸ hi)
  · exact h.absent i (hread i ▸ hi)

/-- The same entries go. -/
theorem remove (h : names.LogIn db seg) {gone : Nat → Prop} [DecidablePred gone]
    (hlow : seg'.lowest = db'.reaped)
    (hdb : ∀ i, db'.read i = if gone i then none else db.read i)
    (hseg : ∀ i, seg'.get? i = if gone i then none else seg.get? i) : names.LogIn db' seg' where
  lowest := hlow
  held i re hi := by
    rw [hdb] at hi
    split at hi
    · cases hi
    · next hgone =>
      obtain ⟨mem, raw, hraw, hget⟩ := h.held i re hi
      exact ⟨mem, raw, hraw, by rw [hseg, if_neg hgone, hget]⟩
  absent i hi := by
    rw [hseg]
    split
    · rfl
    · next hgone =>
      rw [hdb, if_neg hgone] at hi
      exact h.absent i hi

/-- The same entry is put in its place. -/
theorem write (h : names.LogIn db seg) {re : Entry} {mem : EntryMemory} {raw : Rocks.RocksEntry}
    (hraw : names.inMemory mem re = some raw) {k : Nat} (hlow : seg'.lowest = db'.reaped)
    (hdb : ∀ i, db'.read i = if i = k then some re else db.read i)
    (hseg : ∀ i, seg'.get? i = if i = k then some raw else seg.get? i) : names.LogIn db' seg' where
  lowest := hlow
  held i re' hi := by
    rw [hdb] at hi
    rw [hseg]
    split at hi
    · next heq =>
      obtain rfl := Option.some.inj hi
      exact ⟨mem, raw, hraw, if_pos heq⟩
    · next hne =>
      rw [if_neg hne]
      exact h.held i re' hi
  absent i hi := by
    rw [hdb] at hi
    rw [hseg]
    split at hi
    · cases hi
    · next hne => rw [if_neg hne, h.absent i hi]

/-- Both have an entry at the same indexes. -/
theorem isSome_iff (h : names.LogIn db seg) (i : Nat) :
    (seg.get? i).isSome ↔ (db.read i).isSome := by
  cases hi : db.read i with
  | none =>
    rw [h.absent i hi]
    exact Iff.rfl
  | some re =>
    obtain ⟨mem, raw, -, hget⟩ := h.held i re hi
    rw [hget, Option.isSome_some, Option.isSome_some]

/-- Both end at the same index. -/
theorem endIdx_eq (h : names.LogIn db seg) (hlt : db.reaped < db.entries.length) :
    seg.endIdx = db.entries.length := by
  have hiff : ∀ i, db.reaped ≤ i → (i < seg.endIdx ↔ i < db.entries.length) := by
    intro i hi
    have hsome := h.isSome_iff i
    rw [LogSegment.get?_isSome, Db.read_isSome, h.lowest] at hsome
    exact ⟨fun hend => (hsome.mp ⟨hi, hend⟩).2, fun hend => (hsome.mpr ⟨hi, hend⟩).2⟩
  have hlow := (hiff db.reaped (le_refl _)).mpr hlt
  have hdb := hiff (db.entries.length - 1) (by omega)
  have hseg := hiff (seg.endIdx - 1) (by omega)
  omega

theorem entries_eq_nil (h : names.LogIn db seg) (hnil : db.entries = []) : seg.entries = [] := by
  have hsome := h.isSome_iff seg.lowest
  rw [LogSegment.get?_isSome, Db.read_isSome, hnil] at hsome
  have hend : ¬seg.lowest < seg.endIdx := fun hlt => Nat.not_lt_zero _ (hsome.mp ⟨le_refl _, hlt⟩).2
  rw [LogSegment.endIdx] at hend
  exact List.eq_nil_of_length_eq_zero (by omega)

theorem entries_ne_nil (h : names.LogIn db seg) (hlt : db.reaped < db.entries.length) :
    seg.entries ≠ [] := by
  intro hnil
  have hend := h.endIdx_eq hlt
  rw [LogSegment.endIdx, hnil, h.lowest] at hend
  simp only [List.length_nil] at hend
  omega

end RocksNames.LogIn

namespace Backs

variable {names : RocksNames n} {keys app : RocksDb} {db : Db n} {c : DbCall n}

/-- What a call does to the log. -/
theorem log_onKeys (h : Backs names keys app db) (hc : c.InPlace names db)
    (hadm : c.Admitted names) :
    ∃ seg, Represents names.lastEntryKey (c.onKeys names keys) seg ∧
      names.LogIn (c.onDb db) seg := by
  obtain ⟨seg, hrep, hlog⟩ := h.log
  have hmarker := names.lastEntry_prefix_lastEntryKey
  have hws : ∀ w ∈ c.ws, Rocks.AppKey names.lastEntryKey w.key := fun w hw => (hadm.app w hw).1
  cases c with
  | entryWrite sync re mem ws =>
    obtain ⟨hmem, hnonneg, hreaped, hle⟩ := hc
    obtain ⟨raw, hraw⟩ := Option.isSome_iff_exists.mp hmem
    have hidx := (names.inMemory_eq_some hraw).index
    have hbound := hadm.index sync re mem ws rfl
    have hseg : seg.entries = [] → re.header.index.toNat = seg.lowest := by
      intro hnil
      have hnone : ¬db.reaped < db.entries.length := fun hlt => hlog.entries_ne_nil hlt hnil
      have hcompacted := h.compacted
      rw [hlog.lowest]
      omega
    have hend : seg.entries = [] ∨ re.header.index.toNat ≤ seg.endIdx := by
      rcases Nat.lt_or_ge db.reaped db.entries.length with hlt | hge
      · rw [hlog.endIdx_eq hlt]
        exact .inr (by omega)
      · have hcompacted := h.compacted
        exact .inl (hlog.entries_eq_nil (List.eq_nil_of_length_eq_zero (by omega)))
    have hget : ∀ j, (seg.write raw).get? j =
        if j = (rehIndex raw.header).toNat then some raw else seg.get? j :=
      LogSegment.get?_write (by rw [hidx, hlog.lowest]; omega) (by rw [hidx]; exact hend)
    refine ⟨seg.write raw, ?_, ?_⟩
    · simp only [DbCall.onKeys, hraw, Option.elim_some]
      exact hrep.entryWrite_of_get hmarker (by omega) hws hget
    · refine hlog.write hraw ?_ (fun i => Db.read_write (by omega) (by omega))
        (by rwa [hidx] at hget)
      rw [LogSegment.lowest_write (by rw [hidx]; exact hseg)]
      exact hlog.lowest
  | logTruncate k =>
    refine ⟨seg.truncate k, hrep.logTruncate hmarker hc.1, ?_⟩
    exact hlog.remove hlog.lowest (fun i => Db.read_truncate k) (LogSegment.get?_truncate k)
  | logReap k =>
    refine ⟨seg.reap k, hrep.logReap hmarker hc.1, ?_⟩
    refine hlog.remove ?_ (fun i => Db.read_reap k) (LogSegment.get?_reap k)
    show max seg.lowest k = max db.reaped k
    rw [hlog.lowest]
  | headerWrite hdr =>
    refine ⟨seg, hrep.congr (fun key hkey => ?_) ?_, hlog.congr rfl rfl⟩
    · refine OrderedStore.get_put_of_ne ?_
      rintro rfl
      exact names.not_inLog_logHeaderKey hkey
    · exact OrderedStore.get_put_of_ne names.logHeaderKey_ne_lastEntryKey.symm
  | smApplyOpt la batch =>
    exact ⟨seg, hrep.smApplyOpt hmarker la.bytes hws, hlog.congr rfl rfl⟩
  | checkpoint idx => exact ⟨seg, hrep, hlog.congr rfl rfl⟩
  | backendSync ts => exact ⟨seg, hrep.putRecord hmarker _ ts, hlog⟩

/-- A call does to the keys what it does to the contents. -/
theorem call (h : Backs names keys app db) (hc : c.InPlace names db) (hadm : c.Admitted names) :
    Backs names (c.onKeys names keys) (Rocks.writeSupplementsPut app c.ws) (c.onDb db) where
  log := h.log_onKeys hc hadm
  compacted := by
    have hcompacted := h.compacted
    cases c with
    | entryWrite sync re mem ws =>
      obtain ⟨-, hnonneg, hreaped, hle⟩ := hc
      show db.reaped = 0 ∨ db.reaped < (db.write re).entries.length
      rw [Db.length_write]
      split <;> omega
    | logTruncate k =>
      show db.reaped = 0 ∨ db.reaped < (db.entries.take k).length
      rw [List.length_take]
      have hk := hc.2
      omega
    | logReap k =>
      show max db.reaped k = 0 ∨ max db.reaped k < db.entries.length
      have hk := hc.2
      omega
    | headerWrite | smApplyOpt | checkpoint | backendSync => exact hcompacted
  logHeader := by
    rw [DbCall.get_onKeys_logHeaderKey hc hadm h.logHeader]
  fits := by
    cases c with
    | headerWrite hdr => exact hadm.header hdr rfl
    | entryWrite | logTruncate | logReap | smApplyOpt | checkpoint | backendSync => exact h.fits
  lastApplied := by
    rw [DbCall.get_onKeys_lastAppliedKey hc hadm h.lastApplied]
  app key hkey := by
    rw [DbCall.get_onKeys_of_not_inLog hc hkey.1.1 fun _ _ => hkey.2]
    exact Rocks.get_writeSupplementsPut_congr (h.app key hkey) c.ws

/-- A new server has written three records. -/
theorem get_initial {key : Key} (hhdr : key ≠ names.logHeaderKey) (huuid : key ≠ Rocks.uuidKey)
    (hlast : key ≠ names.lastEntryKey) (instanceUuid : List UInt8) :
    (keysAfter names instanceUuid []).get key = none := by
  show ((((OrderedStore.empty.put names.lastEntryKey _).put Rocks.uuidKey instanceUuid).put
    names.logHeaderKey _).get key) = none
  rw [OrderedStore.get_put_of_ne hhdr, OrderedStore.get_put_of_ne huuid,
    OrderedStore.get_put_of_ne hlast, OrderedStore.get_empty]

/-- The keys of a new server. -/
theorem initial (names : RocksNames n) (instanceUuid : List UInt8) :
    Backs names (keysAfter names instanceUuid []) (appAfter ([] : List (DbCall n)))
      (RaftServer.freshDb : Db n) where
  log := by
    refine ⟨⟨0, []⟩, Rocks.represents_initial .., rfl, fun i re hi => ?_, fun i _ => ?_⟩
    · simp [Db.read, RaftServer.freshDb] at hi
    · exact LogSegment.get?_of_nil rfl i
  compacted := .inl rfl
  logHeader := OrderedStore.get_put_self
  fits := by
    refine ⟨?_, ?_, ?_, ?_, ?_⟩
    all_goals simp [RocksNames.logHeader, RaftServer.freshDb, headerMagic]
  lastApplied := by
    have hlog : Rocks.InLog Rocks.lastAppliedKey := Rocks.inLog_headerEnd_append _
    refine get_initial ?_ (by decide) ?_ instanceUuid
    · intro heq
      exact names.not_inLog_logHeaderKey (heq ▸ hlog)
    · exact Rocks.ne_of_inLog names.lastEntry_prefix_lastEntryKey hlog |>.symm
  app key hkey := by
    refine get_initial hkey.2 ?_ hkey.1.2 instanceUuid
    rintro rfl
    exact hkey.1.1 (Rocks.inLog_headerEnd_append _)

end Backs

/-- What is read of the database is what the contents have.  An entry without data is refused, as
in every read of the backend. -/
structure ReadsAsDb (names : RocksNames n) (keys : RocksDb) (db : Db n) : Prop where
  entryHeader : ∀ i re, db.read i = some re →
    ∃ mem, Rocks.entryHeaderRead keys i = .ok (names.headerBytes mem re.header)
  entry : ∀ i re, db.read i = some re → re.header.dataSize ≠ 0 →
    ∃ mem, Rocks.entryRead keys i = .ok (names.headerBytes mem re.header,
      (re.data ++ mem.rest).takeD re.header.dataSize 0)
  absent : ∀ i : Nat, db.read i = none →
    Rocks.entryHeaderRead keys i = .error .ENOENT ∧ Rocks.entryRead keys i = .error .ENOENT
  numEntries : Rocks.numEntriesCalc keys = .ok (db.entries.length : Int)
  lowest : Rocks.lowestEntryGet keys = .ok (if db.entries = [] then -1 else (db.reaped : Int))
  logHeader : Rocks.headerLoad keys names.raftUuidStr names.thisPeerUuidStr =
    .ok (names.logHeader db.hdr)
  lastApplied : Rocks.getLastAppliedKvIdx keys =
    db.lastApplied.elim (.error .ENOENT) fun la => .ok la.bytes

namespace Backs

variable {names : RocksNames n} {keys app : RocksDb} {db : Db n}

/-- There are entries to be read wherever there are entries. -/
theorem reaped_lt (h : Backs names keys app db) (hne : db.entries ≠ []) :
    db.reaped < db.entries.length := by
  have hpos := List.length_pos_iff.mpr hne
  have hcompacted := h.compacted
  omega

theorem readsAsDb (h : Backs names keys app db) : ReadsAsDb names keys db := by
  obtain ⟨seg, hrep, hlog⟩ := h.log
  have hmarker := names.lastEntry_prefix_lastEntryKey
  have hempty : db.entries = [] ↔ seg.entries = [] := by
    refine ⟨hlog.entries_eq_nil, fun hnil => ?_⟩
    by_contra hne
    exact hlog.entries_ne_nil (h.reaped_lt hne) hnil
  refine ⟨fun i re hi => ?_, fun i re hi hdata => ?_, fun i hi => ?_, ?_, ?_, ?_, ?_⟩
  · obtain ⟨mem, raw, hraw, hget⟩ := hlog.held i re hi
    refine ⟨mem, ?_⟩
    rw [hrep.entryHeaderRead_eq, hget, ← (names.inMemory_eq_some hraw).header]
  · obtain ⟨mem, raw, hraw, hget⟩ := hlog.held i re hi
    have hmem := names.inMemory_eq_some hraw
    refine ⟨mem, ?_⟩
    rw [hrep.entryRead_eq hget, hmem.header, hmem.data]
    intro hnil
    have hlen := congrArg List.length (hmem.data.symm.trans hnil)
    rw [List.takeD_length] at hlen
    exact hdata hlen
  · have hheader : Rocks.entryHeaderRead keys i = .error .ENOENT := by
      rw [hrep.entryHeaderRead_eq, hlog.absent i hi]
    refine ⟨hheader, ?_⟩
    simp only [Rocks.entryRead, hheader, bind, Except.bind]
  · rw [hrep.numEntriesCalc_eq hmarker]
    by_cases hnil : db.entries = []
    · rw [if_pos (hempty.mp hnil), hnil]
      rfl
    · rw [if_neg (mt hempty.mpr hnil), hlog.endIdx_eq (h.reaped_lt hnil)]
  · rw [hrep.lowestEntryGet_eq hmarker, hlog.lowest]
    by_cases hnil : db.entries = []
    · rw [if_pos (hempty.mp hnil), if_pos hnil]
    · rw [if_neg (mt hempty.mpr hnil), if_neg hnil]
  · have hget : Rocks.getExactValSize keys
        (Rocks.logHeaderKey names.raftUuidStr names.thisPeerUuidStr) 48 =
        .ok (names.logHeader db.hdr).bytes := by
      rw [Rocks.getExactValSize, if_neg (by decide),
        show keys.get (Rocks.logHeaderKey names.raftUuidStr names.thisPeerUuidStr) = _ from
          h.logHeader]
      exact if_pos (RaftLogHeader.length_bytes _)
    simp only [Rocks.headerLoad, hget, RaftLogHeader.ofBytes_bytes h.fits]
    exact if_neg (not_not.mpr rfl)
  · rw [Rocks.getLastAppliedKvIdx, Rocks.getExactValSize, if_neg (by decide), h.lastApplied]
    cases db.lastApplied with
    | none => rfl
    | some la => exact if_pos la.length_bytes

end Backs

end NiovaRaft
