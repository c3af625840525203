import NiovaRaft.Recovery.ScrubbedDb

/-!
# Bulk recovery is resumed

A recovery that crashes leaves its marker behind, and the server goes on from it when it starts
again, as often as it takes.  The database it ends with is the one that a recovery without a crash
ends with, but for the uuid that each scrub generates.  At every moment there is a `db/` or a marker.

For this the half-scrubbed database must be recognized.  Before the scrub replaces the database's
uuid it stores the peer's beside it, unless the server's memory says that it is there already.  The
memory of a server that was recovered from the same database before says so, and is wrong when the
new copy has no such record; that is the case which is excluded here.
-/

namespace NiovaRaft

open Base

namespace Rocks

/-! ## The database in the marker -/

section Database

variable {rrh : RecoveryHandle} {x f d : RocksDb} {logHdr : RaftLogHeader} {lowest num : Int}

/-- A database of the peer that can be recovered from, where the scrub of its entry headers ends
with `f`. -/
structure Scrubbable (rrh : RecoveryHandle) (x f : RocksDb) (logHdr : RaftLogHeader)
    (lowest num : Int) : Prop where
  uuid : ∃ u, getUuid x uuidKey = .ok u ∧
    (u = rrh.peerDbUuid ∨ getUuid x preRecoveryKey = .ok rrh.peerDbUuid)
  numEntries : numEntriesCalc x = .ok num
  lowestEntry : lowestEntryGet x = .ok lowest
  range : 0 ≤ lowest ∧ 0 < num ∧ lowest ≤ num
  header : headerLoad x rrh.raftUuidStr rrh.peerUuidStr = .ok logHdr
  peer : rrh.thisPeerUuidStr ≠ rrh.peerUuidStr
  scrub : (dbScrubEntryHeaders rrh.thisPeerUuid lowest.toNat (num - lowest).toNat).wp
    (fun _ => True) (fun _ s => s = f) (fun _ _ => False) x

/-- A database that a recovery from `x` may have left. -/
structure Recovering (rrh : RecoveryHandle) (x f d : RocksDb) : Prop where
  plain : Between (Plain rrh) x f d
  marker : (x.get rrh.markerKey).isSome → (d.get rrh.markerKey).isSome
  header : (x.get rrh.headerKey).isSome → (d.get rrh.headerKey).isSome
  preRecovery : d.get preRecoveryKey = x.get preRecoveryKey ∨
    d.get preRecoveryKey = some rrh.peerDbUuid.bytes
  uuid : d.get uuidKey = x.get uuidKey ∨
    (∃ u : Uuid, d.get uuidKey = some u.bytes) ∧
      d.get preRecoveryKey = some rrh.peerDbUuid.bytes

/-- A database that a recovery has finished. -/
structure Recovered (rrh : RecoveryHandle) (f : RocksDb) (logHdr : RaftLogHeader) (d : RocksDb) :
    Prop where
  plain : ∀ key, Plain rrh key → d.get key = f.get key
  marker : d.get rrh.markerKey = some logHdr.bytes
  header : d.get rrh.headerKey = some logHdr.bytes
  preRecovery : d.get preRecoveryKey = some rrh.peerDbUuid.bytes

theorem Recovering.refl (rrh : RecoveryHandle) (x f : RocksDb) : Recovering rrh x f x where
  plain _ _ := .inl rfl
  marker := id
  header := id
  preRecovery := .inl rfl
  uuid := .inl rfl

/-- Finished databases differ in the uuid only. -/
theorem Recovered.get_eq {d' : RocksDb} (h : Recovered rrh f logHdr d)
    (h' : Recovered rrh f logHdr d') {key : Key} (hkey : key ≠ uuidKey) : d.get key = d'.get key := by
  by_cases hpre : key = preRecoveryKey
  · rw [hpre, h.preRecovery, h'.preRecovery]
  by_cases hmarker : key = rrh.markerKey
  · rw [hmarker, h.marker, h'.marker]
  by_cases hheader : key = rrh.headerKey
  · rw [hheader, h.header, h'.header]
  rw [h.plain key ⟨hkey, hpre, hmarker, hheader⟩, h'.plain key ⟨hkey, hpre, hmarker, hheader⟩]

/-- What the scrub of the entry headers leaves alone. -/
theorem Scrubbable.frame (hs : Scrubbable rrh x f logHdr lowest num) : ScrubFrame lowest.toNat x f := by
  have hboth := Durable.wp_and hs.scrub (wp_dbScrubEntryHeaders_frame _ _ x)
  obtain ⟨-, -, heq, hframe⟩ := Durable.wp_result
    (Durable.wp_mono hboth (fun _ h => h) (fun _ _ h => h) fun _ _ h => h.1)
  rwa [heq] at hframe

theorem Scrubbable.uuid_isSome (hs : Scrubbable rrh x f logHdr lowest num) :
    (x.get uuidKey).isSome := by
  obtain ⟨u, hu, -⟩ := hs.uuid
  rw [getUuid_ok_iff.mp hu]
  rfl

theorem Recovering.grown (hs : Scrubbable rrh x f logHdr lowest num) (h : Recovering rrh x f d) :
    Grown rrh.raftUuidStr rrh.thisPeerUuidStr x d := by
  have hplain : ∀ key, Plain rrh key → (d.get key).isSome = (x.get key).isSome := by
    intro key hkey
    rcases h.plain key hkey with heq | heq
    · rw [heq]
    · rw [heq, hs.frame.isSome]
  have huuid : (d.get uuidKey).isSome := by
    rcases h.uuid with heq | ⟨⟨u, hu⟩, -⟩
    · rw [heq]
      exact hs.uuid_isSome
    · rw [hu]
      rfl
  have hpre : (x.get preRecoveryKey).isSome → (d.get preRecoveryKey).isSome := by
    intro hsome
    rcases h.preRecovery with heq | heq
    · rwa [heq]
    · rw [heq]
      rfl
  constructor
  · intro key hsome
    by_cases hkey : Plain rrh key
    · rwa [hplain key hkey]
    · by_contra hnone
      refine hkey ⟨?_, ?_, ?_, ?_⟩ <;> rintro rfl
      · exact hnone huuid
      · exact hnone (hpre hsome)
      · exact hnone (h.marker hsome)
      · exact hnone (h.header hsome)
  · intro key hsome
    by_contra hout
    obtain ⟨hnone, hneither⟩ := not_or.mp hout
    obtain ⟨hnepre, hrest⟩ := not_or.mp hneither
    obtain ⟨hnemarker, hneheader⟩ := not_or.mp hrest
    have hne : key ≠ uuidKey := by
      rintro rfl
      exact hnone hs.uuid_isSome
    rw [hplain key ⟨hne, hnepre, hnemarker, hneheader⟩] at hsome
    exact hnone hsome

/-- The half-scrubbed database is recognized and opened as the peer's was. -/
theorem Recovering.dbOpen_eq (hs : Scrubbable rrh x f logHdr lowest num) (h : Recovering rrh x f d)
    (mem : Uuid) :
    ∃ u, dbOpen mem d = .ok ⟨u, recoveryUuid d mem, lowest, num⟩ ∧
      (u = rrh.peerDbUuid ∨ recoveryUuid d mem = rrh.peerDbUuid) := by
  have hgrown := h.grown hs
  have hnum := numEntriesCalc_grown hgrown hs.uuid_isSome hs.numEntries
  have hlow : lowestIdx d num = .ok lowest := by
    rw [lowestIdx, if_pos hs.range.2.1]
    exact lowestEntryGet_grown hgrown hs.uuid_isSome hs.lowestEntry hs.range.1
  obtain ⟨u, hu, hmatch⟩ := hs.uuid
  rcases h.uuid with heq | ⟨⟨u', hu'⟩, hpre⟩
  · have hget : getUuid d uuidKey = .ok u := by
      rw [getUuid_ok_iff, heq]
      exact getUuid_ok_iff.mp hu
    refine ⟨u, by simp only [dbOpen, hget, hnum, hlow], hmatch.imp_right fun hxpre => ?_⟩
    refine recoveryUuid_of_ok (getUuid_ok_iff.mpr ?_)
    rcases h.preRecovery with heq' | heq'
    · rw [heq']
      exact getUuid_ok_iff.mp hxpre
    · exact heq'
  · refine ⟨u', by simp only [dbOpen, getUuid_ok_iff.mpr hu', hnum, hlow], .inr ?_⟩
    exact recoveryUuid_of_ok (getUuid_ok_iff.mpr hpre)

theorem Recovering.headerLoad_eq (hs : Scrubbable rrh x f logHdr lowest num)
    (h : Recovering rrh x f d) : headerLoad d rrh.raftUuidStr rrh.peerUuidStr = .ok logHdr := by
  have hkeep : f.get (logHeaderKey rrh.raftUuidStr rrh.peerUuidStr) =
      x.get (logHeaderKey rrh.raftUuidStr rrh.peerUuidStr) :=
    hs.frame.other _ fun j _ => logHeaderKey_ne_entryHeaderKey _ _ j
  have hget : d.get (logHeaderKey rrh.raftUuidStr rrh.peerUuidStr) =
      x.get (logHeaderKey rrh.raftUuidStr rrh.peerUuidStr) := by
    rcases h.plain _ (plain_logHeaderKey hs.peer) with heq | heq
    · exact heq
    · exact heq.trans hkeep
  have hheader := hs.header
  rw [headerLoad, getExactValSize] at hheader ⊢
  rwa [hget]

/-- The four records are not touched while the entry headers are scrubbed. -/
theorem Recovering.scrubbed {i : Nat} {z : RocksDb} (h : Recovering rrh x f d)
    (hframe : ScrubFrame i d z) (hplain : Between (Plain rrh) x f z) : Recovering rrh x f z := by
  have hkeep : ∀ key, (∀ j, key ≠ entryHeaderKey j) → z.get key = d.get key :=
    fun key hkey => hframe.other key fun j _ => hkey j
  have hpre := hkeep preRecoveryKey fun j => headerEnd_append_ne_entryKeyWith _ _ j
  have huuid := hkeep uuidKey fun j => headerEnd_append_ne_entryKeyWith _ _ j
  exact {
    plain := hplain
    marker := fun hsome => by rw [hframe.isSome]; exact h.marker hsome
    header := fun hsome => by rw [hframe.isSome]; exact h.header hsome
    preRecovery := by rw [hpre]; exact h.preRecovery
    uuid := by rw [huuid, hpre]; exact h.uuid }

/-- The first batch of the header, after the entry headers. -/
theorem Recovering.initHeaderBatch {preRecovery : Option (List UInt8)} (logHdr : RaftLogHeader)
    (instanceUuid : Uuid)
    (hplain : ∀ key, Plain rrh key → d.get key = f.get key)
    (hpre : preRecovery.or (d.get preRecoveryKey) = some rrh.peerDbUuid.bytes)
    (h : Recovering rrh x f d) :
    Recovering rrh x f (initHeaderBatch d rrh.raftUuidStr rrh.thisPeerUuidStr logHdr
      instanceUuid.bytes preRecovery) where
  plain key hkey := by
    rw [get_initHeaderBatch_of_ne hkey.uuid hkey.preRecovery hkey.marker]
    exact .inr (hplain key hkey)
  marker _ := by
    rw [get_initHeaderBatch_marker]
    rfl
  header hsome := by
    rw [get_initHeaderBatch_of_ne (headerKey_ne_record _) (headerKey_ne_record _)
      headerKey_ne_markerKey]
    exact h.header hsome
  preRecovery := by
    rw [get_initHeaderBatch_preRecovery]
    exact .inr hpre
  uuid := by
    rw [get_initHeaderBatch_preRecovery, get_initHeaderBatch_uuid]
    exact .inr ⟨⟨instanceUuid, rfl⟩, hpre⟩

/-- The second batch of the header. -/
theorem Recovering.headerWrite (h : Recovering rrh x f d) :
    Recovering rrh x f (headerWrite d rrh.raftUuidStr rrh.thisPeerUuidStr logHdr) where
  plain key hkey := by
    rw [get_headerWrite_of_ne key hkey.header]
    exact h.plain key hkey
  marker hsome := by
    rw [get_headerWrite_of_ne _ headerKey_ne_markerKey.symm]
    exact h.marker hsome
  header _ := by
    rw [get_headerWrite_self]
    rfl
  preRecovery := by
    rw [get_headerWrite_of_ne preRecoveryKey (headerKey_ne_record _).symm]
    exact h.preRecovery
  uuid := by
    rw [get_headerWrite_of_ne uuidKey (headerKey_ne_record _).symm,
      get_headerWrite_of_ne preRecoveryKey (headerKey_ne_record _).symm]
    exact h.uuid

theorem recovered_headerWrite {preRecovery : Option (List UInt8)} {instanceUuid : List UInt8}
    (hplain : ∀ key, Plain rrh key → d.get key = f.get key)
    (hpre : preRecovery.or (d.get preRecoveryKey) = some rrh.peerDbUuid.bytes) :
    Recovered rrh f logHdr (headerWrite (Rocks.initHeaderBatch d rrh.raftUuidStr
      rrh.thisPeerUuidStr logHdr instanceUuid preRecovery) rrh.raftUuidStr rrh.thisPeerUuidStr
      logHdr) where
  plain key hkey := by
    rw [get_headerWrite_of_ne key hkey.header,
      get_initHeaderBatch_of_ne hkey.uuid hkey.preRecovery hkey.marker, hplain key hkey]
  marker := by
    rw [get_headerWrite_of_ne _ headerKey_ne_markerKey.symm, get_initHeaderBatch_marker]
  header := get_headerWrite_self
  preRecovery := by
    rw [get_headerWrite_of_ne preRecoveryKey (headerKey_ne_record _).symm,
      get_initHeaderBatch_preRecovery, hpre]

/-- The two batches of the header, on a database that was opened as `opened`. -/
def afterBatch (rrh : RecoveryHandle) (mem instanceUuid : Uuid) (logHdr : RaftLogHeader)
    (opened db : RocksDb) : RocksDb :=
  initHeaderBatch db rrh.raftUuidStr rrh.thisPeerUuidStr logHdr instanceUuid.bytes
    (if rrh.peerDbUuid ≠ recoveryUuid opened mem then some rrh.peerDbUuid.bytes else none)

/-- On a database that is recognized, what remains is the loop and the two batches. -/
theorem wp_dbRecover_of (hs : Scrubbable rrh x f logHdr lowest num) (h : Recovering rrh x f d)
    {mem instanceUuid : Uuid} {crash : RocksDb → Prop} {ok : Unit → RocksDb → Prop} (hd : crash d)
    (hloop : (dbScrubEntryHeaders rrh.thisPeerUuid lowest.toNat (num - lowest).toNat).wp crash
      (fun _ g => crash g ∧ crash (afterBatch rrh mem instanceUuid logHdr d g) ∧
        crash (headerWrite (afterBatch rrh mem instanceUuid logHdr d g) rrh.raftUuidStr
          rrh.thisPeerUuidStr logHdr) ∧
        ok () (headerWrite (afterBatch rrh mem instanceUuid logHdr d g) rrh.raftUuidStr
          rrh.thisPeerUuidStr logHdr))
      (fun _ _ => False) d) :
    (dbRecover rrh mem instanceUuid).wp crash ok (fun _ _ => False) d := by
  obtain ⟨u, hopen, hmatch⟩ := h.dbOpen_eq hs mem
  have hrange : 0 ≤ lowest ∧ 0 ≤ num ∧ lowest ≤ num :=
    ⟨hs.range.1, le_of_lt hs.range.2.1, hs.range.2.2⟩
  simp only [dbRecover, dbScrub, Durable.wp_bind, Durable.wp_read, hopen, Durable.wp_ofExcept_ok,
    Durable.wp_require_ok, h.headerLoad_eq hs]
  refine ⟨hd, hd, hd, hmatch, hd, hd, hd, hs.peer, hd, hrange, ?_⟩
  refine Durable.wp_mono hloop (fun _ h => h) ?_ fun _ _ h => h
  rintro - g ⟨hg, hbatch, hwritten, hok⟩
  rw [Durable.wp_bind, Durable.wp_write, Durable.wp_write]
  exact ⟨hg, hbatch, hbatch, hwritten, hok⟩

/-- The recovery of a database that an earlier one left ends, and ends the same. -/
theorem wp_dbRecover (hs : Scrubbable rrh x f logHdr lowest num) (h : Recovering rrh x f d)
    {mem : Uuid} (hmem : mem = rrh.peerDbUuid → ∃ u, getUuid d preRecoveryKey = .ok u)
    (instanceUuid : Uuid) :
    (dbRecover rrh mem instanceUuid).wp (Recovering rrh x f)
      (fun _ d' => Recovering rrh x f d' ∧ Recovered rrh f logHdr d') (fun _ _ => False) d := by
  have hloop := Durable.wp_and
    (wp_dbScrubEntryHeaders_again (fun j => plain_entryKeyWith _ j) _ _ hs.scrub h.plain)
    (wp_dbScrubEntryHeaders_frame _ _ d)
  refine wp_dbRecover_of hs h h ?_
  refine Durable.wp_mono hloop (fun z hz => h.scrubbed hz.2 hz.1) ?_ fun _ _ hfalse => hfalse.1
  rintro - g ⟨hplain, hframe⟩
  have hg : Recovering rrh x f g := h.scrubbed hframe fun key hkey => .inr (hplain key hkey)
  have hkeep : g.get preRecoveryKey = d.get preRecoveryKey :=
    hframe.other _ fun j _ => headerEnd_append_ne_entryKeyWith _ _ j
  have hpre : (if rrh.peerDbUuid ≠ recoveryUuid d mem then some rrh.peerDbUuid.bytes
      else none).or (g.get preRecoveryKey) = some rrh.peerDbUuid.bytes := by
    by_cases heq : rrh.peerDbUuid = recoveryUuid d mem
    · -- the record is not written: it must be there
      rw [if_neg (not_not.mpr heq), Option.none_or, hkeep]
      rcases recoveryUuid_eq heq.symm with hget | ⟨hmem', hnone⟩
      · exact getUuid_ok_iff.mp hget
      · obtain ⟨u', hu'⟩ := hmem hmem'
        exact absurd hu' (hnone u')
    · rw [if_pos heq]
      rfl
  have hbatch := hg.initHeaderBatch logHdr instanceUuid hplain hpre
  exact ⟨hg, hbatch, hbatch.headerWrite, hbatch.headerWrite, recovered_headerWrite hplain hpre⟩

/-- A server that has just started remembers nothing. -/
theorem wp_dbRecover_null (hs : Scrubbable rrh x f logHdr lowest num) (h : Recovering rrh x f d)
    (hne : rrh.peerDbUuid ≠ .null) (instanceUuid : Uuid) :
    (dbRecover rrh .null instanceUuid).wp (Recovering rrh x f)
      (fun _ d' => Recovering rrh x f d' ∧ Recovered rrh f logHdr d') (fun _ _ => False) d :=
  wp_dbRecover hs h (fun hnull => absurd hnull.symm hne) instanceUuid

/-- Whatever the server remembers, the recovery returns if there is no crash. -/
theorem wp_dbRecover_returns (hs : Scrubbable rrh x f logHdr lowest num) (mem instanceUuid : Uuid) :
    (dbRecover rrh mem instanceUuid).wp (fun _ => True) (fun _ _ => True) (fun _ _ => False) x :=
  wp_dbRecover_of hs (.refl rrh x f) trivial
    (Durable.wp_mono hs.scrub (fun _ h => h) (fun _ _ _ => ⟨trivial, trivial, trivial, trivial⟩)
      fun _ _ h => h)

/-- What a database that can be opened holds. -/
theorem dbOpen_ok {mem : Uuid} {o : OpenedDb} (h : dbOpen mem d = .ok o) :
    getUuid d uuidKey = .ok o.dbUuid ∧ numEntriesCalc d = .ok o.entriesDetected ∧
      lowestIdx d o.entriesDetected = .ok o.lowestIdx ∧ o.dbRecoveryUuid = recoveryUuid d mem := by
  rw [dbOpen] at h
  split at h
  · next hu hn =>
    split at h
    · next hl =>
      cases h
      exact ⟨hu, hn, hl, rfl⟩
    · cases h
  · cases h

/-- What a recovery that returns has found, and that it went through its first batch. -/
theorem wp_dbRecover_inv {mem instanceUuid : Uuid} {crash : RocksDb → Prop}
    (h : (dbRecover rrh mem instanceUuid).wp crash (fun _ _ => True) (fun _ _ => False) x) :
    ∃ o logHdr f, dbOpen mem x = .ok o ∧
      (o.dbUuid = rrh.peerDbUuid ∨ o.dbRecoveryUuid = rrh.peerDbUuid) ∧
      headerLoad x rrh.raftUuidStr rrh.peerUuidStr = .ok logHdr ∧
      rrh.thisPeerUuidStr ≠ rrh.peerUuidStr ∧
      (0 ≤ o.lowestIdx ∧ 0 ≤ o.entriesDetected ∧ o.lowestIdx ≤ o.entriesDetected) ∧
      (dbScrubEntryHeaders rrh.thisPeerUuid o.lowestIdx.toNat
        (o.entriesDetected - o.lowestIdx).toNat).wp (fun _ => True) (fun _ s => s = f)
        (fun _ _ => False) x ∧
      crash (afterBatch rrh mem instanceUuid logHdr x f) := by
  rw [dbRecover, Durable.wp_bind, Durable.wp_read, Durable.wp_bind] at h
  cases hopen : dbOpen mem x with
  | error e =>
    rw [hopen] at h
    exact ((Durable.wp_ofExcept_error e).mp h.2).2.elim
  | ok o =>
    rw [hopen, Durable.wp_ofExcept_ok, dbScrub, Durable.wp_bind, Durable.wp_require_ok] at h
    obtain ⟨-, -, -, hmatch, hrest⟩ := h
    rw [Durable.wp_bind, Durable.wp_read, Durable.wp_bind] at hrest
    cases hheader : headerLoad x rrh.raftUuidStr rrh.peerUuidStr with
    | error e =>
      rw [hheader] at hrest
      exact ((Durable.wp_ofExcept_error e).mp hrest.2).2.elim
    | ok logHdr =>
      rw [hheader, Durable.wp_ofExcept_ok, Durable.wp_bind, Durable.wp_require_ok,
        Durable.wp_bind, Durable.wp_require_ok] at hrest
      obtain ⟨-, -, -, hpeer, -, hrange, hscrub⟩ := hrest
      rw [Durable.wp_bind] at hscrub
      obtain ⟨_, hresult, hbatch⟩ := Durable.wp_result hscrub
      rw [Durable.wp_bind, Durable.wp_write] at hbatch
      have hfinal := Durable.wp_mono (Durable.wp_of_result hresult) (fun _ _ => trivial)
        (fun _ _ h => h.2) fun _ _ h => h
      have hcrash := hbatch.2.1
      rw [(dbOpen_ok hopen).2.2.2] at hcrash
      exact ⟨o, logHdr, _, rfl, hmatch, rfl, hpeer, hrange, hfinal, hcrash⟩

/-- A recovery that returns began with a database that can be scrubbed. -/
theorem exists_scrubbable {mem instanceUuid : Uuid}
    (hmem : mem = rrh.peerDbUuid → ∃ u, getUuid x preRecoveryKey = .ok u)
    (h : (dbRecover rrh mem instanceUuid).wp (fun _ => True) (fun _ _ => True)
      (fun _ _ => False) x) :
    ∃ f logHdr lowest num, Scrubbable rrh x f logHdr lowest num := by
  obtain ⟨o, logHdr, f, hopen, hmatch, hheader, hpeer, ⟨hge, -, hle⟩, hscrub, -⟩ :=
    wp_dbRecover_inv h
  obtain ⟨huuid, hnum, hlow, hrecovery⟩ := dbOpen_ok hopen
  have hpos : 0 < o.entriesDetected := by
    by_contra hn
    rw [lowestIdx, if_neg hn] at hlow
    have hneg : (-1 : Int) = o.lowestIdx := Except.ok.inj hlow
    omega
  rw [lowestIdx, if_pos hpos] at hlow
  refine ⟨f, logHdr, o.lowestIdx, o.entriesDetected, ⟨o.dbUuid, huuid, ?_⟩, hnum, hlow,
    ⟨hge, hpos, hle⟩, hheader, hpeer, hscrub⟩
  refine hmatch.imp_right fun heq => ?_
  rw [hrecovery] at heq
  rcases recoveryUuid_eq heq with hget | ⟨hmem', hnone⟩
  · exact hget
  · obtain ⟨u', hu'⟩ := hmem hmem'
    exact absurd hu' (hnone u')

end Database

/-! ## The directories -/

section Directories

variable {rrh : RecoveryHandle} {x f d : RocksDb} {logHdr : RaftLogHeader} {lowest num : Int}
  {dirs : RecoveryDirs} {mem : Uuid}

/-- Where a recovery from `x` may have got, by what is known of the database in the marker and of the
one that is put in place. -/
inductive Stage (x : RocksDb) (marked done : RocksDb → Prop) : RecoveryDirs → Prop
  | copied (old : DbDir) : Stage x marked done ⟨some old, none, some x⟩
  | marked (db : Option DbDir) {d : RocksDb} (h : marked d) : Stage x marked done ⟨db, some d, none⟩
  | done {d : RocksDb} (h : done d) : Stage x marked done ⟨some (.rocks d), none, none⟩

/-- What is left to do once the copy is staged. -/
def recoverMarked (rrh : RecoveryHandle) (mem instanceUuid : Uuid) :
    Durable RecoveryDirs RecoveryErr Unit := do
  removeCurrentDbContents
  atMarker (dbRecover rrh mem instanceUuid)
  promoteScrubbedDb

theorem bulkRecover_eq (fromRecoveryMarker : Bool) (mem instanceUuid : Uuid) :
    bulkRecover rrh fromRecoveryMarker mem instanceUuid = (do
      Durable.require (rrh.peerUuid ≠ .null ∧ rrh.peerDbUuid ≠ .null) .EINVAL
      stageUnlessMarked fromRecoveryMarker
      recoverMarked rrh mem instanceUuid) := rfl

section Stages

variable {marked done : RocksDb → Prop} {instanceUuid : Uuid}

theorem wp_recoverMarked (hd : marked d)
    (h : (dbRecover rrh mem instanceUuid).wp marked (fun _ d' => marked d' ∧ done d')
      (fun _ _ => False) d) (db : Option DbDir) :
    (recoverMarked rrh mem instanceUuid).wp (Stage x marked done)
      (fun _ dirs => ∃ d, dirs = ⟨some (.rocks d), none, none⟩ ∧ done d) (fun _ _ => False)
      ⟨db, some d, none⟩ := by
  have hremoved : Stage x marked done ⟨none, some d, none⟩ := .marked none hd
  rw [recoverMarked, Durable.wp_bind, removeCurrentDbContents, Durable.wp_write]
  refine ⟨.marked db hd, hremoved, ?_⟩
  rw [Durable.wp_bind, atMarker, Durable.wp_bind, Durable.wp_read]
  refine ⟨hremoved, Durable.wp_zoom.mpr ?_⟩
  refine Durable.wp_mono h (fun z hz => .marked none hz) ?_ fun _ _ hfalse => hfalse
  rintro - g ⟨hleft, hdone⟩
  rw [promoteScrubbedDb, Durable.wp_bind, Durable.wp_read]
  exact ⟨.marked none hleft, Durable.wp_write.mpr ⟨.marked none hleft, .done hdone, g, rfl, hdone⟩⟩

/-- A recovery that goes on from the marker. -/
theorem wp_bulkRecover_marked (huuid : rrh.peerUuid ≠ .null ∧ rrh.peerDbUuid ≠ .null)
    (hd : marked d)
    (h : (dbRecover rrh mem instanceUuid).wp marked (fun _ d' => marked d' ∧ done d')
      (fun _ _ => False) d) (db : Option DbDir) :
    (bulkRecover rrh true mem instanceUuid).wp (Stage x marked done)
      (fun _ dirs => ∃ d, dirs = ⟨some (.rocks d), none, none⟩ ∧ done d) (fun _ _ => False)
      ⟨db, some d, none⟩ := by
  have hmarked : Stage x marked done ⟨db, some d, none⟩ := .marked db hd
  rw [bulkRecover_eq, Durable.wp_bind, Durable.wp_require_ok]
  refine ⟨hmarked, huuid, ?_⟩
  rw [stageUnlessMarked, if_pos rfl, Durable.wp_bind, Durable.wp_pure]
  exact ⟨hmarked, wp_recoverMarked hd h db⟩

/-- A recovery that begins with the copy. -/
theorem wp_bulkRecover_copied (huuid : rrh.peerUuid ≠ .null ∧ rrh.peerDbUuid ≠ .null)
    (hx : marked x)
    (h : (dbRecover rrh mem instanceUuid).wp marked (fun _ d' => marked d' ∧ done d')
      (fun _ _ => False) x) (old : DbDir) :
    (bulkRecover rrh false mem instanceUuid).wp (Stage x marked done)
      (fun _ dirs => ∃ d, dirs = ⟨some (.rocks d), none, none⟩ ∧ done d) (fun _ _ => False)
      ⟨some old, none, some x⟩ := by
  have hcopied : Stage x marked done ⟨some old, none, some x⟩ := .copied old
  rw [bulkRecover_eq, Durable.wp_bind, Durable.wp_require_ok]
  refine ⟨hcopied, huuid, ?_⟩
  rw [stageUnlessMarked, if_neg Bool.false_ne_true, Durable.wp_bind, stageRemoteDb, Durable.wp_bind,
    Durable.wp_read]
  exact ⟨hcopied, Durable.wp_write.mpr ⟨hcopied, .marked _ hx, wp_recoverMarked hx h _⟩⟩

theorem Stage.createSubdirs (h : Stage x marked done dirs) : Stage x marked done dirs.createSubdirs := by
  cases h with
  | copied old => exact .copied old
  | marked db h => exact .marked _ h
  | done h => exact .done h

/-- What a recovery that returns did with the database in the marker. -/
theorem wp_recoverMarked_inv {db : Option DbDir} {crash : RecoveryDirs → Prop}
    {ok : Unit → RecoveryDirs → Prop}
    (h : (recoverMarked rrh mem instanceUuid).wp crash ok (fun _ _ => False) ⟨db, some d, none⟩) :
    (dbRecover rrh mem instanceUuid).wp (fun d' => crash ⟨none, some d', none⟩) (fun _ _ => True)
      (fun _ _ => False) d := by
  rw [recoverMarked, Durable.wp_bind, removeCurrentDbContents, Durable.wp_write, Durable.wp_bind,
    atMarker, Durable.wp_bind, Durable.wp_read] at h
  obtain ⟨-, -, -, hmarker⟩ := h
  exact Durable.wp_mono (Durable.wp_zoom.mp hmarker) (fun _ h => h) (fun _ _ _ => trivial)
    fun _ _ h => h

/-- What a recovery that returns did with the copy. -/
theorem wp_bulkRecover_copied_inv {old : DbDir} {crash : RecoveryDirs → Prop}
    {ok : Unit → RecoveryDirs → Prop}
    (h : (bulkRecover rrh false mem instanceUuid).wp crash ok (fun _ _ => False)
      ⟨some old, none, some x⟩) :
    (rrh.peerUuid ≠ .null ∧ rrh.peerDbUuid ≠ .null) ∧
      (dbRecover rrh mem instanceUuid).wp (fun d' => crash ⟨none, some d', none⟩) (fun _ _ => True)
        (fun _ _ => False) x := by
  rw [bulkRecover_eq, Durable.wp_bind, Durable.wp_require_ok, stageUnlessMarked,
    if_neg Bool.false_ne_true, Durable.wp_bind, stageRemoteDb, Durable.wp_bind,
    Durable.wp_read] at h
  obtain ⟨-, huuid, -, hstage⟩ := h
  exact ⟨huuid, wp_recoverMarked_inv (Durable.wp_write.mp hstage).2.2⟩

/-- What a recovery that returns did with the marker. -/
theorem wp_bulkRecover_marked_inv {db : Option DbDir} {crash : RecoveryDirs → Prop}
    {ok : Unit → RecoveryDirs → Prop}
    (h : (bulkRecover rrh true mem instanceUuid).wp crash ok (fun _ _ => False)
      ⟨db, some d, none⟩) :
    (dbRecover rrh mem instanceUuid).wp (fun d' => crash ⟨none, some d', none⟩) (fun _ _ => True)
      (fun _ _ => False) d := by
  rw [bulkRecover_eq, Durable.wp_bind, Durable.wp_require_ok, stageUnlessMarked, if_pos rfl,
    Durable.wp_bind, Durable.wp_pure] at h
  exact wp_recoverMarked_inv h.2.2.2

end Stages

/-! ### There is always something to go on from -/

/-- There is a `db/`, or a marker to go on from. -/
def RecoveryDirs.Present (dirs : RecoveryDirs) : Prop := dirs.db.isSome ∨ dirs.marker.isSome

/-- `db/` is removed only where there is a marker. -/
theorem wp_recoverMarked_present (mem instanceUuid : Uuid) (h : dirs.marker.isSome) :
    (recoverMarked rrh mem instanceUuid).wp RecoveryDirs.Present (fun _ => RecoveryDirs.Present)
      (fun _ => RecoveryDirs.Present) dirs := by
  obtain ⟨db, marker, rsync⟩ := dirs
  cases marker with
  | none => cases h
  | some d =>
    have hmarked : ∀ db d, RecoveryDirs.Present ⟨db, some d, rsync⟩ := fun _ _ => .inr rfl
    rw [recoverMarked, Durable.wp_bind, removeCurrentDbContents, Durable.wp_write]
    refine ⟨hmarked .., hmarked .., ?_⟩
    rw [Durable.wp_bind, atMarker, Durable.wp_bind, Durable.wp_read]
    refine ⟨hmarked .., Durable.wp_zoom.mpr ?_⟩
    refine Durable.wp_of_forall (fun _ => hmarked ..) (fun _ g => ?_) fun _ _ => hmarked ..
    rw [promoteScrubbedDb, Durable.wp_bind, Durable.wp_read]
    exact ⟨hmarked .., Durable.wp_write.mpr ⟨hmarked .., .inl rfl, .inl rfl⟩⟩

theorem wp_bulkRecover_true_present (mem instanceUuid : Uuid) (h : dirs.marker.isSome) :
    (bulkRecover rrh true mem instanceUuid).wp RecoveryDirs.Present (fun _ => RecoveryDirs.Present)
      (fun _ => RecoveryDirs.Present) dirs := by
  have hpresent : dirs.Present := .inr h
  rw [bulkRecover_eq, Durable.wp_bind, Durable.wp_require]
  refine ⟨hpresent, fun _ => ?_, fun _ => hpresent⟩
  rw [stageUnlessMarked, if_pos rfl, Durable.wp_bind, Durable.wp_pure]
  exact ⟨hpresent, wp_recoverMarked_present mem instanceUuid h⟩

theorem wp_bulkRecover_false_present (mem instanceUuid : Uuid) (h : dirs.Present) :
    (bulkRecover rrh false mem instanceUuid).wp RecoveryDirs.Present (fun _ => RecoveryDirs.Present)
      (fun _ => RecoveryDirs.Present) dirs := by
  rw [bulkRecover_eq, Durable.wp_bind, Durable.wp_require]
  refine ⟨h, fun _ => ?_, fun _ => h⟩
  rw [stageUnlessMarked, if_neg Bool.false_ne_true, Durable.wp_bind, stageRemoteDb, Durable.wp_bind,
    Durable.wp_read]
  refine ⟨h, ?_⟩
  split
  · exact (Durable.wp_fail _).mpr ⟨h, h⟩
  · exact (Durable.wp_fail _).mpr ⟨h, h⟩
  · exact Durable.wp_write.mpr ⟨h, .inr rfl, wp_recoverMarked_present mem instanceUuid rfl⟩

/-! ### Crash after crash -/

/-- What may be on disk after a recovery from `x` was begun: a crash leaves one of the states that it
went through, the server makes `db/` when it starts, and runs the recovery again if there is a
marker. -/
inductive Left (rrh : RecoveryHandle) (mem : Uuid) (old : DbDir) (x : RocksDb) :
    RecoveryDirs → Prop
  | first (instanceUuid : Uuid) {dirs : RecoveryDirs}
      (h : dirs ∈ (bulkRecover rrh false mem instanceUuid ⟨some old, none, some x⟩).left) :
      Left rrh mem old x dirs
  | boot {dirs : RecoveryDirs} (h : Left rrh mem old x dirs) : Left rrh mem old x dirs.createSubdirs
  | again (instanceUuid : Uuid) {dirs dirs' : RecoveryDirs} (h : Left rrh mem old x dirs)
      (hmarker : dirs.marker.isSome) (h' : dirs' ∈ (bulkRecover rrh true .null instanceUuid dirs).left) :
      Left rrh mem old x dirs'

theorem Left.present {old : DbDir} (h : Left rrh mem old x dirs) : dirs.Present := by
  induction h with
  | first instanceUuid h =>
    exact (wp_bulkRecover_false_present mem instanceUuid (.inl rfl)).1 _ h
  | boot _ _ => exact .inl rfl
  | again instanceUuid _ hmarker h' _ =>
    exact (wp_bulkRecover_true_present .null instanceUuid hmarker).1 _ h'

/-- Every state that is left is one of the stages. -/
theorem Left.stage {old : DbDir} (hs : Scrubbable rrh x f logHdr lowest num)
    (huuid : rrh.peerUuid ≠ .null ∧ rrh.peerDbUuid ≠ .null)
    (hmem : mem = rrh.peerDbUuid → ∃ u, getUuid x preRecoveryKey = .ok u)
    (h : Left rrh mem old x dirs) : Stage x (Recovering rrh x f) (Recovered rrh f logHdr) dirs := by
  induction h with
  | first instanceUuid h =>
    have hx := Recovering.refl rrh x f
    exact (wp_bulkRecover_copied huuid hx (wp_dbRecover hs hx hmem instanceUuid) old).1 _ h
  | boot _ ih => exact ih.createSubdirs
  | again instanceUuid _ hmarker h' ih =>
    cases ih with
    | copied _ => cases hmarker
    | marked db hd =>
      exact (wp_bulkRecover_marked huuid hd (wp_dbRecover_null hs hd huuid.2 instanceUuid) db).1 _ h'
    | done _ => cases hmarker

/-- After any crashes, a recovery from the marker returns, and what it ends with differs in the uuid
only from what the recovery that was not interrupted ends with.  So does a `db/` that is there without
a marker and without the copy. -/
def Resumes (rrh : RecoveryHandle) (mem : Uuid) (old : DbDir) (x d₀ : RocksDb) : Prop :=
  ∀ dirs, Left rrh mem old x dirs →
    (dirs.marker.isSome → ∀ uuid, ∃ d,
      (bulkRecover rrh true .null uuid dirs).result = .ok () ∧
        (bulkRecover rrh true .null uuid dirs).final = ⟨some (.rocks d), none, none⟩ ∧
        ∀ key, key ≠ uuidKey → d.get key = d₀.get key) ∧
    (dirs.marker = none → dirs.rsync = none → ∃ d,
      dirs.db = some (.rocks d) ∧ ∀ key, key ≠ uuidKey → d.get key = d₀.get key)

/-- The database is recognized after every crash if the copy has a record of the uuid that it had
before a recovery, or if the server remembers none or another. -/
theorem exists_resumes {old : DbDir} {uuid₀ : Uuid}
    (hmem : mem = rrh.peerDbUuid → ∃ u, getUuid x preRecoveryKey = .ok u)
    (hresult : (bulkRecover rrh false mem uuid₀ ⟨some old, none, some x⟩).result = .ok ()) :
    ∃ d₀, (bulkRecover rrh false mem uuid₀ ⟨some old, none, some x⟩).final =
      ⟨some (.rocks d₀), none, none⟩ ∧ Resumes rrh mem old x d₀ := by
  obtain ⟨huuid, hrecover⟩ := wp_bulkRecover_copied_inv (Durable.wp_of_result hresult)
  obtain ⟨f, logHdr, lowest, num, hs⟩ := exists_scrubbable hmem
    (Durable.wp_mono hrecover (fun _ _ => trivial) (fun _ _ h => h) fun _ _ h => h)
  have hx := Recovering.refl rrh x f
  obtain ⟨_, -, d₀, hfinal, hdone⟩ := Durable.wp_result
    (wp_bulkRecover_copied huuid hx (wp_dbRecover hs hx hmem uuid₀) old)
  refine ⟨d₀, hfinal, fun dirs hleft => ⟨fun hmarker uuid => ?_, fun hmarker hrsync => ?_⟩⟩
  · cases hleft.stage hs huuid hmem with
    | copied _ => cases hmarker
    | marked db hd =>
      obtain ⟨_, hagain, d, hfinal', hdone'⟩ := Durable.wp_result
        (wp_bulkRecover_marked (x := x) huuid hd (wp_dbRecover_null hs hd huuid.2 uuid) db)
      exact ⟨d, hagain, hfinal', fun key hkey => hdone'.get_eq hdone hkey⟩
    | done _ => cases hmarker
  · cases hleft.stage hs huuid hmem with
    | copied _ => cases hrsync
    | marked _ _ => cases hmarker
    | done hdone' => exact ⟨_, rfl, fun key hkey => hdone'.get_eq hdone hkey⟩

/-! ### A memory of the same database -/

/-- Where the server remembers the peer's database and the copy has no record of it, the first batch
gives the copy a new uuid and nothing to be recognized by. -/
theorem stale_memory_stuck {old : DbDir} {uuid₀ : Uuid}
    (hnone : ∀ u, getUuid x preRecoveryKey ≠ .ok u) (hfresh : uuid₀ ≠ rrh.peerDbUuid)
    (hresult : (bulkRecover rrh false rrh.peerDbUuid uuid₀ ⟨some old, none, some x⟩).result =
      .ok ()) :
    ∃ dirs, Left rrh rrh.peerDbUuid old x dirs ∧ dirs.db = none ∧ dirs.marker.isSome ∧
      ∀ uuid, (bulkRecover rrh true .null uuid dirs).result ≠ .ok () := by
  obtain ⟨huuid, hrecover⟩ := wp_bulkRecover_copied_inv (Durable.wp_of_result hresult)
  obtain ⟨o, logHdr, f, -, -, -, -, -, hscrub, hleft⟩ := wp_dbRecover_inv hrecover
  have hmem : recoveryUuid x rrh.peerDbUuid = rrh.peerDbUuid := by
    rw [recoveryUuid]
    split
    · next u hu => exact absurd hu (hnone u)
    · rfl
  rw [afterBatch, hmem, if_neg (not_not.mpr rfl)] at hleft
  have hkeep : f.get preRecoveryKey = x.get preRecoveryKey := by
    have hboth := Durable.wp_and hscrub (wp_dbScrubEntryHeaders_frame _ _ x)
    obtain ⟨-, -, heq, hframe⟩ := Durable.wp_result
      (Durable.wp_mono hboth (fun _ h => h) (fun _ _ h => h) fun _ _ h => h.1)
    rw [← heq]
    exact hframe.other _ fun j _ => headerEnd_append_ne_entryKeyWith _ _ j
  refine ⟨_, .first uuid₀ hleft, rfl, rfl, fun uuid hagain => ?_⟩
  obtain ⟨o', -, -, hopen, hmatch, -⟩ :=
    wp_dbRecover_inv (wp_bulkRecover_marked_inv (Durable.wp_of_result hagain))
  obtain ⟨hdbUuid, -, -, hrecovery⟩ := dbOpen_ok hopen
  rcases hmatch with heq | heq
  · rw [getUuid_ok_iff, get_initHeaderBatch_uuid, heq] at hdbUuid
    exact hfresh (Uuid.mk.injEq .. ▸ Option.some.inj hdbUuid)
  · rcases recoveryUuid_eq (hrecovery.symm.trans heq) with hget | ⟨hnull, -⟩
    · rw [getUuid_ok_iff, get_initHeaderBatch_preRecovery, Option.none_or, hkeep,
        ← getUuid_ok_iff] at hget
      exact hnone _ hget
    · exact huuid.2 hnull.symm

/-- Nothing that a crash leaves has neither `db/` nor a marker.  A recovery that returns without a
crash is resumed after any crashes if the copy has a record of the uuid that it had before a recovery,
or the server's memory is not of the peer's database, and only then, as far as a new uuid is another
than the peer's. -/
theorem bulk_recovery_resumes (rrh : RecoveryHandle) (mem : Uuid) (old : DbDir) (x : RocksDb) :
    (∀ dirs, Left rrh mem old x dirs → dirs.Present) ∧
      ∀ uuid₀, (bulkRecover rrh false mem uuid₀ ⟨some old, none, some x⟩).result = .ok () →
        ((mem = rrh.peerDbUuid → ∃ u, getUuid x preRecoveryKey = .ok u) →
          ∃ d₀, (bulkRecover rrh false mem uuid₀ ⟨some old, none, some x⟩).final =
            ⟨some (.rocks d₀), none, none⟩ ∧ Resumes rrh mem old x d₀) ∧
        (uuid₀ ≠ rrh.peerDbUuid → (∃ d₀, Resumes rrh mem old x d₀) →
          mem = rrh.peerDbUuid → ∃ u, getUuid x preRecoveryKey = .ok u) := by
  refine ⟨fun dirs hleft => hleft.present, fun uuid₀ hresult => ⟨?_, ?_⟩⟩
  · exact fun hmem => exists_resumes hmem hresult
  · rintro hfresh ⟨d₀, hresumes⟩ rfl
    by_contra hnone
    obtain ⟨dirs, hleft, -, hmarker, hstuck⟩ :=
      stale_memory_stuck (fun u hu => hnone ⟨u, hu⟩) hfresh hresult
    obtain ⟨d, hagain, -⟩ := (hresumes dirs hleft).1 hmarker .null
    exact hstuck .null hagain

end Directories

/-! ### A peer with one entry -/

/-- A uuid of one repeated byte. -/
def sampleUuid (b : UInt8) : Uuid := ⟨List.replicate 16 b, List.length_replicate ..⟩

/-- Server 3 recovers from database 9 of peer 2. -/
def sampleHandle : RecoveryHandle where
  raftUuidStr := [1]
  thisPeerUuid := sampleUuid 3
  thisPeerUuidStr := [3]
  peerUuid := sampleUuid 2
  peerUuidStr := [2]
  peerDbUuid := sampleUuid 9

theorem index_peerLog : 0 < 2 ^ 63 := by decide

theorem length_peerLog : [(7 : UInt8)].length < 2 ^ 32 := by decide

/-- What the peer has written. -/
def peerLog : List RocksOp := [.entryWrite (rocksEntry 0 index_peerLog [7] length_peerLog) []]

/-- The database of the peer. -/
def peerDb : RocksDb := dbAfter [1] [2] (sampleUuid 9).bytes peerLog

theorem rehMagic_entryHeaderBytes {m : EntryMeta} {crc dataSize : Nat} {index term : Int} :
    rehMagic (entryHeaderBytes m crc dataSize index term) = entryMagic := by
  have hpart := slice_flatten (entryHeaderFields m crc dataSize index term) (i := 0) rfl
  simp only [entryHeaderFields, List.take_zero, List.sum_nil, length_leBytes] at hpart
  rw [rehMagic, entryHeaderBytes, entryHeaderFields]
  exact (congrArg ofLeBytes hpart).trans (by decide)

theorem get_peerDb {key : Key} (h : ∀ c, key ≠ entryKeyWith c 0) :
    peerDb.get key =
      (initHeader .empty [1] [2] (Posix.initialHeader 0) (sampleUuid 9).bytes none).get key := by
  have hidx : (rehIndex (rocksEntry 0 index_peerLog [7] length_peerLog).header).toNat = 0 := by
    rw [rehIndex_rocksEntry]
    rfl
  show (Rocks.entryWrite _ _ []).get key = _
  rw [entryWrite, writeSupplementsPut, List.foldl_nil, hidx]
  exact (OrderedStore.get_put_of_ne (h _)).trans (OrderedStore.get_put_of_ne (h _))

/-- The records of the database are those that it was made with. -/
theorem get_peerDb_record (y : List UInt8) :
    peerDb.get (headerEnd ++ y) =
      (initHeader .empty [1] [2] (Posix.initialHeader 0) (sampleUuid 9).bytes none).get
        (headerEnd ++ y) :=
  get_peerDb fun c => headerEnd_append_ne_entryKeyWith y c 0

theorem peerDb_readsAs :
    ReadsAs peerDb ⟨0, [rocksEntry 0 index_peerLog [7] length_peerLog]⟩ := by
  have hadmits : AllAdmitted (lastEntryKey [1] [2]) ⟨0, []⟩ peerLog := by
    simp [peerLog, AllAdmitted, RocksOp.Admitted, rehIndex_rocksEntry]
  have hseg : segmentAfter peerLog = ⟨0, [rocksEntry 0 index_peerLog [7] length_peerLog]⟩ := by
    simp [segmentAfter, peerLog, RocksOp.onSegment, LogSegment.append, rehIndex_rocksEntry]
  exact hseg ▸ (represents_after _ _ _ _ hadmits).readsAs (lastEntry_prefix_lastEntryKey ..)

theorem exists_scrubbable_peerDb :
    ∃ f, Scrubbable sampleHandle peerDb f (Posix.initialHeader 0) 0 1 := by
  have hread := peerDb_readsAs.header 0 _ rfl
  have huuid : peerDb.get uuidKey = some (sampleUuid 9).bytes :=
    (get_peerDb_record _).trans
      ((OrderedStore.get_put_of_ne (by decide)).trans OrderedStore.get_put_self)
  have hheader : peerDb.get (logHeaderKey [1] [2]) = some (Posix.initialHeader 0).bytes := by
    rw [get_peerDb fun c => ?_]
    · exact OrderedStore.get_put_self
    · exact ne_of_lt (lt_trans (logHeaderKey_lt_headerEnd [1] [2] [])
        (headerEnd_lt_entryKeyWith c 0 []))
  refine ⟨peerDb.put (entryHeaderKey 0) (scrubHeader (sampleUuid 3)
    (rocksEntry 0 index_peerLog [7] length_peerLog).header), ⟨sampleUuid 9, getUuid_ok_iff.mpr huuid,
    .inl rfl⟩, peerDb_readsAs.numEntries, peerDb_readsAs.lowest, by decide, ?_, by decide, ?_⟩
  · show headerLoad peerDb [1] [2] = _
    rw [headerLoad, getExactValSize, if_neg (by decide), hheader]
    decide
  · show (dbScrubEntryHeaders (sampleUuid 3) 0 1).wp _ _ _ peerDb
    rw [dbScrubEntryHeaders, Durable.wp_bind, Durable.wp_read]
    refine ⟨trivial, ?_⟩
    have hgood : ¬(rehMagic (rocksEntry 0 index_peerLog [7] length_peerLog).header ≠ entryMagic ∨
        rehIndex (rocksEntry 0 index_peerLog [7] length_peerLog).header ≠ (0 : Nat)) :=
      not_or.mpr ⟨not_not.mpr rehMagic_entryHeaderBytes, not_not.mpr (rehIndex_rocksEntry ..)⟩
    simp only [hread, if_neg hgood, dbScrubEntryHeaders, Durable.wp_bind, Durable.wp_write,
      Durable.wp_pure]
    exact ⟨trivial, trivial, trivial, trivial⟩

/-- Without a crash, the server recovers whatever it remembers. -/
theorem bulkRecover_peerDb (mem instanceUuid : Uuid) (old : DbDir) :
    (bulkRecover sampleHandle false mem instanceUuid ⟨some old, none, some peerDb⟩).result =
      .ok () := by
  obtain ⟨f, hs⟩ := exists_scrubbable_peerDb
  have hrecover : (dbRecover sampleHandle mem instanceUuid).wp (fun _ => True)
      (fun _ _ => True ∧ True) (fun _ _ => False) peerDb :=
    Durable.wp_mono (wp_dbRecover_returns hs mem instanceUuid) (fun _ h => h) (fun _ _ h => ⟨h, h⟩)
      fun _ _ h => h
  obtain ⟨_, hresult, -⟩ := Durable.wp_result
    (wp_bulkRecover_copied (by decide) trivial hrecover old)
  exact hresult

theorem bulk_recovery_resumes_peerDb :
    ∃ d₀, (bulkRecover sampleHandle false .null (sampleUuid 8)
        ⟨some .emptyDir, none, some peerDb⟩).final = ⟨some (.rocks d₀), none, none⟩ ∧
      Resumes sampleHandle .null .emptyDir peerDb d₀ :=
  ((bulk_recovery_resumes sampleHandle .null .emptyDir peerDb).2 (sampleUuid 8)
    (bulkRecover_peerDb ..)).1 fun h => absurd h (by decide)

/-- The database that server 3 had: one that it recovered from the same database 9 before. -/
def recoveredDb : RocksDb :=
  initHeader .empty [1] [3] (Posix.initialHeader 0) (sampleUuid 7).bytes (some (sampleUuid 9).bytes)

/-- A server that recovered from the peer's database before, and does again, is left by a crash
without `db/` and with a marker that it never recovers from. -/
theorem recovery_again_not_resumed :
    recoveryUuid recoveredDb .null = sampleHandle.peerDbUuid ∧
      (bulkRecover sampleHandle false (recoveryUuid recoveredDb .null) (sampleUuid 8)
        ⟨some (.rocks recoveredDb), none, some peerDb⟩).result = .ok () ∧
      ∃ dirs, Left sampleHandle (recoveryUuid recoveredDb .null) (.rocks recoveredDb) peerDb dirs ∧
        dirs.db = none ∧ dirs.marker.isSome ∧
        ∀ uuid, (bulkRecover sampleHandle true .null uuid dirs).result ≠ .ok () := by
  have hmem : recoveryUuid recoveredDb .null = sampleHandle.peerDbUuid := by
    refine recoveryUuid_of_ok (getUuid_ok_iff.mpr ?_)
    exact (OrderedStore.get_put_of_ne (by decide)).trans OrderedStore.get_put_self
  have hnone : ∀ u, getUuid peerDb preRecoveryKey ≠ .ok u := by
    intro u hu
    have hget : peerDb.get preRecoveryKey = none :=
      (get_peerDb_record _).trans ((OrderedStore.get_put_of_ne (by decide)).trans
        ((OrderedStore.get_put_of_ne (by decide)).trans (OrderedStore.get_put_of_ne (by decide))))
    rw [getUuid_ok_iff, hget] at hu
    cases hu
  have hfresh : sampleUuid 8 ≠ sampleHandle.peerDbUuid := by decide
  rw [hmem]
  exact ⟨rfl, bulkRecover_peerDb .., stale_memory_stuck hnone hfresh (bulkRecover_peerDb ..)⟩

end Rocks

end NiovaRaft
