import NiovaRaft.Recovery.BulkRecovery

/-!
# What a scrub leaves

A scrub reads the peer's log header under the peer's own key, for which it lends the instance the
peer's uuid, and puts the server's uuid in every entry header.  The ways out on an error forget to take
the lent uuid back, and a header that belongs to another entry is no error.  Where neither happens, all
the headers are replaced.
-/

namespace NiovaRaft

open Base

namespace Rocks

/-! ## The instance and its database -/

/-- The database goes through the same states, and the ends are the same. -/
theorem wp_bulkRecoveryDbScrub_db {rrh : RecoveryHandle} {instanceUuid : Uuid} {o : OpenedDb}
    {db : RocksDb} {crash : RocksDb → Prop} {ok : Unit → RocksDb → Prop}
    {err : RecoveryErr → RocksDb → Prop} :
    (bulkRecoveryDbScrub rrh instanceUuid o).wp (fun ri => crash ri.db) (fun _ ri => ok () ri.db)
        (fun e ri => err e ri.db) ⟨db, rrh.thisPeerUuidStr⟩ ↔
      (dbScrub rrh instanceUuid o).wp crash ok err db := by
  simp only [bulkRecoveryDbScrub, dbScrub, onDb, Durable.wp_bind, Durable.wp_require,
    Durable.wp_read, Durable.wp_write]
  cases headerLoad db rrh.raftUuidStr rrh.peerUuidStr with
  | error e =>
    simp only [Durable.wp_ofExcept_error]
    tauto
  | ok logHdr =>
    have hbatches : ∀ first second : RocksDb → RocksDb,
        (do Durable.write first; Durable.write second : Durable RocksDb RecoveryErr Unit).wp
          crash ok err = fun f => crash f ∧ crash (first f) ∧ crash (second (first f)) ∧
            ok () (second (first f)) := by
      intro first second
      funext f
      simp only [Durable.wp_bind, Durable.wp_write, and_self_left]
    simp only [Durable.wp_ofExcept_ok, Durable.wp_bind, Durable.wp_require, Durable.wp_zoom,
      Durable.wp_read, Durable.wp_write, and_self_left, hbatches]

/-! ## The loop -/

/-- The header of entry `i` is there and is that of the entry. -/
structure GoodHeader (d : RocksDb) (i : Int) (reh : List UInt8) : Prop where
  read : entryHeaderRead d i = .ok reh
  magic : rehMagic reh = entryMagic
  index : rehIndex reh = i

section Loop

variable {selfUuid : Uuid} {x d f : RocksDb} {i k n : Nat} {reh : List UInt8}

theorem GoodHeader.get_eq (h : GoodHeader d i reh) : d.get (entryHeaderKey i) = some reh :=
  (entryHeaderRead_ok_iff.mp h.read).1

theorem GoodHeader.length_eq (h : GoodHeader d i reh) : reh.length = entryHeaderSize :=
  (entryHeaderRead_ok_iff.mp h.read).2

/-- Reading a header looks at its key only. -/
theorem entryHeaderRead_congr (h : d.get (entryHeaderKey i) = x.get (entryHeaderKey i)) :
    entryHeaderRead d i = entryHeaderRead x i := by
  rw [entryHeaderRead, entryHeaderRead, getExactValSize, getExactValSize, Int.toNat_natCast, h]

theorem GoodHeader.congr (h : d.get (entryHeaderKey i) = x.get (entryHeaderKey i)) :
    GoodHeader d i reh ↔ GoodHeader x i reh := by
  constructor
  · exact fun hd => ⟨entryHeaderRead_congr h ▸ hd.read, hd.magic, hd.index⟩
  · exact fun hx => ⟨(entryHeaderRead_congr h).symm ▸ hx.read, hx.magic, hx.index⟩

/-- The loop has replaced the `k` headers from `i` on, and nothing else. -/
structure Replaced (selfUuid : Uuid) (x : RocksDb) (i k : Nat) (f : RocksDb) : Prop where
  replaced : ∀ j, i ≤ j → j < i + k → ∃ reh, GoodHeader x j reh ∧
    f.get (entryHeaderKey j) = some (scrubHeader selfUuid reh)
  other : ∀ key, (∀ j, i ≤ j → j < i + k → key ≠ entryHeaderKey j) → f.get key = x.get key

theorem Replaced.none (selfUuid : Uuid) (x : RocksDb) (i : Nat) : Replaced selfUuid x i 0 x :=
  ⟨fun j hle hlt => by omega, fun _ _ => rfl⟩

theorem Replaced.get_beyond (h : Replaced selfUuid x i k f) {j : Nat} (hj : i + k ≤ j) :
    f.get (entryHeaderKey j) = x.get (entryHeaderKey j) := by
  refine h.other _ fun j' _ hlt heq => ?_
  have hsame := entryHeaderKey_inj.mp heq
  omega

/-- One header, and then the rest. -/
theorem Replaced.cons (hgood : GoodHeader x i reh)
    (h : Replaced selfUuid (x.put (entryHeaderKey i) (scrubHeader selfUuid reh)) (i + 1) k f) :
    Replaced selfUuid x i (k + 1) f where
  replaced j hle hlt := by
    rcases Nat.eq_or_lt_of_le hle with rfl | hlater
    · refine ⟨reh, hgood, ?_⟩
      rw [h.other _ fun j' hle' _ heq => ?_, OrderedStore.get_put_self]
      have hsame := entryHeaderKey_inj.mp heq
      omega
    · obtain ⟨reh', hgood', hget⟩ := h.replaced j hlater (by omega)
      refine ⟨reh', (GoodHeader.congr ?_).mp hgood', hget⟩
      refine OrderedStore.get_put_of_ne fun heq => ?_
      have hsame := entryHeaderKey_inj.mp heq
      omega
  other key hkey := by
    rw [h.other key fun j hle hlt => hkey j (by omega) (by omega),
      OrderedStore.get_put_of_ne (hkey i (Nat.le_refl i) (by omega))]

/-- The loop ends after the range, or at the first header that is not good: on an error if it cannot
be read, and without one if it is another's. -/
theorem wp_dbScrubEntryHeaders (n i : Nat) (x : RocksDb) :
    (dbScrubEntryHeaders selfUuid i n).wp (fun _ => True)
      (fun _ f => ∃ k, Replaced selfUuid x i k f ∧
        (k = n ∨ k < n ∧ ∀ reh, ¬GoodHeader x ((i + k : Nat) : Int) reh))
      (fun e f => ∃ k, Replaced selfUuid x i k f ∧ k < n ∧
        ∃ e', e = .errno e' ∧ entryHeaderRead x ((i + k : Nat) : Int) = .error e') x := by
  induction n generalizing i x with
  | zero => exact (Durable.wp_pure _).mpr ⟨trivial, 0, .none selfUuid x i, .inl rfl⟩
  | succ n ih =>
    rw [dbScrubEntryHeaders, Durable.wp_bind, Durable.wp_read]
    refine ⟨trivial, ?_⟩
    cases hread : entryHeaderRead x i with
    | error e =>
      exact (Durable.wp_fail _).mpr
        ⟨trivial, 0, .none selfUuid x i, Nat.succ_pos n, e, rfl, hread⟩
    | ok reh =>
      by_cases hbad : rehMagic reh ≠ entryMagic ∨ rehIndex reh ≠ i
      · simp only [if_pos hbad]
        refine (Durable.wp_pure _).mpr ⟨trivial, 0, .none selfUuid x i, .inr ⟨Nat.succ_pos n, ?_⟩⟩
        intro reh' hgood
        obtain rfl : reh = reh' := Except.ok.inj (hread.symm.trans hgood.read)
        exact hbad.elim (absurd hgood.magic) (absurd hgood.index)
      · obtain ⟨hmagic, hindex⟩ := not_or.mp hbad
        have hgood : GoodHeader x i reh := ⟨hread, not_not.mp hmagic, not_not.mp hindex⟩
        -- a header further on is as it was
        have hlater : ∀ k, (x.put (entryHeaderKey i) (scrubHeader selfUuid reh)).get
            (entryHeaderKey (i + 1 + k)) = x.get (entryHeaderKey (i + (k + 1))) := by
          intro k
          rw [Nat.add_assoc, Nat.add_comm 1 k]
          refine OrderedStore.get_put_of_ne fun heq => ?_
          have hsame := entryHeaderKey_inj.mp heq
          omega
        have hidx : ∀ k, i + 1 + k = i + (k + 1) := fun k => by omega
        simp only [if_neg hbad, Durable.wp_bind, Durable.wp_write]
        refine ⟨trivial, trivial, Durable.wp_mono (ih (i + 1) _) (fun _ h => h) ?_ ?_⟩
        · rintro - f ⟨k, hreplaced, hend⟩
          refine ⟨k + 1, .cons hgood hreplaced, hend.imp (fun h => by omega) ?_⟩
          rintro ⟨hlt, hnone⟩
          refine ⟨by omega, fun reh' hgood' => hnone reh' ?_⟩
          rw [hidx]
          exact (GoodHeader.congr (hidx k ▸ hlater k)).mpr hgood'
        · rintro e f ⟨k, hreplaced, hlt, e', rfl, hread'⟩
          refine ⟨k + 1, .cons hgood hreplaced, by omega, e', rfl, ?_⟩
          rw [hidx] at hread'
          rw [← hread']
          exact (entryHeaderRead_congr (hidx k ▸ hlater k)).symm

end Loop

/-! ## A scrub -/

/-- The open database is the peer's, or was. -/
def Recognized (rrh : RecoveryHandle) (o : OpenedDb) : Prop :=
  o.dbUuid = rrh.peerDbUuid ∨ o.dbRecoveryUuid = rrh.peerDbUuid

/-- The indexes that are asserted. -/
def Indexed (o : OpenedDb) : Prop :=
  0 ≤ o.lowestIdx ∧ 0 ≤ o.entriesDetected ∧ o.lowestIdx ≤ o.entriesDetected

/-- How many headers there should be. -/
def OpenedDb.count (o : OpenedDb) : Nat := (o.entriesDetected - o.lowestIdx).toNat

/-- What a scrub comes to, and how it leaves the instance. -/
inductive Scrubbed (rrh : RecoveryHandle) (o : OpenedDb) (ri : ScrubInstance) :
    Except RecoveryErr Unit → ScrubInstance → Prop
  | unrecognized (hnot : ¬Recognized rrh o) : Scrubbed rrh o ri (.error .ENODEV) ri
  | unloaded {e : RecoveryErr} (hrec : Recognized rrh o)
      (hload : headerLoad ri.db rrh.raftUuidStr rrh.peerUuidStr = .error e) :
      Scrubbed rrh o ri (.error e) ⟨ri.db, rrh.peerUuidStr⟩
  | aborted {logHdr : RaftLogHeader}
      (hload : headerLoad ri.db rrh.raftUuidStr rrh.peerUuidStr = .ok logHdr)
      (hassert : rrh.thisPeerUuidStr = rrh.peerUuidStr ∨ ¬Indexed o) :
      Scrubbed rrh o ri (.error .fatal) ⟨ri.db, rrh.peerUuidStr⟩
  | stopped {logHdr : RaftLogHeader} {k : Nat} {f : RocksDb} {e : RocksErrno}
      (hrec : Recognized rrh o)
      (hload : headerLoad ri.db rrh.raftUuidStr rrh.peerUuidStr = .ok logHdr)
      (hpeer : rrh.thisPeerUuidStr ≠ rrh.peerUuidStr) (hidx : Indexed o)
      (hreplaced : Replaced rrh.thisPeerUuid ri.db o.lowestIdx.toNat k f) (hlt : k < o.count)
      (hread : entryHeaderRead ri.db ((o.lowestIdx.toNat + k : Nat) : Int) = .error e) :
      Scrubbed rrh o ri (.error (.errno e)) ⟨f, rrh.peerUuidStr⟩
  | done {logHdr : RaftLogHeader} {k : Nat} {f f' : RocksDb} (hrec : Recognized rrh o)
      (hload : headerLoad ri.db rrh.raftUuidStr rrh.peerUuidStr = .ok logHdr)
      (hpeer : rrh.thisPeerUuidStr ≠ rrh.peerUuidStr) (hidx : Indexed o)
      (hreplaced : Replaced rrh.thisPeerUuid ri.db o.lowestIdx.toNat k f)
      (hend : k = o.count ∨
        k < o.count ∧ ∀ reh, ¬GoodHeader ri.db ((o.lowestIdx.toNat + k : Nat) : Int) reh)
      (hsame : ∀ j, f'.get (entryHeaderKey j) = f.get (entryHeaderKey j)) :
      Scrubbed rrh o ri (.ok ()) ⟨f', ri.thisPeerUuidStr⟩

section Scrub

variable {rrh : RecoveryHandle} {o : OpenedDb} {ri : ScrubInstance}

theorem headerLoad_error {db : RocksDb} {raftUuidStr peerUuidStr : List UInt8} {e : RecoveryErr}
    (h : headerLoad db raftUuidStr peerUuidStr = .error e) : ∃ e', e = .errno e' := by
  rw [headerLoad] at h
  split at h
  · exact ⟨_, (Except.error.inj h).symm⟩
  · split at h
    · exact ⟨_, (Except.error.inj h).symm⟩
    · cases h

/-- The records of the database are not those of an entry header. -/
theorem get_initHeader_entryHeaderKey (db : RocksDb) (raftUuidStr thisPeerUuidStr : List UInt8)
    (logHdr : RaftLogHeader) (instanceUuid : List UInt8) (preRecovery : Option (List UInt8))
    (j : Nat) :
    (initHeader db raftUuidStr thisPeerUuidStr logHdr instanceUuid preRecovery).get
      (entryHeaderKey j) = db.get (entryHeaderKey j) := by
  have hrecord : ∀ c x, entryKeyWith c j ≠ headerEnd ++ x := fun c x =>
    (headerEnd_append_ne_entryKeyWith x c j).symm
  have hmarker : entryHeaderKey j ≠ lastEntryKey raftUuidStr thisPeerUuidStr :=
    (ne_of_inLog (lastEntry_prefix_lastEntryKey ..) (inLog_entryKeyWith _ j)).symm
  have hheader : entryHeaderKey j ≠ logHeaderKey raftUuidStr thisPeerUuidStr :=
    (logHeaderKey_ne_entryHeaderKey _ _ j).symm
  rw [initHeader, headerWrite, OrderedStore.get_put_of_ne hheader]
  cases preRecovery with
  | none =>
    exact (OrderedStore.get_put_of_ne (hrecord _ _)).trans (OrderedStore.get_put_of_ne hmarker)
  | some peerDbUuid =>
    exact (OrderedStore.get_put_of_ne (hrecord _ _)).trans
      ((OrderedStore.get_put_of_ne (hrecord _ _)).trans (OrderedStore.get_put_of_ne hmarker))

theorem wp_bulkRecoveryDbScrub (instanceUuid : Uuid) :
    (bulkRecoveryDbScrub rrh instanceUuid o).wp (fun _ => True)
      (fun _ ri' => Scrubbed rrh o ri (.ok ()) ri')
      (fun e ri' => Scrubbed rrh o ri (.error e) ri') ri := by
  simp only [bulkRecoveryDbScrub, onDb, Durable.wp_bind, Durable.wp_require, Durable.wp_read,
    Durable.wp_write, true_and]
  refine ⟨fun hrec => ?_, fun hnot => .unrecognized hnot⟩
  cases hload : headerLoad ri.db rrh.raftUuidStr rrh.peerUuidStr with
  | error e => exact (Durable.wp_ofExcept_error e).mpr ⟨trivial, .unloaded hrec hload⟩
  | ok logHdr =>
    simp only [Durable.wp_ofExcept_ok, Durable.wp_bind, Durable.wp_require, Durable.wp_zoom,
      Durable.wp_read, Durable.wp_write, true_and]
    refine ⟨fun hpeer => ⟨fun hidx => ?_, fun hnot => .aborted hload (.inr hnot)⟩,
      fun hnot => .aborted hload (.inl (not_not.mp hnot))⟩
    refine Durable.wp_mono (wp_dbScrubEntryHeaders o.count o.lowestIdx.toNat ri.db)
      (fun _ h => h) ?_ ?_
    · rintro - f ⟨k, hreplaced, hend⟩
      exact .done hrec hload hpeer hidx hreplaced hend
        (get_initHeader_entryHeaderKey f _ _ logHdr _ _)
    · rintro - f ⟨k, hreplaced, hlt, e, rfl, hread⟩
      exact .stopped hrec hload hpeer hidx hreplaced hlt hread

/-- Every scrub comes to one of these. -/
theorem scrubbed (rrh : RecoveryHandle) (instanceUuid : Uuid) (o : OpenedDb) (ri : ScrubInstance) :
    Scrubbed rrh o ri (bulkRecoveryDbScrub rrh instanceUuid o ri).result
      (bulkRecoveryDbScrub rrh instanceUuid o ri).final := by
  have hpost := (@wp_bulkRecoveryDbScrub rrh o ri instanceUuid).2
  cases hresult : (bulkRecoveryDbScrub rrh instanceUuid o ri).result with
  | ok a =>
    rw [hresult] at hpost
    exact hpost
  | error e =>
    rw [hresult] at hpost
    exact hpost

/-- A header that was replaced is good, and is replaced with itself. -/
theorem Replaced.goodHeader {selfUuid : Uuid} {x f : RocksDb} {i k j : Nat}
    (h : Replaced selfUuid x i k f) (hle : i ≤ j) (hlt : j < i + k) :
    ∃ reh, GoodHeader x j reh ∧ GoodHeader f j (scrubHeader selfUuid reh) := by
  obtain ⟨reh, hgood, hget⟩ := h.replaced j hle hlt
  refine ⟨reh, hgood, entryHeaderRead_ok_iff.mpr ⟨hget, length_scrubHeader hgood.length_eq⟩, ?_, ?_⟩
  · rw [rehMagic_scrubHeader hgood.length_eq, hgood.magic]
  · rw [rehIndex_scrubHeader, hgood.index]

/-- The loop stops where it stopped before, and changes nothing before that. -/
theorem Replaced.again {selfUuid : Uuid} {x f g f' : RocksDb} {i k k' n : Nat}
    (h : Replaced selfUuid x i k f)
    (hend : k = n ∨ ∀ reh, ¬GoodHeader x ((i + k : Nat) : Int) reh)
    (hg : ∀ j, g.get (entryHeaderKey j) = f.get (entryHeaderKey j))
    (h' : Replaced selfUuid g i k' f') (hle : k' ≤ n) (j : Nat) :
    f'.get (entryHeaderKey j) = g.get (entryHeaderKey j) := by
  have hk : k' ≤ k := by
    by_contra hlt
    rcases hend with rfl | hnone
    · omega
    · obtain ⟨reh, hgood, -⟩ := h'.goodHeader (Nat.le_add_right i k) (by omega)
      exact hnone reh ((GoodHeader.congr ((hg _).trans (h.get_beyond (Nat.le_refl _)))).mp hgood)
  by_cases hin : i ≤ j ∧ j < i + k'
  · obtain ⟨reh', hgood', hget'⟩ := h'.replaced j hin.1 hin.2
    obtain ⟨reh, -, hget⟩ := h.replaced j hin.1 (by omega)
    have hreh : reh' = scrubHeader selfUuid reh :=
      Option.some.inj ((hgood'.get_eq.symm.trans (hg j)).trans hget)
    rw [hget', hg j, hget, hreh, scrubHeader_scrubHeader]
  · refine h'.other _ fun j' hle' hlt' heq => hin ?_
    obtain rfl := entryHeaderKey_inj.mp heq
    exact ⟨hle', hlt'⟩

/-! ## Correct scrubs -/

/-- A scrub that may follow another: the log is the same, and the database is not one that only now is
recognized. -/
structure Follows (rrh : RecoveryHandle) (o o' : OpenedDb) : Prop where
  lowestIdx_eq : o'.lowestIdx = o.lowestIdx
  entriesDetected_eq : o'.entriesDetected = o.entriesDetected
  recognized : Recognized rrh o' → Recognized rrh o

/-- What is expected of the scrub of a database.  An assertion that fails is not a return. -/
structure ScrubCorrect (rrh : RecoveryHandle) (instanceUuid : Uuid) (o : OpenedDb) (db : RocksDb) :
    Prop where
  replaced : (bulkRecoveryDbScrub rrh instanceUuid o ⟨db, rrh.thisPeerUuidStr⟩).result = .ok () →
    ∀ i : Int, o.lowestIdx ≤ i → i < o.entriesDetected → ∃ reh, GoodHeader db i reh ∧
      entryHeaderRead (bulkRecoveryDbScrub rrh instanceUuid o ⟨db, rrh.thisPeerUuidStr⟩).final.db i =
        .ok (scrubHeader rrh.thisPeerUuid reh)
  again : ∀ o' instanceUuid', Follows rrh o o' → ∀ j,
    (bulkRecoveryDbScrub rrh instanceUuid' o'
      (bulkRecoveryDbScrub rrh instanceUuid o ⟨db, rrh.thisPeerUuidStr⟩).final).final.db.get
        (entryHeaderKey j) =
      (bulkRecoveryDbScrub rrh instanceUuid o ⟨db, rrh.thisPeerUuidStr⟩).final.db.get
        (entryHeaderKey j)
  restored : (bulkRecoveryDbScrub rrh instanceUuid o ⟨db, rrh.thisPeerUuidStr⟩).result ≠
      .error .fatal →
    (bulkRecoveryDbScrub rrh instanceUuid o ⟨db, rrh.thisPeerUuidStr⟩).final.thisPeerUuidStr =
      rrh.thisPeerUuidStr

theorem Follows.count_eq {o' : OpenedDb} (h : Follows rrh o o') : o'.count = o.count := by
  rw [OpenedDb.count, OpenedDb.count, h.lowestIdx_eq, h.entriesDetected_eq]

theorem Follows.indexed_iff {o' : OpenedDb} (h : Follows rrh o o') : Indexed o' ↔ Indexed o := by
  rw [Indexed, Indexed, h.lowestIdx_eq, h.entriesDetected_eq]

/-- Whatever the first scrub came to, the second changes no entry header. -/
theorem Scrubbed.again {o' : OpenedDb} {ri' ri'' : ScrubInstance}
    {result result' : Except RecoveryErr Unit} (h : Scrubbed rrh o ri result ri')
    (hfollows : Follows rrh o o') (h' : Scrubbed rrh o' ri' result' ri'') (j : Nat) :
    ri''.db.get (entryHeaderKey j) = ri'.db.get (entryHeaderKey j) := by
  -- a second loop, after a first one that ended where it could not go on or at the end
  have hloop : ∀ {k' : Nat} {f' : RocksDb}, Recognized rrh o' →
      (∃ logHdr, headerLoad ri'.db rrh.raftUuidStr rrh.peerUuidStr = .ok logHdr) →
      rrh.thisPeerUuidStr ≠ rrh.peerUuidStr → Indexed o' →
      Replaced rrh.thisPeerUuid ri'.db o'.lowestIdx.toNat k' f' → k' ≤ o'.count →
      f'.get (entryHeaderKey j) = ri'.db.get (entryHeaderKey j) := by
    rintro k' f' hrec' ⟨logHdr', hload'⟩ hpeer' hidx' hreplaced' hle
    rw [hfollows.lowestIdx_eq] at hreplaced'
    rw [hfollows.count_eq] at hle
    cases h with
    | unrecognized hnot => exact absurd (hfollows.recognized hrec') hnot
    | unloaded hrec hload =>
      rw [hload] at hload'
      cases hload'
    | aborted hload hassert =>
      rcases hassert with hsame | hnot
      · exact absurd hsame hpeer'
      · exact absurd (hfollows.indexed_iff.mp hidx') hnot
    | stopped hrec hload hpeer hidx hreplaced hlt hread =>
      refine hreplaced.again (.inr fun reh hgood => ?_) (fun _ => rfl) hreplaced' hle j
      rw [hgood.read] at hread
      cases hread
    | done hrec hload hpeer hidx hreplaced hend hsame =>
      exact hreplaced.again (hend.imp_right And.right) hsame hreplaced' hle j
  cases h' with
  | unrecognized => rfl
  | unloaded => rfl
  | aborted => rfl
  | stopped hrec hload hpeer hidx hreplaced hlt hread =>
    exact hloop hrec ⟨_, hload⟩ hpeer hidx hreplaced hlt.le
  | done hrec hload hpeer hidx hreplaced hend hsame =>
    rw [hsame]
    exact hloop hrec ⟨_, hload⟩ hpeer hidx hreplaced (hend.elim le_of_eq fun h => h.1.le)

/-- The peer's log header and all the entry headers are there. -/
def Complete (rrh : RecoveryHandle) (o : OpenedDb) (db : RocksDb) : Prop :=
  (∃ logHdr, headerLoad db rrh.raftUuidStr rrh.peerUuidStr = .ok logHdr) ∧
    (Indexed o → ∀ i : Int, o.lowestIdx ≤ i → i < o.entriesDetected → ∃ reh, GoodHeader db i reh)

/-- An index of the range is that many above the lowest one. -/
theorem Indexed.exists_add (h : Indexed o) {i : Int} (hle : o.lowestIdx ≤ i)
    (hlt : i < o.entriesDetected) : ∃ j : Nat, o.lowestIdx.toNat ≤ j ∧
      j < o.lowestIdx.toNat + o.count ∧ i = j := by
  obtain ⟨hlowest, -, -⟩ := h
  refine ⟨i.toNat, by omega, ?_, by omega⟩
  rw [OpenedDb.count]
  omega

/-- An index that many above the lowest one is in the range. -/
theorem Indexed.add_lt (h : Indexed o) {k : Nat} (hk : k < o.count) :
    o.lowestIdx ≤ ((o.lowestIdx.toNat + k : Nat) : Int) ∧
      ((o.lowestIdx.toNat + k : Nat) : Int) < o.entriesDetected := by
  obtain ⟨hlowest, -, -⟩ := h
  rw [OpenedDb.count] at hk
  omega

theorem ScrubCorrect.complete {instanceUuid : Uuid} {db : RocksDb}
    (hpeer : rrh.thisPeerUuidStr ≠ rrh.peerUuidStr) (hrec : Recognized rrh o)
    (h : ScrubCorrect rrh instanceUuid o db) : Complete rrh o db := by
  have hscrubbed := scrubbed rrh instanceUuid o ⟨db, rrh.thisPeerUuidStr⟩
  have hreplaced := h.replaced
  have hrestored := h.restored
  generalize (bulkRecoveryDbScrub rrh instanceUuid o ⟨db, rrh.thisPeerUuidStr⟩).result = result
    at hscrubbed hreplaced hrestored
  generalize (bulkRecoveryDbScrub rrh instanceUuid o ⟨db, rrh.thisPeerUuidStr⟩).final = ri'
    at hscrubbed hreplaced hrestored
  cases hscrubbed with
  | unrecognized hnot => exact absurd hrec hnot
  | unloaded _ hload =>
    obtain ⟨e', rfl⟩ := headerLoad_error hload
    exact absurd (hrestored (by simp)).symm hpeer
  | aborted hload hassert =>
    rcases hassert with hsame | hnot
    · exact absurd hsame hpeer
    · exact ⟨⟨_, hload⟩, fun hidx => absurd hidx hnot⟩
  | stopped => exact absurd (hrestored (by simp)).symm hpeer
  | done _ hload _ hidx hloop hend hsame =>
    refine ⟨⟨_, hload⟩, fun _ i hle hlt => ?_⟩
    obtain ⟨reh, hgood, -⟩ := hreplaced rfl i hle hlt
    exact ⟨reh, hgood⟩

/-- The first header that is not good would have been in the range. -/
theorem Complete.end_eq {db : RocksDb} (h : Complete rrh o db) (hidx : Indexed o) {k : Nat}
    (hend : k = o.count ∨
      k < o.count ∧ ∀ reh, ¬GoodHeader db ((o.lowestIdx.toNat + k : Nat) : Int) reh) :
    k = o.count := by
  rcases hend with heq | ⟨hlt, hnone⟩
  · exact heq
  · obtain ⟨reh, hgood⟩ := h.2 hidx _ (hidx.add_lt hlt).1 (hidx.add_lt hlt).2
    exact absurd hgood (hnone reh)

theorem scrubCorrect_of {instanceUuid : Uuid} {db : RocksDb}
    (h : ¬Recognized rrh o ∨ Complete rrh o db) : ScrubCorrect rrh instanceUuid o db := by
  have hscrubbed := scrubbed rrh instanceUuid o ⟨db, rrh.thisPeerUuidStr⟩
  refine ⟨?_, fun o' instanceUuid' hfollows => hscrubbed.again hfollows (scrubbed ..), ?_⟩
  · generalize (bulkRecoveryDbScrub rrh instanceUuid o ⟨db, rrh.thisPeerUuidStr⟩).result = result
      at hscrubbed ⊢
    generalize (bulkRecoveryDbScrub rrh instanceUuid o ⟨db, rrh.thisPeerUuidStr⟩).final = ri'
      at hscrubbed ⊢
    rintro rfl i hle hlt
    cases hscrubbed with
    | done hrec hload hpeer hidx hreplaced hend hsame =>
      have hcomplete := h.resolve_left (not_not.mpr hrec)
      cases hcomplete.end_eq hidx hend
      obtain ⟨j, hj, hj', rfl⟩ := hidx.exists_add hle hlt
      obtain ⟨reh, hgood, hgood'⟩ := hreplaced.goodHeader hj hj'
      exact ⟨reh, hgood, (entryHeaderRead_congr (hsame j)).trans hgood'.read⟩
  · generalize (bulkRecoveryDbScrub rrh instanceUuid o ⟨db, rrh.thisPeerUuidStr⟩).result = result
      at hscrubbed ⊢
    generalize (bulkRecoveryDbScrub rrh instanceUuid o ⟨db, rrh.thisPeerUuidStr⟩).final = ri'
      at hscrubbed ⊢
    intro hreturned
    cases hscrubbed with
    | unrecognized => rfl
    | unloaded hrec hload =>
      obtain ⟨logHdr, hload'⟩ := (h.resolve_left (not_not.mpr hrec)).1
      rw [hload] at hload'
      cases hload'
    | aborted => exact absurd rfl hreturned
    | stopped hrec hload hpeer hidx hreplaced hlt hread =>
      have hcomplete := h.resolve_left (not_not.mpr hrec)
      obtain ⟨reh, hgood⟩ := hcomplete.2 hidx _ (hidx.add_lt hlt).1 (hidx.add_lt hlt).2
      rw [hgood.read] at hread
      cases hread
    | done => rfl

/-- A scrub is correct exactly if it is refused at the start or finds everything: the peer's log header,
and for every index of the range a header of that entry.  Otherwise the lent uuid stays, or headers are
passed over. -/
theorem scrub_correct_iff {rrh : RecoveryHandle} (hpeer : rrh.thisPeerUuidStr ≠ rrh.peerUuidStr)
    (instanceUuid : Uuid) (o : OpenedDb) (db : RocksDb) :
    ScrubCorrect rrh instanceUuid o db ↔ ¬Recognized rrh o ∨ Complete rrh o db := by
  constructor
  · intro h
    by_cases hrec : Recognized rrh o
    · exact .inr (h.complete hpeer hrec)
    · exact .inl hrec
  · exact scrubCorrect_of

end Scrub

/-! ### Two entries, one of them misplaced -/

/-- The peer's database, opened. -/
def openedPeerDb (entriesDetected : Int) : OpenedDb := ⟨sampleUuid 9, .null, 0, entriesDetected⟩

theorem headerLoad_peerDb : headerLoad peerDb [1] [2] = .ok (Posix.initialHeader 0) := by
  obtain ⟨f, hs⟩ := exists_scrubbable_peerDb
  exact hs.header

theorem goodHeader_peerDb : GoodHeader peerDb (0 : Nat) (rocksEntry 0 index_peerLog [7] length_peerLog).header :=
  ⟨peerDb_readsAs.header 0 _ rfl, rehMagic_entryHeaderBytes, rehIndex_rocksEntry ..⟩

theorem scrub_correct_iff_peerDb : ScrubCorrect sampleHandle (sampleUuid 8) (openedPeerDb 1) peerDb := by
  refine (scrub_correct_iff (by decide) _ _ _).mpr (.inr ⟨⟨_, headerLoad_peerDb⟩, ?_⟩)
  intro hidx i hle hlt
  obtain rfl : i = (0 : Nat) := by
    have hlow : (0 : Int) ≤ i := hle
    have hhigh : i < 1 := hlt
    omega
  exact ⟨_, goodHeader_peerDb⟩

/-- The header of entry 0 stands at entry 1, too. -/
def misplacedDb : RocksDb :=
  peerDb.put (entryHeaderKey 1) (rocksEntry 0 index_peerLog [7] length_peerLog).header

theorem not_goodHeader_misplacedDb (reh : List UInt8) : ¬GoodHeader misplacedDb (1 : Nat) reh := by
  intro hgood
  obtain rfl := Option.some.inj (hgood.get_eq.symm.trans OrderedStore.get_put_self)
  have hindex := hgood.index
  rw [rehIndex_rocksEntry] at hindex
  exact absurd hindex (by decide)

theorem headerLoad_misplacedDb : headerLoad misplacedDb [1] [2] = .ok (Posix.initialHeader 0) := by
  rw [← headerLoad_peerDb, headerLoad, headerLoad, getExactValSize, getExactValSize, misplacedDb,
    OrderedStore.get_put_of_ne (logHeaderKey_ne_entryHeaderKey _ _ 1)]

theorem result_misplacedDb :
    (bulkRecoveryDbScrub sampleHandle (sampleUuid 8) (openedPeerDb 2) ⟨misplacedDb, [3]⟩).result =
      .ok () := by
  have hread : ∀ k < 2, ∃ reh, entryHeaderRead misplacedDb ((0 + k : Nat) : Int) = .ok reh := by
    intro k hk
    obtain rfl | rfl : k = 0 ∨ k = 1 := by omega
    · exact ⟨_, (entryHeaderRead_congr (OrderedStore.get_put_of_ne fun heq =>
        absurd (entryHeaderKey_inj.mp heq) (by decide))).trans goodHeader_peerDb.read⟩
    · exact ⟨_, entryHeaderRead_ok_iff.mpr ⟨OrderedStore.get_put_self, length_entryHeaderBytes ..⟩⟩
  have hscrubbed := scrubbed sampleHandle (sampleUuid 8) (openedPeerDb 2) ⟨misplacedDb, [3]⟩
  generalize (bulkRecoveryDbScrub sampleHandle (sampleUuid 8) (openedPeerDb 2)
    ⟨misplacedDb, [3]⟩).result = result at hscrubbed ⊢
  generalize (bulkRecoveryDbScrub sampleHandle (sampleUuid 8) (openedPeerDb 2)
    ⟨misplacedDb, [3]⟩).final = ri' at hscrubbed
  cases hscrubbed with
  | unrecognized hnot => exact absurd (.inl rfl) hnot
  | unloaded hrec hload => cases headerLoad_misplacedDb.symm.trans hload
  | aborted hload hassert =>
    rcases hassert with hsame | hnot
    · exact absurd hsame (by decide)
    · exact absurd ⟨by decide, by decide, by decide⟩ hnot
  | stopped hrec hload hpeer hidx hreplaced hlt hnot =>
    obtain ⟨reh, hread⟩ := hread _ hlt
    cases hread.symm.trans hnot
  | done => rfl

/-- The scrub passes the misplaced header over and returns 0.  Where nothing can be read, the server has
the peer's uuid afterwards. -/
theorem scrub_passes_header_over :
    ¬ScrubCorrect sampleHandle (sampleUuid 8) (openedPeerDb 2) misplacedDb ∧
      (bulkRecoveryDbScrub sampleHandle (sampleUuid 8) (openedPeerDb 2) ⟨misplacedDb, [3]⟩).result =
        .ok () ∧
      (bulkRecoveryDbScrub sampleHandle (sampleUuid 8) (openedPeerDb 2) ⟨.empty, [3]⟩).result =
        .error (.errno .ENOENT) ∧
      (bulkRecoveryDbScrub sampleHandle (sampleUuid 8) (openedPeerDb 2)
        ⟨.empty, [3]⟩).final.thisPeerUuidStr = [2] := by
  refine ⟨fun hcorrect => ?_, ?_, ?_, ?_⟩
  · obtain ⟨reh, hgood⟩ := (hcorrect.complete (by decide) (.inl rfl)).2 ⟨by decide, by decide, by decide⟩
      (1 : Nat) (by decide) (by decide)
    exact not_goodHeader_misplacedDb reh hgood
  · exact result_misplacedDb
  · decide
  · decide

end Rocks

end NiovaRaft
