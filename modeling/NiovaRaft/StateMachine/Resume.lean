import NiovaRaft.Base.Slices
import NiovaRaft.Spec.Startup
import NiovaRaft.Spec.Writes

/-!
# Where an apply resumes

The sub-entries of the committed entries, in the order of the log, are what the state machine is to
apply.  The last-applied record names the one to go on with, and the write supplements in the
database are those of all before it: they are written in one batch with the record.  This holds of
every database that a crash may leave behind, so a restarted process goes on where the record says.

With it go the checksums of the record.  The one over the entries is that of the complete ones.  The
one over the keys and values is too, as long as no process has gone on in the middle of an entry:
it then starts from the checksum before the entry.
-/

namespace NiovaRaft

open Base Base.Handler

variable {n : Nat}

/-! ## What there is to apply -/

/-- The sub-entries of an entry that go to the state machine. -/
def Entry.subEntries (re : Entry) : List SubEntry :=
  if re.Idle then []
  else (slices (re.header.entrySz.take re.header.numEntries)
    (re.data.take re.header.dataSize)).mapIdx fun i bytes => ⟨re.header.index, i, bytes⟩

/-- The sub-entries of a log, in order. -/
def subEntriesOf (log : List Entry) : List SubEntry := log.flatMap Entry.subEntries

/-- Those before sub-entry `k` of entry `idx`. -/
def subEntriesBefore (log : List Entry) (idx k : Nat) : List SubEntry :=
  subEntriesOf (log.take idx) ++ ((log[idx]?.map Entry.subEntries).getD []).take k

/-- The running checksum after one supplement. -/
def suppCrc [Externals] (crc : Nat) (ws : WrSupp) : Nat :=
  if ws.hashed then RaftServer.crcPart ws.value (RaftServer.crcPart ws.key crc) else crc

/-- The running checksum after the supplements of batches. -/
def kvCrc [Externals] (seed : Nat) (batches : List AppBatch) : Nat :=
  batches.foldl (fun crc b => b.ws.foldl suppCrc crc) seed

/-- The checksums of entries taken together. -/
def entriesCrc (log : List Entry) : Nat := log.foldl (fun crc re => crc ^^^ re.header.crc) 0

theorem Entry.length_subEntries_le (re : Entry) : re.subEntries.length ≤ re.header.numEntries := by
  unfold subEntries
  split
  · exact Nat.zero_le _
  · simp

theorem Entry.getElem?_subEntries {re : Entry} (h : ¬ re.Idle) {k size : Nat}
    (hsize : (RaftServer.subSizes re)[k]? = some size) :
    re.subEntries[k]? = some ⟨re.header.index, k,
      RaftServer.subBytes (re.data.take re.header.dataSize) (RaftServer.subSizes re) k⟩ := by
  have hsize' : (re.header.entrySz.take re.header.numEntries)[k]? = some size := hsize
  rw [subEntries, if_neg h, List.getElem?_mapIdx, getElem?_slices, hsize']
  simp [RaftServer.subBytes, RaftServer.subSizes, List.getD_eq_getElem?_getD, hsize']

theorem Entry.subEntries_idx {re : Entry} {x : SubEntry} (h : x ∈ re.subEntries) :
    x.idx = re.header.index := by
  unfold subEntries at h
  split at h
  · cases h
  · obtain ⟨i, hi, rfl⟩ := List.mem_mapIdx.mp h
    rfl

theorem subEntriesOf_take_succ {log : List Entry} {idx : Nat} {re : Entry}
    (hre : log[idx]? = some re) :
    subEntriesOf (log.take (idx + 1)) = subEntriesOf (log.take idx) ++ re.subEntries := by
  rw [subEntriesOf, List.take_add_one, hre, Option.toList_some, List.flatMap_append]
  simp [subEntriesOf]

/-- One sub-entry further. -/
theorem subEntriesBefore_succ {log : List Entry} {idx k : Nat} {re : Entry}
    (hre : log[idx]? = some re) :
    subEntriesBefore log idx (k + 1) =
      subEntriesBefore log idx k ++ (re.subEntries.drop k).take 1 := by
  simp only [subEntriesBefore, hre, Option.map_some, Option.getD_some]
  rw [List.take_add, List.append_assoc]

/-- Past the last sub-entry is the next entry. -/
theorem subEntriesBefore_next {log : List Entry} {idx k : Nat} {re : Entry}
    (hre : log[idx]? = some re) (hk : re.subEntries.length ≤ k) :
    subEntriesBefore log idx k = subEntriesBefore log (idx + 1) 0 := by
  simp only [subEntriesBefore, hre, Option.map_some, Option.getD_some, List.take_zero]
  rw [List.take_of_length_le hk, subEntriesOf_take_succ hre, List.append_nil]

theorem kvCrc_append [Externals] (seed : Nat) (a b : List AppBatch) :
    kvCrc seed (a ++ b) = kvCrc (kvCrc seed a) b :=
  List.foldl_append

theorem entriesCrc_take_succ {log : List Entry} {idx : Nat} {re : Entry}
    (hre : log[idx]? = some re) :
    entriesCrc (log.take (idx + 1)) = entriesCrc (log.take idx) ^^^ re.header.crc := by
  rw [entriesCrc, List.take_add_one, hre, Option.toList_some, List.foldl_append]
  rfl

/-! ## What the record says -/

/-- The checksums of a record are those of the complete entries. -/
structure Summed [Externals] (log : List Entry) (la : LastApplied) (batches : List AppBatch) :
    Prop where
  crc : la.cumulativeCrc = entriesCrc (log.take (RaftServer.nextApplyIdx la).idx.toNat)
  kv : la.kvCumulativeCrc = kvCrc 0
    (batches.take (subEntriesOf (log.take (RaftServer.nextApplyIdx la).idx.toNat)).length)

/-- The batches are those of all sub-entries before the one that the record goes on with.  `sums`
is in force where its checksums are right as well. -/
structure AppliedThrough [Externals] (sums : Prop) (log : List Entry) (la : LastApplied)
    (batches : List AppBatch) : Prop where
  nonneg : 0 ≤ (RaftServer.nextApplyIdx la).idx
  sub_le : la.subIdx ≤ la.subIdxMax
  subs : batches.map AppBatch.sub = subEntriesBefore log (RaftServer.nextApplyIdx la).idx.toNat
    (RaftServer.nextApplyIdx la).subIdx
  index : ∀ (i : Nat) re, i < (RaftServer.nextApplyIdx la).idx.toNat → log[i]? = some re →
    re.header.index = i
  partway : la.subIdx ≠ la.subIdxMax → ∃ re, log[la.idx.toNat]? = some re ∧
    la.subIdxMax = re.header.numEntries - 1
  summed : sums → Summed log la batches

/-- No sub-entry of an entry that is partly applied has changed the running checksum. -/
def CleanResume [Externals] (ri : RaftInstance n) : Prop :=
  ri.lastApplied.subIdx < ri.lastApplied.subIdxMax →
    kvCrc ri.lastApplied.kvCumulativeCrc
      (ri.store.db.supplements.filter (·.sub.idx = ri.lastApplied.idx)) =
      ri.lastApplied.kvCumulativeCrc

instance [Externals] (ri : RaftInstance n) : Decidable (CleanResume ri) :=
  inferInstanceAs (Decidable (_ → _))

namespace AppliedThrough

variable [Externals] {sums : Prop} {log : List Entry} {la nai : LastApplied}
  {batches new : List AppBatch}

/-- Nothing is applied yet. -/
theorem initial : AppliedThrough sums log LastApplied.initial [] where
  nonneg := le_refl _
  sub_le := le_refl _
  subs := by simp [RaftServer.nextApplyIdx, LastApplied.initial, subEntriesBefore, subEntriesOf]
  index := fun i re hi _ => by simp [RaftServer.nextApplyIdx, LastApplied.initial] at hi
  partway := fun h => absurd rfl h
  summed := fun _ => ⟨by simp [RaftServer.nextApplyIdx, LastApplied.initial, entriesCrc],
    by simp [LastApplied.initial, kvCrc]⟩

/-- What is known to be synced plays no part. -/
theorem withSynced (h : AppliedThrough sums log la batches) (idx : Int) :
    AppliedThrough sums log { la with syncedIdx := idx } batches := by
  have hnext : RaftServer.nextApplyIdx { la with syncedIdx := idx } =
      { RaftServer.nextApplyIdx la with syncedIdx := idx } := by
    unfold RaftServer.nextApplyIdx
    split <;> simp_all
  obtain ⟨h1, h2, h3, h4, h5, h6⟩ := h
  refine ⟨?_, h2, ?_, ?_, h5, fun hs => ⟨?_, ?_⟩⟩
  · rw [hnext]
    exact h1
  · rw [hnext]
    exact h3
  · rw [hnext]
    exact h4
  · rw [hnext]
    exact (h6 hs).crc
  · rw [hnext]
    exact (h6 hs).kv

/-- The batches of the complete entries, and of the one that is partly applied. -/
theorem split (h : AppliedThrough sums log la batches) {re : Entry}
    (hre : log[(RaftServer.nextApplyIdx la).idx.toNat]? = some re) :
    (batches.take (subEntriesOf (log.take (RaftServer.nextApplyIdx la).idx.toNat)).length).map
        AppBatch.sub = subEntriesOf (log.take (RaftServer.nextApplyIdx la).idx.toNat) ∧
      (batches.drop (subEntriesOf (log.take (RaftServer.nextApplyIdx la).idx.toNat)).length).map
        AppBatch.sub = re.subEntries.take (RaftServer.nextApplyIdx la).subIdx := by
  have hsubs := h.subs
  rw [subEntriesBefore, hre, Option.map_some, Option.getD_some] at hsubs
  rw [List.map_take, List.map_drop, hsubs]
  exact ⟨List.take_left' rfl, List.drop_left' rfl⟩

/-- The running checksum of a clean resume is that of all batches. -/
theorem kvCrc_all (h : AppliedThrough sums log la batches) (hsums : sums) {re : Entry}
    (hre : log[(RaftServer.nextApplyIdx la).idx.toNat]? = some re)
    (hidx : re.header.index = (RaftServer.nextApplyIdx la).idx)
    (hclean : la.subIdx < la.subIdxMax →
      kvCrc la.kvCumulativeCrc (batches.filter (·.sub.idx = la.idx)) = la.kvCumulativeCrc) :
    la.kvCumulativeCrc = kvCrc 0 batches := by
  obtain ⟨hdone, hrest⟩ := h.split hre
  have hkv := (h.summed hsums).kv
  set L := (subEntriesOf (log.take (RaftServer.nextApplyIdx la).idx.toNat)).length with hL
  have hall : kvCrc 0 batches = kvCrc la.kvCumulativeCrc (batches.drop L) := by
    rw [hkv, ← kvCrc_append, List.take_append_drop]
  rw [hall]
  rcases Nat.lt_or_ge la.subIdx la.subIdxMax with hlt | hge
  · have hnext : RaftServer.nextApplyIdx la = { la with subIdx := la.subIdx + 1 } := by
      rw [RaftServer.nextApplyIdx, if_neg (by omega)]
    rw [hnext] at hidx hdone
    have hnonneg : 0 ≤ la.idx := by
      have := h.nonneg
      rw [hnext] at this
      exact this
    -- the batches of the other entries are left out, and no others
    have hfilter : batches.filter (·.sub.idx = la.idx) = batches.drop L := by
      conv_lhs => rw [← List.take_append_drop L batches]
      rw [List.filter_append]
      have hnone : (batches.take L).filter (·.sub.idx = la.idx) = [] := by
        rw [List.filter_eq_nil_iff]
        intro b hb
        have hmem : b.sub ∈ subEntriesOf (log.take la.idx.toNat) := by
          rw [← hdone]
          exact List.mem_map_of_mem hb
        obtain ⟨re', hre', hsub⟩ := List.mem_flatMap.mp hmem
        obtain ⟨i, hi⟩ := List.mem_iff_getElem?.mp hre'
        rw [List.getElem?_take] at hi
        split at hi
        · have hpos := h.index i re' (by rw [hnext]; assumption) hi
          have hb := Entry.subEntries_idx hsub
          simp only [decide_eq_true_eq]
          omega
        · cases hi
      have hevery : (batches.drop L).filter (·.sub.idx = la.idx) = batches.drop L := by
        rw [List.filter_eq_self]
        intro b hb
        have hmem : b.sub ∈ re.subEntries.take (RaftServer.nextApplyIdx la).subIdx := by
          rw [← hrest]
          exact List.mem_map_of_mem hb
        have hb := Entry.subEntries_idx (List.mem_of_mem_take hmem)
        simp only [decide_eq_true_eq]
        rw [hb, hidx]
      rw [hnone, hevery, List.nil_append]
    rw [← hfilter]
    exact (hclean hlt).symm
  · have hzero : (RaftServer.nextApplyIdx la).subIdx = 0 := by
      have := h.sub_le
      rw [RaftServer.nextApplyIdx, if_pos (by omega)]
    rw [hzero, List.take_zero, List.map_eq_nil_iff] at hrest
    rw [hrest]
    rfl

/-- The next sub-entry is applied, and the record moves on. -/
theorem advance (h : AppliedThrough sums log la batches) {idx : Nat} {re : Entry}
    (hidx : (RaftServer.nextApplyIdx la).idx = idx) (hre : log[idx]? = some re)
    (hindex : re.header.index = idx) (hnai : nai.idx = idx)
    (hsub : nai.subIdx = (RaftServer.nextApplyIdx la).subIdx)
    (hmax : nai.subIdxMax = re.header.numEntries - 1) (hle : nai.subIdx ≤ nai.subIdxMax)
    (hnew : new.map AppBatch.sub = (re.subEntries.drop nai.subIdx).take 1)
    (hcrc : sums → nai.cumulativeCrc = entriesCrc (log.take (idx + 1)))
    (hkv : sums → nai.kvCumulativeCrc = kvCrc 0 (batches ++ new)) :
    AppliedThrough sums log (la.moveTo nai) (batches ++ new) := by
  have hall : (batches ++ new).map AppBatch.sub = subEntriesBefore log idx (nai.subIdx + 1) := by
    rw [List.map_append, h.subs, hidx, Int.toNat_natCast, hnew, ← hsub, subEntriesBefore_succ hre]
  by_cases hlast : nai.subIdx = nai.subIdxMax
  · -- the entry is complete
    have hnext : (RaftServer.nextApplyIdx (la.moveTo nai)).idx = (idx + 1 : Nat) ∧
        (RaftServer.nextApplyIdx (la.moveTo nai)).subIdx = 0 := by
      rw [RaftServer.nextApplyIdx, if_pos (by simpa using hlast)]
      simp [hnai]
    have hlen := re.length_subEntries_le
    have hdone : (batches ++ new).map AppBatch.sub = subEntriesBefore log (idx + 1) 0 :=
      hall.trans (subEntriesBefore_next hre (by omega))
    refine ⟨by rw [hnext.1]; omega, by simpa using hle, ?_, ?_, ?_, fun hs => ⟨?_, ?_⟩⟩
    · rw [hnext.1, hnext.2, Int.toNat_natCast]
      exact hdone
    · intro i re' hi hre'
      rw [hnext.1, Int.toNat_natCast] at hi
      rcases Nat.lt_or_ge i idx with hlt | hge
      · exact h.index i re' (by rw [hidx, Int.toNat_natCast]; exact hlt) hre'
      · obtain rfl : i = idx := by omega
        obtain rfl : re' = re := Option.some.inj (hre'.symm.trans hre)
        exact hindex
    · intro hne
      simp only [LastApplied.moveTo_subIdx, LastApplied.moveTo_subIdxMax] at hne
      exact absurd hlast hne
    · rw [hnext.1, Int.toNat_natCast, LastApplied.moveTo, if_pos hlast]
      exact hcrc hs
    · have hcount : (subEntriesOf (log.take (idx + 1))).length = (batches ++ new).length := by
        have := congrArg List.length hdone
        simpa [subEntriesBefore] using this.symm
      rw [hnext.1, Int.toNat_natCast, hcount, List.take_length, LastApplied.moveTo, if_pos hlast]
      exact hkv hs
  · have hnext : (RaftServer.nextApplyIdx (la.moveTo nai)).idx = idx ∧
        (RaftServer.nextApplyIdx (la.moveTo nai)).subIdx = nai.subIdx + 1 := by
      rw [RaftServer.nextApplyIdx, if_neg (by simpa using hlast)]
      simp [hnai]
    refine ⟨by rw [hnext.1]; omega, by simpa using hle, ?_, ?_, ?_, fun hs => ?_⟩
    · rw [hnext.1, hnext.2, Int.toNat_natCast]
      exact hall
    · rw [hnext.1, ← hidx]
      exact h.index
    · intro _
      refine ⟨re, ?_, by simpa using hmax⟩
      rw [LastApplied.moveTo_idx, hnai, Int.toNat_natCast]
      exact hre
    · obtain ⟨hc, hk⟩ := h.summed hs
      rw [hidx, Int.toNat_natCast] at hc hk
      refine ⟨?_, ?_⟩
      · rw [hnext.1, Int.toNat_natCast, LastApplied.moveTo, if_neg hlast]
        exact hc
      · -- the batches of the complete entries are as before
        have hcount : (subEntriesOf (log.take idx)).length ≤ batches.length := by
          have := congrArg List.length h.subs
          rw [hidx, Int.toNat_natCast, subEntriesBefore, List.length_map, List.length_append] at this
          omega
        rw [hnext.1, Int.toNat_natCast, List.take_append_of_le_length hcount, LastApplied.moveTo,
          if_neg hlast]
        exact hk

end AppliedThrough

/-! ## An apply -/

/-- The running checksum that a callback leaves behind is over the supplements it handed back. -/
theorem getKvCrc_subSupplements [Externals] {cb : SmRequestCb} {i seed : Nat}
    {rncr : ClientRequestHandle} (h : rncr.smWriteSupp = ⟨[], seed, true⟩) :
    RaftServer.netSmWriteSupplementGetKvCrc (RaftServer.subSupplements cb i rncr) =
      (RaftServer.subSupplements cb i rncr).ws.foldl suppCrc seed := by
  have hfold : ∀ (l : List WrSupp) (r : SmWriteSupplements), r.kvCrcEnabled = true →
      r.kvCrc = r.ws.foldl suppCrc seed →
      (l.foldl RaftServer.netSmWriteSupplementAdd r).kvCrcEnabled = true ∧
        (l.foldl RaftServer.netSmWriteSupplementAdd r).kvCrc =
          (l.foldl RaftServer.netSmWriteSupplementAdd r).ws.foldl suppCrc seed := by
    intro l
    induction l with
    | nil => exact fun r h1 h2 => ⟨h1, h2⟩
    | cons w l ih =>
      intro r h1 h2
      refine ih _ ?_ ?_
      · unfold RaftServer.netSmWriteSupplementAdd RaftServer.netSmWriteSupplementCrcUpdate
        split
        · exact h1
        · split <;> exact h1
      · unfold RaftServer.netSmWriteSupplementAdd RaftServer.netSmWriteSupplementCrcUpdate
        split
        · exact h2
        · cases hh : w.hashed <;> simp [h1, h2, hh, suppCrc]
  obtain ⟨h1, h2⟩ := hfold (cb i rncr) rncr.smWriteSupp (by rw [h]) (by rw [h]; rfl)
  unfold RaftServer.netSmWriteSupplementGetKvCrc RaftServer.subSupplements
  rw [h1, if_neg (by simp), h2]

/-- The entries that a server has committed are those of `log`. -/
def FollowsLog (log : List Entry) (ri : RaftInstance n) : Prop :=
  ∀ i : Nat, (i : Int) ≤ ri.commitIdx → ri.store.db.entries[i]? = log[i]?

/-- The server of a persistent application, in memory and on disk. -/
structure Resumable [Externals] (sums : Prop) (log : List Entry) (ri : RaftInstance n) : Prop where
  app : ri.opts.storeType = .rocksdbPersistentApp
  kept : ri.store.Keeps fun d => AppliedThrough sums log d.applied d.supplements
  mem : AppliedThrough sums log ri.lastApplied ri.store.db.supplements

namespace Resumable

variable [Externals] {sums : Prop} {log : List Entry} {ri : RaftInstance n}

/-- The next sub-entry is applied, and written with the record. -/
theorem record (h : Resumable sums log ri) {la : LastApplied} {batch : Option AppBatch}
    (hla : AppliedThrough sums log la (ri.store.db.supplements ++ batch.toList)) :
    Resumable sums log (ri.recordApplied la batch) := by
  have hrocks : ri.opts.storeType ≠ .posixFlatFile := by rw [h.app]; simp
  rw [RaftInstance.recordApplied, if_pos hrocks]
  exact ⟨h.app, h.kept.put (by exact hla) false, hla⟩

end Resumable

/-- In the loop over the sub-entries of `re`, before round `k`. -/
structure ResumeLoop [Externals] (sums : Prop) (log : List Entry) (re : Entry) (start k : Nat)
    (nai : LastApplied) (s : Proc n) : Prop where
  ri : Resumable sums log s.ri
  idx : nai.idx = re.header.index
  subIdxMax : nai.subIdxMax = re.header.numEntries - 1
  subIdx : nai.subIdx = min (max start k) (re.header.numEntries - 1)
  next : k ≤ re.header.numEntries - 1 →
    (RaftServer.nextApplyIdx s.ri.lastApplied).idx = re.header.index ∧
      (RaftServer.nextApplyIdx s.ri.lastApplied).subIdx = max start k
  complete : re.header.numEntries ≤ k → 0 < k → s.ri.lastApplied.idx = re.header.index ∧
    s.ri.lastApplied.subIdx = s.ri.lastApplied.subIdxMax
  crc : sums → nai.cumulativeCrc = entriesCrc (log.take (re.header.index.toNat + 1))
  kv : sums → nai.kvCumulativeCrc = kvCrc 0 s.ri.store.db.supplements

namespace ResumeLoop

variable [Externals] {sums : Prop} {log : List Entry} {re : Entry} {start k : Nat}
  {nai : LastApplied} {s : Proc n}

/-- A round that is skipped. -/
theorem skip (h : ResumeLoop sums log re start k nai s) (hk : k < nai.subIdx) :
    ResumeLoop sums log re start (k + 1) nai s := by
  have hsub := h.subIdx
  refine { h with subIdx := ?_, next := fun hle => ?_, complete := fun hle _ => ?_ }
  · omega
  · have := h.next (by omega)
    omega
  · omega

/-- A round that is not.  The process dies in it only if it is killed. -/
theorem step {D : Proc n → Prop} {size : Nat} {cb : SmRequestCb}
    (h : ResumeLoop sums log re start k nai s) (hidle : ¬ re.Idle) {idx : Nat}
    (hindex : re.header.index = idx) (hre : log[idx]? = some re)
    (hstart : start ≤ re.header.numEntries - 1) (hsize : (RaftServer.subSizes re)[k]? = some size)
    (hk : nai.subIdx ≤ k) (hkilled : s.fuse ≠ none → ∀ d : Proc n, Survives s.ri d.ri → D d) :
    (RaftServer.applySubEntry cb re.header k (RaftServer.subBytes (re.data.take re.header.dataSize)
        (RaftServer.subSizes re) k) size nai).wp
      (fun nai' s' => ResumeLoop sums log re start (k + 1) nai' s' ∧
        (s.fuse = none → s'.fuse = none) ∧ s'.ri.commitIdx = s.ri.commitIdx) D s := by
  have hlen : k < re.header.numEntries := by
    have := (List.getElem?_eq_some_iff.mp hsize).1
    simp only [RaftServer.subSizes, List.length_take] at this
    omega
  -- this round is not skipped, so `k` is the sub-entry to apply
  have hnow : nai.subIdx = k ∧ max start k = k := by
    have := h.subIdx
    omega
  obtain ⟨hidx, hsub⟩ := h.next (by omega)
  have hmoves : nai.idx ≥ s.ri.lastApplied.idx ∧ nai.subIdx ≤ nai.subIdxMax := by
    have hge := RaftServer.le_nextApplyIdx s.ri.lastApplied
    rw [h.idx, h.subIdxMax, hnow.1, ← hidx]
    exact ⟨hge, by omega⟩
  refine RaftServer.wp_applySubEntry rfl (fun hdead => absurd hmoves hdead)
    (fun hfuse => hkilled hfuse _ ⟨rfl, rfl, rfl⟩) fun fuse hfuse _ hle => ?_
  generalize hrncr : RaftServer.applyHandle s.ri re.header nai
    (RaftServer.subBytes (re.data.take re.header.dataSize) (RaftServer.subSizes re) k) size = rncr
  set nai' := RaftServer.afterCallback cb k rncr nai with hnai'
  have hsupp : rncr.smWriteSupp = ⟨[], nai.kvCumulativeCrc, true⟩ := by
    rw [← hrncr]
    rfl
  have hsubs : ([⟨⟨nai.idx, k, RaftServer.subBytes (re.data.take re.header.dataSize)
      (RaftServer.subSizes re) k⟩, (RaftServer.subSupplements cb k rncr).ws⟩] :
      List AppBatch).map AppBatch.sub = (re.subEntries.drop nai'.subIdx).take 1 := by
    have hget := Entry.getElem?_subEntries hidle hsize
    change _ = (re.subEntries.drop nai.subIdx).take 1
    rw [hnow.1, List.take_one_drop_eq_of_lt_length (List.getElem?_eq_some_iff.mp hget).1,
      List.get_eq_getElem, (List.getElem?_eq_some_iff.mp hget).2, h.idx]
    rfl
  have hkv : sums → nai'.kvCumulativeCrc = kvCrc 0 (s.ri.store.db.supplements ++
      [⟨⟨nai.idx, k, RaftServer.subBytes (re.data.take re.header.dataSize)
        (RaftServer.subSizes re) k⟩, (RaftServer.subSupplements cb k rncr).ws⟩]) := by
    intro hs
    rw [kvCrc_append, ← h.kv hs]
    exact getKvCrc_subSupplements hsupp
  have hidx' : nai'.idx = re.header.index := h.idx
  have hla := h.ri.mem.advance (hidx.trans hindex) hre hindex (hidx'.trans hindex)
    (by rw [hsub, hnow.2]; exact hnow.1) h.subIdxMax (by exact hle) hsubs
    (fun hs => by rw [← Int.toNat_natCast idx, ← hindex]; exact h.crc hs) hkv
  have hrocks : s.ri.opts.storeType ≠ .posixFlatFile := by rw [h.ri.app]; simp
  have hsub' : nai'.subIdx = k := hnow.1
  have hmax : nai'.subIdxMax = re.header.numEntries - 1 := h.subIdxMax
  refine ⟨⟨h.ri.record hla, ?_, ?_, ?_, fun hmore => ?_, fun hdone _ => ?_, fun hs => ?_,
    fun hs => ?_⟩, hfuse, rfl⟩
  · rw [LastApplied.nextSub_idx]
    exact hidx'
  · rw [LastApplied.nextSub_subIdxMax]
    exact hmax
  · rw [LastApplied.nextSub_subIdx (by exact hle)]
    omega
  · change (RaftServer.nextApplyIdx (s.ri.lastApplied.moveTo nai')).idx = _ ∧
      (RaftServer.nextApplyIdx (s.ri.lastApplied.moveTo nai')).subIdx = _
    rw [RaftServer.nextApplyIdx, if_neg (by
      simp only [LastApplied.moveTo_subIdx, LastApplied.moveTo_subIdxMax]; omega)]
    simp only [LastApplied.moveTo_idx, LastApplied.moveTo_subIdx]
    exact ⟨hidx', by omega⟩
  · change (s.ri.lastApplied.moveTo nai').idx = _ ∧ (s.ri.lastApplied.moveTo nai').subIdx =
      (s.ri.lastApplied.moveTo nai').subIdxMax
    simp only [LastApplied.moveTo_idx, LastApplied.moveTo_subIdx, LastApplied.moveTo_subIdxMax]
    exact ⟨hidx', by omega⟩
  · rw [LastApplied.nextSub_cumulativeCrc]
    exact h.crc hs
  · rw [LastApplied.nextSub_kvCumulativeCrc, hkv hs, RaftInstance.recordApplied, if_pos hrocks]
    rfl

end ResumeLoop

/-- The entry that an apply takes is the next one of the log, and its checksums go on from those
of the entries before it. -/
structure NextOf [Externals] (sums : Prop) (log : List Entry) (ri : RaftInstance n) (re : Entry)
    (idx : Nat) : Prop where
  next : (RaftServer.nextApplyIdx ri.lastApplied).idx = idx
  index : re.header.index = idx
  get : log[idx]? = some re
  start : (RaftServer.nextApplyIdx ri.lastApplied).subIdx ≤ re.header.numEntries - 1
  crc : sums → (RaftServer.startRecord ri.lastApplied re).cumulativeCrc =
    entriesCrc (log.take (idx + 1))
  kv : sums → (RaftServer.startRecord ri.lastApplied re).kvCumulativeCrc =
    kvCrc 0 ri.store.db.supplements

namespace Resumable

variable [Externals] {sums : Prop} {log : List Entry} {ri ri' : RaftInstance n} {re : Entry}

theorem nextOf (h : Resumable sums log ri) (hlog : FollowsLog log ri)
    (hclean : sums → CleanResume ri) (hre : RaftServer.TakesNext ri re) :
    ∃ idx, NextOf sums log ri re idx := by
  have hidx := Int.toNat_of_nonneg hre.nonneg
  have hle := RaftServer.nextApplyIdx_le hre.needed
  have hget : log[(RaftServer.nextApplyIdx ri.lastApplied).idx.toNat]? = some re := by
    rw [← hlog _ (by omega)]
    exact hre.held
  have hkv : (RaftServer.startRecord ri.lastApplied re).kvCumulativeCrc =
      ri.lastApplied.kvCumulativeCrc := by
    unfold RaftServer.startRecord RaftServer.nextApplyIdx
    dsimp only
    split <;> rfl
  refine ⟨_, hidx.symm, hre.index.trans hidx.symm, hget, ?_, fun hs => ?_, fun hs => ?_⟩
  · have hres := hre.resumed
    have hsub := hre.subIdx
    unfold RaftServer.nextApplyIdx
    split
    · exact Nat.zero_le _
    · simp only
      omega
  · rw [entriesCrc_take_succ hget, ← (h.mem.summed hs).crc]
    rfl
  · rw [hkv]
    exact h.mem.kvCrc_all hs hget hre.index (hclean hs)

/-- An entry that gives the state machine nothing to do. -/
theorem skipped (h : Resumable sums log ri) {idx : Nat} (hnext : NextOf sums log ri re idx)
    (hidle : re.Idle) : Resumable sums log
      (ri.recordApplied (ri.lastApplied.moveTo (RaftServer.startRecord ri.lastApplied re)) none) := by
  have hnone : re.subEntries = [] := by rw [Entry.subEntries, if_pos hidle]
  have hkv : sums → (RaftServer.startRecord ri.lastApplied re).kvCumulativeCrc =
      kvCrc 0 (ri.store.db.supplements ++ []) := by
    rw [List.append_nil]
    exact hnext.kv
  have hidx : (RaftServer.startRecord ri.lastApplied re).idx = idx := hnext.next
  have hla := h.mem.advance hnext.next hnext.get hnext.index hidx rfl rfl hnext.start
    (by simp [hnone]) hnext.crc hkv
  exact h.record (by exact hla)

/-- Before the loop over the sub-entries. -/
theorem loop {s : Proc n} (h : Resumable sums log s.ri) {idx : Nat}
    (hnext : NextOf sums log s.ri re idx) :
    ResumeLoop sums log re (RaftServer.nextApplyIdx s.ri.lastApplied).subIdx 0
      (RaftServer.startRecord s.ri.lastApplied re) s where
  ri := h
  idx := hnext.next.trans hnext.index.symm
  subIdxMax := rfl
  subIdx := by
    rw [Nat.max_zero, Nat.min_eq_left hnext.start]
    rfl
  next := fun _ => ⟨hnext.next.trans hnext.index.symm, (Nat.max_zero _).symm⟩
  complete := fun _ hpos => absurd hpos (lt_irrefl 0)
  crc := fun hs => by rw [hnext.index, Int.toNat_natCast]; exact hnext.crc hs
  kv := hnext.kv

/-- An apply, however it ends. -/
theorem wp_stateMachineApply {cb : SmRequestCb} {s : Proc n} (h : Resumable sums log s.ri)
    (hlog : FollowsLog log s.ri) (hclean : sums → CleanResume s.ri) :
    (RaftServer.stateMachineApply cb).wp (fun _ s' => Resumable sums log s'.ri)
      (fun d => ∃ ri, Resumable sums log ri ∧ Survives ri d.ri) s := by
  refine RaftServer.wp_stateMachineApply_rule ⟨s.ri, h, .refl _⟩ (fun _ => h)
    (fun re hre hidle => ?_) fun re hre hidle => ?_
  all_goals obtain ⟨idx, hnext⟩ := h.nextOf hlog hclean hre
  · refine RaftServer.wp_setLastApplied_record (fun _ => ⟨s.ri, h, .refl _⟩)
      (fun _ => ⟨s.ri, h, ⟨rfl, rfl, rfl⟩⟩) fun fuse _ _ hle => ?_
    have hri := h.skipped hnext hidle
    exact RaftServer.wp_notifyIfNeedsApply ⟨_, hri, .refl _⟩ hri
  · have hloop := h.loop (s := { s with trace := s.trace ++ [.applies re.header.index
      re.header.term re.header.entrySz (re.data.take re.header.dataSize)] }) hnext
    refine wp_mono (RaftServer.wp_applySubEntries_all hloop
      (fun k nai s' hk hI => hI.skip hk) fun k size nai s' hsize hk hI => ?_) ?_ fun _ => id
    · refine wp_mono (hI.step hidle hnext.index hnext.get hnext.start hsize hk
        fun _ d hd => ⟨_, hI.ri, hd⟩) (fun _ _ h' => h'.1) fun _ => id
    · rintro _ s' ⟨nai', hI⟩
      exact ⟨fun _ => RaftServer.wp_notifyIfNeedsApply ⟨_, hI.ri, .refl _⟩ hI.ri,
        ⟨_, hI.ri, .refl _⟩⟩

/-- No other write has to do with what is applied. -/
theorem update {cause : Option (Packet n)} (h : Resumable sums log ri)
    (hup : Update cause ri ri') : Resumable sums log ri' := by
  have hdb := h.kept.db
  cases hup with
  | role | lead | slot | recovery | synced | newest | commit => exact { h with }
  | appliedSynced => exact { h with mem := h.mem.withSynced _ }
  | header => exact { h with kept := h.kept.put (by exact hdb) true }
  | flush => exact { h with kept := h.kept.put hdb true }
  | entry => exact { h with kept := h.kept.put (by exact hdb) _ }
  | truncate => exact { h with kept := h.kept.put (by exact hdb) true }

end Resumable

end NiovaRaft
