import NiovaRaft.Model.Apply
import NiovaRaft.Spec.Log

/-!
# What an apply computes

A sub-entry goes through four steps: its handle is built, the callback is called, the last-applied
record moves on, and the record is written with the supplements.  `wp_applyRequest` says what the
handle is, and `wp_setLastApplied_record` takes the last two steps together.
-/

namespace NiovaRaft

open Base Base.Handler

variable {n : Nat}

/-- The record of a server after the caller's record `nai` was taken over.  The checksums are those
of the last complete entry. -/
def LastApplied.moveTo (la nai : LastApplied) : LastApplied :=
  if nai.subIdx = nai.subIdxMax then
    { la with
      idx := nai.idx, subIdx := nai.subIdx, subIdxMax := nai.subIdxMax,
      cumulativeCrc := nai.cumulativeCrc, kvCumulativeCrc := nai.kvCumulativeCrc }
  else { la with idx := nai.idx, subIdx := nai.subIdx, subIdxMax := nai.subIdxMax }

/-- The caller's record after that: at the next sub-entry, if there is one. -/
def LastApplied.nextSub (nai : LastApplied) : LastApplied :=
  if nai.subIdx = nai.subIdxMax then nai else { nai with subIdx := nai.subIdx + 1 }

@[simp] theorem LastApplied.moveTo_idx (la nai : LastApplied) : (la.moveTo nai).idx = nai.idx := by
  unfold moveTo
  split <;> rfl

@[simp] theorem LastApplied.moveTo_subIdx (la nai : LastApplied) :
    (la.moveTo nai).subIdx = nai.subIdx := by
  unfold moveTo
  split <;> rfl

@[simp] theorem LastApplied.moveTo_subIdxMax (la nai : LastApplied) :
    (la.moveTo nai).subIdxMax = nai.subIdxMax := by
  unfold moveTo
  split <;> rfl

@[simp] theorem LastApplied.moveTo_syncedIdx (la nai : LastApplied) :
    (la.moveTo nai).syncedIdx = la.syncedIdx := by
  unfold moveTo
  split <;> rfl

@[simp] theorem LastApplied.nextSub_idx (nai : LastApplied) : nai.nextSub.idx = nai.idx := by
  unfold nextSub
  split <;> rfl

@[simp] theorem LastApplied.nextSub_subIdxMax (nai : LastApplied) :
    nai.nextSub.subIdxMax = nai.subIdxMax := by
  unfold nextSub
  split <;> rfl

@[simp] theorem LastApplied.nextSub_cumulativeCrc (nai : LastApplied) :
    nai.nextSub.cumulativeCrc = nai.cumulativeCrc := by
  unfold nextSub
  split <;> rfl

@[simp] theorem LastApplied.nextSub_kvCumulativeCrc (nai : LastApplied) :
    nai.nextSub.kvCumulativeCrc = nai.kvCumulativeCrc := by
  unfold nextSub
  split <;> rfl

theorem LastApplied.nextSub_subIdx {nai : LastApplied} (h : nai.subIdx ≤ nai.subIdxMax) :
    nai.nextSub.subIdx = min (nai.subIdx + 1) nai.subIdxMax := by
  unfold nextSub
  split
  · omega
  · simp only
    omega

/-- The last-applied record a persistent application finds. -/
def Db.applied (d : Db n) : LastApplied := d.lastApplied.getD LastApplied.initial

/-- The instance after the last-applied record was written. -/
def RaftInstance.recordApplied (ri : RaftInstance n) (la : LastApplied) (batch : Option AppBatch) :
    RaftInstance n :=
  { ri with
    lastApplied := la
    store := if ri.opts.storeType ≠ .posixFlatFile then
        ri.store.put (ri.store.db.apply la batch) false
      else ri.store }

/-- Something is left to apply. -/
def RaftInstance.Unapplied (ri : RaftInstance n) : Prop :=
  ri.lastApplied.idx < ri.commitIdx ∨
    (ri.lastApplied.idx = ri.commitIdx ∧ ri.lastApplied.subIdx < ri.lastApplied.subIdxMax)

instance (ri : RaftInstance n) : Decidable ri.Unapplied := inferInstanceAs (Decidable (_ ∨ _))

/-- The entry gives the state machine nothing to do. -/
def Entry.Idle (re : Entry) : Prop := re.header.leaderChangeMarker = true ∨ re.header.dataSize = 0

instance (re : Entry) : Decidable re.Idle := inferInstanceAs (Decidable (_ ∨ _))

namespace RaftServer

variable {α : Type} {s : Proc n} {D : Proc n → Prop}

/-- The handle that the callback is given for a sub-entry. -/
def applyHandle (ri : RaftInstance n) (reh : EntryHeader) (nai : LastApplied) (data : List UInt8)
    (size : Nat) : ClientRequestHandle where
  type := .commit
  writeRaftEntry := false
  isLeader := ri.isLeader
  isDirectReq := false
  entryTerm := ri.logHdr.term
  currentTerm := ri.logHdr.term
  applyHandlerVersion := reh.applyHandlerVersion
  requestOrCommitData := data
  requestOrCommitDataSize := size
  msgId := 0
  smWriteSupp := ⟨[], nai.kvCumulativeCrc, true⟩
  clientUuid := 0

@[simp] theorem wp_applyRequest {reh : EntryHeader} {nai : LastApplied} {data : List UInt8}
    {size : Nat} {Q : ClientRequestHandle → Proc n → Prop} :
    (applyRequest reh nai data size).wp Q D s ↔ Q (applyHandle s.ri reh nai data size) s := by
  have hinfo : (applyHandle s.ri reh nai data size).hasReplyInfo = false := rfl
  simp only [applyRequest, netClientRequestInitSmApply, netClientRequestInit, wp_bind, wp_getRi,
    wp_fatalIf, wp_assert, wp_pure]
  constructor
  · intro h
    exact (h.2 (by simp)).1 hinfo
  · intro h
    exact ⟨fun hbad => absurd hbad (by simp), fun _ => ⟨fun _ => h, fun hbad => absurd hinfo hbad⟩⟩

/-- The record moves on and is written, unless the process is killed. -/
theorem wp_setLastApplied_record {nai : LastApplied} {batch : Option AppBatch}
    {f : LastApplied → Server n α} {Q : α → Proc n → Prop}
    (hdead : ¬ (nai.idx ≥ s.ri.lastApplied.idx ∧ nai.subIdx ≤ nai.subIdxMax) → D s)
    (hkilled : s.fuse ≠ none →
      D { s with ri := { s.ri with lastApplied := s.ri.lastApplied.moveTo nai } })
    (hQ : ∀ fuse, (s.fuse = none → fuse = none) → s.ri.lastApplied.idx ≤ nai.idx →
      nai.subIdx ≤ nai.subIdxMax → (f nai.nextSub).wp Q D
        { s with ri := s.ri.recordApplied (s.ri.lastApplied.moveTo nai) batch, fuse := fuse }) :
    (do
      let nai' ← setLastApplied nai
      smApplyOpt batch
      f nai').wp Q D s := by
  -- what is left once the instance was changed
  have hrest : s.ri.lastApplied.idx ≤ nai.idx → nai.subIdx ≤ nai.subIdxMax →
      (smApplyOpt batch).wp (fun _ s' => (f nai.nextSub).wp Q D s') D
        { s with ri := { s.ri with lastApplied := s.ri.lastApplied.moveTo nai } } := by
    intro hidx hsub
    simp only [smApplyOpt, wp_bind, wp_getRi, wp_whenever]
    refine ⟨fun hrocks => wp_durable hkilled fun fuse hfuse => ?_, fun hflat => ?_⟩
    · have hfin := hQ fuse hfuse hidx hsub
      rw [RaftInstance.recordApplied, if_pos hrocks] at hfin
      exact hfin
    · have hfin := hQ s.fuse id hidx hsub
      rw [RaftInstance.recordApplied, if_neg hflat] at hfin
      exact hfin
  rw [setLastApplied]
  simp only [wp_bind, wp_getRi, wp_assert, wp_ite, wp_modifyRi, wp_pure]
  refine ⟨fun hge => ?_, hdead⟩
  have hfin := hrest hge.1 hge.2
  refine ⟨fun hlast => ?_, fun hmore => ?_⟩
  · rw [LastApplied.moveTo, if_pos hlast, LastApplied.nextSub, if_pos hlast] at hfin
    exact hfin
  · rw [LastApplied.moveTo, if_neg hmore, LastApplied.nextSub, if_neg hmore] at hfin
    exact hfin

/-- What the callback hands back for a sub-entry. -/
def subSupplements [Externals] (cb : SmRequestCb) (i : Nat) (rncr : ClientRequestHandle) :
    SmWriteSupplements :=
  (cb i rncr).foldl netSmWriteSupplementAdd rncr.smWriteSupp

/-- The record of the caller after the callback was called. -/
def afterCallback [Externals] (cb : SmRequestCb) (i : Nat) (rncr : ClientRequestHandle)
    (nai : LastApplied) : LastApplied :=
  { nai with kvCumulativeCrc := netSmWriteSupplementGetKvCrc (subSupplements cb i rncr) }

/-- One sub-entry. -/
theorem wp_applySubEntry [Externals] {cb : SmRequestCb} {reh : EntryHeader} {i : Nat}
    {data : List UInt8} {size : Nat} {nai : LastApplied} {Q : LastApplied → Proc n → Prop}
    {rncr : ClientRequestHandle} (hrncr : rncr = applyHandle s.ri reh nai data size)
    (hdead : ¬ (nai.idx ≥ s.ri.lastApplied.idx ∧ nai.subIdx ≤ nai.subIdxMax) →
      D { s with trace := s.trace ++ [.requests nai.idx i rncr] })
    (hkilled : s.fuse ≠ none → D { s with
      ri := { s.ri with lastApplied := s.ri.lastApplied.moveTo (afterCallback cb i rncr nai) },
      trace := s.trace ++ [.requests nai.idx i rncr] })
    (hQ : ∀ fuse, (s.fuse = none → fuse = none) → s.ri.lastApplied.idx ≤ nai.idx →
      nai.subIdx ≤ nai.subIdxMax → Q (afterCallback cb i rncr nai).nextSub { s with
        ri := s.ri.recordApplied (s.ri.lastApplied.moveTo (afterCallback cb i rncr nai))
          (some ⟨⟨nai.idx, i, data⟩, (subSupplements cb i rncr).ws⟩),
        trace := s.trace ++ [.requests nai.idx i rncr], fuse := fuse }) :
    (applySubEntry cb reh i data size nai).wp Q D s := by
  subst hrncr
  rw [applySubEntry, wp_bind, wp_applyRequest, wp_bind, wp_observe]
  exact wp_setLastApplied_record hdead hkilled hQ

/-- The bytes of sub-entry `i`, with the sizes of all. -/
def subBytes (data : List UInt8) (sizes : List Nat) (i : Nat) : List UInt8 :=
  (data.drop (sizes.take i).sum).take (sizes.getD i 0)

/-- The loop over the sub-entries keeps what each round keeps. -/
theorem wp_applySubEntries_rule [Externals] {cb : SmRequestCb} {reh : EntryHeader}
    {data : List UInt8} {sizes : List Nat} {I : Nat → LastApplied → Proc n → Prop}
    (hskip : ∀ k nai s, k < nai.subIdx → I k nai s → I (k + 1) nai s)
    (hstep : ∀ k size nai s, sizes[k]? = some size → nai.subIdx ≤ k → I k nai s →
      (applySubEntry cb reh k (subBytes data sizes k) size nai).wp (I (k + 1)) D s)
    {i : Nat} (hi : i ≤ sizes.length) {nai : LastApplied} (h : I i nai s) :
    (applySubEntries cb reh data (sizes.drop i) i (sizes.take i).sum nai).wp
      (fun _ s' => ∃ nai', I sizes.length nai' s') D s := by
  obtain ⟨m, hm⟩ : ∃ m, m = sizes.length - i := ⟨_, rfl⟩
  induction m generalizing i nai s with
  | zero =>
    obtain rfl : i = sizes.length := by omega
    rw [List.drop_length]
    exact ⟨nai, h⟩
  | succ m ih =>
    have hlt : i < sizes.length := by omega
    have hsum : (sizes.take i).sum + sizes[i] = (sizes.take (i + 1)).sum := by
      rw [List.take_add_one, List.sum_append, List.getElem?_eq_getElem hlt, Option.toList_some,
        List.sum_singleton]
    rw [List.drop_eq_getElem_cons hlt, applySubEntries, wp_ite, hsum]
    refine ⟨fun hskipped => ih (by omega) (hskip i nai s hskipped h) (by omega), fun hnext => ?_⟩
    rw [wp_bind]
    have hbytes : (data.drop (sizes.take i).sum).take sizes[i] = subBytes data sizes i := by
      simp [subBytes, hlt]
    rw [hbytes]
    refine wp_mono (hstep i _ nai s (List.getElem?_eq_getElem hlt) (not_lt.mp hnext) h)
      (fun nai' s' h' => ih (by omega) h' (by omega)) fun _ => id

theorem wp_applySubEntries_all [Externals] {cb : SmRequestCb} {reh : EntryHeader}
    {data : List UInt8} {sizes : List Nat} {I : Nat → LastApplied → Proc n → Prop}
    {nai : LastApplied} (h : I 0 nai s)
    (hskip : ∀ k nai s, k < nai.subIdx → I k nai s → I (k + 1) nai s)
    (hstep : ∀ k size nai s, sizes[k]? = some size → nai.subIdx ≤ k → I k nai s →
      (applySubEntry cb reh k (subBytes data sizes k) size nai).wp (I (k + 1)) D s) :
    (applySubEntries cb reh data sizes 0 0 nai).wp (fun _ s' => ∃ nai', I sizes.length nai' s') D s :=
  wp_applySubEntries_rule hskip hstep (Nat.zero_le _) h

/-- The wakeup changes nothing. -/
theorem wp_notifyIfNeedsApply {Q : Unit → Proc n → Prop} (hD : D s) (hQ : Q () s) :
    notifyIfNeedsApply.wp Q D s := by
  simp only [notifyIfNeedsApply, needsApply, wp_bind, wp_getRi, wp_assert, wp_pure]
  exact ⟨fun _ => hQ, fun _ => hD⟩

/-- The next entry is committed when one needs to be applied. -/
theorem nextApplyIdx_le {ri : RaftInstance n} (h : ri.Unapplied) :
    (nextApplyIdx ri.lastApplied).idx ≤ ri.commitIdx := by
  unfold RaftInstance.Unapplied at h
  unfold nextApplyIdx
  split
  · simp only
    omega
  · simp only
    omega

/-- What is applied next does not come before what was applied. -/
theorem le_nextApplyIdx (la : LastApplied) : la.idx ≤ (nextApplyIdx la).idx := by
  unfold nextApplyIdx
  split
  · exact Int.le_add_one (le_refl _)
  · exact le_refl _

/-- The sizes of the sub-entries that the loop goes through. -/
def subSizes (re : Entry) : List Nat := re.header.entrySz.take re.header.numEntries

/-- The record that an apply of `re` starts from. -/
def startRecord (la : LastApplied) (re : Entry) : LastApplied :=
  { nextApplyIdx la with
    subIdxMax := re.header.numEntries - 1
    cumulativeCrc := la.cumulativeCrc ^^^ re.header.crc }

/-- The server has applied nothing but committed entries, and `re` is the next to be applied. -/
structure TakesNext (ri : RaftInstance n) (re : Entry) : Prop where
  below : ri.lastApplied.idx ≤ ri.commitIdx
  needed : ri.Unapplied
  subIdx : ri.lastApplied.subIdx ≤ ri.lastApplied.subIdxMax
  nonneg : 0 ≤ (nextApplyIdx ri.lastApplied).idx
  lowest : ri.lowestIdx ≤ (nextApplyIdx ri.lastApplied).idx
  held : ri.store.db.entries[(nextApplyIdx ri.lastApplied).idx.toNat]? = some re
  index : re.header.index = (nextApplyIdx ri.lastApplied).idx
  resumed : ri.lastApplied.subIdx = ri.lastApplied.subIdxMax ∨
    re.header.numEntries = ri.lastApplied.subIdxMax + 1

/-- An apply does nothing, takes an entry for the state machine, or one that gives it nothing to
do.  It may die before it takes one. -/
theorem wp_stateMachineApply_rule [Externals] {cb : SmRequestCb} {Q : Unit → Proc n → Prop}
    (hdead : D s) (hidle : ¬ s.ri.Unapplied → Q () s)
    (hskip : ∀ re, TakesNext s.ri re → re.Idle →
      (do
        let _ ← setLastApplied (startRecord s.ri.lastApplied re)
        smApplyOpt none
        notifyIfNeedsApply : Server n Unit).wp Q D
      { s with trace := s.trace ++ [.applies re.header.index re.header.term re.header.entrySz []] })
    (htake : ∀ re, TakesNext s.ri re → ¬ re.Idle →
      (applySubEntries cb re.header (re.data.take re.header.dataSize) (subSizes re) 0 0
        (startRecord s.ri.lastApplied re)).wp
      (fun _ s' => (s'.ri.lastApplied.subIdx = s'.ri.lastApplied.subIdxMax →
        (notifyIfNeedsApply : Server n Unit).wp Q D s') ∧ D s') D
      { s with trace := s.trace ++ [.applies re.header.index re.header.term re.header.entrySz
        (re.data.take re.header.dataSize)] }) :
    (stateMachineApply cb).wp Q D s := by
  simp only [stateMachineApply, needsApply, getRaftHeaderToApply, wp_bind, wp_getRi, wp_assert,
    wp_pure, wp_whenever]
  refine ⟨fun hbelow => ⟨fun hneed => ⟨fun hsub => ?_, fun _ => hdead⟩, fun hnot => ?_⟩,
    fun _ => hdead⟩
  · have hneed : s.ri.Unapplied := by simpa [RaftInstance.Unapplied] using hneed
    refine wp_entryHeaderReadByStore_validated hdead (fun _ _ => hdead) fun re h0 hlow hre hidx => ?_
    simp only [wp_bind, wp_assert, wp_pure]
    refine ⟨fun hres => ?_, fun _ => hdead⟩
    have hnext : TakesNext s.ri re := ⟨hbelow, hneed, hsub, h0, hlow, hre, hidx, hres⟩
    rw [wp_ite]
    refine ⟨fun hempty => ?_, fun hfull => ?_⟩
    · rw [wp_bind, wp_observe]
      have h := hskip re hnext hempty
      rw [hidx] at h
      exact h
    · rw [wp_bind]
      refine wp_entryRead hdead (fun _ _ => hdead) fun re' _ hre' => ?_
      obtain rfl : re' = re := Option.some.inj (hre'.symm.trans hre)
      rw [wp_bind, wp_observe, wp_bind]
      have h := htake re' hnext hfull
      rw [hidx] at h
      refine wp_mono h (fun _ s' hs' => ?_) fun _ => id
      rw [wp_bind, wp_getRi, wp_bind, wp_assert]
      exact ⟨hs'.1, fun _ => hs'.2⟩
  · exact hidle (by simpa [RaftInstance.Unapplied] using hnot)

/-- Where the reads succeed, an apply takes the next entry. -/
theorem wp_stateMachineApply_next [Externals] {cb : SmRequestCb} {Q : Unit → Proc n → Prop}
    {re : Entry} (hc : Consistent s.ri) (hnext : TakesNext s.ri re)
    (hcrc : entryCalcCrc re = re.header.crc)
    (hskip : re.Idle →
      (do
        let _ ← setLastApplied (startRecord s.ri.lastApplied re)
        smApplyOpt none
        notifyIfNeedsApply : Server n Unit).wp Q D
      { s with trace := s.trace ++ [.applies re.header.index re.header.term re.header.entrySz []] })
    (htake : ¬ re.Idle →
      (applySubEntries cb re.header (re.data.take re.header.dataSize) (subSizes re) 0 0
        (startRecord s.ri.lastApplied re)).wp
      (fun _ s' => s'.ri.lastApplied.subIdx = s'.ri.lastApplied.subIdxMax ∧
        (notifyIfNeedsApply : Server n Unit).wp Q D s') D
      { s with trace := s.trace ++ [.applies re.header.index re.header.term re.header.entrySz
        (re.data.take re.header.dataSize)] }) :
    (stateMachineApply cb).wp Q D s := by
  have hheld := hnext.held
  have hlow := hnext.lowest
  have hhdr : ∀ {Q : Except Errno EntryHeader → Proc n → Prop}, Q (.ok re.header) s →
      (entryHeaderReadByStore (nextApplyIdx s.ri.lastApplied).idx).wp Q D s := by
    intro Q hQ
    rw [← Int.toNat_of_nonneg hnext.nonneg] at hlow ⊢
    exact wp_entryHeaderReadByStore_of_consistent hc hlow hheld hQ
  have hdata : ∀ {Q : Except Errno (List UInt8) → Proc n → Prop},
      Q (.ok (re.data.take re.header.dataSize)) s →
      (entryRead (nextApplyIdx s.ri.lastApplied).idx re.header.dataSize).wp Q D s := by
    intro Q hQ
    rw [← Int.toNat_of_nonneg hnext.nonneg] at hlow ⊢
    exact wp_entryRead_of_consistent hc hlow hheld hcrc hQ
  simp only [stateMachineApply, needsApply, getRaftHeaderToApply, wp_bind, wp_getRi, wp_assert,
    wp_pure, wp_whenever]
  refine ⟨fun _ => ⟨fun _ => ⟨fun _ => hhdr ?_, fun h => absurd hnext.subIdx h⟩, fun h => ?_⟩,
    fun h => absurd hnext.below h⟩
  · simp only [wp_bind, wp_assert, wp_pure]
    refine ⟨fun _ => ?_, fun h => absurd hnext.resumed h⟩
    rw [wp_ite]
    refine ⟨fun hempty => ?_, fun hfull => ?_⟩
    · rw [wp_bind, wp_observe]
      have h := hskip hempty
      rw [hnext.index] at h
      exact h
    · rw [wp_bind]
      refine hdata ?_
      rw [wp_bind, wp_observe, wp_bind]
      have h := htake hfull
      rw [hnext.index] at h
      refine wp_mono h (fun _ s' hs' => ?_) fun _ => id
      rw [wp_bind, wp_getRi, wp_bind, wp_assert]
      exact ⟨fun _ => hs'.2, fun hne => absurd hs'.1 hne⟩
  · refine absurd ?_ h
    simpa [RaftInstance.Unapplied] using hnext.needed

end RaftServer

end NiovaRaft
