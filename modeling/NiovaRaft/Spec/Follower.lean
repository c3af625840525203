import NiovaRaft.Spec.AppendEntries

/-!
# A follower and a request to append

What `raft_server_process_append_entries_request` may do at a follower, as one specification:
`Handled` lists the ways in which it returns, with what they leave in the log and at the commit
index.  The request is arbitrary.
-/

namespace NiovaRaft

variable {n : Nat}

open Base Base.Handler RaftServer

/-- A follower that has taken the term of a request. -/
structure TermTaken (ri ri' : RaftInstance n) (m : AppendEntriesRequestMsg) : Prop where
  cons : Consistent ri'
  follower : ri'.state = .follower
  opts : ri'.opts = ri.opts
  same : SameLog ri ri' m.leaderTerm

/-- The log ends with the entry before the carried one. -/
structure EndsBefore (ri : RaftInstance n) (m : AppendEntriesRequestMsg) : Prop where
  cons : Consistent ri
  index : ri.newestUnsync.index = m.prevLogIndex
  term : ri.newestUnsync.term = m.prevLogTerm
  low : ri.lowestIdx ≤ m.prevLogIndex

/-- How a follower `ri` handles a request: the instance afterwards, and the reply. -/
inductive Handled (ri : RaftInstance n) (m : AppendEntriesRequestMsg) (ri' : RaftInstance n) :
    Option AppendEntriesReplyMsg → Prop
  /-- There is no reply. -/
  | ignored (commit : ri'.commitIdx = ri.commitIdx) : Handled ri m ri' none
  /-- The reply has a mark. -/
  | marked {r : AppendEntriesReplyMsg} (commit : ri'.commitIdx = ri.commitIdx)
      (mark : ¬ Clean r) : Handled ri m ri' (some r)
  /-- The request is out of bounds, which the reply does not say. -/
  | refused {r : AppendEntriesReplyMsg} (valid : -1 ≤ m.prevLogIndex)
      (fits : m.entriesSz ≤ ri.entryMaxDataSize) (range : m.entryOutOfRange = false)
      (stale : ri.logHdr.term ≤ m.leaderTerm)
      (bounds : appendEntryRequestBoundsCheck ri m = .error .EBADR)
      (same : SameLog ri ri' m.leaderTerm) : Handled ri m ri' (some r)
  /-- The request is already stored. -/
  | stored {r : AppendEntriesReplyMsg} (fits : m.entriesSz ≤ ri.entryMaxDataSize)
      (shortcut : TakesShortcut ri m)
      (entries : ri'.store.db.entries = ri.store.db.entries)
      (reaped : ri'.store.db.reaped = ri.store.db.reaped)
      (commit : ri'.commitIdx = max ri.commitIdx (min m.commitIndex (syncIdxFor ri m))) :
      Handled ri m ri' (some r)
  /-- A heartbeat finds the log to end where it says. -/
  | kept {r : AppendEntriesReplyMsg} (heartbeat : m.heartbeatMsg = true)
      (last : 0 ≤ m.prevLogIndex → (ri'.store.db.read m.prevLogIndex.toNat).map Entry.term =
        some m.prevLogTerm)
      (valid : -1 ≤ m.prevLogIndex)
      (commit : ri'.commitIdx = ri.commitIdx ∨
        (ri'.commitIdx = m.commitIndex ∧ m.commitIndex ≤ m.prevLogIndex)) :
      Handled ri m ri' (some r)
  /-- The carried entry is stored. -/
  | appended {r : AppendEntriesReplyMsg} (heartbeat : m.heartbeatMsg = false)
      (term : 0 < m.logTerm)
      (next : (ri'.store.db.read (m.prevLogIndex + 1).toNat).map Entry.term = some m.logTerm)
      (valid : -1 ≤ m.prevLogIndex)
      (commit : ri'.commitIdx = ri.commitIdx ∨
        (ri'.commitIdx = m.commitIndex ∧ m.commitIndex ≤ m.prevLogIndex + 1)) :
      Handled ri m ri' (some r)

/-- The entry that a follower makes of a request. -/
def RaftInstance.entryFromLeader [Externals] (ri : RaftInstance n)
    (m : AppendEntriesRequestMsg) : Entry :=
  RaftServer.entryOf ri ri.store.db.entries.length m.logTerm m.entries (m.sizeArr.take (m.numEntries % 256))
    m.leaderChangeMarker

namespace RaftServer

variable {s : Proc n} {D : Proc n → Prop} {m : AppendEntriesRequestMsg} {sender : Fin n}

/-- `raft_server_process_append_entries_term_check_ops` at a follower, which only dies when it is
killed. -/
theorem wp_processAppendEntriesTermCheckOps {Q : Except Errno Unit → Proc n → Prop}
    (hc : Consistent s.ri) (hf : s.ri.state = .follower) (hD : s.fuse ≠ none → ∀ s', D s')
    (hstale : m.leaderTerm < s.ri.logHdr.term → Q (.error .ESTALE) s)
    (hQ : s.ri.logHdr.term ≤ m.leaderTerm → ∀ s', s'.out = s.out →
      (s.fuse = none → s'.fuse = none) → TermTaken s.ri s'.ri m → Q (.ok ()) s') :
    (processAppendEntriesTermCheckOps sender m).wp Q D s := by
  simp only [processAppendEntriesTermCheckOps, setLeaderCsn, wp_bind, wp_getRi, wp_ite, wp_pure,
    wp_modifyRi, RaftInstance.isCandidate, RaftInstance.isCandidatePrevote, RaftInstance.isLeader,
    RaftInstance.isFollower, hf]
  refine ⟨hstale, fun hle => ⟨fun h => absurd h (by simp), fun _ => ⟨fun h => absurd h (by simp),
    fun _ => ⟨fun hlt => ?_, fun hge => ?_⟩⟩⟩⟩
  · simp only [tryUpdateLogHeaderNullVotedForPeer, updateLogHeader, wp_bind, wp_getRi, wp_whenever,
      wp_assert]
    refine ⟨fun _ => ⟨fun _ => ?_, fun h => absurd hlt.1 h⟩, fun h => absurd hlt.1 h⟩
    refine wp_logHeaderWrite hc hlt.1 (fun h => hD h _) (fun h _ => hD h _) fun fuse hfuse => ?_
    refine hQ (le_of_lt hlt.1) _ rfl hfuse ⟨?_, hf, rfl, ?_⟩
    · obtain ⟨h1, h2, h3, h4, h5⟩ := (hc.withHeader (nextHeader s.ri none m.leaderTerm)).flushed
      exact ⟨h1, h2, h3, h4, h5⟩
    · obtain ⟨h1, h2, h3, h4, h5, h6, h7⟩ :=
        SameLog.of_header (h := nextHeader s.ri none m.leaderTerm) hc hlt.1
      exact ⟨h1, h2, h3, h4, h5, h6, h7⟩
  · have heq : ¬ s.ri.logHdr.term < m.leaderTerm := fun h => hge ⟨h, by simp⟩
    refine hQ (not_lt.mp hle) _ rfl id ⟨?_, rfl, rfl, ?_⟩
    · exact ⟨hc.entries, hc.unsync, hc.sync, hc.reaped, hc.applied⟩
    · exact ⟨rfl, rfl, rfl, by rw [if_neg heq], rfl, rfl, rfl⟩

/-- `raft_server_advance_commit_idx`. -/
theorem wp_advanceCommitIdx {idx : Int} {Q : Unit → Proc n → Prop}
    (hQ : ∀ trace ci, ci = (if s.ri.commitIdx < idx ∧ idx ≤ s.ri.newestSync.index then idx
      else s.ri.commitIdx) → Q () { s with ri := { s.ri with commitIdx := ci }, trace := trace }) :
    (advanceCommitIdx idx).wp Q D s := by
  simp only [advanceCommitIdx, wp_bind, wp_getRi, wp_whenever, wp_modifyRi, wp_observe]
  exact ⟨fun h => hQ _ _ (if_pos h).symm, fun h => hQ s.trace _ (if_neg h).symm⟩

section Write

variable [Externals]

/-- `raft_server_write_new_entry_from_leader`: the log is one entry longer. -/
theorem wp_writeNewEntryFromLeader_entry {Q : Unit → Proc n → Prop} (hc : Consistent s.ri)
    (hD : D s) (hheart : m.heartbeatMsg = false)
    (hQ : ∀ fuse, 0 < m.logTerm →
      Q () { s with ri := s.ri.withEntry (s.ri.entryFromLeader m), fuse := fuse }) :
    (writeNewEntryFromLeader m).wp Q D s := by
  simp only [writeNewEntryFromLeader, wp_bind, wp_getRi, wp_assert, wp_ite, wp_pure]
  refine ⟨fun _ => ⟨fun h => absurd h (by simp [hheart]), fun _ => ?_⟩, fun _ => hD⟩
  refine ⟨fun hpos => ⟨fun _ => ⟨fun _ => ⟨fun _ => ⟨fun _ => ⟨fun _ => ?_, fun _ => hD⟩,
    fun _ => hD⟩, fun _ => hD⟩, fun _ => hD⟩, fun _ => hD⟩, fun _ => hD⟩
  exact wp_writeNextEntry hc (fun _ => hD) fun fuse _ _ _ _ => hQ fuse hpos

theorem wp_writeNewEntryFromLeader {Q : Unit → Proc n → Prop} (hc : Consistent s.ri) (hD : D s)
    (hheart : m.heartbeatMsg = false)
    (hQ : ∀ (re : Entry) fuse, re.header.index = s.ri.store.db.entries.length →
      re.term = m.logTerm → 0 < m.logTerm →
      Q () { s with ri := s.ri.withEntry re, fuse := fuse }) :
    (writeNewEntryFromLeader m).wp Q D s :=
  wp_writeNewEntryFromLeader_entry hc hD hheart fun fuse hpos => hQ _ fuse rfl rfl hpos

/-- The rest of the handler once the logs were found to agree. -/
theorem wp_processAppendEntriesOutcome_ok {ri : RaftInstance n} {out : List (Fin n × RpcMsg n)}
    (hend : EndsBefore s.ri m) (hprev : -1 ≤ m.prevLogIndex)
    (hcommit : s.ri.commitIdx = ri.commitIdx) (hout : s.out = out) :
    (processAppendEntriesOutcome m (.ok ()) >>= fun nonMatching =>
      appendEntryReplySend m sender false nonMatching false (.ok ())).wp
      (fun _ s' => ∃ r, s'.out = out ++ [(sender, .appendEntriesReply r)] ∧
        Handled ri m s'.ri (some r)) (fun _ => True) s := by
  have hlen := hend.cons.unsync_index
  have hindex := hend.index
  have hreaped := hend.cons.reaped
  have hlow := hend.low
  have hsync := hend.cons.sync_index_le
  simp only [processAppendEntriesOutcome, appendEntryReplySend, wp_bind, wp_whenever, wp_pure,
    wp_getRi, wp_sendMsg_some]
  refine ⟨fun hheart => ?_, fun hheart => ?_⟩
  · refine wp_writeNewEntryFromLeader hend.cons trivial hheart fun re fuse hidx hterm hpos => ?_
    refine wp_advanceCommitIdx fun trace ci hci =>
      ⟨_, by rw [← hout], .appended hheart hpos ?_ hprev ?_⟩
    · change Option.map Entry.term (Db.read { s.ri.store.db with
        entries := s.ri.store.db.entries ++ [re] } (m.prevLogIndex + 1).toNat) = _
      have hpos : (m.prevLogIndex + 1).toNat = s.ri.store.db.entries.length := by omega
      have hnot : s.ri.store.db.reaped ≤ (m.prevLogIndex + 1).toNat := by omega
      rw [Db.read, if_pos hnot, hpos, List.getElem?_concat_length, Option.map_some, hterm]
    · have hnew : (s.ri.withEntry re).newestSync.index ≤ m.prevLogIndex + 1 := by
        unfold RaftInstance.withEntry
        dsimp only
        split <;> omega
      change ci = _ ∨ ci = _ ∧ _
      split at hci
      · rename_i hadv
        exact .inr ⟨hci, le_trans hadv.2 hnew⟩
      · exact .inl (hci.trans hcommit)
  · have hheart' : m.heartbeatMsg = true := by simpa using hheart
    refine wp_advanceCommitIdx fun trace ci hci => ⟨_, by rw [← hout], .kept hheart' ?_ hprev ?_⟩
    · intro h0
      have hlt : m.prevLogIndex.toNat < s.ri.store.db.entries.length := by omega
      have hlast : lastHeader s.ri.store.db.entries =
          (s.ri.store.db.entries[m.prevLogIndex.toNat]).header := by
        have hnext := EntriesOk.lastHeader_take_succ (List.getElem?_eq_getElem hlt)
        have hall : m.prevLogIndex.toNat + 1 = s.ri.store.db.entries.length := by omega
        rw [hall, List.take_length] at hnext
        exact hnext
      change Option.map Entry.term (s.ri.store.db.read m.prevLogIndex.toNat) = _
      rw [Db.read, if_pos (by omega), List.getElem?_eq_getElem hlt, Option.map_some, Entry.term,
        ← hlast, ← hend.cons.unsync, hend.term]
    · change ci = _ ∨ ci = _ ∧ _
      split at hci
      · rename_i hadv
        exact .inr ⟨hci, le_trans hadv.2 (by omega)⟩
      · exact .inl (hci.trans hcommit)

/-- The rest of the handler once the follower has the term of the request. -/
theorem wp_processTermTaken {ri : RaftInstance n} {out : List (Fin n × RpcMsg n)}
    (hprev : -1 ≤ m.prevLogIndex) (hfits : m.entriesSz ≤ ri.entryMaxDataSize)
    (hrange : m.entryOutOfRange = false) (hstale : ri.logHdr.term ≤ m.leaderTerm)
    (ht : TermTaken ri s.ri m) (hout : s.out = out) :
    (appendEntryLogPrepareAndCheck m >>= fun rc =>
      processAppendEntriesOutcome m rc >>= fun nonMatching =>
        appendEntryReplySend m sender false nonMatching false rc).wp
      (fun _ s' => ∃ r, s'.out = out ++ [(sender, .appendEntriesReply r)] ∧
        Handled ri m s'.ri (some r)) (fun _ => True) s := by
  have hmarked : ∀ (rc : Errno) (s' : Proc n), rc ≠ .EBADR → rc ≠ .EALREADY → s'.out = out →
      s'.ri.commitIdx = ri.commitIdx →
      (processAppendEntriesOutcome m (.error rc) >>= fun nonMatching =>
        appendEntryReplySend m sender false nonMatching false (.error rc)).wp
        (fun _ s' => ∃ r, s'.out = out ++ [(sender, .appendEntriesReply r)] ∧
          Handled ri m s'.ri (some r)) (fun _ => True) s' := by
    intro rc s' h1 h2 hout' hcommit
    cases rc
    case EBADR => exact absurd rfl h1
    case EALREADY => exact absurd rfl h2
    all_goals
      refine ⟨_, by rw [← hout'], .marked hcommit ?_⟩
      simp [Clean, processAppendEntriesRequestPrepReply]
  rw [wp_bind]
  refine wp_appendEntryLogPrepareAndCheck ht.cons trivial (fun _ _ _ => trivial) (fun _ => trivial)
    ?_ ?_ ?_ ?_
  · intro rc hb
    rw [ht.same.bounds] at hb
    have hne := bounds_error (by rw [hb]; simp)
    rw [hb, Except.error.injEq] at hne
    subst hne
    exact ⟨_, by rw [← hout], .refused hprev hfits hrange hstale hb ht.same⟩
  · intro hb _ hstored
    simp only [processAppendEntriesOutcome, appendEntryReplySend, wp_bind, wp_getRi, wp_pure,
      wp_sendMsg_some]
    refine wp_advanceCommitIdx fun trace ci hci => ⟨_, by rw [← hout], .stored hfits
      ⟨hstale, ht.same.bounds ▸ hb, ht.same.alreadyStored.mp hstored⟩ ht.same.entries
      ht.same.reaped ?_⟩
    change ci = _
    have hsync : s.ri.currentIdx .sync = syncIdxFor ri m := ht.same.syncIdx
    rw [hci, ← ht.same.syncIdx, ← ht.same.commit, hsync, ← ht.same.syncIdx]
    split <;> omega
  · intro fuse hb h0 hprun _ rc hrc
    have hlen := ht.cons.unsync_index
    have hle : (m.prevLogIndex + 1).toNat ≤ s.ri.flushed.store.db.entries.length := by
      have := (hprun.held h0).2
      rw [flushed_entries]
      omega
    split at hrc
    · subst hrc
      exact hmarked .EEXIST _ (by simp) (by simp) hout ht.same.commit
    · rename_i hterm
      subst hrc
      refine wp_processAppendEntriesOutcome_ok ⟨ht.cons.flushed.cutDown hle, ?_, ?_, ?_⟩ hprev
        ht.same.commit hout
      · change (lastHeader _).index = _
        rw [ht.cons.flushed.entries.lastHeader_take_index hle]
        omega
      · change (lastHeader _).term = _
        rw [flushed_entries]
        exact not_not.mp hterm
      · exact (hprun.held h0).1
  · intro hb hle rc hrc
    split at hrc
    · subst hrc
      exact hmarked .ERANGE _ (by simp) (by simp) hout ht.same.commit
    · split at hrc
      · subst hrc
        exact hmarked .EEXIST _ (by simp) (by simp) hout ht.same.commit
      · rename_i hnlt hterm
        subst hrc
        exact wp_processAppendEntriesOutcome_ok
          ⟨ht.cons, by omega, not_not.mp hterm, (bounds_ok_iff.mp hb).2.1⟩ hprev ht.same.commit hout

omit [Externals] in
/-- A request is valid when it names an index and its entry fits. -/
theorem validityCheck_ok_iff {ri : RaftInstance n} :
    processAppendEntriesRequestValidityCheck ri m = .ok () ↔
      -1 ≤ m.prevLogIndex ∧ m.entriesSz ≤ ri.entryMaxDataSize := by
  unfold processAppendEntriesRequestValidityCheck
  split
  · simp
    omega
  · simp
    omega

/-- `raft_server_process_append_entries_request` at a follower. -/
theorem wp_processAppendEntriesRequest (hc : Consistent s.ri) (hf : s.ri.state = .follower) :
    (processAppendEntriesRequest sender m).wp
      (fun _ s' => ∃ r : Option AppendEntriesReplyMsg,
        s'.out = s.out ++ (r.map fun r => (sender, .appendEntriesReply r)).toList ∧
          Handled s.ri m s'.ri r) (fun _ => True) s := by
  rw [processAppendEntriesRequest, wp_bind, wp_getRi]
  cases hv : processAppendEntriesRequestValidityCheck s.ri m with
  | error rc => exact ⟨none, by simp, .ignored rfl⟩
  | ok u =>
    obtain ⟨hprev, hfits⟩ := validityCheck_ok_iff.mp hv
    -- a reply that is sent before the logs are compared has a mark
    have hmarked : ∀ (s' : Proc n) (stale updateSli : Bool) (rc : Except Errno Unit),
        stale = true ∨ updateSli = true → s'.out = s.out → s'.ri.commitIdx = s.ri.commitIdx →
        (appendEntryReplySend m sender stale false updateSli rc).wp
          (fun _ s' => ∃ r : Option AppendEntriesReplyMsg,
            s'.out = s.out ++ (r.map fun r => (sender, .appendEntriesReply r)).toList ∧
              Handled s.ri m s'.ri r) (fun _ => True) s' := by
      intro s' stale updateSli rc hmark hout hcommit
      refine ⟨some (processAppendEntriesRequestPrepReply s'.ri m stale false updateSli rc),
        by simp [hout], .marked hcommit ?_⟩
      rcases hmark with h | h <;> simp [Clean, processAppendEntriesRequestPrepReply, h]
    simp only [processBulkRecoveryCheck, wp_bind, wp_getRi, wp_ite, wp_pure, wp_modifyRi]
    refine ⟨fun hrange => ?_, fun hrange => ⟨fun _ => ?_, fun _ => ⟨none, by simp, .ignored rfl⟩⟩⟩
    · simp only [processValidAppendEntries, wp_bind]
      refine wp_processAppendEntriesTermCheckOps hc hf (fun _ _ => trivial)
        (fun _ => hmarked s true false _ (.inl rfl) rfl rfl) fun hstale s' hout _ ht => ?_
      simp only [wp_ite]
      refine ⟨fun h => absurd h (by simp), fun _ => ?_⟩
      refine wp_mono (wp_processTermTaken hprev hfits hrange hstale ht hout) ?_ fun _ => id
      rintro _ s'' ⟨r, hr, hh⟩
      exact ⟨some r, by simp [hr], hh⟩
    · simp only [processValidAppendEntries, wp_bind]
      refine wp_processAppendEntriesTermCheckOps hc hf (fun _ _ => trivial)
        (fun _ => hmarked s true true _ (.inl rfl) rfl rfl) fun _ s' hout _ ht => ?_
      simp only [wp_ite]
      exact ⟨fun _ => hmarked s' false true _ (.inr rfl) hout ht.same.commit,
        fun h => absurd trivial h⟩

/-- A process that is not killed refuses a request that is out of bounds, without a mark. -/
theorem wp_processAppendEntriesRequest_of_bounds (hc : Consistent s.ri)
    (hf : s.ri.state = .follower) (hfuse : s.fuse = none) (hprev : -1 ≤ m.prevLogIndex)
    (hfits : m.entriesSz ≤ s.ri.entryMaxDataSize) (hrange : m.entryOutOfRange = false)
    (hstale : s.ri.logHdr.term ≤ m.leaderTerm)
    (hb : appendEntryRequestBoundsCheck s.ri m ≠ .ok ()) :
    (processAppendEntriesRequest sender m).wp
      (fun _ s' => (∃ r, Clean r ∧ (sender, .appendEntriesReply r) ∈ s'.out) ∧
        SameLog s.ri s'.ri m.leaderTerm) (fun _ => False) s := by
  rw [processAppendEntriesRequest, wp_bind, wp_getRi, validityCheck_ok_iff.mpr ⟨hprev, hfits⟩]
  simp only [processBulkRecoveryCheck, wp_bind, wp_getRi, wp_ite, wp_pure]
  refine ⟨fun _ => ?_, fun h => absurd hrange h⟩
  simp only [processValidAppendEntries, wp_bind]
  refine wp_processAppendEntriesTermCheckOps hc hf (fun h => absurd hfuse h)
    (fun h => absurd hstale (not_le.mpr h)) fun _ s' _ _ ht => ?_
  simp only [wp_ite, wp_bind]
  refine ⟨fun h => absurd h (by simp), fun _ => ?_⟩
  have hb' : appendEntryRequestBoundsCheck s'.ri m = .error .EBADR := by
    rw [ht.same.bounds]
    exact bounds_error hb
  rw [appendEntryLogPrepareAndCheck, wp_bind, wp_getRi, hb']
  refine ⟨⟨_, ?_, List.mem_append_right _ (List.mem_singleton.mpr rfl)⟩, ht.same⟩
  simp [Clean, processAppendEntriesRequestPrepReply]

/-- A process that is not killed takes the shortcut for a request that is already stored. -/
theorem wp_processAppendEntriesRequest_of_shortcut (hc : Consistent s.ri)
    (hf : s.ri.state = .follower) (hfuse : s.fuse = none)
    (hfits : m.entriesSz ≤ s.ri.entryMaxDataSize) (hst : TakesShortcut s.ri m) :
    (processAppendEntriesRequest sender m).wp
      (fun _ s' => s'.ri.commitIdx = max s.ri.commitIdx (min m.commitIndex (syncIdxFor s.ri m)))
      (fun _ => False) s := by
  obtain ⟨hstale, hb, hstored⟩ := hst
  rw [processAppendEntriesRequest, wp_bind, wp_getRi,
    validityCheck_ok_iff.mpr ⟨hstored.prev, hfits⟩]
  simp only [processBulkRecoveryCheck, wp_bind, wp_getRi, wp_ite, wp_pure]
  refine ⟨fun _ => ?_, fun h => absurd (bounds_ok_iff.mp hb).2.2 h⟩
  simp only [processValidAppendEntries, wp_bind]
  refine wp_processAppendEntriesTermCheckOps hc hf (fun h => absurd hfuse h)
    (fun h => absurd hstale (not_le.mpr h)) fun _ s' _ _ ht => ?_
  simp only [wp_ite, wp_bind]
  refine ⟨fun h => absurd h (by simp), fun _ => ?_⟩
  have hb' : appendEntryRequestBoundsCheck s'.ri m = .ok () := by rw [ht.same.bounds, hb]
  have hstored' := ht.same.alreadyStored.mpr hstored
  rw [appendEntryLogPrepareAndCheck, wp_bind, wp_getRi, hb']
  simp only [wp_ite]
  refine ⟨fun _ => ?_, fun h => absurd hstored'.ahead h⟩
  simp only [followerIndexAheadOfLeader, wp_bind]
  refine wp_appendEntryCheckAlreadyStored_of_stored ht.cons ht.follower hb' hstored' ?_
  simp only [if_true, wp_bind, wp_getRi, wp_pure, processAppendEntriesOutcome,
    appendEntryReplySend, wp_sendMsg_some]
  refine wp_advanceCommitIdx fun trace ci hci => ?_
  change ci = _
  have hsync : s'.ri.currentIdx .sync = syncIdxFor s.ri m := ht.same.syncIdx
  rw [hci, ← ht.same.syncIdx, ← ht.same.commit, hsync, ← ht.same.syncIdx]
  split <;> omega

end Write

end RaftServer

end NiovaRaft
