import NiovaRaft.Follower.Acknowledgement

/-!
# Requests of an older term

A deposed leader's request should do nothing but be answered.  The check for a bulk recovery comes
before the one for the term, so a request that says its entry was compacted makes any server that
is far enough behind give up its database.
-/

namespace NiovaRaft

open Base Base.Handler RaftServer

variable {n : Nat}

/-- The state that no stale request may change. -/
structure Untouched (ri ri' : RaftInstance n) : Prop where
  term : ri'.logHdr.term = ri.logHdr.term
  votedFor : ri'.logHdr.votedFor = ri.logHdr.votedFor
  log : ri'.store.db.entries = ri.store.db.entries ∧ ri'.store.db.reaped = ri.store.db.reaped
  sync : ri'.newestSync = ri.newestSync
  unsync : ri'.newestUnsync = ri.newestUnsync
  commit : ri'.commitIdx = ri.commitIdx
  state : ri'.state = ri.state
  leader : ri'.csnLeader = ri.csnLeader
  recovery : ri'.needsBulkRecovery = ri.needsBulkRecovery
  handle : ri'.recoveryHandle = ri.recoveryHandle

theorem Untouched.refl (ri : RaftInstance n) : Untouched ri ri :=
  ⟨rfl, rfl, ⟨rfl, rfl⟩, rfl, rfl, rfl, rfl, rfl, rfl, rfl⟩

/-- The request passes for a valid one and says that its entry was compacted, and the log of the
server ends below what the sender still holds. -/
structure StartsRecovery (ri : RaftInstance n) (m : AppendEntriesRequestMsg) : Prop where
  prev : -1 ≤ m.prevLogIndex
  fits : m.entriesSz ≤ ri.entryMaxDataSize
  range : m.entryOutOfRange = true
  behind : ri.newestUnsync.index < m.lowestIndex

instance (ri : RaftInstance n) (m : AppendEntriesRequestMsg) : Decidable (StartsRecovery ri m) :=
  decidable_of_iff
    (-1 ≤ m.prevLogIndex ∧ m.entriesSz ≤ ri.entryMaxDataSize ∧ m.entryOutOfRange = true ∧
      ri.newestUnsync.index < m.lowestIndex)
    ⟨fun ⟨h1, h2, h3, h4⟩ => ⟨h1, h2, h3, h4⟩, fun ⟨h1, h2, h3, h4⟩ => ⟨h1, h2, h3, h4⟩⟩

section

variable [Externals] {ri : RaftInstance n} {sender : Fin n} {m : AppendEntriesRequestMsg}

/-- A request that needs no bulk recovery and is of an older term is answered, and that is all. -/
theorem wp_processValidAppendEntries_of_stale {s : Proc n} (h : m.leaderTerm < s.ri.logHdr.term)
    (updateSli : Bool) :
    (processValidAppendEntries sender m updateSli).wp (fun _ s' => s'.ri = s.ri) (fun _ => False)
      s := by
  simp only [processValidAppendEntries, processAppendEntriesTermCheckOps, wp_bind, wp_getRi, wp_ite,
    wp_pure]
  refine ⟨fun _ => ?_, fun hge => absurd h hge⟩
  simp only [appendEntryReplySend, wp_bind, wp_getRi, wp_sendMsg_some]

/-- A request that starts a recovery is not even answered. -/
theorem wp_processAppendEntriesRequest_of_recovery {s : Proc n} (h : StartsRecovery s.ri m) :
    (processAppendEntriesRequest sender m).wp (fun _ s' => s'.ri = { s.ri with
      needsBulkRecovery := true, recoveryHandle := ⟨some sender, m.chkptIndex, false⟩ })
      (fun _ => False) s := by
  have hvalid : processAppendEntriesRequestValidityCheck s.ri m = .ok () :=
    validityCheck_ok_iff.mpr ⟨h.prev, h.fits⟩
  have hlow : ¬ s.ri.currentIdx .unsync ≥ m.lowestIndex := not_le.mpr h.behind
  simp only [processAppendEntriesRequest, wp_bind, wp_getRi, hvalid, processBulkRecoveryCheck,
    wp_ite, h.range, wp_pure, wp_modifyRi]
  exact ⟨fun h => absurd h (by simp), fun _ => ⟨fun h => absurd h hlow, fun _ => trivial⟩⟩

/-- Any other request of an older term leaves the instance alone. -/
theorem wp_processAppendEntriesRequest_of_stale {s : Proc n} (h : m.leaderTerm < s.ri.logHdr.term)
    (hno : ¬ StartsRecovery s.ri m) :
    (processAppendEntriesRequest sender m).wp (fun _ s' => s'.ri = s.ri) (fun _ => False) s := by
  rw [processAppendEntriesRequest, wp_bind, wp_getRi]
  cases hvalid : processAppendEntriesRequestValidityCheck s.ri m with
  | error rc => exact rfl
  | ok u =>
    obtain ⟨hprev, hfits⟩ := validityCheck_ok_iff.mp hvalid
    simp only [processBulkRecoveryCheck, wp_bind, wp_getRi, wp_ite, wp_pure, wp_modifyRi]
    refine ⟨fun _ => wp_processValidAppendEntries_of_stale h false, fun hrange => ⟨fun _ =>
      wp_processValidAppendEntries_of_stale h true, fun hlow => ?_⟩⟩
    exact absurd ⟨hprev, hfits, by simpa using hrange, not_le.mp hlow⟩ hno

end

end NiovaRaft
