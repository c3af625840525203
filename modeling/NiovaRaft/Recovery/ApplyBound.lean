import NiovaRaft.Follower.StaleTerm
import NiovaRaft.Safety.LogMatching
import NiovaRaft.Spec.Startup
import NiovaRaft.Spec.Writes

/-!
# What was applied and what is committed

`raft_server_needs_apply` asserts that nothing was applied that is not committed.  A persistent
application keeps what it has applied across a restart, while the commit index starts again at
`-1`.  The first commit index it hears of wakes it to apply, also when that index is an old one.

The own count of a leader is no danger: it starts at the end of the log the leader was elected
with, and everything it had applied is in there.
-/

namespace NiovaRaft

open Base Base.Handler Refinement

variable {n : Nat}

/-- A message does not raise the commit index to one below what was applied: a request is of an
older term, or names no commit index between the two. -/
def RpcMsg.CoversApplied (ri : RaftInstance n) : RpcMsg n → Prop
  | .appendEntriesRequest m =>
      m.leaderTerm < ri.logHdr.term ∨ m.commitIndex ≤ ri.commitIdx ∨
        ri.lastApplied.idx ≤ m.commitIndex
  | _ => True

instance (ri : RaftInstance n) : ∀ msg : RpcMsg n, Decidable (msg.CoversApplied ri)
  | .appendEntriesRequest _ => inferInstanceAs (Decidable (_ ∨ _ ∨ _))
  | .preVoteRequest _ | .preVoteReply _ | .voteRequest _ | .voteReply _ | .appendEntriesReply _
  | .syncIdxUpdate _ => inferInstanceAs (Decidable True)

/-- The message of an event covers what its receiver has applied. -/
def CommitCovers (c : Cluster n) (e : Event n) : Prop :=
  ∀ pkt ∈ c.delivered e, pkt.msg.CoversApplied (c.servers e.server)

instance (c : Cluster n) (e : Event n) : Decidable (CommitCovers c e) :=
  inferInstanceAs (Decidable (∀ pkt ∈ c.delivered e, _))

/-! ## The invariant -/

/-- Between two handlers.  A leader that was elected in this process may have applied more than it
has committed, but nothing past the log it was elected with. -/
structure Applied (ri : RaftInstance n) : Prop where
  bounded : ri.commitIdx = -1 ∨ ri.lastApplied.idx ≤ ri.commitIdx
  leader : ri.state = .leader → ri.lastApplied.idx ≤ max ri.leader.initialTermIdx ri.commitIdx

/-- Within a handler that started with `ri₀`. -/
structure ApplyTracks (ri₀ ri : RaftInstance n) : Prop extends Applied ri where
  commit : ri₀.commitIdx ≤ ri.commitIdx
  applied : ri₀.lastApplied.idx ≤ ri.lastApplied.idx
  reach : ri.lastApplied.idx ≤ max ri₀.lastApplied.idx ri.commitIdx
  appliedSync : ri.lastApplied.idx ≤ ri.newestSync.index
  commitSync : ri.commitIdx ≤ ri.newestSync.index
  newest : ri.newestSync.index ≤ ri.newestUnsync.index

namespace ApplyTracks

variable [Externals] {ri₀ ri ri' : RaftInstance n} {cause : Option (Packet n)}

theorem update (h : ApplyTracks ri₀ ri)
    (hcause : ∀ pkt m, cause = some pkt → pkt.msg = .appendEntriesRequest m →
      m.commitIndex ≤ ri₀.commitIdx ∨ ri₀.lastApplied.idx ≤ m.commitIndex)
    (hup : Update cause ri ri') : ApplyTracks ri₀ ri' := by
  obtain ⟨⟨hb, hl⟩, h1, h2, h3, h4, h5, h6⟩ := id h
  cases hup with
  | slot | recovery | header | flush | appliedSynced | truncate =>
    exact ⟨⟨hb, hl⟩, h1, h2, h3, h4, h5, h6⟩
  | role state reason csn cand hrole =>
    refine { h with leader := fun hlead => hl ?_ }
    rcases hrole with hne | heq
    · exact absurd hlead hne
    · rw [← heq]
      exact hlead
  | lead heq => exact { h with leader := fun _ => le_max_of_le_left h4 }
  | synced hrec =>
    refine ⟨⟨hb, hl⟩, h1, h2, h3, ?_, ?_, ?_⟩
    all_goals simp only [RaftServer.updateHdr]
    all_goals split <;> omega
  | entry term data sizes marker hterm hidx hsizes hfits =>
    have hre : (ri.nextEntry term data sizes marker).header.index = ri.newestUnsync.index + 1 := rfl
    generalize ri.nextEntry term data sizes marker = re at hre ⊢
    refine ⟨⟨hb, hl⟩, h1, h2, h3, ?_, ?_, ?_⟩
    all_goals simp only [RaftInstance.storeEntry]
    all_goals split <;> omega
  | newest re hcommit happlied hread => exact ⟨⟨hb, hl⟩, h1, h2, h3, happlied, hcommit, le_refl _⟩
  | commit idx hlt hsync hsrc =>
    have hle : ri.lastApplied.idx ≤ idx := by
      cases hsrc with
      | leader hlead hinit =>
        have := hl hlead
        omega
      | request pkt m hpkt hm hidx =>
        have := hcause pkt m hpkt hm
        omega
    exact ⟨⟨.inr hle, fun _ => le_max_of_le_right hle⟩, by simp only; omega, h2,
      le_max_of_le_right hle, h4, hsync, h6⟩

omit [Externals] in
theorem recordApplied (h : ApplyTracks ri₀ ri) (la : LastApplied) (batch : Option AppBatch)
    (hidx : ri.lastApplied.idx ≤ la.idx) (hcommit : la.idx ≤ ri.commitIdx) :
    ApplyTracks ri₀ (ri.recordApplied la batch) := by
  obtain ⟨-, h1, h2, h3, h4, h5, h6⟩ := h
  exact ⟨⟨.inr hcommit, fun _ => le_max_of_le_right hcommit⟩, h1, le_trans h2 hidx,
    le_max_of_le_right hcommit, le_trans hcommit h5, h5, h6⟩

end ApplyTracks

section

variable [Externals] {c : Cluster n} {e : Event n}

omit [Externals] in
/-- A handler starts where the last one ended. -/
theorem Applied.tracks {w : ClusterWorld n} {p : Fin n} {ri : RaftInstance n} (h : Applied ri)
    (hst : Stored w p ri) (hcommit : (w.peer p).commit ≤ (w.peer p).synced) :
    ApplyTracks ri ri := by
  have h1 := hst.sync_index
  have h2 := hst.applied
  have h3 := hst.commit
  exact ⟨h, le_refl _, le_refl _, le_max_left _ _, by omega, by omega, hst.cons.sync_index_le⟩

omit [Externals] in
/-- A restarted process has nothing committed and does not lead. -/
theorem Applied.restart (ri : RaftInstance n) (keep : Nat) : Applied (Cluster.restart ri keep) := by
  have h := RaftServer.instanceRun_loaded ri.self ri.opts
    (ri.store.recoverable.getD keep ri.store.db)
  exact ⟨.inl h.commit, fun hlead => absurd hlead h.state⟩

/-- The handler of an event at a running server. -/
theorem Applied.wp_handler {w : ClusterWorld n} (h : Applied (c.servers e.server))
    (hst : Stored w e.server (c.servers e.server))
    (hcommit : (w.peer e.server).commit ≤ (w.peer e.server).synced) (hcovers : CommitCovers c e) :
    (c.handler e).wp (fun _ s => Applied s.ri) (fun _ => True) (c.proc e) := by
  have htracks := h.tracks hst hcommit
  -- a request of an older term is not taken
  by_cases hstale : ∃ pkt m, c.delivered e = some pkt ∧ pkt.msg = .appendEntriesRequest m ∧
      m.leaderTerm < (c.servers e.server).logHdr.term
  · obtain ⟨pkt, m, hdel, hmsg, hlt⟩ := hstale
    have hact : c.handler e = RaftServer.processAppendEntriesRequest pkt.src m := by
      rw [Cluster.handler_of_delivered hdel, hmsg]
      rfl
    rw [hact]
    by_cases hrec : StartsRecovery (c.servers e.server) m
    · refine wp_mono (wp_processAppendEntriesRequest_of_recovery hrec) (fun _ s hs => ?_)
        fun _ h => h.elim
      rw [hs]
      exact { h with }
    · refine wp_mono (wp_processAppendEntriesRequest_of_stale hlt hrec) (fun _ s hs => ?_)
        fun _ h => h.elim
      rw [hs]
      exact h
  · have hcause : ∀ pkt m, c.delivered e = some pkt → pkt.msg = .appendEntriesRequest m →
        m.commitIndex ≤ (c.servers e.server).commitIdx ∨
          (c.servers e.server).lastApplied.idx ≤ m.commitIndex := by
      intro pkt m hdel hmsg
      have hc := hcovers pkt hdel
      rw [hmsg] at hc
      exact hc.resolve_left fun hlt => hstale ⟨pkt, m, hdel, hmsg, hlt⟩
    have hkeeps : Cluster.Keeps c e (ApplyTracks (c.servers e.server)) :=
      { write := fun _ _ hri hup => hri.update hcause hup
        refresh := fun _ _ _ _ hri _ _ => { hri with }
        apply := Cluster.keeps_apply
          fun _ la batch hri hidx hcommit _ _ =>
            hri.recordApplied la batch hidx hcommit
        compact := Cluster.keeps_compact (fun _ hri _ _ => { hri with })
          fun _ _ hri _ _ => { hri with } }
    exact wp_mono (hkeeps.wp_handler htracks) (fun _ s hs => hs.1.toApplied) fun _ _ => trivial

/-- One event. -/
theorem Applied.step {opts : Fin n → Options} (hreach : Cluster.Reach CommitCovers opts c)
    (h : ∀ p, Applied (c.servers p)) (hcovers : CommitCovers c e) (p : Fin n) :
    Applied ((c.step e).servers p) := by
  by_cases hp : p = e.server
  · subst hp
    by_cases hen : c.enabled e = true
    · refine Cluster.step_server hen ?_
      by_cases hrun : (c.servers e.server).procState = .running
      · obtain ⟨w, hw⟩ := hreach.coupled_noRules
        have hst := ((hw.servers e.server).ok hrun).stored
        exact wp_mono ((h e.server).wp_handler hst (hw.reach.basic.commit_le _) hcovers)
          (fun _ _ hs => hs) fun d _ => Applied.restart d.ri e.keep
      · rw [Cluster.handler_of_not_running hen hrun]
        exact Applied.restart _ e.keep
    · rw [Cluster.step, if_neg hen]
      exact h _
  · rw [Cluster.step_servers_of_ne hp]
    exact h p

theorem Applied.of_reach {opts : Fin n → Options} (h : Cluster.Reach CommitCovers opts c)
    (p : Fin n) : Applied (c.servers p) := by
  induction h generalizing p with
  | init =>
    have hl := RaftServer.instanceRun_loaded p (opts p) (RaftServer.freshDb : Db n)
    exact ⟨.inl hl.commit, fun hlead => absurd hlead hl.state⟩
  | step e h he ih => exact Applied.step h ih he p

/-! ## Applying -/

/-- Where the assertion of `raft_server_needs_apply` holds, now and with commit index `idx`. -/
def BelowCommit (idx : Int) (s : Proc n) : Prop :=
  s.ri.lastApplied.idx ≤ idx ∧ s.ri.commitIdx = idx

omit [Externals] in
theorem BelowCommit.moveTo {s s' : Proc n} {idx : Int} {nai : LastApplied} (h : BelowCommit idx s)
    (hle : nai.idx ≤ idx) (hcommit : s'.ri.commitIdx = s.ri.commitIdx)
    (hla : s'.ri.lastApplied = s.ri.lastApplied.moveTo nai) : BelowCommit idx s' := by
  refine ⟨?_, hcommit.trans h.2⟩
  rw [hla, LastApplied.moveTo_idx]
  exact hle

theorem wp_applySubEntries_below {cb : SmRequestCb} {reh : EntryHeader} {data : List UInt8}
    {idx : Int} (sizes : List Nat) (i offset : Nat) (nai : LastApplied) {s : Proc n}
    (h : BelowCommit idx s) (hle : nai.idx ≤ idx) :
    (RaftServer.applySubEntries cb reh data sizes i offset nai).wp (fun _ => BelowCommit idx)
      (BelowCommit idx) s := by
  induction sizes generalizing i offset nai s with
  | nil => exact h
  | cons size sizes ih =>
    rw [RaftServer.applySubEntries, wp_ite]
    refine ⟨fun _ => ih _ _ _ h hle, fun _ => ?_⟩
    rw [wp_bind]
    refine RaftServer.wp_applySubEntry rfl (fun _ => h) (fun _ => h.moveTo (by exact hle) rfl rfl)
      fun fuse _ _ _ => ih _ _ _ (h.moveTo (by exact hle) rfl rfl) ?_
    rw [LastApplied.nextSub_idx]
    exact hle

/-- However an apply ends, the assertion held whenever it was evaluated: where it fails, the
process dies with more applied than committed. -/
theorem wp_stateMachineApply_below {cb : SmRequestCb} {s : Proc n} {idx : Int}
    (h : BelowCommit idx s) :
    (RaftServer.stateMachineApply cb).wp (fun _ => BelowCommit idx) (BelowCommit idx) s := by
  have hle : ∀ re, RaftServer.TakesNext s.ri re →
      (RaftServer.startRecord s.ri.lastApplied re).idx ≤ idx := by
    intro re hnext
    rw [← h.2]
    exact RaftServer.nextApplyIdx_le hnext.needed
  refine RaftServer.wp_stateMachineApply_rule h (fun _ => h) (fun re hnext _ => ?_)
    fun re hnext _ => ?_
  · refine RaftServer.wp_setLastApplied_record (fun _ => h) (fun _ => h.moveTo (hle re hnext) rfl rfl)
      fun fuse _ _ _ => RaftServer.wp_notifyIfNeedsApply ?_ ?_
    all_goals exact h.moveTo (hle re hnext) rfl rfl
  · refine wp_mono (wp_applySubEntries_below _ _ _ _ (by exact h) (hle re hnext))
      (fun _ s₁ h₁ => ?_) fun _ => id
    exact ⟨fun _ => RaftServer.wp_notifyIfNeedsApply h₁ h₁, h₁⟩

end

/-- In every run in which no request of a leader names a commit index between the receiver's own and
what it has applied, a server that is woken to apply has applied nothing but committed entries, and
so it stays until it has applied the next one.  What wakes a server is that its commit index was
raised, so it is not negative. -/
theorem apply_bounded [Externals] {opts : Fin n → Options} {c : Cluster n}
    (h : Cluster.Reach CommitCovers opts c) {p : Fin n}
    (hwoken : 0 ≤ (c.servers p).commitIdx) :
    (c.servers p).lastApplied.idx ≤ (c.servers p).commitIdx ∧
      ∀ cb out trace fuse, (RaftServer.stateMachineApply cb).wp
        (fun _ s => s.ri.lastApplied.idx ≤ s.ri.commitIdx)
        (fun d => d.ri.lastApplied.idx ≤ d.ri.commitIdx) ⟨c.servers p, out, trace, fuse⟩ := by
  have hle : (c.servers p).lastApplied.idx ≤ (c.servers p).commitIdx := by
    rcases (Applied.of_reach h p).bounded with hnone | hle
    · omega
    · exact hle
  refine ⟨hle, fun cb out trace fuse => ?_⟩
  have hbelow : BelowCommit (c.servers p).commitIdx ⟨c.servers p, out, trace, fuse⟩ := ⟨hle, rfl⟩
  refine wp_mono (wp_stateMachineApply_below hbelow) ?_ ?_
  · rintro _ s ⟨h1, h2⟩
    rwa [h2]
  · rintro d ⟨h1, h2⟩
    rwa [h2]

/-- Server 0 leads and replicates its marker and a request to server 1, which applies both and is
restarted with the record of that.  Of the heartbeats it was sent, message 10 names commit index 0
and message 16 names 1. -/
def restartedApplied : List (Event 3) :=
  [.expire 0, .deliver 1 0, .deliver 0 2, .deliver 1 3, .deliver 0 5, .send 0, .deliver 1 6,
    .deliver 0 8, .sync 0, .sync 1, .send 1, .deliver 0 9, .heartbeat 0, .write 0 [7, 8], .send 0,
    .deliver 1 12, .deliver 0 14, .sync 0, .sync 1, .send 1, .deliver 0 15, .heartbeat 0,
    .deliver 1 16, .apply 1, .apply 1, ⟨1, .crash, none, 2⟩]

/-- It hears of the newer commit index again. -/
def newerCommit : List (Event 3) := restartedApplied ++ [.deliver 1 16]

/-- It hears of the older one. -/
def olderCommit : List (Event 3) := restartedApplied ++ [.deliver 1 10]

theorem apply_bounded_newerCommit :
    0 ≤ ((afterAppRun newerCommit).servers 1).commitIdx ∧
      ((afterAppRun newerCommit).servers 1).lastApplied.idx ≤
        ((afterAppRun newerCommit).servers 1).commitIdx := by
  have hwoken : 0 ≤ ((afterAppRun newerCommit).servers 1).commitIdx := by decide +kernel
  exact ⟨hwoken, (@apply_bounded 3 sampleExternals _ _
    (reach_afterAppRun_of (by decide +kernel)) 1 hwoken).1⟩

/-- With more applied than committed, an apply dies at its first check. -/
theorem stateMachineApply_dies [Externals] {ri : RaftInstance n}
    (h : ri.commitIdx < ri.lastApplied.idx) (cb : SmRequestCb) :
    ∃ d, RaftServer.stateMachineApply cb ⟨ri, [], [], none⟩ = .abort d := by
  have hwp : (RaftServer.stateMachineApply cb).wp (fun _ _ => False) (fun _ => True)
      (⟨ri, [], [], none⟩ : Proc n) := by
    simp only [RaftServer.stateMachineApply, RaftServer.needsApply, wp_bind, RaftServer.wp_getRi,
      wp_assert]
    exact ⟨fun hle => absurd hle (not_le.mpr h), fun _ => trivial⟩
  cases hres : RaftServer.stateMachineApply cb ⟨ri, [], [], none⟩ with
  | ok u s' => exact (wp_of_ok hres hwp).elim
  | abort d => exact ⟨d, rfl⟩

/-- The older commit index wakes the server, and it dies. -/
theorem olderCommit_dies :
    @Cluster.Reach 3 sampleExternals Cluster.anyEvent appServers (afterAppRun olderCommit) ∧
      Cluster.serves ((afterAppRun olderCommit).servers 1) = true ∧
      0 ≤ ((afterAppRun olderCommit).servers 1).commitIdx ∧
      ¬ ((afterAppRun olderCommit).servers 1).lastApplied.idx ≤
        ((afterAppRun olderCommit).servers 1).commitIdx ∧
      ∀ cb, ∃ d, @RaftServer.stateMachineApply 3 sampleExternals cb
        ⟨(afterAppRun olderCommit).servers 1, [], [], none⟩ = .abort d := by
  have hserves : Cluster.serves ((afterAppRun olderCommit).servers 1) = true := by decide +kernel
  have hwoken : 0 ≤ ((afterAppRun olderCommit).servers 1).commitIdx := by decide +kernel
  have hlt : ((afterAppRun olderCommit).servers 1).commitIdx <
      ((afterAppRun olderCommit).servers 1).lastApplied.idx := by decide +kernel
  exact ⟨reach_afterAppRun _, hserves, hwoken, not_le.mpr hlt,
    @stateMachineApply_dies 3 sampleExternals _ hlt⟩

end NiovaRaft
