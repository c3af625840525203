import NiovaRaft.Model.Node
import NiovaRaft.Spec.Startup
import NiovaRaft.Spec.Writes

/-!
# Terms and votes of one server

Every handler that writes the log header raises the term in it, and a vote is granted only in a
term that was raised for it.  So the persisted term never falls, and the votes of a term are for
one candidate, whatever the peers send and wherever the process is killed.

A bulk recovery replaces the header by that of a peer's checkpoint, which may be of an older term.
-/

namespace NiovaRaft

open Base Base.Handler

variable {n : Nat}

/-- A recovery is completed with a checkpoint whose header is not of an older term. -/
def RecoversNewer (x : Node n) : NodeEvent n → Prop
  | .finish => ∀ db ∈ x.staged, x.term ≤ db.hdr.term
  | _ => True

instance (x : Node n) : ∀ e : NodeEvent n, Decidable (RecoversNewer x e)
  | .finish => inferInstanceAs (Decidable (∀ db ∈ x.staged, _))
  | .handle _ _ | .stage _ => inferInstanceAs (Decidable True)

/-- All votes of a term are for one candidate. -/
def OneCandidate (votes : List (Int × Fin n)) : Prop :=
  ∀ v ∈ votes, ∀ v' ∈ votes, v.1 = v'.1 → v.2 = v'.2

/-! ## The log header -/

/-- The header of a server: all that a crash may leave behind has the one in memory. -/
structure HeaderKept (p : Fin n) (ri : RaftInstance n) : Prop where
  self : ri.self = p
  mem : ri.logHdr = ri.store.db.hdr
  kept : ri.store.Keeps fun d => d.hdr = ri.store.db.hdr

/-- The header within a handler that started with `ri₀`: it is still the one of then, or one of a
newer term. -/
structure HeaderTracks (p : Fin n) (ri₀ ri : RaftInstance n) : Prop extends HeaderKept p ri where
  newer : ri.store.db.hdr = ri₀.store.db.hdr ∨ ri₀.store.db.hdr.term < ri.store.db.hdr.term

section

variable {p : Fin n} {ri₀ ri ri' : RaftInstance n}

theorem HeaderKept.put (h : HeaderKept p ri) {db : Db n} (hdb : db.hdr = ri.store.db.hdr)
    (flushed : Bool) :
    (ri.store.put db flushed).Keeps fun d => d.hdr = (ri.store.put db flushed).db.hdr := by
  have hkeeps := h.kept.put hdb flushed
  exact hkeeps.mono fun d hd => hd.trans hdb.symm

theorem HeaderTracks.update [Externals] {cause : Option (Packet n)} (h : HeaderTracks p ri₀ ri)
    (hup : Update cause ri ri') : HeaderTracks p ri₀ ri' := by
  obtain ⟨⟨hself, hmem, hkept⟩, hnewer⟩ := id h
  cases hup with
  | role | lead | slot | recovery | synced | appliedSynced | newest | commit => exact { h with }
  | header cand term hlt =>
    refine ⟨⟨hself, rfl, .of_flushed rfl rfl⟩, .inr ?_⟩
    have hterm : ri.logHdr.term = ri.store.db.hdr.term := by rw [hmem]
    change ri₀.store.db.hdr.term < term
    rcases hnewer with heq | hlt'
    · rw [heq] at hterm
      omega
    · omega
  | flush => exact ⟨⟨hself, hmem, h.put (by rfl) true⟩, hnewer⟩
  | entry => exact ⟨⟨hself, hmem, h.put (by rfl) _⟩, hnewer⟩
  | truncate => exact ⟨⟨hself, hmem, h.put (by rfl) true⟩, hnewer⟩

theorem HeaderTracks.recordApplied (h : HeaderTracks p ri₀ ri) (la : LastApplied)
    (batch : Option AppBatch) : HeaderTracks p ri₀ (ri.recordApplied la batch) := by
  obtain ⟨⟨hself, hmem, hkept⟩, hnewer⟩ := id h
  unfold RaftInstance.recordApplied
  split
  · exact ⟨⟨hself, hmem, h.put (by rfl) false⟩, hnewer⟩
  · exact ⟨⟨hself, hmem, hkept⟩, hnewer⟩

theorem HeaderTracks.keeps [Externals] {c : Cluster n} {e : Event n} :
    Cluster.Keeps c e (HeaderTracks p ri₀) where
  write := fun _ _ hri hup => hri.update hup
  refresh := fun _ _ _ _ hri _ _ => { hri with }
  apply := Cluster.keeps_apply
    fun _ la batch hri _ _ _ _ => hri.recordApplied la batch
  compact := Cluster.keeps_compact
    (fun _ hri _ _ => ⟨⟨hri.self, hri.mem, hri.put (by rfl) true⟩, hri.newer⟩)
    fun _ _ hri _ _ => ⟨⟨hri.self, hri.mem, hri.put (by rfl) true⟩, hri.newer⟩

/-- A started server has the header it found. -/
theorem LoadedFrom.headerKept {o : Options} {d : Db n} (h : LoadedFrom p o d ri) :
    HeaderKept p ri ∧ ri.store.db.hdr = d.hdr := by
  have hdb : ri.store.db.hdr = d.hdr := by rw [h.db]
  exact ⟨⟨h.self, by rw [h.hdr, hdb], .of_flushed h.flushed rfl⟩, hdb⟩

/-- A restarted process has the header of the killed one. -/
theorem HeaderKept.restart {d : RaftInstance n} (h : HeaderKept p ri) (hsurv : Survives ri d)
    (keep : Nat) : HeaderKept p (Cluster.restart d keep) ∧
      (Cluster.restart d keep).store.db.hdr = ri.store.db.hdr := by
  have hloaded := (RaftServer.instanceRun_loaded d.self d.opts
    (d.store.recoverable.getD keep d.store.db)).headerKept
  have hhdr := h.kept.getD keep
  rw [← hsurv.store] at hhdr
  rw [hsurv.self, h.self] at hloaded
  rw [Cluster.restart, hsurv.self, h.self]
  exact ⟨hloaded.1, by rw [hloaded.2, hhdr, hsurv.store]⟩

theorem HeaderTracks.restart {d : RaftInstance n} (h : HeaderTracks p ri₀ ri)
    (hsurv : Survives ri d) (keep : Nat) : HeaderTracks p ri₀ (Cluster.restart d keep) := by
  obtain ⟨hkept, heq⟩ := h.toHeaderKept.restart hsurv keep
  exact ⟨hkept, by rw [heq]; exact h.newer⟩

end

/-! ## Granting a vote -/

namespace RaftServer

variable {s : Proc n}

theorem wp_backendSyncPending_frame : backendSyncPending.wp
    (fun _ s' => s'.out = s.out ∧ s'.ri.self = s.ri.self ∧ s'.ri.logHdr = s.ri.logHdr)
      (fun d => d.out = s.out) s := by
  rw [backendSyncPending, wp_bind]
  refine wp_hasUnsyncedEntries rfl ?_
  rw [wp_whenever]
  refine ⟨fun _ => ?_, fun _ => ⟨rfl, rfl, rfl⟩⟩
  exact wp_mono wp_backendSync_syncedFrom (fun _ _ h => ⟨h.out, h.self, h.logHdr⟩) fun _ => id

/-- To follow a candidate in a newer term is to persist a vote for it. -/
theorem wp_becomesFollower_vote {term : Int} {leader : Fin n} (hne : leader ≠ s.ri.self) :
    (becomesFollower term (some leader) .votedForPeer).wp
      (fun _ s' => s'.out = s.out ∧ s'.ri.store.db.hdr.term = term ∧
        s'.ri.store.db.hdr.votedFor = some leader) (fun d => d.out = s.out) s := by
  simp only [becomesFollower, wp_bind, wp_getRi, wp_whenever, follow, wp_modifyRi, wp_assert,
    setLeaderCsn, updateLogHeader]
  refine ⟨fun _ => ⟨fun hgt => ⟨fun _ => ⟨fun _ => ?_, fun _ => trivial⟩, fun heq => ?_⟩,
    fun _ => trivial⟩, fun h => absurd hne h⟩
  · refine wp_mono wp_logHeaderWrite_headerWritten (fun _ s' h => ?_) fun _ => id
    exact ⟨h.out, h.hdrTerm, h.hdrVotedFor⟩
  · exact absurd (not_not.mp heq) (ne_of_gt hgt)

/-- A vote is granted to the sender of the request only, and by then it is persisted in a term
that is newer than the one before. -/
theorem wp_processVoteRequestCommon_grant {sender : Fin n} {vreq : VoteRequestMsg}
    (hne : sender ≠ s.ri.self) :
    (processVoteRequestCommon sender false vreq).wp
      (fun _ s' => ∃ reply, s'.out = s.out ++ [(sender, .voteReply reply)] ∧
        (reply.votedGranted = true → s.ri.logHdr.term < vreq.proposedTerm ∧
          s'.ri.store.db.hdr.term = vreq.proposedTerm ∧
          s'.ri.store.db.hdr.votedFor = some sender))
      (fun d => d.out = s.out) s := by
  rw [processVoteRequestCommon, wp_bind]
  refine wp_mono wp_backendSyncPending_frame (fun _ s₁ h₁ => ?_) fun _ => id
  obtain ⟨hout, hself, hlog⟩ := h₁
  simp only [wp_bind, wp_getRi, wp_whenever, wp_sendMsg_some, Bool.false_eq_true, if_false]
  refine ⟨fun hgrant => ?_, fun hno => ?_⟩
  · have hnewer : s.ri.logHdr.term < vreq.proposedTerm := by
      have hdecide := hgrant.2
      simp only [processVoteRequestDecide, Bool.not_eq_true', decide_eq_false_iff_not, not_or,
        not_le] at hdecide
      rw [← hlog]
      exact hdecide.1
    rw [← hself] at hne
    refine wp_mono (wp_becomesFollower_vote hne) (fun _ s₂ h₂ => ?_) fun d hd => hd.trans hout
    exact ⟨_, by rw [h₂.1, hout], fun _ => ⟨hnewer, h₂.2⟩⟩
  · exact ⟨_, by rw [hout], fun hyes => absurd ⟨trivial, hyes⟩ hno⟩

end RaftServer

/-! ## Runs -/

section

variable [Externals] {p : Fin n}

/-- A server in a run: its header, and the votes it has cast. -/
structure VotesKept (p : Fin n) (x : Node n) : Prop extends HeaderKept p x.ri where
  votes : ∀ v ∈ x.votes, v.1 ≤ x.term
  one : OneCandidate x.votes

omit [Externals] in
/-- Votes of one term, newer than those before. -/
theorem VotesKept.cast {x : Node n} {ri : RaftInstance n} {cast : List (Int × Fin n)} {q : Fin n}
    (h : VotesKept p x) (hkept : HeaderKept p ri)
    (hterm : x.term ≤ ri.store.db.hdr.term)
    (hcast : ∀ v ∈ cast, v = (ri.store.db.hdr.term, q) ∧ x.term < ri.store.db.hdr.term) :
    VotesKept p { x with ri := ri, votes := x.votes ++ cast } := by
  refine ⟨hkept, ?_, ?_⟩
  · intro v hv
    rcases List.mem_append.mp hv with hv | hv
    · exact le_trans (h.votes v hv) hterm
    · rw [(hcast v hv).1]
      exact le_refl _
  · -- a vote of then and one of now are of different terms
    have hmixed : ∀ v ∈ x.votes, ∀ v' ∈ cast, v.1 ≠ v'.1 := by
      intro v hv v' hv' heq
      obtain ⟨rfl, hlt⟩ := hcast v' hv'
      have hle := h.votes v hv
      simp only at heq
      omega
    intro v hv v' hv' heq
    rcases List.mem_append.mp hv with hv | hv
    · rcases List.mem_append.mp hv' with hv' | hv'
      · exact h.one v hv v' hv' heq
      · exact absurd heq (hmixed v hv v' hv')
    · rcases List.mem_append.mp hv' with hv' | hv'
      · exact absurd heq.symm (hmixed v' hv' v hv)
      · rw [(hcast v hv).1, (hcast v' hv').1]

omit [Externals] in
/-- What is a granted vote. -/
theorem grantOf_eq_some {src dst : Fin n} {msg : RpcMsg n} {cause : Option (RpcMsg n)}
    {v : Int × Fin n} (h : Node.grantOf ⟨src, dst, msg, cause⟩ = some v) :
    ∃ vreq reply, cause = some (.voteRequest vreq) ∧ msg = .voteReply reply ∧
      reply.votedGranted = true ∧ v = (vreq.proposedTerm, dst) := by
  unfold Node.grantOf at h
  split at h
  · rename_i reply vreq hmsg hcause
    split at h
    · rename_i hgranted
      exact ⟨vreq, reply, hcause, hmsg, hgranted, (Option.some.inj h).symm⟩
    · cases h
  · cases h

/-- The handler of an event, and what takes over from it. -/
theorem wp_handler_votes {x : Node n} {mail : List (Packet n)} {e : Event n}
    (h : HeaderKept p x.ri) (hacc : x.accepts mail e = true) :
    ((x.cluster mail).handler e).wp
      (fun _ s => HeaderTracks p x.ri s.ri ∧ ∀ m ∈ s.out, ∀ v,
        Node.grantOf ⟨e.server, m.1, m.2, ((x.cluster mail).delivered e).map (·.msg)⟩ = some v →
          x.term < v.1 ∧ s.ri.store.db.hdr.term = v.1 ∧ s.ri.store.db.hdr.votedFor = some v.2 ∧
          v.2 ≠ p)
      (fun d => (∃ ri, HeaderTracks p x.ri ri ∧ Survives ri d.ri) ∧ ∀ m ∈ d.out, ∀ v,
        Node.grantOf ⟨e.server, m.1, m.2, ((x.cluster mail).delivered e).map (·.msg)⟩ ≠ some v)
      ((x.cluster mail).proc e) := by
  have hself : HeaderTracks p x.ri ((x.cluster mail).servers e.server) := ⟨h, .inl rfl⟩
  have hwrites := wp_mono (HeaderTracks.keeps.wp_handler hself) (fun _ s h => h.1) fun d h => h.1
  by_cases hreq : ∃ pkt vreq, (x.cluster mail).delivered e = some pkt ∧ pkt.msg = .voteRequest vreq
  · obtain ⟨pkt, vreq, hdel, hmsg⟩ := hreq
    have hne : pkt.src ≠ x.ri.self := by
      have hmem : pkt ∈ mail := (Cluster.delivered_mem hdel).1
      simp only [Node.accepts, decide_eq_true_eq] at hacc
      exact hacc.2.2 pkt hmem
    have hgrant := @RaftServer.wp_processVoteRequestCommon_grant n ((x.cluster mail).proc e) _ vreq hne
    have hhandler : (x.cluster mail).handler e =
        RaftServer.processVoteRequestCommon pkt.src false vreq := by
      rw [Cluster.handler_of_delivered hdel, hmsg]
      rfl
    rw [hhandler] at hwrites ⊢
    refine wp_intro (fun _ s' hres => ?_) fun d hres => ?_
    · have htracks := wp_of_ok hres hwrites
      obtain ⟨reply, hout, hyes⟩ := wp_of_ok hres hgrant
      refine ⟨htracks, fun m hm v hv => ?_⟩
      have hm : m = (pkt.src, .voteReply reply) := by
        rw [hout] at hm
        exact List.mem_singleton.mp hm
      obtain ⟨vreq', reply', hcause, hreply, hgranted, rfl⟩ := grantOf_eq_some hv
      subst hm
      rw [hdel, Option.map_some, hmsg] at hcause
      injection hcause with hcause
      injection hcause with hcause
      injection hreply with hreply
      subst hcause hreply
      obtain ⟨hnewer, hterm, hvoted⟩ := hyes hgranted
      refine ⟨?_, hterm, hvoted, ?_⟩
      · have hlog : x.ri.logHdr.term = x.term := by rw [h.mem]; rfl
        rw [← hlog]
        exact hnewer
      · rw [← h.self]
        exact hne
    · have htracks := wp_of_abort hres hwrites
      have hout := wp_of_abort hres hgrant
      refine ⟨htracks, fun m hm => ?_⟩
      rw [hout] at hm
      cases hm
  · have hnone : ∀ (m : Fin n × RpcMsg n) v, Node.grantOf
        ⟨e.server, m.1, m.2, ((x.cluster mail).delivered e).map (·.msg)⟩ ≠ some v := by
      intro m v hv
      obtain ⟨vreq, _, hcause, -⟩ := grantOf_eq_some hv
      obtain ⟨pkt, hdel, hmsg⟩ := Option.map_eq_some_iff.mp hcause
      exact hreq ⟨pkt, vreq, hdel, hmsg⟩
    refine wp_mono hwrites (fun _ s' hs' => ⟨hs', fun m _ v hv => absurd hv (hnone m v)⟩)
      fun d hd => ⟨hd, fun m _ v => hnone m v⟩

omit [Externals] in
/-- A handler that grants a vote has persisted it, so it has not voted for itself. -/
theorem cast_one {x : Node n} {ri : RaftInstance n} {grants : List (Int × Fin n)}
    (hself : x.ri.self = p) (htracks : HeaderTracks p x.ri ri)
    (hgrants : ∀ v ∈ grants, x.term < v.1 ∧ ri.store.db.hdr.term = v.1 ∧
      ri.store.db.hdr.votedFor = some v.2 ∧ v.2 ≠ p) :
    ∃ q, ∀ v ∈ Node.selfVote x.ri ri ++ grants,
      v = (ri.store.db.hdr.term, q) ∧ x.term < ri.store.db.hdr.term := by
  have hown : ∀ v ∈ Node.selfVote x.ri ri, v = (ri.store.db.hdr.term, p) ∧
      x.term < ri.store.db.hdr.term ∧ ri.store.db.hdr.votedFor = some p := by
    intro v hv
    unfold Node.selfVote at hv
    split at hv
    · rename_i hchanged
      rw [hself] at hchanged hv
      exact ⟨List.mem_singleton.mp hv, htracks.newer.resolve_left hchanged.1, hchanged.2⟩
    · cases hv
  cases hg : grants with
  | nil =>
    refine ⟨p, fun v hv => ?_⟩
    rw [List.append_nil] at hv
    exact ⟨(hown v hv).1, (hown v hv).2.1⟩
  | cons w ws =>
    rw [← hg]
    obtain ⟨-, -, hvoted, hne⟩ := hgrants w (by rw [hg]; exact List.mem_cons_self)
    refine ⟨w.2, fun v hv => ?_⟩
    rcases List.mem_append.mp hv with hv | hv
    · have heq := (hown v hv).2.2.symm.trans hvoted
      exact absurd (Option.some.inj heq).symm hne
    · obtain ⟨hlt, hterm, hvoted', -⟩ := hgrants v hv
      have heq := Option.some.inj (hvoted'.symm.trans hvoted)
      rw [hterm, ← heq]
      exact ⟨rfl, hlt⟩

/-- One event of the cluster. -/
theorem HeaderKept.handle {x : Node n} (h : HeaderKept p x.ri) {mail : List (Packet n)}
    {e : Event n} (hacc : x.accepts mail e = true) :
    HeaderTracks p x.ri (((x.cluster mail).step e).servers e.server) ∧
      ∀ v ∈ (((x.cluster mail).step e).net.drop mail.length).filterMap Node.grantOf,
        x.term < v.1 ∧ (((x.cluster mail).step e).servers e.server).store.db.hdr.term = v.1 ∧
          (((x.cluster mail).step e).servers e.server).store.db.hdr.votedFor = some v.2 ∧
          v.2 ≠ p := by
  have hwp := wp_handler_votes h hacc
  -- what the process has sent
  have hsent : ∀ (s : Proc n) (ri : RaftInstance n), ∀ v ∈ (((x.cluster mail).commit e s ri).net.drop
      mail.length).filterMap Node.grantOf, ∃ m ∈ s.out, Node.grantOf
        ⟨e.server, m.1, m.2, ((x.cluster mail).delivered e).map (·.msg)⟩ = some v := by
    intro s ri v hv
    have hdrop : ((x.cluster mail).commit e s ri).net.drop mail.length = s.out.map fun m =>
        ⟨e.server, m.1, m.2, ((x.cluster mail).delivered e).map (·.msg)⟩ := List.drop_left
    rw [hdrop] at hv
    obtain ⟨pkt, hpkt, hv⟩ := List.mem_filterMap.mp hv
    obtain ⟨m, hm, rfl⟩ := List.mem_map.mp hpkt
    exact ⟨m, hm, hv⟩
  unfold Cluster.step
  by_cases hen : (x.cluster mail).enabled e = true
  · rw [if_pos hen]
    cases hres : (x.cluster mail).handler e ((x.cluster mail).proc e) with
    | ok u s =>
      obtain ⟨htracks, hgrants⟩ := wp_of_ok hres hwp
      have hri : ((x.cluster mail).commit e s s.ri).servers e.server = s.ri :=
        Function.update_self _ _ _
      simp only [hri]
      refine ⟨htracks, fun v hv => ?_⟩
      obtain ⟨m, hm, hv⟩ := hsent s _ v hv
      exact hgrants m hm v hv
    | abort d =>
      obtain ⟨⟨ri, htracks, hsurv⟩, hgrants⟩ := wp_of_abort hres hwp
      have hri : ((x.cluster mail).commit e d (Cluster.restart d.ri e.keep)).servers e.server =
          Cluster.restart d.ri e.keep := Function.update_self _ _ _
      simp only [hri]
      refine ⟨htracks.restart hsurv e.keep, fun v hv => ?_⟩
      obtain ⟨m, hm, hv⟩ := hsent d _ v hv
      exact absurd hv (hgrants m hm v)
  · rw [if_neg hen]
    refine ⟨⟨h, .inl rfl⟩, fun v hv => ?_⟩
    have hdrop : (x.cluster mail).net.drop mail.length = [] := List.drop_length
    rw [hdrop] at hv
    cases hv

omit [Externals] in
/-- The recovered database has the header of the checkpoint. -/
theorem bulkRecover_hdr {ri : RaftInstance n} {staged db : Db n}
    (h : RaftServer.bulkRecover ri staged = some db) : db.hdr = staged.hdr := by
  have hwp : ∀ s : Proc n, s.ri.procState = .recovering → RaftServer.bulkRecoveryDbScrub.wp
      (fun _ s' => s'.ri.store.db.hdr = s.ri.store.db.hdr) (fun _ => True) s := by
    intro s hrec
    simp only [RaftServer.bulkRecoveryDbScrub, RaftServer.headerLoad, RaftServer.initHeader,
      RaftServer.headerWrite, wp_bind, RaftServer.wp_modifyRi, RaftServer.wp_getRi, wp_assert,
      wp_whenever]
    refine ⟨fun _ => ⟨fun hne => absurd hrec hne, fun _ => ?_⟩, fun _ => trivial⟩
    exact RaftServer.wp_durable (fun _ => trivial) fun _ _ => rfl
  unfold RaftServer.bulkRecover at h
  simp only at h
  split at h
  · rename_i s hres
    have hhdr := wp_of_ok hres (hwp _ rfl)
    cases h
    exact hhdr
  · cases h

/-- One event keeps the votes apart and does not lower the term. -/
theorem VotesKept.step {x : Node n} (h : VotesKept p x) {e : NodeEvent n}
    (hok : RecoversNewer x e) : VotesKept p (x.step e) ∧ x.term ≤ (x.step e).term := by
  cases e with
  | handle mail e =>
    by_cases hacc : x.accepts mail e = true
    · obtain ⟨htracks, hgrants⟩ := h.handle hacc
      obtain ⟨q, hcast⟩ := cast_one h.self htracks hgrants
      have hterm : x.term ≤ (((x.cluster mail).step e).servers e.server).store.db.hdr.term := by
        rcases htracks.newer with heq | hlt
        · rw [heq]
          exact le_refl _
        · exact le_of_lt hlt
      rw [Node.step, if_pos hacc]
      exact ⟨h.cast htracks.toHeaderKept hterm hcast, hterm⟩
    · rw [Node.step, if_neg hacc]
      exact ⟨h, le_refl _⟩
  | stage db =>
    rw [Node.step]
    split
    · exact ⟨{ h with }, le_refl _⟩
    · exact ⟨h, le_refl _⟩
  | finish =>
    rw [Node.step]
    split
    · exact ⟨h, le_refl _⟩
    · rename_i db hdb
      obtain ⟨staged, hstaged, hdb⟩ := Option.bind_eq_some_iff.mp hdb
      have hloaded := (RaftServer.instanceRun_loaded x.ri.self x.ri.opts db).headerKept
      have hterm : x.term ≤ (RaftServer.instanceRun x.ri.self x.ri.opts db).store.db.hdr.term := by
        rw [hloaded.2, bulkRecover_hdr hdb]
        exact hok staged hstaged
      rw [h.self] at hloaded hterm ⊢
      exact ⟨⟨hloaded.1, fun v hv => le_trans (h.votes v hv) hterm, h.one⟩, hterm⟩

theorem VotesKept.of_reach {opts : Options} {x : Node n}
    (h : Node.Reach RecoversNewer p opts x) : VotesKept p x := by
  induction h with
  | init =>
    have hloaded := (RaftServer.instanceRun_loaded p opts RaftServer.freshDb).headerKept
    refine ⟨hloaded.1, fun v hv => ?_, fun v hv => ?_⟩
    all_goals cases hv
  | step e _ he ih => exact (ih.step he).1

end

/-- In every run of a server whose recoveries bring no header of an older term, the persisted term
never falls, and all votes of a term are for one candidate. -/
theorem term_and_vote_persistence [Externals] {p : Fin n} {opts : Options} {x : Node n}
    (h : Node.Reach RecoversNewer p opts x) :
    OneCandidate x.votes ∧ ∀ e, RecoversNewer x e → x.term ≤ (x.step e).term := by
  have hkept := VotesKept.of_reach h
  exact ⟨hkept.one, fun e he => (hkept.step he).2⟩

/-! ## A checkpoint of an older term -/

/-- Server 2 receives a message. -/
def receive (src : Fin 3) (msg : RpcMsg 3) : NodeEvent 3 :=
  .handle [⟨src, 2, msg, none⟩] ⟨2, .deliver 0, none, 0⟩

/-- The leader of term 5 has compacted the entry that server 2 needs. -/
def needsCheckpoint : AppendEntriesRequestMsg :=
  { leaderTerm := 5, logTerm := 0, commitIndex := 1, lowestIndex := 1, chkptIndex := 1,
    prevLogTerm := -1, prevLogIndex := 0, prevIdxCrc := 0, thisIdxCrc := 0, sizeArr := [],
    entriesSz := 0, numEntries := 0, heartbeatMsg := true, leaderChangeMarker := false,
    entryOutOfRange := true, entries := [] }

/-- A checkpoint that server 0 took in `term`, of a log whose first entry is compacted. -/
def checkpointOf (term : Int) : Db 3 :=
  ⟨⟨term, some 0, 1⟩, [⟨⟨7, 0, 0, 1, [0], 1, true, 1⟩, []⟩, ⟨⟨53, 2, 1, 1, [2], 1, false, 1⟩, [7, 8]⟩],
    1, some ⟨1, 0, 0, 0, 50, 0⟩, [], 1⟩

/-- Server 2 votes for server 0 in term 5, recovers from a checkpoint of `term`, and hears of a
candidacy of server 1 in term `next`. -/
def recoveryRun (term next : Int) : List (NodeEvent 3) :=
  [receive 0 (.voteRequest ⟨5, 0, -1⟩), receive 0 (.appendEntriesRequest needsCheckpoint),
    .stage (checkpointOf term), .finish, receive 1 (.voteRequest ⟨next, 1, 1⟩)]

/-- Server 2 after that run. -/
def afterRecovery (term next : Int) : Node 3 :=
  @Node.run 3 sampleExternals (.initial 2 (threeServers 2)) (recoveryRun term next)

theorem term_and_vote_persistence_newerCheckpoint :
    (afterRecovery 5 6).votes = [(5, 0), (6, 1)] ∧ OneCandidate (afterRecovery 5 6).votes := by
  have hall : @Node.AllEvents 3 sampleExternals RecoversNewer (.initial 2 (threeServers 2))
      (recoveryRun 5 6) := by decide +kernel
  exact ⟨by decide +kernel, (@term_and_vote_persistence 3 sampleExternals 2 (threeServers 2) _
    (@Node.Reach.of_allEvents 3 sampleExternals _ _ _ _ (@Node.Reach.init 3 sampleExternals _ _ _)
      _ hall)).1⟩

/-- After a checkpoint of term 1 server 2 votes once more in term 5, for server 1. -/
theorem olderCheckpoint_votesTwice :
    @Node.Reach 3 sampleExternals Node.anyEvent 2 (threeServers 2) (afterRecovery 1 5) ∧
      ¬ OneCandidate (afterRecovery 1 5).votes ∧
      (@Node.run 3 sampleExternals (.initial 2 (threeServers 2)) ((recoveryRun 1 5).take 4)).term <
        (@Node.run 3 sampleExternals (.initial 2 (threeServers 2))
          ((recoveryRun 1 5).take 3)).term := by
  have hall : @Node.AllEvents 3 sampleExternals Node.anyEvent (.initial 2 (threeServers 2))
      (recoveryRun 1 5) := by decide +kernel
  have hvotes : (afterRecovery 1 5).votes = [(5, 0), (5, 1)] := by decide +kernel
  refine ⟨@Node.Reach.of_allEvents 3 sampleExternals _ _ _ _
    (@Node.Reach.init 3 sampleExternals _ _ _) _ hall, fun h => ?_, by decide +kernel⟩
  rw [hvotes] at h
  have heq := h (5, 0) (by simp) (5, 1) (by simp) rfl
  exact absurd heq (by decide)

end NiovaRaft
