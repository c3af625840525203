import NiovaRaft.Leader.Acceptance
import NiovaRaft.Leader.Coalescing
import NiovaRaft.Server.Roles

/-!
# A leader's log only grows

Only followers prune their logs, and nothing but a won election makes a leader.  From one state to a
later one in between which the server was a leader all the time, its term is the same and its log
has only been added to.
-/

namespace NiovaRaft

open Base Base.Handler

variable {n : Nat}

/-- As long as it leads, the server has added to the log `base` in the term `term`. -/
def AddsTo (base : List Entry) (term : Int) (ri : RaftInstance n) : Prop :=
  ri.state = .leader →
    ri.logHdr.term = term ∧ base <+: ri.store.db.entries ∧ base.length ≤ ri.newestUnsync.index + 1

/-- An entry that is written past a prefix leaves it there. -/
theorem prefix_write {base : List Entry} {db : Db n} {re : Entry} (h : base <+: db.entries)
    (hidx : base.length ≤ re.header.index.toNat) : base <+: (db.write re).entries := by
  obtain ⟨rest, hrest⟩ := h
  simp only [Db.write]
  split
  · rw [← hrest, List.set_append_right _ _ hidx]
    exact List.prefix_append base _
  · rw [← hrest, List.append_assoc]
    exact List.prefix_append base _

namespace AddsTo

variable {base : List Entry} {term : Int} {ri ri' : RaftInstance n}

/-- What does not make a leader and leaves the log as it is. -/
theorem of_log (h : AddsTo base term ri) (hstate : ri'.state = .leader → ri.state = .leader)
    (hterm : ri'.logHdr = ri.logHdr) (hentries : ri'.store.db.entries = ri.store.db.entries)
    (hnewest : ri'.newestUnsync = ri.newestUnsync) : AddsTo base term ri' := by
  intro hlead
  rw [hterm, hentries, hnewest]
  exact h (hstate hlead)

variable [Externals]

/-- Only a write that answers a vote makes a leader, and one that prunes is made by a follower. -/
theorem update {cause : Option (Packet n)} (h : AddsTo base term ri)
    (hcause : ∀ pkt m, cause = some pkt → pkt.msg ≠ .voteReply m) (hup : Update cause ri ri') :
    AddsTo base term ri' := by
  cases hup with
  | role state reason csn cand hrole =>
    refine h.of_log (fun hlead => ?_) rfl rfl rfl
    exact (hrole.resolve_left (not_not.mpr hlead)).symm.trans hlead
  | lead _ hvote =>
    obtain ⟨pkt, m, hpkt, hmsg⟩ := hvote
    exact absurd hmsg (hcause pkt m hpkt)
  | slot | recovery | flush | synced | appliedSynced | commit => exact h.of_log id rfl rfl rfl
  | header cand newTerm _ hstate => exact fun hlead => absurd hlead hstate
  | newest re _ _ _ hstate => exact fun hlead => absurd (hstate.symm.trans hlead) (by decide)
  | truncate _ _ _ _ hstate => exact fun hlead => absurd (hstate.symm.trans hlead) (by decide)
  | entry newTerm data sizes marker =>
    intro hlead
    obtain ⟨hterm, hprefix, hlength⟩ := h hlead
    have hre : (ri.nextEntry newTerm data sizes marker).header.index =
      ri.newestUnsync.index + 1 := rfl
    generalize ri.nextEntry newTerm data sizes marker = re at hre ⊢
    refine ⟨hterm, prefix_write hprefix (by omega), ?_⟩
    show (base.length : Int) ≤ re.header.index + 1
    omega

end AddsTo

section

variable [Externals]

/-- A leader does not count votes. -/
theorem RaftServer.wp_processVoteReplyCommon_leader {sender : Fin n} {vreply : VoteReplyMsg n}
    {s : Proc n} (hlead : s.ri.state = .leader) :
    (processVoteReplyCommon sender false vreply).wp (fun _ s' => s' = s) (fun _ => True) s := by
  have hcand : s.ri.isCandidate = false := by simp [RaftInstance.isCandidate, hlead]
  have hpre : s.ri.isCandidatePrevote = false := by simp [RaftInstance.isCandidatePrevote, hlead]
  simp only [processVoteReplyCommon, candidateRegVoteResult, wp_bind, wp_getRi, wp_ite, wp_pure,
    wp_whenever]
  refine ⟨fun _ => trivial, fun _ => ⟨fun _ => ?_, fun _ => ⟨fun _ => ?_, fun hno => ?_⟩⟩⟩
  · exact ⟨fun h => absurd h (by simp [Except.isOk, Except.toBool]), fun _ => trivial⟩
  · exact ⟨fun h => absurd h (by simp [Except.isOk, Except.toBool]), fun _ => trivial⟩
  · exact absurd ⟨hpre, hcand⟩ hno

/-- What a leader has added to, it adds to in the next event, if it survives that. -/
theorem AddsTo.step {base : List Entry} {term : Int} {c : Cluster n} {p : Fin n}
    (h : AddsTo base term (c.servers p)) (hlead : (c.servers p).state = .leader) (e : Event n) :
    AddsTo base term ((c.step e).servers p) := by
  have hrestart : ∀ ri : RaftInstance n, AddsTo base term (Cluster.restart ri e.keep) := by
    intro ri hlead
    have hnot := Clients.restart_not_leader ri e.keep
    simp [RaftInstance.isLeader, hlead] at hnot
  by_cases hp : p = e.server
  · subst hp
    by_cases hvote : ∃ pkt m, c.delivered e = some pkt ∧ pkt.msg = .voteReply m
    · obtain ⟨pkt, vreply, hdel, hmsg⟩ := hvote
      by_cases hen : c.enabled e = true
      · refine Cluster.step_server hen ?_
        rw [Cluster.handler_of_delivered hdel, hmsg]
        have hsame :=
          @RaftServer.wp_processVoteReplyCommon_leader n _ pkt.src vreply (c.proc e) hlead
        exact wp_mono hsame (fun _ s hs => by rw [hs]; exact h) fun d _ => hrestart d.ri
      · rw [Cluster.step, if_neg hen]
        exact h
    · have hkeeps : Cluster.Keeps c e (AddsTo base term) := by
        refine ⟨fun _ _ h hup => h.update (fun pkt m hpkt hmsg => hvote ⟨pkt, m, hpkt, hmsg⟩) hup,
          fun _ ri q rfi h _ _ => h.of_log id rfl rfl rfl, ?_, ?_⟩
        · refine Cluster.keeps_apply (P := AddsTo base term) fun ri la batch h _ _ _ _ => ?_
          exact h.of_log id rfl (RaftInstance.recordApplied_entries ri la batch) rfl
        · exact Cluster.keeps_compact (P := AddsTo base term)
            (fun ri h _ _ => h.of_log id rfl rfl rfl) fun ri _ h _ _ => h.of_log id rfl rfl rfl
      exact hkeeps.step h fun _ d _ _ _ _ _ => hrestart d.ri
  · rw [Cluster.step_servers_of_ne hp]
    exact h

/-- The server still leads after the event. -/
def Cluster.StaysLeader (p : Fin n) (c : Cluster n) (e : Event n) : Prop :=
  ((c.step e).servers p).state = .leader

instance (p : Fin n) (c : Cluster n) (e : Event n) : Decidable (c.StaysLeader p e) :=
  inferInstanceAs (Decidable (_ = _))

theorem AddsTo.run {base : List Entry} {term : Int} {p : Fin n} {c : Cluster n}
    {es : List (Event n)} (h : AddsTo base term (c.servers p))
    (hlead : (c.servers p).state = .leader) (hes : Cluster.AllEvents (Cluster.StaysLeader p) c es) :
    AddsTo base term ((c.run es).servers p) ∧ ((c.run es).servers p).state = .leader := by
  induction es generalizing c with
  | nil => exact ⟨h, hlead⟩
  | cons e es ih => exact ih (h.step hlead e) hes.1 hes.2

/-- In every run, while a server goes on leading, its term stays and its log is only added to. -/
theorem leader_append_only {opts : Fin n → Options} {c : Cluster n}
    (h : Cluster.Reach Cluster.anyEvent opts c) {p : Fin n} (hlead : (c.servers p).state = .leader)
    {es : List (Event n)} (hes : Cluster.AllEvents (Cluster.StaysLeader p) c es) :
    ((c.run es).servers p).logHdr.term = (c.servers p).logHdr.term ∧
      (c.servers p).store.db.entries <+: ((c.run es).servers p).store.db.entries := by
  have hrun : (c.servers p).procState = .running := by
    by_contra hdown
    exact (h.passive_of_down hdown).leader hlead
  have hindex := (h.consistent hrun).unsync_index
  have hstart : AddsTo (c.servers p).store.db.entries (c.servers p).logHdr.term (c.servers p) :=
    fun _ => ⟨rfl, List.prefix_refl _, by omega⟩
  obtain ⟨hadds, hleads⟩ := hstart.run hlead hes
  obtain ⟨hterm, hprefix, -⟩ := hadds hleads
  exact ⟨hterm, hprefix⟩

end

/-- Server 0 is elected, and then is all the time the leader of a request. -/
theorem leader_append_only_servedRequest :
    ((afterRun (servedRequest.take 5)).servers 0).store.db.entries.length = 1 ∧
      ((afterRun servedRequest).servers 0).store.db.entries.length = 2 ∧
      ((afterRun (servedRequest.take 5)).servers 0).store.db.entries <+:
        ((@Cluster.run 3 sampleExternals (afterRun (servedRequest.take 5))
          (servedRequest.drop 5)).servers 0).store.db.entries := by
  have hlead : ((afterRun (servedRequest.take 5)).servers 0).state = .leader := by decide +kernel
  have hstays : @Cluster.AllEvents 3 sampleExternals (@Cluster.StaysLeader 3 sampleExternals 0)
      (afterRun (servedRequest.take 5)) (servedRequest.drop 5) := by decide +kernel
  exact ⟨by decide +kernel, by decide +kernel,
    (@leader_append_only 3 sampleExternals _ _ (reach_afterRun _) 0 hlead _ hstays).2⟩

end NiovaRaft
