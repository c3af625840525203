import NiovaRaft.Safety.LogMatching
import NiovaRaft.Spec.Clients
import NiovaRaft.Spec.Roles

/-!
# Roles and terms

The role of a server, the term it stands for, the term it leads and the term it has persisted are
kept in four places.  In every run with one leader a term they agree between the handlers, and
whatever message arrives there, no assertion about them fails.

What a candidate keeps follows from the world of the run.  The rest is an induction over the events:
the one write that would break it, a leader that takes another server for the leader of its own
term, needs a second leader of that term.
-/

namespace NiovaRaft

open Base Base.Handler Base.Replication Refinement Relation RaftServer

variable {n : Nat}

/-! ## Starts -/

/-- A process that starts neither stands nor leads. -/
theorem RaftServer.instanceRun_passive (p : Fin n) (o : Options) (d : Db n) :
    Passive (instanceRun p o d) := by
  refine instanceRun_invariant (P := fun ri => Passive ri) ?_ (fun ri ri' h hload => ?_)
    fun ri h => ⟨h.candidate, h.prevote, h.leader⟩
  · constructor <;> simp [instanceInit]
  · cases hload with
    | header => exact ⟨h.candidate, h.prevote, h.leader⟩
    | newest => exact ⟨h.candidate, h.prevote, h.leader⟩
    | truncate => exact ⟨h.candidate, h.prevote, h.leader⟩
    | enter => exact .of_follower rfl

/-! ## What the world says about a server -/

section World

variable {R : Rules} {c : Cluster n} {w : ClusterWorld n} {p : Fin n}

/-- No entry is of a later term than the server's own. -/
theorem Refinement.Coupled.unsync_term_le (hw : Coupled R c w)
    (hrun : (c.servers p).procState = .running) :
    (c.servers p).newestUnsync.term ≤ (c.servers p).logHdr.term := by
  have hok := (hw.servers p).ok hrun
  rw [hok.stored.unsync_term, hok.stored.term, lastTerm]
  cases hlast : (w.peer p).log.getLast? with
  | none => exact hok.stored.store.nonneg
  | some e => exact hw.reach.basic.terms_le p e (List.mem_of_getLast? hlast)

/-- A candidate stands in its own term, with everything synced. -/
theorem Refinement.Coupled.rolesAgree (hw : Coupled R c w)
    (hrun : (c.servers p).procState = .running) (hroles : RoleTerms (c.servers p)) :
    RolesAgree (c.servers p) := by
  have hok := (hw.servers p).ok hrun
  refine ⟨hroles, fun hs => ?_, fun hs => ?_⟩
  · rw [(hok.role.candidate hs).term, hok.stored.term]
  · have hsynced := hw.reach.standing_synced (hok.role.stands.mp hs)
    rw [hok.stored.sync, hok.stored.cons.unsync, hsynced, hok.stored.store.length,
      List.take_length]

/-- Nobody else sends requests in the term of a leader. -/
theorem Refinement.Coupled.request_other_term (hw : Coupled R c w) (hu : c.UniqueLeaders)
    (hrun : (c.servers p).procState = .running) {pkt : Packet n} (hpkt : pkt ∈ c.net)
    (hdst : pkt.dst = p) {m : AppendEntriesRequestMsg} (hmsg : pkt.msg = .appendEntriesRequest m)
    (hlead : (c.servers p).state = .leader) : (c.servers p).logHdr.term ≠ m.leaderTerm := by
  have hok := (hw.servers p).ok hrun
  have hnet := hw.net pkt hpkt
  have hreq := hnet.msg
  rw [hmsg] at hreq
  intro heq
  have hled : w.led p (w.peer p).cur :=
    (hw.reach.basic.leading p (hok.role.leads.mp hlead)).1
  rw [← hok.stored.term, heq] at hled
  exact hnet.other ((hw.unique hu _ _ _ hreq.led hled).trans hdst.symm)

end World

/-! ## One event -/

namespace Cluster

section Step

variable [Externals] {c : Cluster n} {e : Event n} {w : ClusterWorld n}

theorem wp_handler_roles {R : Rules} (hw : Coupled R c w) (hu : c.UniqueLeaders)
    (hrun : (c.servers e.server).procState = .running)
    (hroles : RoleTerms (c.servers e.server)) :
    (c.handler e).wp (fun _ s => RoleStep (c.servers e.server) s.ri) (fun _ => True)
      (c.proc e) := by
  have hok := (hw.servers e.server).ok hrun
  have hc : Consistent (c.proc e).ri := hok.stored.cons
  have hagree : RolesAgree (c.proc e).ri := hw.rolesAgree hrun hroles
  -- a handler that keeps the role
  have hkeep : ∀ {m : Server n Unit},
      m.wp (fun _ s => roleView s = roleView (c.proc e))
        (fun d => (roleView d).2 = (roleView (c.proc e)).2) (c.proc e) →
      m.wp (fun _ s => RoleStep (c.servers e.server) s.ri) (fun _ => True) (c.proc e) := fun h =>
    wp_mono h (fun _ _ hview => roleStep_of_roleOf (s := c.proc e) hroles (congrArg Prod.fst hview))
      fun _ _ => trivial
  have hcandidacy : (becomeCandidate true).wp
      (fun _ s => RoleStep (c.servers e.server) s.ri) (fun _ => True) (c.proc e) :=
    wp_mono wp_becomeCandidate_prevote (fun _ _ h => ⟨h.1, fun hlead => absurd hlead h.2⟩)
      fun _ h => h.elim
  unfold handler
  cases hact : e.action with
  | deliver k =>
    simp only
    cases hdel : c.delivered e with
    | none => exact hroles.stay
    | some pkt =>
      obtain ⟨hmem, hdst⟩ := delivered_mem hdel
      have hother : pkt.src ≠ (c.proc e).ri.self := by
        rw [show (c.proc e).ri.self = e.server from hok.stored.self, ← hdst]
        exact (hw.net pkt hmem).other
      simp only
      cases hmsg : pkt.msg with
      | preVoteRequest m =>
        exact wp_mono (wp_processVoteRequestCommon_roles hc hroles) (fun _ _ h => h)
          fun _ _ => trivial
      | voteRequest m =>
        exact wp_mono (wp_processVoteRequestCommon_roles hc hroles) (fun _ _ h => h)
          fun _ _ => trivial
      | preVoteReply m =>
        exact wp_mono (wp_processVoteReplyCommon_roles hc hagree (hw.unsync_term_le hrun))
          (fun _ _ h => h) fun _ _ => trivial
      | voteReply m =>
        exact wp_mono (wp_processVoteReplyCommon_roles hc hagree (hw.unsync_term_le hrun))
          (fun _ _ h => h) fun _ _ => trivial
      | appendEntriesRequest m =>
        exact wp_processAppendEntriesRequest_roles hc hroles hother
          (hw.request_other_term hu hrun hmem hdst hmsg)
      | appendEntriesReply m =>
        exact wp_mono (wp_processAppendEntriesReply_roles hc hroles) (fun _ _ h => h)
          fun _ _ => trivial
      | syncIdxUpdate m => exact hkeep (wp_of_keepsRole keepsRole_processSyncIdxUpdate)
  | timer quorumOk heartbeatDue clock =>
    simp only [timerfdCb, wp_bind, wp_getRi]
    cases hstate : (c.proc e).ri.state with
    | none => exact hroles.stay
    | client => exact hroles.stay
    | follower => exact hcandidacy
    | candidatePrevote => exact hcandidacy
    | candidate => exact hcandidacy
    | leader =>
      simp only [timerfdLeaderCb, wp_ite, wp_whenever]
      exact ⟨fun _ => hcandidacy, fun _ => ⟨fun _ => hkeep wp_appendEntrySender_role,
        fun _ => hroles.stay⟩⟩
  | remoteSend clock =>
    simp only [remoteSendEvpCb, wp_bind, wp_getRi, wp_ite, wp_whenever]
    refine ⟨fun _ => hkeep wp_appendEntrySender_role, fun _ => ⟨fun _ => ?_, fun _ => hroles.stay⟩⟩
    exact hkeep (wp_of_keepsRole (.bind .gets fun _ _ _ => .whenever fun _ =>
      keepsRole_sendMsg rfl))
  | commitIdxAdv => exact hkeep (wp_of_keepsRole keepsRole_commitIdxAdvEvpCb)
  | smApply cb => exact hkeep wp_stateMachineApply_role
  | syncThread => exact hkeep (wp_of_keepsRole keepsRole_syncThread)
  | write requests =>
    exact hkeep (wp_of_keepsRole (.whenever fun _ => keepsRole_writeCoalescedEntries))
  | chkptThread takesChkpt reaps keep => exact hkeep wp_chkptThread_role
  | crash => exact trivial

/-- What an event does to the role of a server. -/
theorem roleStep_step {R : Rules} (hw : Coupled R c w) (hu : c.UniqueLeaders) {p : Fin n}
    (hroles : RoleTerms (c.servers p)) : RoleStep (c.servers p) ((c.step e).servers p) := by
  by_cases hp : p = e.server
  · subst hp
    by_cases hen : c.enabled e = true
    · refine step_server (S := fun ri => RoleStep (c.servers e.server) ri) hen ?_
      by_cases hrun : (c.servers e.server).procState = .running
      · exact wp_mono (wp_handler_roles hw hu hrun hroles) (fun _ _ h => h)
          fun _ _ => (instanceRun_passive _ _ _).roleStep
      · rw [handler_of_not_running hen hrun]
        exact (instanceRun_passive _ _ _).roleStep
    · rw [step, if_neg hen]
      exact hroles.stay
  · rw [step_servers_of_ne hp]
    exact hroles.stay

/-- A server that runs goes on to run, or dies. -/
theorem keeps_running : Keeps c e fun ri => ri.procState = .running where
  write := fun ri ri' h hup => by cases hup <;> exact h
  refresh := fun _ ri q rfi h _ _ => h
  apply := keeps_apply (P := fun ri => ri.procState = .running) fun ri la batch h _ _ _ _ => h
  compact := keeps_compact (P := fun ri => ri.procState = .running) (fun ri h _ _ => h)
    fun ri keep h _ _ => h

end Step

/-! ## Runs -/

section Runs

variable [Externals] {opts : Fin n → Options} {c : Cluster n}

/-- Leaders of a run are leaders of what comes later. -/
theorem UniqueLeaders.of_step {e : Event n} (h : (c.step e).UniqueLeaders) : c.UniqueLeaders :=
  fun p q t l l' hp hq => h p q t l l' (history_step hp) (history_step hq)

theorem Reach.roleTerms {ok : Cluster n → Event n → Prop} (h : Reach ok opts c)
    (hu : c.UniqueLeaders) (p : Fin n) : RoleTerms (c.servers p) := by
  induction h with
  | init => exact (instanceRun_passive p (opts p) freshDb).roleTerms
  | step e hreach _ ih =>
    obtain ⟨w, hw⟩ := hreach.coupled_noRules
    exact (roleStep_step hw hu.of_step (ih hu.of_step)).terms

/-- A server that is down neither stands nor leads. -/
theorem Reach.passive_of_down {ok : Cluster n → Event n → Prop} (h : Reach ok opts c) {p : Fin n}
    (hdown : (c.servers p).procState ≠ .running) : Passive (c.servers p) := by
  induction h with
  | init => exact instanceRun_passive p (opts p) freshDb
  | @step c e hreach _ ih =>
    by_cases hp : p = e.server
    · subst hp
      by_cases hrun : (c.servers e.server).procState = .running
      · have hor : ((c.step e).servers e.server).procState = .running ∨
            Passive ((c.step e).servers e.server) := by
          by_cases hen : c.enabled e = true
          · refine step_server (S := fun ri => ri.procState = .running ∨ Passive ri) hen ?_
            exact wp_mono (keeps_running.wp_handler hrun) (fun _ _ h => .inl h.1)
              fun _ _ => .inr (instanceRun_passive _ _ _)
          · rw [Cluster.step, if_neg hen]
            exact .inl hrun
        exact hor.resolve_left hdown
      · by_cases hen : c.enabled e = true
        · refine step_server (S := Passive) hen ?_
          rw [handler_of_not_running hen hrun]
          exact instanceRun_passive _ _ _
        · rw [Cluster.step, if_neg hen]
          exact ih hrun
    · rw [step_servers_of_ne hp] at hdown ⊢
      exact ih hdown

end Runs

end Cluster

/-! ## Assertions -/

/-- Started on `ri`, the function returns, unless the process is killed. -/
def Returns {α : Type} (m : Server n α) (ri : RaftInstance n) : Prop :=
  ∀ s : Proc n, s.ri = ri → s.fuse = none → (m s).isOk = true

theorem Returns.of_wp {α : Type} {m : Server n α} {ri : RaftInstance n}
    {Q : Proc n → α → Proc n → Prop}
    (h : ∀ s : Proc n, s.ri = ri → m.wp (Q s) (fun _ => s.fuse ≠ none) s) : Returns m ri := by
  intro s hri hfuse
  cases hres : m s with
  | ok a s' => rfl
  | abort d =>
    have hd := wp_of_abort hres (h s hri)
    exact absurd hfuse hd

/-- The assertions about role and terms hold on `ri`, whatever message arrives. -/
structure GuardsHold [Externals] (ri : RaftInstance n) : Prop where
  /-- Those of `raft_server_become_candidate`, when a timer expires. -/
  candidacy : Returns (becomeCandidate true) ri
  /-- Those of a candidate that counts votes, stands, leads or follows. -/
  voteReply : ∀ sender prevote m, Returns (processVoteReplyCommon sender prevote m) ri
  /-- Those of a voter. -/
  voteRequest : ∀ sender prevote m, Returns (processVoteRequestCommon sender prevote m) ri
  /-- Those of a server that takes the term of a request to append. -/
  termCheck : ∀ sender m, Returns (processAppendEntriesTermCheckOps sender m) ri
  /-- Those of a leader whose term is over. -/
  staleReply : ∀ sender m, m.errStaleTerm = true → Returns (processAppendEntriesReply sender m) ri
  /-- That of `raft_leader_has_applied_txn_in_my_term`. -/
  accept : ∀ fresh, Returns (mayAcceptClientRequest fresh) ri
  /-- That of `raft_server_leader_get_current_term`, wherever the sender has come to: a request is
  prepared unless the slot of the peer could not be refreshed. -/
  request : ∀ (s d : Proc n) peer heartbeat out, ReflTransGen Sending (ri, out) s.visible →
    peer ≠ ri.self → leaderInitAppendEntryMsg peer heartbeat s = .abort d →
    refreshFollowerPrevLogTerm peer s = .abort d ∨ ∃ rc, rc.isOk = false ∧ rc ≠ .error .ERANGE ∧
      refreshFollowerPrevLogTerm peer s = .ok rc d

section Assertions

variable [Externals]

omit [Externals] in
/-- The sender leaves the role and the terms as they are. -/
theorem roleIn_of_sendings {v v' : Visible n} (h : ReflTransGen Sending v v') :
    roleIn v'.1 = roleIn v.1 := by
  induction h with
  | refl => rfl
  | tail _ hstep ih => exact (roleIn_of_sending hstep).trans ih

omit [Externals] in
/-- The term of a leader is the one it prepares a request with. -/
theorem request_prepared {ri : RaftInstance n} (hroles : RoleTerms ri) {s d : Proc n}
    {peer : Fin n} {heartbeat : Bool} {out : List (Fin n × RpcMsg n)}
    (hto : ReflTransGen Sending (ri, out) s.visible) (hne : peer ≠ ri.self)
    (hdies : leaderInitAppendEntryMsg peer heartbeat s = .abort d) :
    refreshFollowerPrevLogTerm peer s = .abort d ∨ ∃ rc, rc.isOk = false ∧ rc ≠ .error .ERANGE ∧
      refreshFollowerPrevLogTerm peer s = .ok rc d := by
  have hrole : roleOf s = roleIn ri := roleIn_of_sendings hto
  have hsends : Sends (refreshFollowerPrevLogTerm peer) s := by
    refine sends_refreshFollowerPrevLogTerm ?_
    rw [show s.ri.self = ri.self from congrArg Prod.fst hrole]
    exact hne
  have hwp : (leaderInitAppendEntryMsg peer heartbeat).wp (fun _ _ => True)
      (fun d => refreshFollowerPrevLogTerm peer s = .abort d ∨ ∃ rc, rc.isOk = false ∧
        rc ≠ .error .ERANGE ∧ refreshFollowerPrevLogTerm peer s = .ok rc d) s := by
    rw [leaderInitAppendEntryMsg, wp_bind]
    refine wp_intro (fun rc s' hres => ?_) fun d hres => .inl hres
    simp only [wp_bind, wp_assert, wp_getRi, wp_pure]
    refine ⟨fun _ => ⟨fun _ => trivial, fun hno => absurd ?_ hno⟩, fun hrc => ?_⟩
    · -- the refresh has touched the slot alone
      have hsame : roleIn s'.ri = roleIn ri := by
        rw [frame_of_sends hsends hres]
        exact hrole
      obtain ⟨hlead, -⟩ := wp_of_ok hres wp_refreshFollowerPrevLogTerm
      have hstep : RoleStep ri s'.ri := roleStep_of_roleOf (s := ⟨ri, [], [], none⟩) hroles hsame
      have hterms := hstep.terms
      exact ⟨by simp [RaftInstance.isLeader, hlead], hterms.leaderTerm hlead⟩
    · rw [not_or, Bool.not_eq_true] at hrc
      exact .inr ⟨rc, hrc.1, hrc.2, hres⟩
  have hd := wp_of_abort hdies hwp
  exact hd

/-- Where role and terms agree, the assertions about them hold. -/
theorem RolesAgree.guardsHold {ri : RaftInstance n} (h : RolesAgree ri) (hc : Consistent ri)
    (hterm : ri.newestUnsync.term ≤ ri.logHdr.term) : GuardsHold ri where
  candidacy := .of_wp fun s _ => wp_mono wp_becomeCandidate_prevote (fun _ _ h => h)
    fun _ h => h.elim
  voteReply := by
    intro sender prevote m
    refine .of_wp fun s hri => wp_processVoteReplyCommon_roles ?_ ?_ ?_ <;> rw [hri] <;> assumption
  voteRequest := by
    intro sender prevote m
    refine .of_wp fun s hri => wp_processVoteRequestCommon_roles ?_ ?_ <;> rw [hri]
    · exact hc
    · exact h.toRoleTerms
  termCheck := by
    intro sender m
    refine .of_wp fun s hri => wp_processAppendEntriesTermCheckOps_roles ?_
    rw [hri]
    exact hc
  staleReply := by
    intro sender m hstale
    refine .of_wp fun s hri => wp_mono (wp_processAppendEntriesReply_roles (m := m) ?_ ?_)
      (fun _ _ h => h) fun _ h => h hstale
    · rw [hri]
      exact hc
    · rw [hri]
      exact h.toRoleTerms
  accept := by
    intro fresh
    refine .of_wp (Q := fun _ _ _ => True) fun s hri => wp_mayAcceptClientRequest
      (fun hlead hne => absurd ?_ hne) (fun _ _ => trivial) fun _ => trivial
    rw [hri] at hlead ⊢
    exact h.leaderTerm (by simpa [RaftInstance.isLeader] using hlead)
  request := fun s d peer heartbeat out hto hne hdies =>
    request_prepared h.toRoleTerms hto hne hdies

end Assertions

/-! ## The result -/

section Result

variable [Externals] {opts : Fin n → Options} {c : Cluster n}

/-- Role and terms agree in every run with one leader a term. -/
theorem role_term_consistency (h : Cluster.Reach Cluster.anyEvent opts c) (hu : c.UniqueLeaders)
    (p : Fin n) :
    RolesAgree (c.servers p) ∧
      (∀ e, (c.servers p).state ≠ .leader → ((c.step e).servers p).state = .leader →
        (c.servers p).state = .candidate ∧
          (c.servers p).newestSync = (c.servers p).newestUnsync) ∧
      ((c.servers p).procState = .running → GuardsHold (c.servers p)) := by
  obtain ⟨w, hw⟩ := h.coupled_noRules
  have hroles := h.roleTerms hu p
  have hagree : RolesAgree (c.servers p) := by
    by_cases hrun : (c.servers p).procState = .running
    · exact hw.rolesAgree hrun hroles
    · have hpassive := h.passive_of_down hrun
      exact ⟨hroles, fun hs => absurd hs hpassive.candidate,
        fun hs => absurd hs hpassive.candidate⟩
  refine ⟨hagree, fun e hnot hlead => ?_, fun hrun => ?_⟩
  · have hcand := ((Cluster.roleStep_step hw hu hroles).enters hlead).resolve_left hnot
    exact ⟨hcand, hagree.synced hcand⟩
  · exact hagree.guardsHold ((hw.servers p).ok hrun).stored.cons (hw.unsync_term_le hrun)

end Result

/-- A leader that has served a request. -/
theorem role_term_consistency_servedRequest :
    ((afterRun servedRequest).servers 0).state = .leader ∧
      RolesAgree ((afterRun servedRequest).servers 0) ∧
      @GuardsHold 3 sampleExternals ((afterRun servedRequest).servers 0) := by
  have hu : (afterRun servedRequest).UniqueLeaders := by decide +kernel
  have hstate : ((afterRun servedRequest).servers 0).state = .leader := by decide +kernel
  have hrun : ((afterRun servedRequest).servers 0).procState = .running := by decide +kernel
  obtain ⟨hagree, -, hguards⟩ :=
    @role_term_consistency 3 sampleExternals _ _ (reach_afterRun servedRequest) hu 0
  exact ⟨hstate, hagree, hguards hrun⟩

end NiovaRaft
