import NiovaRaft.Refinement.Startup

/-!
# Every run is a run of the world

`Coupled` ties a cluster to a world: each server to its peer, each message in the network and
each observation to the history.  Every event of the cluster is a sequence of steps of the
world with no rule in force.  With a rule in force this holds for the events that are
`Faithful` to it.
-/

namespace NiovaRaft

namespace Refinement

open Base Base.Replication Base.Handler RaftServer

variable {n : Nat} {R : Rules}

/-- The cluster and the world agree. -/
structure Coupled (R : Rules) (c : Cluster n) (w : ClusterWorld n) : Prop where
  reach : Reachable R w
  servers : ∀ p, Started R w p (c.servers p)
  net : ∀ pkt ∈ c.net, PacketOk R w pkt
  history : ∀ x ∈ c.history, ObsOk w x.1 x.2
  led : ∀ p t, w.led p t → ∃ l, (p, Obs.leads t l) ∈ c.history

/-- An event that the rules allow: the delivered message is what its receiver takes it for, and
a leader that sends has no stale term in a slot. -/
def Faithful (R : Rules) (c : Cluster n) (e : Event n) : Prop :=
  match e.action with
  | .deliver _ => ∀ pkt, c.delivered e = some pkt → Verified R (c.servers e.server) pkt
  | .timer _ _ _ => R.acked → (c.servers e.server).state = .leader →
      TermsFresh (c.servers e.server)
  | .remoteSend _ => R.acked → (c.servers e.server).state = .leader →
      TermsFresh (c.servers e.server)
  | _ => True

/-! ## The start -/

/-- A server that never ran. -/
theorem storeOk_fresh {opts : Options} {p : Fin n} :
    StoreOk (World.init : ClusterWorld n) p opts ⟨freshDb, [freshDb]⟩ := by
  refine ⟨rfl, ⟨by simp [freshDb], by simp [freshDb]⟩, rfl, le_refl _, by simp, ?_⟩
  intro d hd
  obtain rfl := List.mem_singleton.mp hd
  have happ : appliedOf opts (freshDb : Db n) = LastApplied.initial := by
    unfold appliedOf freshDb
    split <;> rfl
  refine ⟨rfl, rfl, List.prefix_refl _, le_refl _, ?_, ?_, ?_⟩
  all_goals rw [happ]
  all_goals simp [LastApplied.initial, World.init, freshDb]

theorem Coupled.init {opts : Fin n → Options} :
    Coupled R (Cluster.initial opts) World.init where
  reach := .init
  servers := fun p => started_of_storeOk storeOk_fresh rfl
  net := by simp [Cluster.initial]
  history := by simp [Cluster.initial]
  led := by simp [World.init]

/-! ## One event -/

section Step

variable [Externals] {c : Cluster n} {w : ClusterWorld n} {e : Event n}

/-- The handler of an event on a running server. -/
theorem sim_handler (h : Coupled R c w) (hrun : (c.servers e.server).procState = .running)
    (hf : Faithful R c e) :
    (c.handler e).wp
      (fun _ s => Live R w ((c.delivered e).map (·.msg)) e.server s ∨
        (c.notifies e = true ∧ Done R w ((c.delivered e).map (·.msg)) e.server s))
      (Dead R w ((c.delivered e).map (·.msg)) e.server) (c.proc e) := by
  have hs : Sim R w ((c.delivered e).map (·.msg)) e.server w (c.proc e).out (c.proc e).trace :=
    Sim.start h.reach
  have ho : Ok R w e.server (c.proc e).ri := (h.servers e.server).ok hrun
  have hlive : ∀ {m : Server n Unit},
      m.wp (fun _ => Live R w ((c.delivered e).map (·.msg)) e.server)
        (Dead R w ((c.delivered e).map (·.msg)) e.server) (c.proc e) →
      m.wp (fun _ s => Live R w ((c.delivered e).map (·.msg)) e.server s ∨
          (c.notifies e = true ∧ Done R w ((c.delivered e).map (·.msg)) e.server s))
        (Dead R w ((c.delivered e).map (·.msg)) e.server) (c.proc e) := fun h =>
    wp_mono h (fun _ _ => .inl) fun _ => id
  unfold Faithful at hf
  unfold Cluster.handler
  cases hact : e.action with
  | deliver k =>
    rw [hact] at hf
    simp only
    cases hdel : c.delivered e with
    | none =>
      rw [hdel] at hs
      exact .inl (.intro hs ho)
    | some pkt =>
      rw [hdel] at hs
      obtain ⟨hmem, hdst⟩ := Cluster.delivered_mem hdel
      refine wp_mono (sim_processReceivedServerMsg rfl hs ho (h.net pkt hmem) hdst (hf pkt hdel))
        (fun _ _ => Or.imp_right fun hdone => ⟨?_, hdone.2⟩) fun _ => id
      rw [Cluster.notifies, hact, hdel]
      exact hdone.1
  | timer quorumOk heartbeatDue clock =>
    rw [hact] at hf
    exact hlive (sim_timerfdCb hs ho hf)
  | remoteSend clock =>
    rw [hact] at hf
    exact hlive (sim_remoteSendEvpCb hs ho hf)
  | commitIdxAdv =>
    refine wp_mono (sim_commitIdxAdvEvpCb hs ho) (fun _ _ h => .inr ⟨?_, h⟩) fun _ => id
    rw [Cluster.notifies, hact]
  | smApply => exact hlive (sim_stateMachineApply hs ho)
  | syncThread => exact hlive (sim_syncThread hs ho)
  | write requests =>
    simp only [wp_whenever]
    refine ⟨fun hfit => hlive (sim_writeCoalescedEntries hs ho ?_), fun _ => .inl (.intro hs ho)⟩
    simp only [Cluster.coalescedWriteFits, decide_eq_true_eq] at hfit
    exact hfit.1
  | chkptThread takesChkpt reaps keep => exact hlive (sim_chkptThread hs ho)
  | crash => exact .intro hs ho

omit [Externals] in
/-- The cluster after an event, from the world its server came to. -/
theorem Coupled.commit (h : Coupled R c w) {w' : ClusterWorld n} {s : Proc n}
    {ri : RaftInstance n}
    (hs : Sim R w ((c.delivered e).map (·.msg)) e.server w' s.out s.trace)
    (hri : Started R w' e.server ri) : Coupled R (c.commit e s ri) w' where
  reach := hs.reach
  servers := by
    intro q
    by_cases hq : q = e.server
    · subst hq
      simpa [Cluster.commit] using hri
    · have hold := h.servers q
      simp only [Cluster.commit, Function.update_of_ne hq]
      exact ⟨hold.self, hold.store.congr (hs.steps.peer_ne hq), fun hr => (hold.ok hr).frame hs.steps hq⟩
  net := by
    intro pkt hpkt
    simp only [Cluster.commit, List.mem_append, List.mem_map] at hpkt
    rcases hpkt with hpkt | ⟨m, hm, rfl⟩
    · exact (h.net pkt hpkt).mono hs.steps.extends
    · exact hs.sent m hm
  history := by
    intro x hx
    simp only [Cluster.commit, List.mem_append, List.mem_map] at hx
    rcases hx with hx | ⟨o, ho, rfl⟩
    · exact (h.history x hx).mono hs.steps.extends
    · exact hs.observed o ho
  led := by
    intro q t hq
    simp only [Cluster.commit, List.mem_append, List.mem_map]
    by_cases hqe : q = e.server
    · subst hqe
      rcases hs.led t hq with hl | ⟨l, hl⟩
      · obtain ⟨l, hl⟩ := h.led _ t hl
        exact ⟨l, .inl hl⟩
      · exact ⟨l, .inr ⟨_, hl, rfl⟩⟩
    · obtain ⟨l, hl⟩ := h.led q t ((hs.steps.led_ne hqe).mp hq)
      exact ⟨l, .inl hl⟩

omit [Externals] in
/-- A killed process is restarted. -/
theorem Coupled.commit_restart (h : Coupled R c w) {s : Proc n}
    (hd : Dead R w ((c.delivered e).map (·.msg)) e.server s) :
    ∃ w', Coupled R (c.commit e s (Cluster.restart s.ri e.keep)) w' := by
  obtain ⟨w', hs, hself, hst⟩ := hd
  obtain ⟨w'', hstep, hled, hstart⟩ := restart_started (R := R) hself hst e.keep
  exact ⟨w'', h.commit (hs.step hstep (hled e.server)) hstart⟩

/-- One event is a sequence of steps, unless it commits an entry of another term. -/
theorem Coupled.step (h : Coupled R c w) (hf : Faithful R c e)
    (hown : R.acked → c.OwnAdvance e) : ∃ w', Coupled R (c.step e) w' := by
  unfold Cluster.OwnAdvance Cluster.observed Cluster.step at hown
  unfold Cluster.step
  by_cases hen : c.enabled e = true
  · rw [if_pos hen] at hown ⊢
    by_cases hrun : (c.servers e.server).procState = .running
    · have hwp := sim_handler h hrun hf
      cases hres : c.handler e (c.proc e) with
      | ok u s =>
        rw [hres] at hown
        have hdone : ∀ {w'}, Sim R w ((c.delivered e).map (·.msg)) e.server w' s.out s.trace →
            Ok R w' e.server s.ri → ∃ w', Coupled R (c.commit e s s.ri) w' := fun hs ho =>
          ⟨_, h.commit hs ⟨ho.stored.self, ho.stored.store, fun _ => ho⟩⟩
        rcases wp_of_ok hres hwp with ⟨w', hs, ho⟩ | ⟨hn, ⟨w', hs, ho⟩ | ⟨hR, o, hmem, hfor⟩⟩
        · exact hdone hs ho
        · exact hdone hs ho
        · have := hown hR hn (e.server, o) ?_
          · rw [hfor] at this
            cases this
          · simp only [Cluster.commit, List.drop_left]
            exact List.mem_map_of_mem hmem
      | abort s => exact h.commit_restart (wp_of_abort hres hwp)
    · -- only a restart takes place
      have hres : c.handler e (c.proc e) = .abort (c.proc e) := by
        rw [Cluster.handler_of_not_running hen hrun]
        rfl
      rw [hres]
      have hst := h.servers e.server
      exact h.commit_restart ⟨w, Sim.start h.reach, hst.self, hst.store⟩
  · rw [if_neg hen]
    exact ⟨w, h⟩

/-! ## Runs -/

/-- What was observed stays in the history. -/
theorem history_step : c.history ⊆ (c.step e).history := by
  unfold Cluster.step
  split
  · cases c.handler e (c.proc e) <;> exact List.subset_append_left _ _
  · exact fun _ => id

/-- Every run of faithful events is a run of the world. -/
theorem Reach.coupled {ok : Cluster n → Event n → Prop} {opts : Fin n → Options}
    (h : Cluster.Reach ok opts c) (hok : ∀ c e, ok c e → Faithful R c e)
    (hown : ∀ c e, Cluster.Reach ok opts c → ok c e → R.acked → c.OwnAdvance e) :
    ∃ w, Coupled R c w := by
  induction h with
  | init => exact ⟨_, Coupled.init⟩
  | step e h he ih =>
    obtain ⟨w, hw⟩ := ih
    exact hw.step (hok _ e he) (hown _ e h he)

end Step

/-! ## What observations say -/

/-- Servers that led, as far as the history tells. -/
theorem Coupled.unique {c : Cluster n} {w : ClusterWorld n} (h : Coupled R c w)
    (hu : c.UniqueLeaders) : w.Unique := by
  intro p q t hp hq
  obtain ⟨l, hl⟩ := h.led p t hp
  obtain ⟨l', hl'⟩ := h.led q t hq
  exact hu p q t l l' hl hl'

end Refinement

end NiovaRaft
