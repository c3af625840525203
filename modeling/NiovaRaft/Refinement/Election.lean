import NiovaRaft.Refinement.Log

/-!
# Elections as steps

The handlers of an election, one by one.  A server that persists a term has synced its log with
it, so it stands, votes or follows with a synced log.  A leader is elected by the votes it
counted.  They are ballots of its term as long as every granted reply that is counted answers a
request of that term, which no handler checks.
-/

namespace NiovaRaft

namespace Refinement

open Base Base.Replication Base.Handler RaftServer

variable {n : Nat} {R : Rules} {w₀ w : ClusterWorld n} {p : Fin n} {cause : Option (RpcMsg n)}
  {s : Proc n}

/-! ## Syncing -/

/-- The world once `p` has synced. -/
def afterSync (w : ClusterWorld n) (p : Fin n) : ClusterWorld n :=
  w.setPeer p { w.peer p with synced := (w.peer p).log.length }

@[simp] theorem afterSync_peer :
    (afterSync w p).peer p = { w.peer p with synced := (w.peer p).log.length } :=
  setPeer_self

theorem step_afterSync : Step R p w (afterSync w p) := .sync

theorem extends_afterSync : Extends w (afterSync w p) :=
  Step.extends (R := ⟨False, False, False⟩) (p := p) step_afterSync

/-- The world once `p` neither stands nor leads. -/
def afterResign (w : ClusterWorld n) (p : Fin n) : ClusterWorld n :=
  w.setPeer p { w.peer p with standing := false, leading := false }

@[simp] theorem afterResign_peer :
    (afterResign w p).peer p = { w.peer p with standing := false, leading := false } :=
  setPeer_self

theorem step_afterResign : Step R p w (afterResign w p) := .resign

theorem extends_afterResign : Extends w (afterResign w p) :=
  Step.extends (R := ⟨False, False, False⟩) (p := p) step_afterResign

theorem Ok.flushed {ri : RaftInstance n} (ho : Ok R w p ri) : Ok R (afterSync w p) p ri.flushed where
  stored := ho.stored.flushed afterSync_peer
  role := by
    refine ho.role.mono extends_afterSync ?_ ?_ ?_ ?_ rfl rfl rfl rfl (le_refl _)
    all_goals rw [afterSync_peer]
    exact fun _ => List.prefix_refl _

/-- After `raft_server_backend_sync_pending` everything is synced. -/
theorem sim_backendSyncPending {Q : Unit → Proc n → Prop}
    (hs : Sim R w₀ cause p w s.out s.trace) (ho : Ok R w p s.ri)
    (hQ : ∀ w' s', Sim R w₀ cause p w' s'.out s'.trace → Ok R w' p s'.ri →
      s'.ri.newestSync = s'.ri.newestUnsync → s'.ri.state = s.ri.state → Extends w w' → Q () s') :
    backendSyncPending.wp Q (Dead R w₀ cause p) s := by
  refine wp_backendSyncPending ho.stored.cons (fun _ => .intro hs ho) (fun heq => ?_)
    (fun fuse _ => ?_)
  · exact hQ w s hs ho heq rfl (Extends.refl w)
  · exact hQ (afterSync w p) _ (hs.step step_afterSync fun _ => id) ho.flushed
      ho.stored.cons.flushed_newestSync rfl extends_afterSync

/-! ## Terms -/

/-- A newer term is persisted, by a step that leaves the log alone.  The log is synced first. -/
theorem sim_logHeaderWrite {w' : ClusterWorld n} {cand : Option (Fin n)} {t : Int}
    (standing leading : Bool) {Q : Unit → Proc n → Prop}
    (hs : Sim R w₀ cause p w s.out s.trace) (hst : Stored w p s.ri) (ht : (w.peer p).cur < t)
    (hstep : Step R p (afterSync w p) w')
    (hp : w'.peer p = { w.peer p with
      cur := t, standing := standing, leading := leading, synced := (w.peer p).log.length })
    (hled : ∀ u, w'.led p u → w.led p u)
    (hQ : ∀ fuse, Sim R w₀ cause p w' s.out s.trace →
      Stored w' p (s.ri.withHeader (nextHeader s.ri cand t)).flushed →
      Q () { s with ri := (s.ri.withHeader (nextHeader s.ri cand t)).flushed, fuse := fuse }) :
    (logHeaderWrite cand t).wp Q (Dead R w₀ cause p) s := by
  have hsim : Sim R w₀ cause p w' s.out s.trace :=
    (hs.step step_afterSync fun _ => id).step hstep hled
  have hge : (w.peer p).cur ≤ (nextHeader s.ri cand t).term := le_of_lt ht
  refine wp_logHeaderWrite hst.cons (by rw [hst.term]; exact ht) (fun _ => ?_) (fun _ fuse => ?_)
    (fun fuse _ => hQ fuse hsim (hst.headerWritten hp hge))
  · exact ⟨w, hs, hst.self, hst.store⟩
  · refine ⟨w', hsim, hst.self, hst.store.withHeader hp hge ?_ (le_refl _)⟩
    rw [hst.store.length]
    exact hst.store.synced_le

/-- `raft_server_update_log_header` for a term that another peer has. -/
theorem sim_updateLogHeader {t : Int} {Q : Unit → Proc n → Prop}
    (hs : Sim R w₀ cause p w s.out s.trace) (hst : Stored w p s.ri)
    (hQ : ∀ w' fuse, Sim R w₀ cause p w' s.out s.trace →
      Stored w' p (s.ri.withHeader (nextHeader s.ri none t)).flushed →
      (w'.peer p).cur = t → (w'.peer p).standing = false → (w'.peer p).leading = false →
      Extends w w' →
      Q () { s with ri := (s.ri.withHeader (nextHeader s.ri none t)).flushed, fuse := fuse }) :
    (updateLogHeader t none).wp Q (Dead R w₀ cause p) s := by
  simp only [updateLogHeader, wp_bind, wp_getRi, wp_assert]
  refine ⟨fun ht => ?_, fun _ => ⟨w, hs, hst.self, hst.store⟩⟩
  rw [hst.term] at ht
  have hstep : Step R p (afterSync w p) _ := .adopt t (by rw [afterSync_peer]; exact ht)
  refine sim_logHeaderWrite false false hs hst ht hstep (by simp)
    (fun _ => id) fun fuse hsim hst' => ?_
  exact hQ _ fuse hsim hst' (by simp) (by simp) (by simp) (extends_afterSync.trans hstep.extends)

/-! ## Following -/

/-- The part of `raft_server_becomes_follower` after the suggested leader was found.  A vote is
cast for a candidate whose log the voter accepts. -/
theorem sim_follow {t : Int} {leader : Fin n} {reason : FollowerReason}
    {Q : Unit → Proc n → Prop} (hs : Sim R w₀ cause p w s.out s.trace) (ho : Ok R w p s.ri)
    (hleader : t ≤ (w.peer leader).cur)
    (hvote : reason = .votedForPeer →
      ∃ l, w.stood leader t = some l ∧ UpToDate l (w.peer p).log)
    (hQ : ∀ w' s', Sim R w₀ cause p w' s'.out s'.trace → Ok R w' p s'.ri →
      s'.ri.state = .follower → (w'.peer p).cur = t → Extends w w' → SameLog s.ri s'.ri t →
      (reason = .votedForPeer → ∃ l, ⟨p, t, leader, l⟩ ∈ w'.ballots) → Q () s') :
    (follow t leader reason).wp Q (Dead R w₀ cause p) s := by
  have hdead : Dead R w₀ cause p s := .intro hs ho
  have hterm := ho.stored.term
  simp only [follow, setLeaderCsn, wp_bind, wp_getRi, wp_modifyRi, wp_assert, wp_whenever]
  refine ⟨fun hassert => ⟨fun hne => ?_, fun heq => ?_⟩, fun _ => hdead⟩
  · -- a newer term: a vote, or the term alone
    have ht : (w.peer p).cur < t := by
      rw [← hterm]
      split at hassert <;> omega
    have hsame : ∀ hdr : LogHeader n, SameLog s.ri (s.ri.withHeader hdr).flushed t := fun hdr =>
      SameLog.of_header ho.stored.cons (by rw [hterm]; exact ht)
    have hpassive : ∀ w' : ClusterWorld n, Extends w w' → (w'.peer p).cur = t →
        (w'.peer p).standing = false → (w'.peer p).leading = false → ∀ ri' : RaftInstance n,
        ri'.state = .follower → ri'.csnLeader = some leader → Role R w' p ri' := by
      intro w' hx hcur h1 h2 ri' hstate hcsn
      refine Role.passive (.inl hstate) h2 h1 fun x hxl => ?_
      rw [hcsn] at hxl
      obtain rfl := Option.some.inj hxl
      rw [hcur]
      exact le_trans hleader (hx.cur leader)
    by_cases hr : reason = .votedForPeer
    · rw [if_pos hr]
      obtain ⟨l, hl, hu⟩ := hvote hr
      simp only [updateLogHeader, wp_bind, wp_getRi, wp_assert]
      refine ⟨fun _ => ?_, fun _ => hdead⟩
      have hstep : Step R p (afterSync w p) _ :=
        .vote t leader l (by rw [afterSync_peer]; exact ht) (by rw [afterSync_peer]) hl
          (by rw [afterSync_peer]; exact hu)
      have hx := extends_afterSync.trans hstep.extends
      refine sim_logHeaderWrite false false hs ho.stored.reroll ht hstep
        (by simp) (fun _ => id) fun fuse hsim hst' => ?_
      refine hQ _ _ hsim ⟨hst', hpassive _ hx (by simp) (by simp) (by simp) _ rfl rfl⟩ rfl
        (by simp) hx ?_ fun _ => ?_
      · obtain ⟨h1, h2, h3, h4, h5, h6, h7⟩ := hsame (nextHeader s.ri (some leader) t)
        exact ⟨h1, h2, h3, h4, h5, h6, h7⟩
      · exact ⟨_, Set.mem_insert _ _⟩
    · rw [if_neg hr]
      refine sim_updateLogHeader hs ho.stored.reroll fun w' fuse hsim hst' hcur h1 h2 hx => ?_
      refine hQ w' _ hsim ⟨hst', hpassive w' hx hcur h1 h2 _ rfl rfl⟩ rfl hcur hx ?_
        fun h => absurd h hr
      obtain ⟨h1, h2, h3, h4, h5, h6, h7⟩ := hsame (nextHeader s.ri none t)
      exact ⟨h1, h2, h3, h4, h5, h6, h7⟩
  · -- the same term: it gives up its candidacy
    have heq' : t = (w.peer p).cur := by
      rw [← hterm]
      exact not_not.mp heq
    refine hQ (afterResign w p) _ (hs.step step_afterResign fun _ => id)
      ⟨(ho.stored.reflag afterResign_peer).reroll, ?_⟩ rfl (by simp [heq']) extends_afterResign
      ?_ ?_
    · refine Role.passive (.inl rfl) (by simp) (by simp) fun x hx => ?_
      obtain rfl := Option.some.inj hx
      rw [afterResign_peer]
      exact le_trans (heq' ▸ hleader) (extends_afterResign.cur leader)
    · obtain ⟨h1, h2, h3, h4, h5, h6, h7⟩ := (SameLog.refl (by omega) : SameLog s.ri s.ri t)
      exact ⟨h1, h2, h3, h4, h5, h6, h7⟩
    · rintro rfl
      simp only [reduceCtorEq, if_false] at hassert
      omega

/-- `raft_server_becomes_follower` on a newer or equal term of another peer. -/
theorem sim_becomesFollower {t : Int} {peer : Option (Fin n)} {reason : FollowerReason}
    {Q : Unit → Proc n → Prop} (hs : Sim R w₀ cause p w s.out s.trace) (ho : Ok R w p s.ri)
    (hleader : ∀ x, peer = some x → t ≤ (w.peer x).cur)
    (hvote : reason = .votedForPeer → ∀ x, peer = some x →
      ∃ l, w.stood x t = some l ∧ UpToDate l (w.peer p).log)
    (hstay : (∀ x, peer = some x → x = p) → Q () s)
    (hQ : ∀ x w' s', peer = some x → Sim R w₀ cause p w' s'.out s'.trace → Ok R w' p s'.ri →
      s'.ri.state = .follower → (w'.peer p).cur = t → Extends w w' → SameLog s.ri s'.ri t →
      (reason = .votedForPeer → ∃ l, ⟨p, t, x, l⟩ ∈ w'.ballots) → Q () s') :
    (becomesFollower t peer reason).wp Q (Dead R w₀ cause p) s := by
  rw [becomesFollower, wp_bind, wp_getRi]
  cases peer with
  | none => exact hstay (by simp)
  | some x =>
    rw [wp_whenever]
    refine ⟨fun _ => ?_, fun hself => hstay ?_⟩
    · exact sim_follow hs ho (hleader x rfl) (fun hr => hvote hr x rfl) fun w' s' => hQ x w' s' rfl
    · rintro y ⟨⟩
      rw [← ho.stored.self]
      exact not_not.mp hself

/-! ## Candidacy -/

theorem wp_candidateRegVoteResult {voter : Fin n} {result : VoteResult} {D : Proc n → Prop}
    {Q : Except Errno Unit → Proc n → Prop} (hD : D s) (herr : ∀ rc, Q (.error rc) s)
    (hok : (result = .voteYes → s.ri.state = .candidate) →
      Q (.ok ()) { s with ri := { s.ri with candidate := { s.ri.candidate with
        results := Function.update s.ri.candidate.results voter result } } }) :
    (candidateRegVoteResult voter result).wp Q D s := by
  simp only [candidateRegVoteResult, wp_bind, wp_getRi, wp_ite, wp_pure, wp_fatalIf, wp_modifyRi]
  refine ⟨fun _ => herr _, fun _ => ⟨fun _ => herr _, fun hcand => ⟨fun _ => herr _, fun hround => ?_⟩⟩⟩
  refine ⟨fun _ => hD, fun _ => hok ?_⟩
  rintro rfl
  -- a full vote is not for the first round
  have hpre : s.ri.isCandidatePrevote = false := by
    by_contra hpre
    simp [voteResultIsForRound, eq_true_of_ne_false hpre] at hround
  by_contra hne
  exact hcand ⟨hpre, by simp [RaftInstance.isCandidate, hne]⟩

/-- The same message goes to all other servers. -/
theorem Sim.broadcast {out : List (Fin n × RpcMsg n)} {trace : List (Obs n)}
    (h : Sim R w₀ cause p w out trace) (msg : RpcMsg n) (hm : ∀ dst, MsgOk R w p dst cause msg) :
    Sim R w₀ cause p w (out ++ ((List.finRange n).filter (· ≠ p)).map (·, msg)) trace where
  reach := h.reach
  steps := h.steps
  sent := by
    intro m hmem
    rcases List.mem_append.mp hmem with hmem | hmem
    · exact h.sent m hmem
    · obtain ⟨dst, hdst, rfl⟩ := List.mem_map.mp hmem
      have hne : dst ≠ p := by simpa using (List.mem_filter.mp hdst).2
      exact ⟨hne.symm, hm dst⟩
  observed := h.observed
  led := h.led

/-- A timer expires, or too few votes came in: the first round begins. -/
theorem sim_becomeCandidate_prevote (hs : Sim R w₀ cause p w s.out s.trace) (ho : Ok R w p s.ri) :
    (becomeCandidate true).wp (fun _ => Live R w₀ cause p) (Dead R w₀ cause p) s := by
  have hdead : Dead R w₀ cause p s := .intro hs ho
  simp only [becomeCandidate, initCandidateState, voteForSelf, broadcastMsg, wp_bind, wp_modifyRi,
    wp_getRi, wp_assert, wp_ite, wp_pure, wp_modify]
  refine ⟨fun _ => ⟨fun h => absurd h.1 (by simp [RaftInstance.isCandidatePrevote]), fun _ => ?_⟩,
    fun _ => hdead⟩
  refine ⟨fun h => absurd h (by simp [RaftInstance.isCandidate]), fun _ => ?_⟩
  refine wp_candidateRegVoteResult hdead
    (fun rc => ⟨fun h => absurd h (by simp [Except.isOk, Except.toBool]), fun _ => hdead⟩)
    (fun _ => ⟨fun _ => ?_, fun _ => hdead⟩)
  have hsim := hs.step step_afterResign fun _ => id
  refine ⟨afterResign w p, ?_, (ho.stored.reflag afterResign_peer).reroll,
    Role.passive (.inr rfl) (by simp) (by simp) (by simp)⟩
  have hb := hsim.broadcast (.preVoteRequest ⟨s.ri.logHdr.term + 1, s.ri.newestSync.term,
    s.ri.newestSync.index⟩) fun _ => trivial
  rw [← ho.stored.self] at hb ⊢
  exact hb

/-- The world once `p` stands for `t`. -/
def afterStand (w : ClusterWorld n) (p : Fin n) (t : Int) : ClusterWorld n :=
  { w.setPeer p { w.peer p with cur := t, standing := true, leading := false } with
    stood := Function.update w.stood p (Function.update (w.stood p) t (w.peer p).log)
    ballots := insert ⟨p, t, p, (w.peer p).log⟩ w.ballots }

@[simp] theorem afterStand_peer {t : Int} : (afterStand w p t).peer p =
    { w.peer p with cur := t, standing := true, leading := false } :=
  setPeer_self

@[simp] theorem afterStand_stood {t : Int} :
    (afterStand w p t).stood p t = some (w.peer p).log := by
  simp [afterStand]

/-- A candidate votes for itself in the next term. -/
theorem sim_voteForSelf {Q : Except Errno Unit → Proc n → Prop}
    (hs : Sim R w₀ cause p w s.out s.trace) (hst : Stored w p s.ri)
    (hstate : s.ri.state = .candidate)
    (hcand : s.ri.candidate = ⟨s.ri.logHdr.term + 1, false, fun _ => .unknown⟩)
    (herr : ∀ rc s', Dead R w₀ cause p s' → Q (.error rc) s')
    (hQ : ∀ w' s', Sim R w₀ cause p w' s'.out s'.trace → Stored w' p s'.ri →
      s'.ri.state = .candidate → s'.ri.csnLeader = s.ri.csnLeader →
      CandidateOk R w' p s'.ri.candidate → (w'.peer p).standing = true →
      (w'.peer p).leading = false →
      w'.stood p (s.ri.logHdr.term + 1) = some (w'.peer p).log →
      (w'.peer p).synced = (w'.peer p).log.length → s'.out = s.out → s'.ri.self = s.ri.self →
      Q (.ok ()) s') :
    voteForSelf.wp Q (Dead R w₀ cause p) s := by
  have hterm := hst.term
  simp only [voteForSelf, wp_bind, wp_getRi, wp_ite, wp_pure]
  refine ⟨fun h => absurd h.2 (by simp [RaftInstance.isCandidate, hstate]), fun _ => ⟨fun _ => ?_,
    fun h => absurd (by simp [RaftInstance.isCandidate, hstate]) h⟩⟩
  have hnew : (w.peer p).cur < s.ri.logHdr.term + 1 := by omega
  have hnone : w.stood p (s.ri.logHdr.term + 1) = none := by
    cases hl : w.stood p (s.ri.logHdr.term + 1) with
    | none => rfl
    | some l =>
      have := (hs.basic.stood_le p _ l hl).1
      omega
  have hstep : Step R p (afterSync w p) (afterStand (afterSync w p) p (s.ri.logHdr.term + 1)) :=
    .stand _ (by rw [afterSync_peer]; exact hnew) (by rw [afterSync_peer]) hnone
  refine sim_logHeaderWrite true false hs hst hnew hstep (by simp)
    (fun _ => id) fun fuse hsim hst' => ?_
  have hdead : Dead R w₀ cause p
      { s with
        ri := (s.ri.withHeader (nextHeader s.ri (some s.ri.self) (s.ri.logHdr.term + 1))).flushed
        fuse := fuse } := ⟨_, hsim, hst'.self, hst'.store⟩
  refine wp_candidateRegVoteResult hdead (fun rc => herr rc _ hdead) fun _ => ?_
  refine hQ _ _ hsim hst'.reroll hstate rfl ⟨?_, fun _ q hq => ?_⟩ (by simp) (by simp) (by simp)
    (by simp) rfl rfl
  · rw [afterStand_peer]
    change s.ri.candidate.term = _
    rw [hcand]
  · -- the only vote so far is its own
    have hself : q = p := by
      rw [← hst.self]
      by_contra hne
      change Function.update s.ri.candidate.results s.ri.self .voteYes q = .voteYes at hq
      rw [Function.update_of_ne hne, hcand] at hq
      cases hq
    subst hself
    refine ⟨((afterSync w q).peer q).log, ?_⟩
    rw [afterStand_peer]
    exact Set.mem_insert _ _

/-- A majority of pre-votes: the server stands for the next term and asks for votes. -/
theorem sim_becomeCandidate (hs : Sim R w₀ cause p w s.out s.trace) (ho : Ok R w p s.ri) :
    (becomeCandidate false).wp (fun _ => Live R w₀ cause p) (Dead R w₀ cause p) s := by
  have hdead : Dead R w₀ cause p s := .intro hs ho
  simp only [becomeCandidate, initCandidateState, broadcastMsg, wp_bind, wp_modifyRi, wp_getRi,
    wp_assert, wp_modify]
  refine ⟨fun _ => ?_, fun _ => hdead⟩
  refine sim_voteForSelf hs ho.stored.reroll rfl rfl
    (fun rc s' hd => ⟨fun h => absurd h (by simp [Except.isOk, Except.toBool]), fun _ => hd⟩) ?_
  intro w' s' hsim hst hstate hcsn hcand h1 h2 hstood hsync hout hself
  refine ⟨fun _ => ?_, fun h => absurd (by simp [Except.isOk, Except.toBool]) h⟩
  refine ⟨w', ?_, hst, ⟨by simp [hstate], by simp [hstate, h2], by simp [hstate, h1], ?_,
    fun _ => hcand, by simp [hstate]⟩⟩
  · have hmsg : VoteRequestOk w' p
        ⟨s.ri.logHdr.term + 1, s'.ri.newestSync.term, s'.ri.newestSync.index⟩ := by
      have hlast : s'.ri.newestSync.term = lastTerm (w'.peer p).log := by
        rw [hst.sync, hsync, hst.store.length, List.take_length, lastHeader_term, hst.store.log]
      refine ⟨_, hstood, hlast.symm, ?_⟩
      have := hst.sync_index
      simp only
      omega
    have hb := hsim.broadcast (.voteRequest _) fun _ => hmsg
    rw [← hst.self] at hb ⊢
    exact hb
  · rw [hcsn]
    simp

/-! ## Leading -/

/-- An entry is stored, by a step that appends it.  With synchronous writes it is synced. -/
theorem sim_withEntry {w' : ClusterWorld n} {re : Entry} {out : List (Fin n × RpcMsg n)}
    {trace : List (Obs n)} {ri : RaftInstance n} (hs : Sim R w₀ cause p w out trace)
    (ho : Ok R w p ri) (hre : EntryOk ri.entryMaxDataSize ri.store.db.entries.length re)
    (hterm : ri.newestUnsync.term ≤ re.term) (hstep : Step R p w w')
    (hp : w'.peer p = { w.peer p with log := (w.peer p).log ++ [re.core] })
    (hled : ∀ u, w'.led p u → w.led p u) :
    ∃ w'', Sim R w₀ cause p w'' out trace ∧ Ok R w'' p (ri.withEntry re) ∧ Extends w w'' ∧
      w''.peer p = { w'.peer p with synced := (w''.peer p).synced } := by
  have hsim := hs.step hstep hled
  have hlog : (w.peer p).log <+: (w.peer p).log ++ [re.core] := List.prefix_append _ _
  cases hsync : ri.doesSynchronousWrites with
  | true =>
    have hp' : (afterSync w' p).peer p = { w.peer p with
        log := (w.peer p).log ++ [re.core], synced := (w.peer p).log.length + 1 } := by
      rw [afterSync_peer, hp]
      simp
    have hx : Extends w (afterSync w' p) := hstep.extends.trans extends_afterSync
    refine ⟨afterSync w' p, hsim.step step_afterSync fun _ => id, ⟨?_, ?_⟩, hx, ?_⟩
    · exact ho.stored.withEntry hre hterm (by rw [hp', hsync]; rfl)
    · refine ho.role.mono hx ?_ ?_ ?_ ?_ rfl rfl rfl rfl (le_refl _)
      all_goals rw [hp']
      exact fun _ => hlog
    · rw [afterSync_peer]
  | false =>
    refine ⟨w', hsim, ⟨?_, ?_⟩, hstep.extends, rfl⟩
    · exact ho.stored.withEntry hre hterm (by rw [hp, hsync]; rfl)
    · refine ho.role.mono hstep.extends ?_ ?_ ?_ ?_ rfl rfl rfl rfl (le_refl _)
      all_goals rw [hp]
      exact fun _ => hlog

section Write

variable [Externals]

/-- The leader appends an entry of its term. -/
theorem sim_leaderWriteNewEntry {data : List UInt8} {sizes : List Nat} {marker : Bool}
    {Q : Unit → Proc n → Prop} (hs : Sim R w₀ cause p w s.out s.trace) (ho : Ok R w p s.ri)
    (hlen : sizes.sum = data.length) (hnum : sizes.length < 256)
    (hmark : marker = true → sizes.sum = 0)
    (hQ : ∀ w' s', Sim R w₀ cause p w' s'.out s'.trace → Ok R w' p s'.ri → Q () s') :
    (leaderWriteNewEntry data sizes marker).wp Q (Dead R w₀ cause p) s := by
  have hdead : Dead R w₀ cause p s := .intro hs ho
  simp only [leaderWriteNewEntry, wp_bind, wp_getRi, wp_assert]
  refine ⟨fun hlead => ⟨fun _ => ?_, fun _ => hdead⟩, fun _ => hdead⟩
  refine wp_writeNextEntry ho.stored.cons (fun _ => hdead) fun fuse hterm hmax _ _ => ?_
  set re := entryOf s.ri s.ri.store.db.entries.length s.ri.logHdr.term data sizes marker with hre
  have hleading : (w.peer p).leading = true :=
    ho.role.leads.mp (by simpa [RaftInstance.isLeader] using hlead)
  have hcur : re.core.term = (w.peer p).cur := ho.stored.term
  have hok : EntryOk s.ri.entryMaxDataSize s.ri.store.db.entries.length re :=
    entryOf_ok (by rw [ho.stored.term]; exact ho.stored.store.nonneg) (le_of_eq hlen) hmax hnum
      hmark
  obtain ⟨w', hsim, hok', -, -⟩ := sim_withEntry hs ho hok hterm
    (.extend re.core hleading hcur) (by simp) fun _ => id
  exact hQ w' _ hsim hok'

/-- The world once `p` leads. -/
def afterLead (w : ClusterWorld n) (p : Fin n) : ClusterWorld n :=
  { w.setPeer p { w.peer p with standing := false, leading := true } with
    led := fun q t => w.led q t ∨ (q = p ∧ t = (w.peer p).cur)
    llog := Function.update w.llog p
      (Function.update (w.llog p) (w.peer p).cur (w.peer p).log) }

omit [Externals] in
@[simp] theorem afterLead_peer :
    (afterLead w p).peer p = { w.peer p with standing := false, leading := true } :=
  setPeer_self

omit [Externals] in
/-- The slots of a new leader. -/
theorem slotOk_init {ri : RaftInstance n} (hst : Stored w p ri) (q : Fin n) (low : Int) :
    SlotOk R w p q low (followerInfoInit ri.newestSync) where
  prev := by
    intro _ hnext _
    have hidx := hst.sync_index
    simp only [followerInfoInit] at hnext ⊢
    rw [hidx] at hnext
    have hpos : 0 < (w.peer p).synced := by omega
    have hlt : (w.peer p).synced - 1 < ri.store.db.entries.length := by
      have := hst.store.synced_le
      omega
    have hget := List.getElem?_eq_getElem hlt
    have hlast := EntriesOk.lastHeader_take_succ hget
    rw [Nat.sub_add_cancel hpos, ← hst.sync] at hlast
    have hpos' : (ri.newestSync.index + 1 - 1).toNat = (w.peer p).synced - 1 := by omega
    rw [hpos', hlast]
    exact ⟨_, hst.store.getElem hget, rfl⟩
  synced := by
    intro _ h
    simp [followerInfoInit] at h

/-- `raft_server_candidate_becomes_leader`: the votes of a majority were counted. -/
theorem sim_candidateBecomesLeader (hs : Sim R w₀ cause p w s.out s.trace) (ho : Ok R w p s.ri)
    (hstate : s.ri.state = .candidate)
    (hq : R.counted → w.BallotQuorum p (w.peer p).cur) :
    candidateBecomesLeader.wp (fun _ => Live R w₀ cause p) (Dead R w₀ cause p) s := by
  have hdead : Dead R w₀ cause p s := .intro hs ho
  have hstands := ho.role.stands.mp hstate
  obtain ⟨hstood, hnot⟩ := hs.basic.standing p hstands
  simp only [candidateBecomesLeader, leaderInitState, writeLeaderChangeMarker, setLeaderCsn,
    wp_bind, wp_getRi, wp_assert]
  refine ⟨fun _ => ?_, fun _ => hdead⟩
  refine wp_hasUnsyncedEntries hdead ?_
  simp only [wp_fatalIf, wp_modifyRi, wp_observe]
  refine ⟨fun _ => hdead, fun hsame => ?_⟩
  have hsynced := ho.stored.synced_eq (by simpa using hsame)
  have hstep : Step R p w (afterLead w p) := .lead hstands hnot hq
  have hobs : ObsOk (afterLead w p) p (.leads s.ri.logHdr.term
      (s.ri.log.take (s.ri.newestSync.index + 1).toNat)) := by
    have hlog : s.ri.log.take (s.ri.newestSync.index + 1).toNat = (w.peer p).log := by
      have := ho.stored.sync_index
      rw [List.take_of_length_le, ho.stored.store.log]
      · rfl
      · change (s.ri.store.db.entries.map Entry.core).length ≤ _
        rw [← ho.stored.store.log]
        omega
    rw [hlog, ho.stored.term]
    exact ⟨.inr ⟨rfl, rfl⟩, hstood⟩
  have hsim := hs.lead hstep (t := s.ri.logHdr.term) (fun t' ht => ?_) hobs
  · have hst : Stored (afterLead w p) p s.ri := ho.stored.reflag afterLead_peer
    have hinit : s.ri.newestSync.index = (w.peer p).log.length - 1 := by
      rw [ho.stored.sync_index, hsynced]
    have hok : Ok R (afterLead w p) p
        { s.ri with
          state := .leader
          leader := ⟨s.ri.newestSync.index, s.ri.logHdr.term,
            fun _ => followerInfoInit s.ri.newestSync⟩ } := by
      refine ⟨hst.reroll, ⟨by simp, by simp, by simp, ?_, by simp, fun _ => ⟨?_, ?_⟩⟩⟩
      · intro x hx
        rw [afterLead_peer]
        exact le_trans (ho.role.csn x hx) (hstep.extends.cur x)
      · exact ⟨_, by rw [afterLead_peer]; exact hstood, hinit⟩
      · exact fun q => slotOk_init hst q _
    refine ⟨fun _ => ?_, fun _ => Dead.intro hsim hok⟩
    refine sim_leaderWriteNewEntry hsim hok rfl (by decide) (fun _ => rfl) fun w' s' hsim' hok' => ?_
    refine ⟨w', hsim', hok'.stored.reroll, ?_⟩
    obtain ⟨h1, h2, h3, h4, h5, h6⟩ := hok'.role
    refine ⟨h1, h2, h3, ?_, h5, h6⟩
    intro x hx
    obtain rfl := Option.some.inj hx
    rw [ho.stored.self]
  · rcases ht with ht | ⟨-, rfl⟩
    · exact .inl ht
    · exact .inr ho.stored.term.symm

/-! ## Votes -/

omit [Externals] in
/-- A majority of counted votes is a quorum of ballots. -/
theorem ballotQuorum_of_count {ri : RaftInstance n} (hc : CandidateOk R w p ri.candidate)
    (hR : R.counted) (hcount : n / 2 + 1 ≤ candidateCountVotes ri .voteYes) :
    w.BallotQuorum p (w.peer p).cur := by
  refine ⟨_, majority_of_countP _ hcount, fun q hq => hc.votes hR q ?_⟩
  simpa using hq

/-- `raft_server_process_vote_reply_common`.  Where votes are counted, a granted vote must
answer a request of the candidate's term. -/
theorem sim_processVoteReplyCommon {sender : Fin n} {prevote : Bool} {m : VoteReplyMsg n}
    (hs : Sim R w₀ cause p w s.out s.trace) (ho : Ok R w p s.ri)
    (hleader : prevote = false → ∀ x, m.currentLeader = some x → m.term ≤ (w.peer x).cur)
    (hgrant : R.counted → prevote = false → m.votedGranted = true → s.ri.state = .candidate →
      ∃ l, ⟨sender, (w.peer p).cur, p, l⟩ ∈ w.ballots) :
    (processVoteReplyCommon sender prevote m).wp (fun _ => Live R w₀ cause p)
      (Dead R w₀ cause p) s := by
  have hdead : Dead R w₀ cause p s := .intro hs ho
  have hlive : Live R w₀ cause p s := .intro hs ho
  simp only [processVoteReplyCommon, wp_bind, wp_getRi, wp_ite, wp_pure, wp_whenever]
  refine ⟨fun _ => hlive, fun _ => ?_⟩
  refine wp_candidateRegVoteResult hdead
    (fun rc => ⟨fun h => absurd h (by simp [Except.isOk, Except.toBool]), fun _ => hlive⟩)
    fun hround => ⟨fun _ => ?_, fun h => absurd (by simp [Except.isOk, Except.toBool]) h⟩
  -- the result is registered
  have hok : Ok R w p { s.ri with candidate := { s.ri.candidate with
      results := Function.update s.ri.candidate.results sender
        (voteResultOf prevote m.votedGranted) } } := by
    refine ⟨ho.stored.reroll, ⟨ho.role.state, ho.role.leads, ho.role.stands, ho.role.csn,
      fun hc => ⟨(ho.role.candidate hc).term, fun hR q hq => ?_⟩, ho.role.leader⟩⟩
    by_cases hqs : q = sender
    · subst hqs
      simp only [Function.update_self] at hq
      have hvote : prevote = false ∧ m.votedGranted = true := by
        unfold voteResultOf at hq
        cases prevote <;> cases hg : m.votedGranted <;> simp [hg] at hq ⊢
      exact hgrant hR hvote.1 hvote.2 hc
    · simp only [Function.update_of_ne hqs] at hq
      exact (ho.role.candidate hc).votes hR q hq
  rw [actOnVoteResult, wp_bind, wp_getRi]
  cases hres : voteResultOf prevote m.votedGranted with
  | preVoteYes =>
    rw [hres] at hok
    rw [wp_whenever]
    exact ⟨fun _ => sim_becomeCandidate hs hok, fun _ => .intro hs hok⟩
  | preVoteNo =>
    rw [hres] at hok
    exact .intro hs hok
  | voteYes =>
    rw [hres] at hok hround
    rw [wp_whenever]
    refine ⟨fun hcan => ?_, fun _ => .intro hs hok⟩
    have hc := hround rfl
    refine sim_candidateBecomesLeader hs hok hc fun hR => ?_
    refine ballotQuorum_of_count (hok.role.candidate hc) hR ?_
    simpa [candidateCanBecomeLeader] using (Bool.and_eq_true_iff.mp hcan).2
  | voteNo =>
    have hpre : prevote = false := by
      unfold voteResultOf at hres
      cases prevote <;> cases hg : m.votedGranted <;> simp [hg] at hres ⊢
    rw [hres] at hok
    rw [wp_whenever]
    refine ⟨fun _ => ?_, fun _ => .intro hs hok⟩
    exact sim_becomesFollower hs hok (hleader hpre) (by simp) (fun _ => .intro hs hok)
      fun x w' s' _ hsim hok' _ _ _ _ _ => .intro hsim hok'
  | unknown =>
    rw [hres] at hok
    exact .intro hs hok

end Write

/-- `raft_server_process_vote_request_common`. -/
theorem sim_processVoteRequestCommon {sender : Fin n} {prevote : Bool} {m : VoteRequestMsg}
    (hs : Sim R w₀ cause p w s.out s.trace) (ho : Ok R w p s.ri) (hne : sender ≠ p)
    (hreq : prevote = false → VoteRequestOk w sender m)
    (hcause : prevote = false → cause = some (.voteRequest m)) :
    (processVoteRequestCommon sender prevote m).wp (fun _ => Live R w₀ cause p)
      (Dead R w₀ cause p) s := by
  simp only [processVoteRequestCommon, wp_bind, wp_getRi, wp_whenever]
  refine sim_backendSyncPending hs ho fun w' s' hs ho hsame _ hx => ?_
  cases prevote with
  | true =>
    refine ⟨fun h => absurd h.1 (by simp), fun _ => ?_⟩
    exact .intro (s := { s' with out := _ }) (hs.send hne.symm trivial) ho
  | false =>
    obtain ⟨l, hstood, hlt, hlen⟩ := hreq rfl
    refine ⟨fun hgrant => ?_, fun hgrant => ?_⟩
    · simp only [Bool.false_eq_true, if_false, true_and] at hgrant ⊢
      have hdecide := hgrant
      simp only [processVoteRequestDecide, Bool.not_eq_true', decide_eq_false_iff_not, not_or,
        not_le, not_lt] at hdecide
      obtain ⟨hterm, hlast, hidx⟩ := hdecide
      have hsync := ho.stored.synced_eq hsame
      have hup : UpToDate l (w'.peer p).log := by
        constructor
        · rw [hlt, ← ho.stored.unsync_term, ← hsame]
          exact hlast
        · have := ho.stored.sync_index
          omega
      have hstood' := hx.stood hstood
      have hle := (hs.basic.stood_le sender _ l hstood').1
      refine sim_becomesFollower hs ho (fun x hx => by obtain rfl := Option.some.inj hx; exact hle)
        (fun _ x hx => by obtain rfl := Option.some.inj hx; exact ⟨l, hstood', hup⟩)
        (fun h => absurd (h sender rfl) hne) ?_
      rintro x w'' s'' ⟨⟩ hs'' ho'' - - - - hballot
      refine .intro (s := { s'' with out := _ }) (hs''.send hne.symm ?_) ho''
      refine ⟨fun _ => ⟨m, hcause rfl, hballot rfl⟩, ?_⟩
      simp [hgrant]
    · have hgrant' : processVoteRequestDecide s'.ri m s'.ri.newestSync = false := by
        simpa using hgrant
      simp only [Bool.false_eq_true, if_false, hgrant']
      refine .intro (s := { s' with out := _ }) (hs.send hne.symm ⟨by simp, fun x hx => ?_⟩) ho
      rw [ho.stored.term]
      exact ho.role.csn x hx

end Refinement

end NiovaRaft
