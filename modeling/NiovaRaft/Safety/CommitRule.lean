import NiovaRaft.Safety.LogMatching

/-!
# The leader's commit rule

A leader may count replicas only for entries of its own term, the first of which follows
`rls_initial_term_idx`.  The check in `raft_server_leader_can_advance_commit_idx` lets the index
`rls_initial_term_idx` itself through, at which lies the last entry of an earlier term.  So the
rule holds exactly when a majority of the slots never stops there.
-/

namespace NiovaRaft

open Base Base.Handler Base.Replication Refinement RaftServer

variable {n : Nat}

/-! ## The condition -/

/-- The slots once a synced index was accepted, if the leader then looks at its commit index. -/
def acceptedSlots (ri : RaftInstance n) (peer : Fin n) (term sli : Int) :
    Option (RaftInstance n) :=
  let rfi := ri.followerInfo peer
  if (term = ri.newestSync.term ∧ rfi.syncedIdx ≤ rfi.nextIdx) ∧
      (rfi.ackdIdx < rfi.nextIdx - 1 ∨ rfi.syncedIdx < sli) then
    some (ri.setFollowerInfo peer (FollowerInfo.accept rfi sli))
  else none

/-- The slots with which a leader looks at its commit index after a message. -/
def slotsAfterMsg (ri : RaftInstance n) (sender : Fin n) : RpcMsg n → Option (RaftInstance n)
  | .appendEntriesReply m =>
      if ri.state = .leader ∧ Clean m ∧ m.prevLogIndex + 1 = (ri.followerInfo sender).nextIdx then
        acceptedSlots
          (ri.setFollowerInfo sender (FollowerInfo.advance (ri.followerInfo sender) m))
          sender m.leaderTerm m.syncedLogIndex
      else none
  | .syncIdxUpdate m =>
      if ri.state = .leader ∧ m.term = ri.logHdr.term then
        acceptedSlots ri sender m.term m.syncedLogIndex
      else none
  | _ => none

/-- The slots with which a leader looks at its commit index in an event. -/
def slotsAfter (c : Cluster n) (e : Event n) : Option (RaftInstance n) :=
  let ri := c.servers e.server
  match e.action with
  | .deliver _ => (c.delivered e).bind fun pkt => slotsAfterMsg ri pkt.src pkt.msg
  | .commitIdxAdv => if ri.state = .leader then some ri else none
  | _ => none

/-- A majority of the slots reaches the last entry before the leader's term, and no majority
reaches further. -/
structure StopsAtInitial (ri : RaftInstance n) : Prop where
  commit : ri.commitIdx < ri.leader.initialTermIdx
  sync : ri.leader.initialTermIdx ≤ ri.newestSync.index
  reached : n / 2 + 1 ≤ countReaching ri ri.leader.initialTermIdx
  notPast : ¬ n / 2 + 1 ≤ countReaching ri (ri.leader.initialTermIdx + 1)

instance (ri : RaftInstance n) : Decidable (StopsAtInitial ri) :=
  decidable_of_iff (_ ∧ _ ∧ _ ∧ _)
    ⟨fun ⟨h1, h2, h3, h4⟩ => ⟨h1, h2, h3, h4⟩, fun ⟨h1, h2, h3, h4⟩ => ⟨h1, h2, h3, h4⟩⟩

/-- No leader looks at its commit index when its slots stop at the initial index. -/
def PastInitial (c : Cluster n) (e : Event n) : Prop :=
  c.enabled e = true → ∀ ri ∈ slotsAfter c e, ¬ StopsAtInitial ri

instance : ∀ (c : Cluster n) (e : Event n), Decidable (PastInitial c e) :=
  fun _ _ => inferInstanceAs (Decidable (_ → ∀ ri ∈ _, _))

/-- Slots stop at the initial index exactly when that is what the leader goes on to commit. -/
theorem stopsAtInitial_iff {ri : RaftInstance n} :
    StopsAtInitial ri ↔ Advances ri ∧ committedIdx ri = ri.leader.initialTermIdx := by
  constructor
  · rintro ⟨h1, h2, h3, h4⟩
    rw [← le_committedIdx_iff] at h3 h4
    have heq : committedIdx ri = ri.leader.initialTermIdx := by omega
    exact ⟨⟨h3, by omega, by omega⟩, heq⟩
  · rintro ⟨⟨h1, h2, h3⟩, heq⟩
    refine ⟨by omega, by omega, ?_, ?_⟩
    · rw [← le_committedIdx_iff]
      omega
    · rw [← le_committedIdx_iff]
      omega

/-! ## What a leader observes -/

/-- A leader that looks at its commit index with `slots` observes its advance and nothing
else. -/
def Looked (slots : Option (RaftInstance n)) (old new : List (Obs n)) : Prop :=
  (new = old ∧ ∀ ri ∈ slots, committedIdx ri = -1 ∨ ¬ Advances ri) ∨
    ∃ ri ∈ slots, Advances ri ∧
      new = old ++ [.commits .leader ri.logHdr.term (committedIdx ri) ri.log]

section Handlers

variable {s : Proc n}

/-- The handler adds to the trace what a leader with `slots` observes. -/
def LooksWith (slots : Option (RaftInstance n)) (m : Server n Unit) (s : Proc n) : Prop :=
  m.wp (fun _ s' => Looked slots s.trace s'.trace)
    (fun s' => s'.trace = s.trace ∧ ∀ ri ∈ slots, ¬ Advances ri) s

theorem Looked.none {old : List (Obs n)} : Looked none old old := .inl ⟨rfl, by simp⟩

theorem looksWith_leaderTryAdvanceCommitIdx (hlead : s.ri.state = .leader) :
    LooksWith (some s.ri) leaderTryAdvanceCommitIdx s := by
  refine wp_leaderTryAdvanceCommitIdx (fun h => absurd hlead h) (fun h => ⟨rfl, ?_⟩)
    (fun h => .inl ⟨rfl, ?_⟩) (fun _ h => .inr ⟨s.ri, rfl, h, rfl⟩)
  · rintro ri ⟨⟩
    exact h
  · rintro ri ⟨⟩
    exact h

theorem looksWith_tryUpdateFollowerSyncIdx {peer : Fin n} {term sli : Int}
    (hlead : s.ri.state = .leader) :
    LooksWith (acceptedSlots s.ri peer term sli) (tryUpdateFollowerSyncIdx peer term sli) s := by
  simp only [LooksWith, tryUpdateFollowerSyncIdx, wp_bind, wp_getRi, wp_whenever, wp_modifyRi,
    acceptedSlots]
  refine ⟨fun hterm => ⟨fun hraise => ?_, fun hraise => ?_⟩, fun hterm => ?_⟩
  · rw [if_pos ⟨hterm, hraise⟩]
    exact looksWith_leaderTryAdvanceCommitIdx
      (s := { s with ri := s.ri.setFollowerInfo peer _ }) hlead
  · rw [if_neg fun h => hraise h.2]
    exact .none
  · rw [if_neg fun h => hterm h.1]
    exact .none

/-- A leader that learns of a newer term observes nothing. -/
theorem wp_becomesFollower_trace {t : Int} {sender : Fin n} (hc : Consistent s.ri)
    (ht : s.ri.logHdr.term < t) :
    (becomesFollower t (some sender) .staleTermWhileLeader).wp (fun _ s' => s'.trace = s.trace)
      (fun s' => s'.trace = s.trace) s := by
  simp only [becomesFollower, follow, updateLogHeader, setLeaderCsn, wp_bind, wp_getRi,
    wp_whenever, wp_modifyRi, wp_assert]
  refine ⟨fun _ => ⟨fun _ => ⟨fun _ => ⟨fun _ => ?_, fun _ => trivial⟩, fun _ => trivial⟩,
    fun _ => trivial⟩, fun _ => trivial⟩
  refine wp_logHeaderWrite ?_ ht (fun _ => rfl) (fun _ _ => rfl) fun _ _ => rfl
  exact ⟨hc.entries, hc.unsync, hc.sync, hc.reaped, hc.applied⟩

theorem looksWith_processAppendEntriesReply {sender : Fin n} {m : AppendEntriesReplyMsg}
    (hc : Consistent s.ri) :
    LooksWith (slotsAfterMsg s.ri sender (.appendEntriesReply m))
      (processAppendEntriesReply sender m) s := by
  simp only [LooksWith, slotsAfterMsg, processAppendEntriesReply, applyAppendEntriesReplyResult,
    wp_bind, wp_getRi, wp_ite, wp_pure, wp_whenever, wp_assert, wp_modifyRi]
  refine ⟨fun hl => ?_, fun hl => ⟨fun hstale => ?_, fun hstale => ?_⟩⟩
  · rw [if_neg fun h => by simp [RaftInstance.isLeader, h.1] at hl]
    exact .none
  · rw [if_neg fun h => by simp [h.2.1.1] at hstale]
    refine ⟨fun ht => ?_, fun _ => .none⟩
    refine wp_mono (wp_becomesFollower_trace hc ht) ?_ ?_
    · exact fun _ s' htrace => .inl ⟨htrace, by simp⟩
    · exact fun s' htrace => ⟨htrace, by simp⟩
  · have hlead : s.ri.state = .leader := by
      simpa [RaftInstance.isLeader] using eq_true_of_ne_false hl
    refine ⟨fun _ => ⟨fun _ => ⟨fun hnext => ?_, fun hnext => ⟨fun hsli => ?_, fun hsli =>
      ⟨fun hnm => ?_, fun hnm => ?_⟩⟩⟩, fun h => absurd (eq_false_of_ne_true hstale) h⟩,
      fun h => absurd (eq_true_of_ne_false hl) h⟩
    · rw [if_neg fun h => hnext h.2.2]
      exact .none
    · rw [if_neg fun h => by simp [h.2.1.2.2] at hsli]
      exact .none
    · rw [if_neg fun h => by simp [h.2.1.2.1] at hnm]
      exact .none
    · rw [if_pos ⟨hlead, ⟨eq_false_of_ne_true hstale, eq_false_of_ne_true hnm,
        eq_false_of_ne_true hsli⟩, not_not.mp hnext⟩]
      exact looksWith_tryUpdateFollowerSyncIdx
        (s := { s with ri := s.ri.setFollowerInfo sender _ }) hlead

theorem looksWith_processSyncIdxUpdate {sender : Fin n} {m : SyncIdxUpdateMsg} :
    LooksWith (slotsAfterMsg s.ri sender (.syncIdxUpdate m)) (processSyncIdxUpdate sender m) s := by
  simp only [LooksWith, slotsAfterMsg, processSyncIdxUpdate, wp_bind, wp_getRi, wp_whenever]
  refine ⟨fun h => ?_, fun h => ?_⟩
  · have hlead : s.ri.state = .leader := by simpa [RaftInstance.isLeader] using h.1
    rw [if_pos ⟨hlead, h.2⟩]
    exact looksWith_tryUpdateFollowerSyncIdx hlead
  · rw [if_neg fun h' => h ⟨by simp [RaftInstance.isLeader, h'.1], h'.2⟩]
    exact .none

theorem looksWith_commitIdxAdvEvpCb :
    LooksWith (if s.ri.state = .leader then some s.ri else none) commitIdxAdvEvpCb s := by
  simp only [LooksWith, commitIdxAdvEvpCb, wp_bind, wp_getRi, wp_whenever]
  refine ⟨fun h => ?_, fun h => ?_⟩
  · have hlead : s.ri.state = .leader := by simpa [RaftInstance.isLeader] using h
    rw [if_pos hlead]
    exact looksWith_leaderTryAdvanceCommitIdx hlead
  · rw [if_neg fun h' => h (by simp [RaftInstance.isLeader, h'])]
    exact .none

end Handlers

/-! ## Events -/

/-- The slots are those of the leader, with some of them raised. -/
theorem acceptedSlots_eq {ri ri' : RaftInstance n} {peer : Fin n} {term sli : Int}
    (h : ri' ∈ acceptedSlots ri peer term sli) :
    ∃ rfi, ri' = { ri with leader := { ri.leader with rfi := rfi } } := by
  unfold acceptedSlots at h
  dsimp only at h
  split at h
  · cases h
    exact ⟨_, rfl⟩
  · cases h

theorem slotsAfter_eq {c : Cluster n} {e : Event n} {ri' : RaftInstance n}
    (h : ri' ∈ slotsAfter c e) : (c.servers e.server).state = .leader ∧ ∃ rfi,
      ri' = { c.servers e.server with leader := { (c.servers e.server).leader with rfi := rfi } } := by
  unfold slotsAfter at h
  dsimp only at h
  split at h
  · rw [Option.mem_def, Option.bind_eq_some_iff] at h
    obtain ⟨pkt, -, h⟩ := h
    unfold slotsAfterMsg at h
    split at h
    · split at h
      · rename_i hl
        obtain ⟨rfi, rfl⟩ := acceptedSlots_eq h
        exact ⟨hl.1, rfi, rfl⟩
      · cases h
    · split at h
      · rename_i hl
        exact ⟨hl.1, acceptedSlots_eq h⟩
      · cases h
    · cases h
  · split at h
    · rename_i hl
      cases h
      exact ⟨hl, _, rfl⟩
    · cases h
  · cases h

/-- Without a notification no leader looks at its commit index. -/
theorem slotsAfter_of_not_notifies {c : Cluster n} {e : Event n} (h : c.notifies e = false) :
    slotsAfter c e = none := by
  unfold Cluster.notifies at h
  unfold slotsAfter
  cases hact : e.action with
  | deliver k =>
    rw [hact] at h
    cases hdel : c.delivered e with
    | none => rfl
    | some pkt =>
      rw [hdel] at h
      simp only [Option.any_some] at h
      simp only [Option.bind_some]
      cases hmsg : pkt.msg <;> rw [hmsg] at h <;> first | rfl | cases h
  | commitIdxAdv =>
    rw [hact] at h
    cases h
  | _ => rfl

section Step

variable [Externals] {c : Cluster n} {e : Event n}

/-- What is observed in a notification. -/
theorem looksWith_handler (hc : Consistent (c.servers e.server)) (hn : c.notifies e = true) :
    LooksWith (slotsAfter c e) (c.handler e) (c.proc e) := by
  unfold Cluster.notifies at hn
  unfold slotsAfter Cluster.handler
  cases hact : e.action with
  | deliver k =>
    rw [hact] at hn
    cases hdel : c.delivered e with
    | none => exact .none
    | some pkt =>
      rw [hdel] at hn
      simp only [Option.any_some] at hn
      simp only [Option.bind_some]
      cases hmsg : pkt.msg with
      | appendEntriesReply m => exact looksWith_processAppendEntriesReply (s := c.proc e) hc
      | syncIdxUpdate m => exact looksWith_processSyncIdxUpdate (s := c.proc e)
      | _ =>
        rw [hmsg] at hn
        cases hn
  | commitIdxAdv => exact looksWith_commitIdxAdvEvpCb (s := c.proc e)
  | _ =>
    rw [hact] at hn
    cases hn

/-- What was observed in an event that takes place. -/
theorem observed_eq (hen : c.enabled e = true) :
    c.observed e = match c.handler e (c.proc e) with
      | .ok () s => s.trace.map fun o => (e.server, o)
      | .abort s => s.trace.map fun o => (e.server, o) := by
  unfold Cluster.observed Cluster.step
  rw [if_pos hen]
  cases c.handler e (c.proc e) <;> exact List.drop_left

omit [Externals] in
/-- What a leader commits past its initial index is an entry of its term, and what it commits
there is not. -/
theorem commitsOwn_iff {R : Rules} {w : ClusterWorld n} {p : Fin n} {ri : RaftInstance n}
    {idx : Int} (hb : Basic R w) (ho : Ok R w p ri) (hlead : ri.state = .leader)
    (hinit : ri.leader.initialTermIdx ≤ idx) (hcommit : ri.commitIdx < idx)
    (hsync : idx ≤ ri.newestSync.index) :
    Cluster.commitsOwn (n := n) (.commits .leader ri.logHdr.term idx ri.log) = true ↔
      idx ≠ ri.leader.initialTermIdx := by
  obtain ⟨l, hl, hi⟩ := (ho.role.leader hlead).init
  obtain ⟨hled, hllog⟩ := hb.leading p (ho.role.leads.mp hlead)
  obtain ⟨l', own, hl', heq, hown⟩ := hb.led_stood p _ hled
  rw [hl, Option.some.injEq] at hl'
  subst hl'
  have hlog : ri.log = l ++ own := by rw [← heq, hllog, ho.stored.store.log]; rfl
  have hc := ho.stored.commit
  have hs := ho.stored.sync_index
  have hle := ho.stored.store.synced_le
  have hlen : ri.log.length = ri.store.db.entries.length := List.length_map _
  rw [hlog, List.length_append] at hlen
  simp only [Cluster.commitsOwn, Option.any_eq_true, decide_eq_true_eq, hlog, ho.stored.term]
  constructor
  · rintro ⟨x, hx, hxt⟩ rfl
    -- the initial index is that of the last entry it stood with
    have hlt : ri.leader.initialTermIdx.toNat < l.length := by omega
    rw [List.getElem?_append_left hlt] at hx
    have := (hb.stood_le p _ l hl).2 x (List.mem_of_getElem? hx)
    rw [term_entryCore] at this
    omega
  · intro hne
    have hge : l.length ≤ idx.toNat := by omega
    have hlt : idx.toNat - l.length < own.length := by omega
    refine ⟨own[idx.toNat - l.length], ?_, ?_⟩
    · rw [List.getElem?_append_right hge, List.getElem?_eq_getElem hlt]
    · exact hown _ (List.getElem_mem hlt)

/-- One event keeps to the commit rule exactly when the slots are not at the initial index. -/
theorem ownAdvance_iff {R : Rules} {w : ClusterWorld n} (h : Coupled R c w) :
    c.OwnAdvance e ↔ PastInitial c e := by
  by_cases hen : c.enabled e = true
  swap
  · have hobs : c.observed e = [] := by
      unfold Cluster.observed Cluster.step
      rw [if_neg hen, List.drop_length]
    simp [Cluster.OwnAdvance, PastInitial, hen, hobs]
  by_cases hn : c.notifies e = true
  swap
  · simp [Cluster.OwnAdvance, PastInitial, hn,
      slotsAfter_of_not_notifies (eq_false_of_ne_true hn)]
  have hrun : (c.servers e.server).procState = .running := by
    unfold Cluster.enabled Cluster.serves at hen
    unfold Cluster.notifies at hn
    cases hact : e.action <;> rw [hact] at hn hen <;> simp_all
  have ho := (h.servers e.server).ok hrun
  have hb := h.reach.basic
  have hlook := looksWith_handler (e := e) ho.stored.cons hn
  -- what a leader with these slots commits
  have hslot : ∀ ri ∈ slotsAfter c e, Advances ri →
      (Cluster.commitsOwn (n := n) (.commits .leader ri.logHdr.term (committedIdx ri) ri.log) =
        true ↔ ¬ StopsAtInitial ri) := by
    intro ri hri hadv
    obtain ⟨hlead, rfi, rfl⟩ := slotsAfter_eq hri
    rw [stopsAtInitial_iff, not_and]
    rw [show (∀ _ : Advances _, ¬ _) ↔ ¬ _ from ⟨fun h => h hadv, fun h _ => h⟩]
    have hown := commitsOwn_iff hb ho hlead hadv.init hadv.commit hadv.sync
    exact hown
  have hcommit : -1 ≤ (c.servers e.server).commitIdx := by
    have := ho.stored.commit
    omega
  have hstay : (∀ ri ∈ slotsAfter c e, committedIdx ri = -1 ∨ ¬ Advances ri) →
      ∀ ri ∈ slotsAfter c e, ¬ StopsAtInitial ri := by
    intro hno ri hri hstop
    obtain ⟨hadv, -⟩ := stopsAtInitial_iff.mp hstop
    have hlt := hadv.commit
    obtain ⟨-, rfi, heq⟩ := slotsAfter_eq hri
    have hsame : ri.commitIdx = (c.servers e.server).commitIdx := by rw [heq]
    rcases hno ri hri with h | h
    · omega
    · exact h hadv
  have hcase : (c.observed e = [] ∧ ∀ ri ∈ slotsAfter c e, ¬ StopsAtInitial ri) ∨
      ∃ ri ∈ slotsAfter c e, Advances ri ∧ c.observed e =
        [(e.server, .commits .leader ri.logHdr.term (committedIdx ri) ri.log)] := by
    rw [observed_eq hen]
    cases hres : c.handler e (c.proc e) with
    | ok u s =>
      rcases wp_of_ok hres hlook with ⟨htr, hno⟩ | ⟨ri, hri, hadv, htr⟩
      · exact .inl ⟨by simp [htr, Cluster.proc], hstay hno⟩
      · exact .inr ⟨ri, hri, hadv, by simp [htr, Cluster.proc]⟩
    | abort s =>
      obtain ⟨htr, hno⟩ := wp_of_abort hres hlook
      exact .inl ⟨by simp [htr, Cluster.proc], hstay fun ri hri => .inr (hno ri hri)⟩
  simp only [Cluster.OwnAdvance, PastInitial, hen, hn, forall_const]
  rcases hcase with ⟨hobs, hno⟩ | ⟨ri, hri, hadv, hobs⟩
  · rw [hobs]
    exact iff_of_true (by simp) hno
  · have hsome : slotsAfter c e = some ri := hri
    simp [hobs, hsome, hslot ri hri hadv]

end Step

/-! ## Runs -/

/-- The commit rule, for whole runs: leaders commit only entries of their own term exactly when
their slots never stop at the initial index. -/
theorem leader_commit_rule [Externals] (opts : Fin n → Options) (es : List (Event n)) :
    Cluster.AllEvents Cluster.OwnAdvance (.initial opts) es ↔
      Cluster.AllEvents PastInitial (.initial opts) es := by
  suffices h : ∀ c, Cluster.Reach Cluster.anyEvent opts c →
      (Cluster.AllEvents Cluster.OwnAdvance c es ↔ Cluster.AllEvents PastInitial c es) from
    h _ .init
  induction es with
  | nil => exact fun _ _ => Iff.rfl
  | cons e es ih =>
    intro c hc
    obtain ⟨w, hw⟩ := hc.coupled_noRules
    exact and_congr (ownAdvance_iff hw) (ih _ (hc.step e trivial))

/-- Server 0 leads term 1 and replicates its marker to server 1.  It is elected again in term 2,
and server 1 replies to the new marker before it has synced it. -/
def markerBehind : List (Event 3) :=
  [.expire 0, .deliver 1 0, .deliver 0 2, .deliver 1 3, .deliver 0 5, .send 0, .deliver 1 6,
    .sync 0, .sync 1, .expire 0, .expire 1, .deliver 1 9, .deliver 0 13, .deliver 1 14,
    .deliver 0 16, .sync 0, .send 0, .deliver 1 17, .deliver 0 19]

/-- The leader of term 2 commits the marker of term 1, and nothing of its own term. -/
theorem markerBehind_commits_old_term :
    ¬ @Cluster.AllEvents 3 sampleExternals (@Cluster.OwnAdvance 3 sampleExternals)
      (.initial threeServers) markerBehind := by
  decide +kernel

end NiovaRaft
