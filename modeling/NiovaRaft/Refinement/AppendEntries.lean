import NiovaRaft.Refinement.Election

/-!
# AppendEntries as steps of the follower

A follower that handles a request has the term of the sender, which led it.  Whatever it does
to its log then is justified by the sender's log: it removes an entry that conflicts with it,
or appends the carried entry where both logs agree.  It acknowledges what it has synced only
when its whole log agrees with the sender's.

The shortcut for a request that is already stored raises the commit index up to the synced
index, past what the request names.  Where the rule `covered` is in force, that must not
happen.
-/

namespace NiovaRaft

namespace Refinement

open Base Base.Replication Base.Handler RaftServer

variable {n : Nat} {R : Rules} {w₀ w : ClusterWorld n} {p sender : Fin n}
  {cause : Option (RpcMsg n)} {s : Proc n} {m : AppendEntriesRequestMsg}

/-! ## The term -/

theorem Ok.setCsn {ri : RaftInstance n} {x : Fin n} (ho : Ok R w p ri)
    (hx : (w.peer p).cur ≤ (w.peer x).cur) : Ok R w p { ri with csnLeader := some x } where
  stored := ho.stored.reroll
  role := by
    obtain ⟨h1, h2, h3, -, h5, h6⟩ := ho.role
    refine ⟨h1, h2, h3, fun y hy => ?_, h5, h6⟩
    obtain rfl := Option.some.inj hy
    exact hx

/-- A leader has at least the term it led. -/
theorem led_le_cur (hb : Basic R w) {q : Fin n} {t : Int} (hl : w.led q t) :
    t ≤ (w.peer q).cur := by
  obtain ⟨l, -, hst, -⟩ := hb.led_stood q t hl
  exact (hb.stood_le q t l hst).1

/-- `raft_server_process_append_entries_term_check_ops`: the request is stale, or the server
has the term of the sender. -/
theorem sim_termCheckOps {Q : Except Errno Unit → Proc n → Prop}
    (hs : Sim R w₀ cause p w s.out s.trace) (ho : Ok R w p s.ri) (hne : sender ≠ p)
    (hm : AeRequestOk R w sender m) (herr : ∀ rc, Q (.error rc) s)
    (hQ : ∀ w' s', Sim R w₀ cause p w' s'.out s'.trace → Ok R w' p s'.ri →
      (w'.peer p).cur = m.leaderTerm → Extends w w' → SameLog s.ri s'.ri m.leaderTerm →
      s.ri.logHdr.term ≤ m.leaderTerm → Q (.ok ()) s') :
    (processAppendEntriesTermCheckOps sender m).wp Q (Dead R w₀ cause p) s := by
  have hle := led_le_cur hs.basic hm.led
  have hterm := ho.stored.term
  -- the last step sets the leader
  have hfin : ∀ (w' : ClusterWorld n) (s' : Proc n), Sim R w₀ cause p w' s'.out s'.trace → Ok R w' p s'.ri →
      (w'.peer p).cur = m.leaderTerm → Extends w w' → SameLog s.ri s'.ri m.leaderTerm →
      s.ri.logHdr.term ≤ m.leaderTerm →
      Q (.ok ()) { s' with ri := { s'.ri with csnLeader := some sender } } := by
    intro w' s' hs' ho' hcur hx hsame hstale
    refine hQ w' _ hs' (ho'.setCsn ?_) hcur hx ?_ hstale
    · rw [hcur]
      exact le_trans hle (hx.cur sender)
    · obtain ⟨h1, h2, h3, h4, h5, h6, h7⟩ := hsame
      exact ⟨h1, h2, h3, h4, h5, h6, h7⟩
  simp only [processAppendEntriesTermCheckOps, setLeaderCsn, wp_bind, wp_getRi, wp_ite, wp_pure,
    wp_modifyRi]
  refine ⟨fun _ => herr _, fun hstale => ⟨fun _ => ?_, fun hcand => ⟨fun _ => ?_, fun hlead =>
    ⟨fun hfol => ?_, fun hfol => ?_⟩⟩⟩⟩
  · refine sim_becomesFollower hs ho (fun x hx => by obtain rfl := Option.some.inj hx; exact hle)
      (by simp) (fun h => absurd (h sender rfl) hne) ?_
    intro x w' s' _ hs' ho' _ hcur hx hsame _
    exact hfin w' s' hs' ho' hcur hx hsame (not_lt.mp hstale)
  · refine sim_becomesFollower hs ho (fun x hx => by obtain rfl := Option.some.inj hx; exact hle)
      (by simp) (fun h => absurd (h sender rfl) hne) ?_
    intro x w' s' _ hs' ho' _ hcur hx hsame _
    exact hfin w' s' hs' ho' hcur hx hsame (not_lt.mp hstale)
  · simp only [tryUpdateLogHeaderNullVotedForPeer, wp_bind, wp_getRi, wp_whenever]
    refine ⟨fun hlt => ?_, fun h => absurd hfol.1 h⟩
    have hstate : s.ri.state = .follower := by simpa [RaftInstance.isFollower] using hfol.2
    refine sim_updateLogHeader hs ho.stored fun w' fuse hsim hst hcur h1 h2 hx => ?_
    -- the old leader may be behind the new term, the sender is not
    refine hQ w' _ hsim ⟨hst.reroll, Role.passive (.inl hstate) h2 h1 fun x hxl => ?_⟩ hcur hx ?_
      (not_lt.mp hstale)
    · obtain rfl := Option.some.inj hxl
      rw [hcur]
      exact le_trans hle (hx.cur sender)
    · obtain ⟨h1, h2, h3, h4, h5, h6, h7⟩ := SameLog.of_header (h := nextHeader s.ri none m.leaderTerm)
        ho.stored.cons hlt
      exact ⟨h1, h2, h3, h4, h5, h6, h7⟩
  · have heq : s.ri.logHdr.term = m.leaderTerm := by
      have hstate := ho.role.state
      simp only [RaftInstance.isLeader, RaftInstance.isFollower, RaftInstance.isCandidate,
        RaftInstance.isCandidatePrevote, decide_eq_true_eq, not_or, not_and] at hcand hlead hfol
      cases h : s.ri.state <;> simp_all <;> omega
    exact hfin w s hs ho (by rw [← hterm, heq]) (Extends.refl w) (SameLog.refl (by omega))
      (le_of_eq heq)

/-! ## The log -/

/-- The world once `p` has cut its log down to `k` entries. -/
def afterCut (w : ClusterWorld n) (p : Fin n) (k : Nat) : ClusterWorld n :=
  w.setPeer p { w.peer p with log := (w.peer p).log.take k, synced := min (w.peer p).synced k }

@[simp] theorem afterCut_peer {k : Nat} : (afterCut w p k).peer p =
    { w.peer p with log := (w.peer p).log.take k, synced := min (w.peer p).synced k } :=
  setPeer_self

/-- The entry that is removed first is none of the sender's. -/
theorem conflicts_of_request {ri : RaftInstance n} (hb : Basic R w) (hst : Stored w p ri)
    (hm : AeRequestOk R w sender m) (hcur : (w.peer p).cur = m.leaderTerm)
    (hconf : Conflicting ri m) (hR : R.acked) : w.Conflicts p (m.prevLogIndex + 1).toNat := by
  intro e he
  obtain ⟨re, hre, hne⟩ := hconf.next
  have hcore : e = re.core := by
    rw [hst.store.getElem hre] at he
    exact (Option.some.inj he).symm
  subst hcore
  obtain ⟨l, tl, hstood, hllog, htl⟩ := hb.led_stood sender _ hm.led
  rw [hcur]
  refine ⟨sender, l, hm.led, hstood, ?_, ?_⟩
  · intro x hx heq
    rcases hm.next hR hconf.term with ⟨y, hy, hty⟩ | ⟨-, -, l', hl', hlen⟩
    · rw [hllog, List.getElem?_append_left (List.getElem?_eq_some_iff.mp hx).1, hx] at hy
      obtain rfl := Option.some.inj hy
      exact hne (by rw [← hty]; exact heq.symm)
    · rw [hstood] at hl'
      obtain rfl := Option.some.inj hl'
      have := (List.getElem?_eq_some_iff.mp hx).1
      have := hconf.prev
      omega
  · intro hnone heq
    rcases hm.next hR hconf.term with ⟨y, hy, hty⟩ | ⟨hT, -, -⟩
    · rw [hllog, List.getElem?_append_right (List.getElem?_eq_none_iff.mp hnone)] at hy
      have hyT : y.term = m.leaderTerm := htl y (List.mem_of_getElem? hy)
      exact hne (by rw [← hty, hyT]; exact heq)
    · exact hne (by rw [hT]; exact heq)

/-- The log is cut down to the entry before the carried one. -/
theorem sim_cutDown {ri : RaftInstance n} {out : List (Fin n × RpcMsg n)} {trace : List (Obs n)}
    (hs : Sim R w₀ cause p w out trace) (ho : Ok R w p ri) (hm : AeRequestOk R w sender m)
    (hcur : (w.peer p).cur = m.leaderTerm) (h0 : 0 ≤ m.prevLogIndex) (hprun : Prunable ri m)
    (hconf : Conflicting ri m) :
    ∃ w', Sim R w₀ cause p w' out trace ∧
      Ok R w' p (ri.flushed.cutDown (m.prevLogIndex + 1).toNat) ∧ Extends w w' ∧
      (w'.peer p).cur = (w.peer p).cur := by
  have hsim := hs.step step_afterSync fun _ => id
  have hok := ho.flushed
  have hstand : (w.peer p).standing = false := by
    have := ho.role.stands
    rw [hprun.follower] at this
    simpa using this
  have hlead : (w.peer p).leading = false := by
    have := ho.role.leads
    rw [hprun.follower] at this
    simpa using this
  have hcommit := ho.stored.commit
  have hpc := hprun.commit
  have hpa := hprun.applied
  have happ : ri.flushed.lastApplied.idx = ri.lastApplied.idx := by
    unfold RaftInstance.flushed
    dsimp only
    split <;> rfl
  have hstep : Step R p (afterSync w p)
      (afterCut (afterSync w p) p (m.prevLogIndex + 1).toNat) := by
    refine .truncate _ (by simpa using hstand) (by simpa using hlead) ?_ fun hR => ?_
    · rw [afterSync_peer]
      change (w.peer p).commit ≤ _
      omega
    · have hconf' : Conflicting ri.flushed m := by
        obtain ⟨h1, h2, h3⟩ := hconf
        exact ⟨h1, h2, by rw [flushed_entries]; exact h3⟩
      exact conflicts_of_request hsim.basic hok.stored (hm.mono extends_afterSync)
        (by rw [afterSync_peer]; exact hcur) hconf' hR
  have hx := extends_afterSync.trans hstep.extends
  refine ⟨_, hsim.step hstep fun _ => id, ⟨?_, ?_⟩, hx, by simp⟩
  · refine hok.stored.cutDown ho.stored.cons.flushed_newestSync ?_ (by rw [happ]; omega) ?_
      afterCut_peer
    · have := hprun.held h0
      have := ho.stored.unsync_index
      rw [afterSync_peer]
      change _ ≤ (w.peer p).log.length
      omega
    · by_cases hper : ri.opts.storeType = .rocksdbPersistentApp
      · rw [(hok.stored.persisted hper).1, happ]
        omega
      · have hini : appliedOf ri.opts ri.flushed.store.db = LastApplied.initial := if_neg hper
        change (appliedOf ri.opts ri.flushed.store.db).idx < _
        rw [hini]
        simp only [LastApplied.initial]
        omega
  · refine ho.role.mono hx ?_ ?_ ?_ ?_ rfl rfl rfl rfl (le_refl _)
    all_goals rw [afterCut_peer, afterSync_peer]
    intro h
    rw [hlead] at h
    cases h

/-- The logs agree where the follower's ends. -/
theorem matches_of_end {ri : RaftInstance n} (hst : Stored w p ri) (hm : AeRequestOk R w sender m)
    (hcur : (w.peer p).cur = m.leaderTerm)
    (hb : appendEntryRequestBoundsCheck ri m = .ok ())
    (hidx : ri.newestUnsync.index = m.prevLogIndex)
    (hterm : ri.newestUnsync.term = m.prevLogTerm) :
    w.Matches p sender (w.peer p).log.length := by
  have hlen := hst.unsync_index
  by_cases h0 : (w.peer p).log.length = 0
  · exact .inl h0
  · have hlow : m.lowestIndex ≤ m.prevLogIndex := by
      by_contra hlow
      rw [appendEntryRequestBoundsCheck, if_pos ⟨by omega, by omega⟩] at hb
      cases hb
    have hin : m.entryOutOfRange = false := by
      by_contra hne
      have hne : m.entryOutOfRange = true := by simpa using hne
      simp only [appendEntryRequestBoundsCheck, hne, if_true] at hb
      split at hb <;> (try split at hb) <;> cases hb
    obtain ⟨y, hy, hty⟩ := hm.prev hin hlow (by omega)
    have hpos : m.prevLogIndex.toNat = (w.peer p).log.length - 1 := by omega
    obtain ⟨x, hx⟩ : ∃ x, (w.peer p).log[(w.peer p).log.length - 1]? = some x :=
      ⟨_, List.getElem?_eq_getElem (by omega)⟩
    refine .inr ⟨x, y, hx, ?_, ?_⟩
    · rw [hcur, ← hpos]
      exact hy
    · rw [hst.unsync_term, lastTerm_eq hx] at hterm
      rw [hterm]
      exact hty.symm

theorem sim_appendEntryLogPrepareAndCheck {Q : Except Errno Unit → Proc n → Prop}
    (hs : Sim R w₀ cause p w s.out s.trace) (ho : Ok R w p s.ri) (hm : AeRequestOk R w sender m)
    (hcur : (w.peer p).cur = m.leaderTerm)
    (hrej : ∀ w' s' rc, Sim R w₀ cause p w' s'.out s'.trace → Ok R w' p s'.ri →
      rc ≠ .EALREADY → Q (.error rc) s')
    (hstored : appendEntryRequestBoundsCheck s.ri m = .ok () → s.ri.state = .follower →
      AlreadyStored s.ri m → Q (.error .EALREADY) s)
    (hok : ∀ w' s', Sim R w₀ cause p w' s'.out s'.trace → Ok R w' p s'.ri → Extends w w' →
      (w'.peer p).cur = m.leaderTerm → w'.Matches p sender (w'.peer p).log.length →
      s'.ri.newestUnsync.index = m.prevLogIndex → Q (.ok ()) s') :
    (appendEntryLogPrepareAndCheck m).wp Q (Dead R w₀ cause p) s := by
  have hsim := hs.step step_afterSync fun _ => id
  have hfl := ho.flushed
  refine wp_appendEntryLogPrepareAndCheck ho.stored.cons (.intro hs ho)
    (fun fuse h h' => ⟨_, hsim, hfl.stored.self, hfl.stored.store⟩)
    (fun fuse => ⟨_, hsim, hfl.stored.self, hfl.stored.store.flush (by simp)⟩) ?_ hstored ?_ ?_
  · intro rc hb
    refine hrej w s rc hs ho ?_
    rintro rfl
    unfold appendEntryRequestBoundsCheck at hb
    split at hb <;> (try split at hb) <;> (try split at hb) <;> cases hb
  · intro fuse hb h0 hprun hconf rc hrc
    obtain ⟨w', hsim', hok', hx, hcur'⟩ := sim_cutDown hs ho hm hcur h0 hprun hconf
    by_cases hterm : (lastHeader (s.ri.store.db.entries.take (m.prevLogIndex + 1).toNat)).term ≠
        m.prevLogTerm
    · rw [if_pos hterm] at hrc
      subst hrc
      exact hrej w' _ _ hsim' hok' (by simp)
    · rw [if_neg hterm] at hrc
      subst hrc
      have hidx : (s.ri.flushed.cutDown (m.prevLogIndex + 1).toNat).newestUnsync.index =
          m.prevLogIndex := by
        have := (hprun.held h0).2
        have := ho.stored.cons.unsync_index
        change (lastHeader (s.ri.flushed.store.db.entries.take _)).index = _
        rw [flushed_entries, ho.stored.cons.entries.lastHeader_take_index (by omega)]
        omega
      refine hok w' _ hsim' hok' hx (by rw [hcur', hcur]) ?_ hidx
      refine matches_of_end hok'.stored (hm.mono hx) (by rw [hcur', hcur]) ?_ hidx ?_
      · exact hb
      · change (lastHeader (s.ri.flushed.store.db.entries.take _)).term = _
        rw [flushed_entries]
        exact not_not.mp hterm
  · intro hb hle rc hrc
    split at hrc
    · subst hrc
      exact hrej w s _ hs ho (by simp)
    · split at hrc
      · subst hrc
        exact hrej w s _ hs ho (by simp)
      · rename_i hge hterm
        subst hrc
        have hidx : s.ri.newestUnsync.index = m.prevLogIndex := by omega
        exact hok w s hs ho (Extends.refl w) hcur
          (matches_of_end ho.stored hm hcur hb hidx (not_not.mp hterm)) hidx

/-! ## The write -/

section Write

variable [Externals]

/-- The entry the follower builds from a message is the sender's. -/
theorem core_entryOf (ri : RaftInstance n) {i : Int} {e : EntryCore} (hc : Carries m e) :
    (entryOf ri i m.logTerm m.entries (m.sizeArr.take (m.numEntries % 256))
      m.leaderChangeMarker).core = e := by
  have htake : m.sizeArr.take (m.numEntries % 256) = m.sizeArr := by
    rw [Nat.mod_eq_of_lt hc.narrow, hc.count, List.take_length]
  have hsizes : (if m.sizeArr.sum = 0 then List.replicate m.sizeArr.length 0 else m.sizeArr) =
      m.sizeArr := by
    split
    · rename_i h0
      symm
      rw [List.eq_replicate_iff]
      exact ⟨rfl, List.sum_eq_zero_iff_forall_eq_nat.mp h0⟩
    · rfl
  have hdata : m.entries.take m.sizeArr.sum = m.entries :=
    List.take_of_length_le (le_of_eq hc.length)
  obtain ⟨t, num, sz, mark, data⟩ := e
  obtain ⟨h1, h2, h3, h4, -, h6, -, h8, -⟩ := hc
  simp only at h1 h2 h3 h6 h8
  simp only [entryOf, Entry.core, htake, hsizes, hdata, h1, h2, h3, h6, h8]
  rw [h4]

/-- `raft_server_write_new_entry_from_leader`: the carried entry is appended where the logs
agree, and they agree from then on. -/
theorem sim_writeNewEntryFromLeader {Q : Unit → Proc n → Prop}
    (hs : Sim R w₀ cause p w s.out s.trace) (ho : Ok R w p s.ri) (hm : AeRequestOk R w sender m)
    (hcur : (w.peer p).cur = m.leaderTerm) (hmatch : w.Matches p sender (w.peer p).log.length)
    (hidx : s.ri.newestUnsync.index = m.prevLogIndex)
    (hQ : ∀ w' s', Sim R w₀ cause p w' s'.out s'.trace → Ok R w' p s'.ri → Extends w w' →
      (w'.peer p).cur = m.leaderTerm → w'.Matches p sender (w'.peer p).log.length → Q () s') :
    (writeNewEntryFromLeader m).wp Q (Dead R w₀ cause p) s := by
  have hdead : Dead R w₀ cause p s := .intro hs ho
  simp only [writeNewEntryFromLeader, wp_bind, wp_getRi, wp_assert, wp_ite, wp_pure]
  refine ⟨fun hf => ⟨fun _ => ?_, fun hheart => ?_⟩, fun _ => hdead⟩
  · exact hQ w s hs ho (Extends.refl w) hcur hmatch
  refine ⟨fun hpos => ⟨fun _ => ⟨fun _ => ⟨fun _ => ⟨fun _ => ⟨fun _ => ?_, fun _ => hdead⟩,
    fun _ => hdead⟩, fun _ => hdead⟩, fun _ => hdead⟩, fun _ => hdead⟩, fun _ => hdead⟩
  refine wp_writeNextEntry ho.stored.cons (fun _ => hdead) fun fuse hterm hmax _ _ => ?_
  obtain ⟨e, he, hc⟩ := hm.carried (by simpa using hheart)
  have hcore := core_entryOf s.ri (i := s.ri.store.db.entries.length) hc
  set re := entryOf s.ri s.ri.store.db.entries.length m.logTerm m.entries
    (m.sizeArr.take (m.numEntries % 256)) m.leaderChangeMarker with hre
  have htake : m.sizeArr.take (m.numEntries % 256) = m.sizeArr := by
    rw [Nat.mod_eq_of_lt hc.narrow, hc.count, List.take_length]
  have hok : EntryOk s.ri.entryMaxDataSize s.ri.store.db.entries.length re := by
    refine entryOf_ok (le_of_lt hpos) ?_ hmax ?_ ?_
    · rw [htake, hc.length]
    · rw [htake, ← hc.count]
      exact hc.narrow
    · rw [htake]
      exact hc.empty
  have hlen : (m.prevLogIndex + 1).toNat = (w.peer p).log.length := by
    have := ho.stored.unsync_index
    omega
  have hfol : s.ri.state = .follower := by simpa [RaftInstance.isFollower] using hf
  have hstand : (w.peer p).standing = false := by
    have := ho.role.stands
    rw [hfol] at this
    simpa using this
  have hlead : (w.peer p).leading = false := by
    have := ho.role.leads
    rw [hfol] at this
    simpa using this
  have hnext : (w.llog sender (w.peer p).cur)[(w.peer p).log.length]? = some re.core := by
    rw [hcore, hcur, ← hlen]
    exact he
  obtain ⟨w', hsim, hok', hx, hp'⟩ := sim_withEntry hs ho hok hterm
    (.append sender re.core hstand hlead (by rw [hcur]; exact hm.led) hmatch hnext) (by simp)
    fun _ => id
  have hlog : (w'.peer p).log = (w.peer p).log ++ [re.core] := by
    rw [hp', setPeer_self]
  have hcur' : (w'.peer p).cur = (w.peer p).cur := by
    rw [hp', setPeer_self]
  refine hQ w' _ hsim hok' hx (by rw [hcur', hcur]) (.inr ⟨re.core, re.core, ?_, ?_, rfl⟩)
  · simp [hlog]
  · rw [hcur', hlog, List.length_append, List.length_singleton, Nat.add_sub_cancel]
    refine getElem_of_isPrefix (hx.llog ?_) hnext
    rw [hcur]
    exact hm.led

end Write

/-! ## The commit index -/

/-- The world once `p` has committed `c` entries. -/
def afterCommit (w : ClusterWorld n) (p : Fin n) (c : Nat) : ClusterWorld n :=
  w.setPeer p { w.peer p with commit := c }

@[simp] theorem afterCommit_peer {c : Nat} :
    (afterCommit w p c).peer p = { w.peer p with commit := c } :=
  setPeer_self

/-- `raft_server_advance_commit_idx` after a leader's message. -/
theorem sim_advanceCommitIdx {idx : Int} {Q : Unit → Proc n → Prop}
    (hs : Sim R w₀ cause p w s.out s.trace) (ho : Ok R w p s.ri)
    (hother : ∃ q, q ≠ p ∧ w.led q (w.peer p).cur)
    (hmay : R.covered → s.ri.commitIdx < idx → idx ≤ s.ri.newestSync.index →
      w.MayFollow p (idx + 1).toNat)
    (hQ : ∀ w' s', Sim R w₀ cause p w' s'.out s'.trace → Ok R w' p s'.ri →
      (w'.peer p).log = (w.peer p).log → (w'.peer p).cur = (w.peer p).cur → w'.llog = w.llog →
      Extends w w' → Q () s') :
    (advanceCommitIdx idx).wp Q (Dead R w₀ cause p) s := by
  have hcommit := ho.stored.commit
  have hsync := ho.stored.sync_index
  simp only [advanceCommitIdx, wp_bind, wp_getRi, wp_whenever, wp_modifyRi, wp_observe]
  refine ⟨fun hadv => ?_, fun _ => hQ w s hs ho rfl rfl rfl (Extends.refl w)⟩
  have hle : idx ≤ s.ri.newestSync.index := hadv.2
  have hstep : Step R p w (afterCommit w p (idx + 1).toNat) :=
    .commitFollow _ (by omega) fun hR => hmay hR hadv.1 hle
  have hok : Ok R (afterCommit w p (idx + 1).toNat) p { s.ri with commitIdx := idx } := by
    refine ⟨ho.stored.committed (by omega) afterCommit_peer, ?_⟩
    refine ho.role.mono hstep.extends ?_ ?_ ?_ ?_ rfl rfl rfl rfl (le_refl _)
    all_goals rw [afterCommit_peer]
    exact fun _ => List.prefix_refl _
  refine hQ _ _ ((hs.step hstep fun _ => id).observe ?_) hok ?_ ?_ rfl hstep.extends
  · -- a leader may only commit this way when there is another one
    cases hstate : s.ri.state with
    | leader =>
      obtain ⟨hled, hllog⟩ := hs.basic.leading p (ho.role.leads.mp hstate)
      obtain ⟨q, hq, hlq⟩ := hother
      rw [← ho.stored.term] at hled hllog hlq
      refine ⟨hled, ?_, ?_, .inr ⟨q, hq, hlq⟩⟩
      · change s.ri.log <+: w.llog p s.ri.logHdr.term
        rw [hllog, ho.stored.store.log]
        exact List.prefix_refl _
      · exact ho.stored.lt_log_length hle
    | _ => trivial
  · rw [afterCommit_peer]
  · rw [afterCommit_peer]

/-! ## The reply -/

/-- The log of `p` ends where it agrees with a leader of its term. -/
def Agrees (w : ClusterWorld n) (p : Fin n) : Prop :=
  ∃ q, w.led q (w.peer p).cur ∧ w.Matches p q (w.peer p).log.length

/-- The world once `p` has acknowledged what it has synced. -/
def afterAck (w : ClusterWorld n) (p : Fin n) : ClusterWorld n :=
  { w with acks := insert (p, (w.peer p).cur, (w.peer p).synced) w.acks }

theorem step_afterAck (hb : Basic R w) (h : Agrees w p) : Step R p w (afterAck w p) := by
  obtain ⟨q, hq, hmatch⟩ := h
  exact .ack _ ⟨_, hb.synced_le p, le_refl _, .inl ⟨q, hq, hmatch⟩⟩

theorem Ok.afterAck {ri : RaftInstance n} (ho : Ok R w p ri)
    (hx : Extends w (afterAck w p)) : Ok R (Refinement.afterAck w p) p ri where
  stored := ho.stored.congr rfl
  role := ho.role.mono hx rfl rfl rfl (fun _ => List.prefix_refl _) rfl rfl rfl rfl (le_refl _)

theorem sim_appendEntryReplySend {stale nonMatching updateSli : Bool} {rc : Except Errno Unit}
    (hs : Sim R w₀ cause p w s.out s.trace) (ho : Ok R w p s.ri) (hne : p ≠ sender)
    (hagree : stale = false → nonMatching = false → updateSli = false → rc.isOk = true →
      Agrees w p) :
    (appendEntryReplySend m sender stale nonMatching updateSli rc).wp
      (fun _ => Live R w₀ cause p) (Dead R w₀ cause p) s := by
  simp only [appendEntryReplySend, wp_bind, wp_getRi, wp_sendMsg_some]
  have hle : ∀ w' : ClusterWorld n, w'.peer p = w.peer p →
      (processAppendEntriesRequestPrepReply s.ri m stale nonMatching updateSli rc).leaderTerm ≤
        (w'.peer p).cur := by
    intro w' hp
    rw [hp, ← ho.stored.term]
    exact le_refl _
  by_cases hag : Agrees w p
  · -- what it has synced is acknowledged
    have hstep := step_afterAck hs.basic hag
    refine .intro ((hs.step hstep fun _ => id).send hne ⟨hle _ rfl, fun _ hclean h0 => ?_⟩)
      (ho.afterAck hstep.extends)
    refine ⟨(w.peer p).synced, ?_, ?_⟩
    · have hsync := ho.stored.sync_index
      have hidx : (processAppendEntriesRequestPrepReply s.ri m stale nonMatching updateSli
          rc).syncedLogIndex ≤ s.ri.newestSync.index := by
        simp only [processAppendEntriesRequestPrepReply] at h0 ⊢
        split at h0
        · rename_i hcond
          rw [if_pos hcond]
          exact le_refl _
        · omega
      omega
    · have : (processAppendEntriesRequestPrepReply s.ri m stale nonMatching updateSli
          rc).leaderTerm = (w.peer p).cur := ho.stored.term
      rw [this]
      exact Set.mem_insert _ _
  · refine .intro (hs.send hne ⟨hle w rfl, fun _ hclean h0 => ?_⟩) ho
    obtain ⟨h1, h2, h3⟩ := hclean
    simp only [processAppendEntriesRequestPrepReply] at h0 h1 h2 h3
    split at h0
    · rename_i hcond
      exact absurd (hagree h1 h2 h3 (hcond.resolve_right (by simp [h2]))) hag
    · omega

/-! ## The request -/

section Request

variable [Externals]

omit [Externals] in
/-- What the shortcut commits is verified, and some leader committed it. -/
theorem mayFollow_of_stored {ri : RaftInstance n} (hst : Stored w p ri)
    (hm : AeRequestOk R w sender m) (hcur : (w.peer p).cur = m.leaderTerm) (hR : R.covered)
    (hR' : R.acked) (hb : appendEntryRequestBoundsCheck ri m = .ok ()) (hstored : AlreadyStored ri m)
    {idx : Int} (hidx : idx ≤ m.commitIndex) (hver : idx ≤ verifiedIdx m) (h0 : 0 ≤ idx) :
    w.MayFollow p (idx + 1).toNat := by
  obtain ⟨q, t, k, hk, ht, hck⟩ := hm.commit hR (by omega)
  refine ⟨?_, q, t, k, hk, by rw [hcur]; exact ht, by omega⟩
  have hled : w.led sender (w.peer p).cur := by
    rw [hcur]
    exact hm.led
  -- up to the entry before the carried one
  have hprev : idx ≤ m.prevLogIndex →
      ∃ q k, (idx + 1).toNat ≤ k ∧ w.led q (w.peer p).cur ∧ w.Matches p q k := by
    intro hle
    have hlow : m.lowestIndex ≤ m.prevLogIndex := by
      by_contra hlow
      rw [appendEntryRequestBoundsCheck, if_pos ⟨by omega, by omega⟩] at hb
      cases hb
    have hin : m.entryOutOfRange = false := by
      by_contra hne
      have hne : m.entryOutOfRange = true := by simpa using hne
      simp only [appendEntryRequestBoundsCheck, hne, if_true] at hb
      split at hb <;> (try split at hb) <;> cases hb
    obtain ⟨y, hy, hty⟩ := hm.prev hin hlow (by omega)
    obtain ⟨re, hre, htre, -⟩ := hstored.last (by omega)
    have hpos : (m.prevLogIndex + 1).toNat - 1 = m.prevLogIndex.toNat := by omega
    refine ⟨sender, (m.prevLogIndex + 1).toNat, by omega, hled, .inr ⟨re.core, y, ?_, ?_, ?_⟩⟩
    · rw [hpos]
      exact hst.store.getElem hre
    · rw [hpos, hcur]
      exact hy
    · exact htre.trans hty.symm
  unfold verifiedIdx at hver
  split at hver
  · rename_i hpos
    rcases hm.next hR' hpos with ⟨y, hy, hty⟩ | ⟨-, hle, -⟩
    · obtain ⟨re, hre, htre, -⟩ := hstored.next hpos
      have hprev' := hstored.prev
      have hpos' : (m.prevLogIndex + 2).toNat - 1 = (m.prevLogIndex + 1).toNat := by omega
      refine ⟨sender, (m.prevLogIndex + 2).toNat, by omega, hled, .inr ⟨re.core, y, ?_, ?_, ?_⟩⟩
      · rw [hpos']
        exact hst.store.getElem hre
      · rw [hpos', hcur]
        exact hy
      · exact htre.trans hty.symm
    · exact hprev (by omega)
  · exact hprev hver

/-- The cases on the outcome of the comparison. -/
theorem sim_processValidAppendEntries {updateSli : Bool} (hs : Sim R w₀ cause p w s.out s.trace)
    (ho : Ok R w p s.ri) (hne : sender ≠ p) (hm : AeRequestOk R w sender m)
    (hver : R.covered → R.acked ∧ ShortcutVerified s.ri m) :
    (processValidAppendEntries sender m updateSli).wp (fun _ => Live R w₀ cause p)
      (Dead R w₀ cause p) s := by
  rw [processValidAppendEntries, wp_bind]
  refine sim_termCheckOps hs ho hne hm ?_ ?_
  · intro rc
    exact sim_appendEntryReplySend hs ho hne.symm (by simp)
  intro w1 s1 hs1 ho1 hcur1 hx1 hsame hstale
  have hm1 := hm.mono hx1
  simp only [wp_ite, wp_bind]
  refine ⟨fun _ => sim_appendEntryReplySend hs1 ho1 hne.symm (by simp), fun _ => ?_⟩
  have hother : ∀ w' : ClusterWorld n, Extends w1 w' → (w'.peer p).cur = m.leaderTerm →
      ∃ q, q ≠ p ∧ w'.led q (w'.peer p).cur := by
    intro w' hx hcur
    exact ⟨sender, hne, by rw [hcur]; exact hx.led hm1.led⟩
  refine sim_appendEntryLogPrepareAndCheck hs1 ho1 hm1 hcur1 ?_ ?_ ?_
  · -- rejected
    intro w2 s2 rc hs2 ho2 hrc
    cases rc with
    | EALREADY => exact absurd rfl hrc
    | _ => exact sim_appendEntryReplySend hs2 ho2 hne.symm (by simp [Except.isOk, Except.toBool])
  · -- already stored
    intro hb hfol hstored
    simp only [processAppendEntriesOutcome, wp_bind, wp_getRi, wp_pure]
    refine sim_advanceCommitIdx hs1 ho1 (hother w1 (Extends.refl _) hcur1) ?_ ?_
    · intro hR hlt hle
      obtain ⟨hR', hv⟩ := hver hR
      have hbound := hv ⟨hstale, hsame.bounds ▸ hb, hsame.alreadyStored.mp hstored⟩
      rw [← hsame.syncIdx] at hbound
      change min m.commitIndex s1.ri.newestSync.index ≤ _ at hbound
      change s1.ri.commitIdx < min m.commitIndex s1.ri.newestSync.index at hlt
      have hcom := hsame.commit
      have := ho1.stored.commit
      exact mayFollow_of_stored ho1.stored hm1 hcur1 hR hR' hb hstored (min_le_left _ _)
        (by
          change min m.commitIndex s1.ri.newestSync.index ≤ _
          omega)
        (by
          change 0 ≤ min m.commitIndex s1.ri.newestSync.index
          omega)
    · intro w2 s2 hs2 ho2 _ _ _ _
      exact sim_appendEntryReplySend hs2 ho2 hne.symm (by simp [Except.isOk, Except.toBool])
  · -- the logs agree
    intro w2 s2 hs2 ho2 hx2 hcur2 hmatch2 hidx2
    have hm2 := hm1.mono hx2
    simp only [processAppendEntriesOutcome, wp_bind, wp_pure]
    -- what follows the write
    have hrest : ∀ (w3 : ClusterWorld n) (s3 : Proc n), Sim R w₀ cause p w3 s3.out s3.trace →
        Ok R w3 p s3.ri → Extends w2 w3 → (w3.peer p).cur = m.leaderTerm →
        w3.Matches p sender (w3.peer p).log.length →
        (advanceCommitIdx m.commitIndex).wp (fun _ s' =>
          (appendEntryReplySend m sender false false false (.ok ())).wp (fun _ => Live R w₀ cause p)
            (Dead R w₀ cause p) s') (Dead R w₀ cause p) s3 := by
      intro w3 s3 hs3 ho3 hx3 hcur3 hmatch3
      have hm3 := hm2.mono hx3
      refine sim_advanceCommitIdx hs3 ho3 (hother w3 (hx2.trans hx3) hcur3) ?_ ?_
      · intro hR hlt hle
        have hc3 := ho3.stored.commit
        have hsi := ho3.stored.sync_index
        have hsl := hs3.basic.synced_le p
        obtain ⟨q, t, k, hk, ht, hck⟩ := hm3.commit hR (by omega)
        refine ⟨⟨sender, _, ?_, by rw [hcur3]; exact hm3.led, hmatch3⟩, q, t, k, hk,
          by rw [hcur3]; exact ht, by omega⟩
        omega
      · intro w4 s4 hs4 ho4 hlog hcur4 hllog hx4
        refine sim_appendEntryReplySend hs4 ho4 hne.symm fun _ _ _ _ => ⟨sender, ?_, ?_⟩
        · rw [hcur4, hcur3]
          exact hx4.led hm3.led
        · unfold World.Matches at hmatch3 ⊢
          rw [hlog, hcur4, hllog]
          exact hmatch3
    rw [wp_whenever]
    refine ⟨fun _ => ?_, fun _ => hrest w2 s2 hs2 ho2 (Extends.refl _) hcur2 hmatch2⟩
    refine sim_writeNewEntryFromLeader hs2 ho2 hm2 hcur2 hmatch2 hidx2 ?_
    intro w3 s3 hs3 ho3 hx3 hcur3 hmatch3
    exact hrest w3 s3 hs3 ho3 hx3 hcur3 hmatch3

/-- `raft_server_process_append_entries_request`. -/
theorem sim_processAppendEntriesRequest (hs : Sim R w₀ cause p w s.out s.trace)
    (ho : Ok R w p s.ri) (hne : sender ≠ p) (hm : AeRequestOk R w sender m)
    (hver : R.covered → R.acked ∧ ShortcutVerified s.ri m) :
    (processAppendEntriesRequest sender m).wp (fun _ => Live R w₀ cause p)
      (Dead R w₀ cause p) s := by
  have hlive : Live R w₀ cause p s := .intro hs ho
  rw [processAppendEntriesRequest, wp_bind, wp_getRi]
  cases processAppendEntriesRequestValidityCheck s.ri m with
  | error rc => exact hlive
  | ok u =>
    simp only [processBulkRecoveryCheck, wp_bind, wp_getRi, wp_ite, wp_pure, wp_modifyRi]
    refine ⟨fun _ => sim_processValidAppendEntries hs ho hne hm hver, fun _ => ⟨fun _ => ?_,
      fun _ => ?_⟩⟩
    · exact sim_processValidAppendEntries hs ho hne hm hver
    · refine .intro (w := w) hs ⟨ho.stored.reroll, ?_⟩
      exact ho.role.mono (Extends.refl w) rfl rfl rfl (fun _ => List.prefix_refl _) rfl rfl rfl rfl
        (le_refl _)

end Request

end Refinement

end NiovaRaft
