import NiovaRaft.Safety.CommitRule
import NiovaRaft.Safety.Election
import Mathlib.Data.Fintype.Powerset

/-!
# The commit quorum

What a leader commits, a majority of the servers has synced.  A leader takes a slot for what its
peer has synced, and there are three ways in which a slot comes to say more than the peer holds:

* a reply with `raerpm_update_sli` raises the slot without any comparison of logs;
* the term of a reply is compared with that of the leader's newest synced entry, which until the
  leader has synced its marker is an earlier term, so that a reply to an earlier leadership of
  the same server counts;
* `rfi_current_idx_term` stays what it was when the next index passes the end of the leader's
  log, and a message with it makes the peer remove an entry that it has acknowledged.

A leader elected by votes of another term, or one that commits at its initial index, lets
acknowledged entries be overwritten.
-/

namespace NiovaRaft

open Base Base.Handler Base.Replication Refinement RaftServer

variable {n : Nat}

/-! ## The conditions -/

/-- A reply that a leader takes into a slot does not raise it by its synced index alone, and if
it acknowledges, it was sent in the leader's term. -/
def replyVerified (ri : RaftInstance n) (pkt : Packet n) : Bool :=
  match pkt.msg with
  | .appendEntriesReply m =>
      decide (ri.state = .leader → m.errStaleTerm = false →
        m.prevLogIndex + 1 = (ri.followerInfo pkt.src).nextIdx →
        (m.updateSli = true → m.syncedLogIndex ≤ (ri.followerInfo pkt.src).nextIdx) ∧
        (Clean m → m.leaderTerm = ri.newestSync.term → m.leaderTerm = ri.logHdr.term))
  | _ => true

/-- The reply that is delivered, if any, is verified. -/
def RepliesVerified (c : Cluster n) (e : Event n) : Prop :=
  (c.delivered e).all (replyVerified (c.servers e.server)) = true

instance : ∀ (c : Cluster n) (e : Event n), Decidable (RepliesVerified c e) :=
  fun _ _ => inferInstanceAs (Decidable (_ = true))

theorem RepliesVerified.reply {c : Cluster n} {e : Event n} (h : RepliesVerified c e)
    {pkt : Packet n} (hdel : c.delivered e = some pkt) {m : AppendEntriesReplyMsg}
    (hmsg : pkt.msg = .appendEntriesReply m) :
    ReplyVerified (c.servers e.server) pkt.src m := by
  rw [RepliesVerified, hdel, Option.all_some, replyVerified, hmsg] at h
  have h := of_decide_eq_true h
  exact ⟨fun hl hs hn => (h hl hs hn).1, fun hl hc hn => (h hl hc.1 hn).2 hc⟩

instance (ri : RaftInstance n) : Decidable (TermsFresh ri) :=
  inferInstanceAs (Decidable (∀ q, q ≠ ri.self → (_ → _ ∨ _)))

/-- A leader that is about to send has no term of an earlier next index in a slot whose next
index is past its log. -/
def SendsFresh (c : Cluster n) (e : Event n) : Prop :=
  match e.action with
  | .timer _ _ _ | .remoteSend _ =>
      (c.servers e.server).state = .leader → TermsFresh (c.servers e.server)
  | _ => True

instance (c : Cluster n) (e : Event n) : Decidable (SendsFresh c e) :=
  match hact : e.action with
  | .timer _ _ _ | .remoteSend _ =>
      decidable_of_iff
        ((c.servers e.server).state = .leader → TermsFresh (c.servers e.server))
        (by rw [SendsFresh, hact])
  | .deliver _ | .commitIdxAdv | .smApply _ | .syncThread | .write _ | .chkptThread _ _ _
  | .crash => .isTrue (by rw [SendsFresh, hact]; trivial)

/-- Votes and acknowledgements are taken for what they are. -/
structure Acknowledged (c : Cluster n) (e : Event n) : Prop where
  votes : VotesAnswerTerm c e
  replies : RepliesVerified c e
  sends : SendsFresh c e

instance (c : Cluster n) (e : Event n) : Decidable (Acknowledged c e) :=
  decidable_of_iff (VotesAnswerTerm c e ∧ RepliesVerified c e ∧ SendsFresh c e)
    ⟨fun ⟨h1, h2, h3⟩ => ⟨h1, h2, h3⟩, fun ⟨h1, h2, h3⟩ => ⟨h1, h2, h3⟩⟩

/-- Votes are counted in their term, and acknowledgements in theirs. -/
def ackedRules : Rules := ⟨True, True, False⟩

theorem Acknowledged.faithful {c : Cluster n} {e : Event n} (h : Acknowledged c e) :
    Faithful ackedRules c e := by
  have hsend := h.sends
  unfold SendsFresh at hsend
  unfold Faithful
  cases hact : e.action with
  | deliver k =>
    intro pkt hdel
    unfold Verified
    cases hmsg : pkt.msg with
    | voteReply m => exact fun _ hg hst m' hcause => h.votes.counted hdel hmsg hg hst hcause
    | appendEntriesRequest m => exact fun h => h.elim
    | appendEntriesReply m => exact fun _ => h.replies.reply hdel hmsg
    | _ => trivial
  | timer =>
    rw [hact] at hsend
    exact fun _ => hsend
  | remoteSend =>
    rw [hact] at hsend
    exact fun _ => hsend
  | _ => trivial

/-! ## The quorum -/

/-- The server holds the entry in its synced log: its newest synced entry is no older, and
whatever a crash leaves behind has the entry, unless it was compacted. -/
def SyncedAt (ri : RaftInstance n) (i : Nat) (x : EntryCore) : Prop :=
  (ri.procState = .running → (i : Int) ≤ ri.newestSync.index) ∧
    ∀ d ∈ ri.store.db :: ri.store.recoverable, d.reaped ≤ i → (d.read i).map Entry.core = some x

instance (ri : RaftInstance n) (i : Nat) (x : EntryCore) : Decidable (SyncedAt ri i x) :=
  inferInstanceAs (Decidable ((_ → _) ∧ ∀ d ∈ _, _ → _))

section

variable {R : Rules} {c : Cluster n} {w : ClusterWorld n}

/-- An entry of the synced log of a peer. -/
theorem Refinement.Coupled.syncedAt (h : Coupled R c w) {q : Fin n} {i : Nat} {x : EntryCore}
    (hx : ((w.peer q).log.take (w.peer q).synced)[i]? = some x) : SyncedAt (c.servers q) i x := by
  have hst := (h.servers q).store
  have hi : i < (w.peer q).synced := by
    have := (List.getElem?_eq_some_iff.mp hx).1
    rw [List.length_take] at this
    omega
  rw [List.getElem?_take_of_lt hi] at hx
  refine ⟨fun hrun => ?_, fun d hd hreaped => ?_⟩
  · rw [((h.servers q).ok hrun).stored.sync_index]
    omega
  · have hk := hst.kept d (by rcases List.mem_cons.mp hd with rfl | hd; exacts [hst.mem, hd])
    have hlt : i < d.entries.length := lt_of_lt_of_le hi hk.synced
    obtain ⟨s, hs⟩ := hk.entries
    have hdb : (c.servers q).store.db.entries[i]? = d.entries[i]? := by
      rw [← hs, List.getElem?_append_left hlt]
    rw [List.getElem?_eq_getElem hlt] at hdb
    rw [Db.read, if_pos hreaped, List.getElem?_eq_getElem hlt, Option.map_some, ← hx,
      hst.getElem hdb]

/-- What a leader was seen to commit, it has committed in the world, if it led its term
alone. -/
theorem Refinement.Coupled.commits (h : Coupled R c w) (hu : w.Unique) {p : Fin n} {t idx : Int}
    {log : List EntryCore} (hc : (p, Obs.commits .leader t idx log) ∈ c.history) :
    (p, t, (idx + 1).toNat) ∈ w.commits := by
  obtain ⟨hled, -, -, hin | ⟨q, hq, hlq⟩⟩ := h.history _ hc
  · exact hin
  · exact absurd (hu q p t hlq hled) hq

end

/-- The commit quorum law: what a leader was seen to commit, a majority has synced. -/
theorem commit_quorum [Externals] {opts : Fin n → Options} {c : Cluster n}
    (h : Cluster.Reach (fun c e => Acknowledged c e ∧ PastInitial c e) opts c) {p : Fin n}
    {t idx : Int} {log : List EntryCore}
    (hc : (p, Obs.commits .leader t idx log) ∈ c.history) :
    ∃ Q : Finset (Fin n), Majority Q ∧ ∀ q ∈ Q, ∀ i : Nat, (i : Int) ≤ idx →
      ∃ x, log[i]? = some x ∧ SyncedAt (c.servers q) i x := by
  obtain ⟨w, hw⟩ := Refinement.Reach.coupled (R := ackedRules) h (fun _ _ h => h.1.faithful) <| by
    intro c e hr hok _
    obtain ⟨w, hw⟩ := hr.coupled_noRules
    exact (ownAdvance_iff hw).mpr hok.2
  have hb := hw.reach.basic
  have hu := hb.unique trivial
  have hs := hw.reach.committed trivial _ _ _ (hw.commits hu hc)
  obtain ⟨Q, hQ, hheld⟩ := hs.held hb trivial (hw.reach.matching hu) hu
    (hw.reach.retained trivial hu)
  obtain ⟨-, hpre, hlen, -⟩ := hw.history _ hc
  refine ⟨Q, hQ, fun q hq i hi => ?_⟩
  have hlt : i < log.length := by omega
  refine ⟨log[i], List.getElem?_eq_getElem hlt, hw.syncedAt (getElem_of_isPrefix (hheld q hq) ?_)⟩
  rw [List.getElem?_take_of_lt (by omega)]
  exact getElem_of_isPrefix hpre (List.getElem?_eq_getElem hlt)

/-- The request of a run in which every message is what its receiver takes it for. -/
theorem commit_quorum_servedRequest :
    (0, Obs.commits .leader 1 1 [⟨1, 1, [0], true, []⟩, ⟨1, 1, [2], false, [7, 8]⟩]) ∈
        (afterRun servedRequest).history ∧
      ∃ Q : Finset (Fin 3), Majority Q ∧ ∀ q ∈ Q, ∀ i : Nat, (i : Int) ≤ 1 →
        ∃ x, [(⟨1, 1, [0], true, []⟩ : EntryCore), ⟨1, 1, [2], false, [7, 8]⟩][i]? = some x ∧
          SyncedAt ((afterRun servedRequest).servers q) i x := by
  have hc : (0, Obs.commits .leader 1 1 [⟨1, 1, [0], true, []⟩, ⟨1, 1, [2], false, [7, 8]⟩]) ∈
      (afterRun servedRequest).history := by decide +kernel
  exact ⟨hc, @commit_quorum 3 sampleExternals _ _ (reach_afterRun_of (by decide +kernel)) _ _ _ _ hc⟩

/-- Server 1 votes for server 2 in term 1, and the vote is late.  Server 0 leads term 2, and its
first entry is synced everywhere.  Server 2 stands for term 3.  The second entry of term 2 is
synced on servers 0 and 1, and server 1 has sent word of that, which is on its way. -/
def lateVoteInLaterTerm : List (Event 3) :=
  [.expire 2, .deliver 1 1, .deliver 2 2, .deliver 1 4, .deliver 0 3, .expire 0, .expire 1,
    .deliver 1 7, .deliver 0 11, .deliver 1 12, .deliver 0 14, .send 0, .deliver 1 15,
    .deliver 2 16, .deliver 0 17, .sync 0, .sync 1, .sync 2, .expire 2, .expire 1, .deliver 1 20,
    .deliver 2 23, .write 0 [7], .send 0, .deliver 1 26, .sync 0, .sync 1, .deliver 0 28, .send 1]

/-- The late vote makes server 2 the leader of term 3, and it overwrites the entry on server 1.
The acknowledgement then makes server 0 commit it. -/
def overwrittenAck : List (Event 3) :=
  lateVoteInLaterTerm ++ [.deliver 2 5, .send 2, .deliver 1 31, .deliver 0 29]

/-- Each term has one leader, and no majority holds an entry of the leader's term at the index it
commits. -/
theorem overwrittenAck_no_quorum :
    @Cluster.Reach 3 sampleExternals Cluster.anyEvent threeServers (afterRun overwrittenAck) ∧
      (afterRun overwrittenAck).UniqueLeaders ∧
      (0, Obs.commits .leader 2 1 [⟨2, 1, [0], true, []⟩, ⟨2, 1, [1], false, [7]⟩]) ∈
        (afterRun overwrittenAck).history ∧
      ¬ ∃ Q : Finset (Fin 3), Majority Q ∧ ∀ q ∈ Q,
        (((afterRun overwrittenAck).servers q).store.db.read 1).map Entry.term = some 2 := by
  refine ⟨reach_afterRun _, by decide +kernel, by decide +kernel, ?_⟩
  unfold Majority
  decide +kernel

end NiovaRaft
