import NiovaRaft.Safety.CommitQuorum

/-!
# Leader completeness

Given that leaders commit only entries of their own term, every later leader starts out with
them.  A majority that has synced an entry is not enough for this when a vote is counted in
another term than it was cast in: the voter had an older log then.
-/

namespace NiovaRaft

open Base Base.Handler Base.Replication Refinement RaftServer

variable {n : Nat}

/-- Leader completeness: what a leader commits is in the synced log that each leader of a later
term starts with. -/
theorem leader_completeness [Externals] {opts : Fin n → Options} {c : Cluster n}
    (h : Cluster.Reach (fun c e => Acknowledged c e ∧ c.OwnAdvance e) opts c) {p q : Fin n}
    {t u idx : Int} {log l : List EntryCore}
    (hc : (p, Obs.commits .leader t idx log) ∈ c.history) (hl : (q, Obs.leads u l) ∈ c.history)
    (ht : t < u) {i : Nat} (hi : (i : Int) ≤ idx) : ∃ x, log[i]? = some x ∧ l[i]? = some x := by
  obtain ⟨w, hw⟩ := Refinement.Reach.coupled (R := ackedRules) h (fun _ _ h => h.1.faithful)
    fun _ _ _ h _ => h.2
  have hb := hw.reach.basic
  have hu := hb.unique trivial
  have hs := hw.reach.committed trivial _ _ _ (hw.commits hu hc)
  obtain ⟨hlu, hst⟩ := hw.history _ hl
  have hin : (w.llog p t).take (idx + 1).toNat <+: l :=
    hs.inherited hb trivial (hw.reach.matching hu) hu (hw.reach.retained trivial hu) (u + 1) q u l
      hlu ht (by omega) hst
  obtain ⟨-, hpre, hlen, -⟩ := hw.history _ hc
  have hlt : i < log.length := by omega
  refine ⟨log[i], List.getElem?_eq_getElem hlt, getElem_of_isPrefix hin ?_⟩
  rw [List.getElem?_take_of_lt (by omega)]
  exact getElem_of_isPrefix hpre (List.getElem?_eq_getElem hlt)

/-- Server 1 is elected after server 0 has committed. -/
def servedThenElected : List (Event 3) :=
  servedRequest ++ [.expire 1, .expire 0, .deliver 0 16, .deliver 1 20, .deliver 0 21, .deliver 1 23]

/-- The second leader has the request of the first. -/
theorem leader_completeness_servedThenElected :
    (0, Obs.commits .leader 1 1 [⟨1, 1, [0], true, []⟩, ⟨1, 1, [2], false, [7, 8]⟩]) ∈
        (afterRun servedThenElected).history ∧
      (1, Obs.leads 2 [⟨1, 1, [0], true, []⟩, ⟨1, 1, [2], false, [7, 8]⟩]) ∈
        (afterRun servedThenElected).history ∧
      ∃ x, [(⟨1, 1, [0], true, []⟩ : EntryCore), ⟨1, 1, [2], false, [7, 8]⟩][1]? = some x ∧
        [(⟨1, 1, [0], true, []⟩ : EntryCore), ⟨1, 1, [2], false, [7, 8]⟩][1]? = some x := by
  have hc : (0, Obs.commits .leader 1 1 [⟨1, 1, [0], true, []⟩, ⟨1, 1, [2], false, [7, 8]⟩]) ∈
      (afterRun servedThenElected).history := by decide +kernel
  have hl : (1, Obs.leads 2 [⟨1, 1, [0], true, []⟩, ⟨1, 1, [2], false, [7, 8]⟩]) ∈
      (afterRun servedThenElected).history := by decide +kernel
  exact ⟨hc, hl, @leader_completeness 3 sampleExternals _ _
    (reach_afterRun_of (by decide +kernel)) _ _ _ _ _ _ _ hc hl (by omega) 1 (by omega)⟩

/-- The entry that a leader has just committed is synced on a majority. -/
def heldByMajority (c : Cluster n) : Obs n → Prop
  | .commits .leader _ idx log =>
      Majority (Finset.univ.filter fun q =>
        ∀ x ∈ log[idx.toNat]?, SyncedAt (c.servers q) idx.toNat x)
  | _ => True

instance (c : Cluster n) : ∀ o, Decidable (heldByMajority c o)
  | .commits .leader _ _ _ => Nat.decLt _ _
  | .commits .none _ _ _ | .commits .follower _ _ _ | .commits .candidatePrevote _ _ _
  | .commits .candidate _ _ _ | .commits .client _ _ _ | .leads _ _ | .applies _ _ _ _
  | .requests _ _ _ =>
      .isTrue trivial

/-- Every leader commits only entries of its own term that a majority has synced. -/
def SoundAdvance [Externals] (c : Cluster n) (e : Event n) : Prop :=
  ∀ x ∈ c.observed e, Cluster.commitsOwn x.2 = true ∧ heldByMajority (c.step e) x.2

instance [Externals] (c : Cluster n) (e : Event n) : Decidable (SoundAdvance c e) :=
  inferInstanceAs (Decidable (∀ x ∈ _, _))

/-- The second entry of term 2 is committed, and then the late vote makes server 2 the leader of
term 3. -/
def lateVoteAfterCommit : List (Event 3) := lateVoteInLaterTerm ++ [.deliver 0 29, .deliver 2 5]

/-- Each term has one leader and each commit is sound, and the leader of term 3 starts without
the entry that was committed in term 2. -/
theorem lateVoteAfterCommit_incomplete :
    @Cluster.Reach 3 sampleExternals (@SoundAdvance 3 sampleExternals) threeServers
        (afterRun lateVoteAfterCommit) ∧
      (afterRun lateVoteAfterCommit).UniqueLeaders ∧
      (0, Obs.commits .leader 2 1 [⟨2, 1, [0], true, []⟩, ⟨2, 1, [1], false, [7]⟩]) ∈
        (afterRun lateVoteAfterCommit).history ∧
      (2, Obs.leads 3 [⟨2, 1, [0], true, []⟩]) ∈ (afterRun lateVoteAfterCommit).history :=
  ⟨reach_afterRun_of (by decide +kernel), by decide +kernel, by decide +kernel, by decide +kernel⟩

end NiovaRaft
