import NiovaRaft.Model.Leader
import NiovaRaft.Model.Majority

/-!
# The index a majority has reached

For every number of peers that is allowed, the entry that is read after the sort is the greatest value
that more than half of the entries reach.  The leader's commit rule uses this value.
-/

namespace NiovaRaft.MajorityIdx

open Base

theorem entryIdxQsortCompare_le_zero (x y : Int) : entryIdxQsortCompare x y ≤ 0 ↔ x ≤ y := by
  unfold entryIdxQsortCompare
  split
  · omega
  · split <;> omega

section Valid

variable {limits : PeerLimits} {n : UInt8}

theorem numMembersIsValid_iff :
    numMembersIsValid limits n = true ↔
      limits.minRaftPeers ≤ n.toNat ∧ n.toNat ≤ limits.maxRaftPeers := by
  unfold numMembersIsValid
  split
  · next h =>
    refine iff_of_false (by decide) ?_
    omega
  · next h =>
    refine iff_of_true rfl ?_
    omega

theorem pos_of_valid (h : numMembersIsValid limits n = true) : 0 < n.toNat :=
  limits.minRaftPeers_pos.trans_le (numMembersIsValid_iff.mp h).1

/-- The place that is read has half the peers behind it, rounded down. -/
theorem toNat_majorityIndexValue (h : numMembersIsValid limits n = true) :
    (majorityIndexValue limits n).toNat = n.toNat - n.toNat / 2 - 1 := by
  have hpos := pos_of_valid h
  have hlt := n.toNat_lt
  rw [majorityIndexValue, if_neg (by rw [h]; decide)]
  have hhalf : (n / 2).toNat = n.toNat / 2 := UInt8.toNat_div n 2
  have hle : n / 2 ≤ n := by
    rw [UInt8.le_iff_toNat_le, hhalf]
    omega
  have hsub : (n - n / 2).toNat = n.toNat - n.toNat / 2 := by
    rw [UInt8.toNat_sub_of_le _ _ hle, hhalf]
  have hone : (1 : UInt8) ≤ n - n / 2 := by
    rw [UInt8.le_iff_toNat_le, hsub, UInt8.toNat_one]
    omega
  rw [UInt8.toNat_sub_of_le _ _ hone, hsub, UInt8.toNat_one]

variable {values : List Int}

/-- What the call comes to for an array of so many entries. -/
theorem getMajorityEntryIdx_of_valid (h : numMembersIsValid limits n = true)
    (hlen : values.length = n.toNat) :
    ∃ hk : n.toNat - n.toNat / 2 - 1 < (qsort entryIdxQsortCompare values).length,
      getMajorityEntryIdx limits (some values) true =
        .ok (qsort entryIdxQsortCompare values,
          some (qsort entryIdxQsortCompare values)[n.toNat - n.toNat / 2 - 1]) := by
  have hpos := pos_of_valid h
  have hle := (numMembersIsValid_iff.mp h).2
  have hsorted : (qsort entryIdxQsortCompare values).length = n.toNat := by
    rw [(perm_qsort _ _).length_eq, hlen]
  have hk : n.toNat - n.toNat / 2 - 1 < (qsort entryIdxQsortCompare values).length := by omega
  refine ⟨hk, ?_⟩
  rw [getMajorityEntryIdx, if_neg (by decide), if_neg (by omega)]
  dsimp only
  rw [hsorted, UInt8.ofNat_toNat, toNat_majorityIndexValue h, List.getElem?_eq_getElem hk]

/-- The value is the greatest one that a strict majority of the entries reaches. -/
theorem getMajorityEntryIdx_isGreatest (h : numMembersIsValid limits n = true)
    (hlen : values.length = n.toNat) :
    ∃ sorted v, getMajorityEntryIdx limits (some values) true = .ok (sorted, some v) ∧
      sorted.Perm values ∧
      IsGreatest {x | n.toNat < 2 * values.countP fun w => decide (x ≤ w)} v := by
  obtain ⟨hk, heq⟩ := getMajorityEntryIdx_of_valid h hlen
  have hperm := perm_qsort entryIdxQsortCompare values
  have hgreatest := isGreatest_getElem (pairwise_qsort entryIdxQsortCompare_le_zero values) hk
  have hset : {x | (qsort entryIdxQsortCompare values).length - (n.toNat - n.toNat / 2 - 1) ≤
        (qsort entryIdxQsortCompare values).countP fun w => decide (x ≤ w)} =
      {x | n.toNat < 2 * values.countP fun w => decide (x ≤ w)} := by
    have hpos := pos_of_valid h
    ext x
    rw [Set.mem_ofPred_eq, Set.mem_ofPred_eq, hperm.countP_eq, hperm.length_eq, hlen]
    omega
  rw [hset] at hgreatest
  exact ⟨_, _, heq, hperm, hgreatest⟩

/-- Two entries of the five lie above it. -/
theorem getMajorityEntryIdx_isGreatest_five :
    ∃ sorted v, getMajorityEntryIdx ⟨1, 11, 255, Nat.one_pos⟩
        (some [127, 4294967297, -1, -1, 128]) true = .ok (sorted, some v) ∧
      sorted.Perm [127, 4294967297, -1, -1, 128] ∧
      IsGreatest {x | (5 : UInt8).toNat < 2 * [127, 4294967297, -1, -1, 128].countP
        fun w => decide (x ≤ w)} v :=
  getMajorityEntryIdx_isGreatest (by decide) rfl

/-- The leader's commit rule takes this value. -/
theorem getMajorityEntryIdx_eq_server (h : numMembersIsValid limits n = true)
    (hlen : values.length = n.toNat) :
    getMajorityEntryIdx limits (some values) true =
      .ok (qsort entryIdxQsortCompare values, some (RaftServer.getMajorityEntryIdx values)) := by
  obtain ⟨hk, heq⟩ := getMajorityEntryIdx_of_valid h hlen
  have hsort : qsort entryIdxQsortCompare values = values.insertionSort (· ≤ ·) := by
    refine List.Perm.eq_of_pairwise (fun _ _ _ _ => le_antisymm) ?_ ?_ ?_
    · exact pairwise_qsort entryIdxQsortCompare_le_zero values
    · exact List.pairwise_insertionSort (· ≤ ·) values
    · exact (perm_qsort _ _).trans (List.perm_insertionSort (· ≤ ·) values).symm
  have hserver : RaftServer.getMajorityEntryIdx values =
      (qsort entryIdxQsortCompare values)[n.toNat - n.toNat / 2 - 1] := by
    rw [RaftServer.getMajorityEntryIdx, RaftServer.majorityIndexValue, ← hsort, hlen,
      List.getD_eq_getElem?_getD, List.getElem?_eq_getElem hk, Option.getD_some]
  rw [heq, hserver]

end Valid

end NiovaRaft.MajorityIdx
