import NiovaRaft.Model.RaftNet

/-!
# The most responsive server

A client without a leader asks the server that answered most recently.  The scan starts with a
recency of zero and looks for a smaller one, so it never moves away from the peer it started at.
-/

namespace NiovaRaft.RaftNet

variable {τ : Type} (timespec2Msec : τ → Nat) (ri : CommTimes τ)

/-! ## The scan -/

theorem commRecency_recv {idx : Nat} (h : idx < ri.numMembers) (clock : Nat) :
    commRecency timespec2Msec ri idx .recv clock = .error .EALREADY ∨
      ∃ ms, commRecency timespec2Msec ri idx .recv clock = .ok ms := by
  rw [commRecency, if_neg (Nat.not_le.mpr h)]
  by_cases hsend : timespec2Msec (ri.lastSend idx) = 0
  · exact .inl (if_pos hsend)
  · exact .inr ⟨_, if_neg hsend⟩

/-- Nothing is smaller than zero: each round leaves the best peer as it is. -/
theorem responsiveScan_zero (clock startPeer : Nat) (best : Nat) (k : Nat) :
    responsiveScan timespec2Msec ri clock startPeer k (best, 0) = some best := by
  induction k with
  | zero => rfl
  | succ k ih =>
    rw [responsiveScan]
    have hidx : (ri.numMembers - (k + 1) + startPeer) % ri.numMembers < ri.numMembers :=
      Nat.mod_lt _ ri.numMembers_pos
    obtain hnone | ⟨ms, hms⟩ := commRecency_recv timespec2Msec ri hidx clock
    · simp only [hnone, ih]
    · simp only [hms, Nat.not_lt_zero, if_false, ih]

theorem getMostRecentlyResponsiveServer_eq (clock random : Nat) :
    getMostRecentlyResponsiveServer timespec2Msec ri clock random =
      some (random % ri.numMembers) :=
  responsiveScan_zero timespec2Msec ri clock _ _ _

/-! ## What is asked of the selection -/

/-- A message was sent to the server, and one was received from it. -/
def Responded (i : Nat) : Prop :=
  i < ri.numMembers ∧ timespec2Msec (ri.lastSend i) ≠ 0 ∧ timespec2Msec (ri.lastRecv i) ≠ 0

/-- The time since the last message from a server, on a clock that is not behind the records. -/
def sinceRecv (clock i : Nat) : Nat :=
  max clock (max (timespec2Msec (ri.lastRecv i)) (timespec2Msec (ri.lastSend i)))
    - timespec2Msec (ri.lastRecv i)

/-- The server responded, and none that did was heard of more recently. -/
def MostResponsive (clock i : Nat) : Prop :=
  Responded timespec2Msec ri i ∧
    ∀ j, Responded timespec2Msec ri j →
      sinceRecv timespec2Msec ri clock i ≤ sinceRecv timespec2Msec ri clock j

/-- The time is the one that the code computes. -/
theorem commRecency_responded {i : Nat} (h : Responded timespec2Msec ri i) (clock : Nat) :
    commRecency timespec2Msec ri i .recv clock = .ok (sinceRecv timespec2Msec ri clock i) := by
  obtain ⟨hi, hsend, hrecv⟩ := h
  rw [commRecency, if_neg (Nat.not_le.mpr hi)]
  simp only [if_neg hsend, if_pos hrecv, sinceRecv]
  split <;> congr 2 <;> omega

/-- The selection meets its purpose when nobody has answered, or when the draw falls on a server
that answered last. -/
theorem responsive_server_selected_iff (clock random : Nat) :
    (∃ i, getMostRecentlyResponsiveServer timespec2Msec ri clock random = some i ∧
      i < ri.numMembers ∧
      ((∃ j, Responded timespec2Msec ri j) → MostResponsive timespec2Msec ri clock i)) ↔
    (∀ j, ¬Responded timespec2Msec ri j) ∨
      MostResponsive timespec2Msec ri clock (random % ri.numMembers) := by
  rw [getMostRecentlyResponsiveServer_eq]
  constructor
  · rintro ⟨i, hi, -, hbest⟩
    cases hi
    by_cases hany : ∃ j, Responded timespec2Msec ri j
    · exact .inr (hbest hany)
    · exact .inl (not_exists.mp hany)
  · intro h
    refine ⟨_, rfl, Nat.mod_lt _ ri.numMembers_pos, fun ⟨j, hj⟩ => ?_⟩
    cases h with
    | inl hnone => exact absurd hj (hnone j)
    | inr hbest => exact hbest

/-- Two servers at time `100`; the second one answered at `90`, the first one never did. -/
def oneResponded : CommTimes Nat :=
  ⟨2, fun _ => 80, fun i => if i = 1 then 90 else 0, by decide⟩

/-- With a draw of `0` the server that never answered is chosen. -/
theorem responsive_server_missed :
    ¬∃ i, getMostRecentlyResponsiveServer id oneResponded 100 0 = some i ∧
      i < oneResponded.numMembers ∧
      ((∃ j, Responded id oneResponded j) → MostResponsive id oneResponded 100 i) := by
  rintro ⟨i, hi, -, hbest⟩
  have hzero : i = 0 := Option.some.inj (hi.symm.trans (by decide))
  have hone : Responded id oneResponded 1 := ⟨by decide, by decide, by decide⟩
  exact (hzero ▸ hbest ⟨1, hone⟩).1.2.2 rfl

end NiovaRaft.RaftNet
