import NiovaRaft.Safety.CommitQuorum

/-!
# State machine safety

Two servers never apply different entries at one index.  Besides what the commit quorum needs,
this rests on what followers commit.  A follower that finds a request already stored commits up
to its own synced index, however far beyond the request that is.  The entries in between were
never compared with the leader's.
-/

namespace NiovaRaft

open Base Base.Handler Base.Replication Refinement RaftServer

variable {n : Nat}

/-! ## The condition -/

/-- A request that is already stored makes its receiver commit no more than it verified. -/
def shortcutVerified (ri : RaftInstance n) (pkt : Packet n) : Bool :=
  match pkt.msg with
  | .appendEntriesRequest m => decide (ShortcutVerified ri m)
  | _ => true

/-- Votes, acknowledgements and requests are taken for what they are, and leaders commit
entries of their own term. -/
structure Sound (c : Cluster n) (e : Event n) : Prop where
  acknowledged : Acknowledged c e
  pastInitial : PastInitial c e
  shortcuts : (c.delivered e).all (shortcutVerified (c.servers e.server)) = true

instance (c : Cluster n) (e : Event n) : Decidable (Sound c e) :=
  decidable_of_iff (Acknowledged c e ∧ PastInitial c e ∧ _ = true)
    ⟨fun ⟨h1, h2, h3⟩ => ⟨h1, h2, h3⟩, fun ⟨h1, h2, h3⟩ => ⟨h1, h2, h3⟩⟩

theorem Sound.shortcut {c : Cluster n} {e : Event n} (h : Sound c e) {pkt : Packet n}
    (hdel : c.delivered e = some pkt) {m : AppendEntriesRequestMsg}
    (hmsg : pkt.msg = .appendEntriesRequest m) : ShortcutVerified (c.servers e.server) m := by
  have h := h.shortcuts
  rw [hdel, Option.all_some, shortcutVerified, hmsg] at h
  exact of_decide_eq_true h

/-- All rules are in force. -/
def allRules : Rules := ⟨True, True, True⟩

theorem Sound.faithful {c : Cluster n} {e : Event n} (h : Sound c e) : Faithful allRules c e := by
  have hacked := h.acknowledged.faithful
  unfold Faithful at hacked ⊢
  cases hact : e.action with
  | deliver k =>
    rw [hact] at hacked
    intro pkt hdel
    have hver := hacked pkt hdel
    unfold Verified at hver ⊢
    cases hmsg : pkt.msg with
    | appendEntriesRequest m => exact fun _ => ⟨trivial, h.shortcut hdel hmsg⟩
    | _ =>
      rw [hmsg] at hver
      exact hver
  | timer =>
    rw [hact] at hacked
    exact hacked
  | remoteSend =>
    rw [hact] at hacked
    exact hacked
  | _ => trivial

/-! ## What is applied -/

/-- State machine safety: entries that were applied at one index are the same. -/
theorem state_machine_safety [Externals] {opts : Fin n → Options} {c : Cluster n}
    (h : Cluster.Reach Sound opts c) {p q : Fin n} {idx t t' : Int} {sz sz' : List Nat}
    {data data' : List UInt8} (hp : (p, Obs.applies idx t sz data) ∈ c.history)
    (hq : (q, Obs.applies idx t' sz' data') ∈ c.history) : t = t' ∧ sz = sz' ∧ data = data' := by
  obtain ⟨w, hw⟩ := Refinement.Reach.coupled (R := allRules) h (fun _ _ h => h.faithful) <| by
    intro c e hr hok _
    obtain ⟨w, hw⟩ := hr.coupled_noRules
    exact (ownAdvance_iff hw).mpr hok.pastInitial
  obtain ⟨-, x, hx, rfl, rfl, rfl⟩ := hw.history _ hp
  obtain ⟨-, y, hy, rfl, rfl, rfl⟩ := hw.history _ hq
  obtain rfl := hw.reach.applied_agree trivial trivial trivial hx hy
  exact ⟨rfl, rfl, rfl⟩

/-- The request, on both servers that apply it. -/
theorem state_machine_safety_servedRequest :
    (0, Obs.applies 1 1 [2] [7, 8]) ∈ (afterRun servedRequest).history ∧
      (1, Obs.applies 1 1 [2] [7, 8]) ∈ (afterRun servedRequest).history ∧
      (1 : Int) = 1 ∧ [2] = [2] ∧ [(7 : UInt8), 8] = [7, 8] := by
  have h0 : (0, Obs.applies 1 1 [2] [7, 8]) ∈ (afterRun servedRequest).history := by
    decide +kernel
  have h1 : (1, Obs.applies 1 1 [2] [7, 8]) ∈ (afterRun servedRequest).history := by
    decide +kernel
  exact ⟨h0, h1, @state_machine_safety 3 sampleExternals _ _
    (reach_afterRun_of (by decide +kernel)) _ _ _ _ _ _ _ _ _ h0 h1⟩

/-- Server 2 loses the marker of term 1 in a crash and says so to its leader, server 0, which
does not hear of it.  It gets the marker again and leads term 2.  Server 0 leads term 3, hears of
the loss, and sends the marker of term 1 once more, with a commit index of 1. -/
def lateRewind : List (Event 3) :=
  [.expire 0, .deliver 1 0, .deliver 0 2, .deliver 1 3, .deliver 0 5, .send 0, .deliver 2 7,
    .deliver 0 8, .heartbeat 0, .crash 2, .deliver 2 10, .deliver 2 7, .sync 2, .expire 2,
    .expire 1, .deliver 1 14, .deliver 2 17, .deliver 1 19, .deliver 2 20, .sync 2, .heartbeat 2,
    .deliver 0 21, .expire 0, .expire 1, .deliver 1 24, .deliver 0 28, .deliver 1 29,
    .deliver 0 31, .sync 0, .deliver 0 11, .send 0, .deliver 2 33, .deliver 1 32, .deliver 0 35,
    .send 0, .deliver 1 36, .deliver 0 38, .send 0, .deliver 1 39, .deliver 0 41, .sync 1,
    .send 1, .deliver 0 42, .send 0]

/-- Server 2 finds the marker stored, commits its own entry of term 2 behind it, and applies
it. -/
def shortcutApplied : List (Event 3) :=
  lateRewind ++ [.deliver 2 43, .apply 0, .apply 0, .apply 2, .apply 2]

/-- Each term has one leader, and servers 0 and 2 apply different entries at index 1. -/
theorem shortcutApplied_differs :
    @Cluster.Reach 3 sampleExternals Cluster.anyEvent threeServers (afterRun shortcutApplied) ∧
      (afterRun shortcutApplied).UniqueLeaders ∧
      (0, Obs.applies 1 3 [0] []) ∈ (afterRun shortcutApplied).history ∧
      (2, Obs.applies 1 2 [0] []) ∈ (afterRun shortcutApplied).history :=
  ⟨reach_afterRun _, by decide +kernel, by decide +kernel, by decide +kernel⟩

end NiovaRaft
