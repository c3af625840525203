import NiovaRaft.Model.LeaderTracking
import NiovaRaft.Net.Selection

/-!
# Whom a client takes for the leader

The client counts the pings a server answers without an error.  Whatever it hears and whenever its
timer expires, the server that it calls viable has answered more than four of them since anything
spoke against it, and it has not been silent for longer than it may.

Where every server answers, and knows the leader, the client comes to the leader from any state that
it may be in: the first answer is the leader's or names the leader.
-/

namespace NiovaRaft

namespace LeaderTracking

open Base RaftNet

variable {n : Nat} {conf : RaftConf n} {rci rci' : Instance n}

/-! ## The recency of a server -/

/-- How long a server has not answered what was sent to it. -/
theorem commRecency_unackedSend {τ : Type} (timespec2Msec : τ → Nat) (ri : CommTimes τ) {idx : Nat}
    (hidx : idx < ri.numMembers) (clock : Nat) :
    commRecency timespec2Msec ri idx .unackedSend clock =
      if timespec2Msec (ri.lastSend idx) = 0 then .error .EALREADY
      else .ok (if timespec2Msec (ri.lastRecv idx) < timespec2Msec (ri.lastSend idx) then
        max clock (timespec2Msec (ri.lastSend idx)) - timespec2Msec (ri.lastRecv idx) else 0) := by
  rw [commRecency, if_neg (Nat.not_le.mpr hidx)]
  dsimp only
  split
  · rfl
  · congr 1
    split
    · split <;> omega
    · rfl

/-- A server is not stale when nothing that was sent to it is unanswered, or not for long. -/
theorem serverTargetIsStale_eq_false_iff {idx : Fin n} {clock : Nat} :
    serverTargetIsStale conf rci idx clock = false ↔ rci.lastSend idx ≠ 0 ∧
      (rci.lastRecv idx < rci.lastSend idx →
        max clock (rci.lastSend idx) ≤ rci.lastRecv idx + staleServerTimeMs) := by
  have hrecency : rci.recency conf idx .unackedSend clock =
      if rci.lastSend idx = 0 then .error .EALREADY
      else .ok (if rci.lastRecv idx < rci.lastSend idx then
        max clock (rci.lastSend idx) - rci.lastRecv idx else 0) :=
    commRecency_unackedSend id (rci.commTimes conf) idx.isLt clock
  rw [serverTargetIsStale, hrecency]
  by_cases hnever : rci.lastSend idx = 0
  · simp [hnever]
  · rw [if_neg hnever]
    simp only [decide_eq_false_iff_not, not_lt, ne_eq, hnever, not_false_eq_true, true_and]
    split
    · omega
    · next hacked => simp [hacked]

/-! ## The tick -/

theorem csnLeader_of_viable {clock : Nat} (h : leaderIsViable conf rci clock = true) :
    npingsUntilViable < rci.leaderAliveCnt ∧ ∃ csn, rci.leaderCsn = some csn ∧
      rci.csnLeader = some csn ∧ serverTargetIsStale conf rci csn clock = false := by
  unfold leaderIsViable at h
  rw [Bool.and_eq_true, decide_eq_true_eq] at h
  obtain ⟨hcnt, hcsn⟩ := h
  cases hleader : rci.leaderCsn with
  | none => simp [hleader] at hcsn
  | some csn => exact ⟨hcnt, csn, rfl, by simpa [hleader] using hcsn⟩

/-- The target is one of the members, and the one that the client holds on to. -/
structure Targets (conf : RaftConf n) (rci rci' : Instance n) (tgt : Fin n) (clock : Nat) :
    Prop where
  csnLeader : rci'.csnLeader = some tgt
  leaderCsn : rci'.leaderCsn = rci.leaderCsn
  aliveCnt : rci'.leaderAliveCnt = rci.leaderAliveCnt
  lastSend : rci'.lastSend = rci.lastSend
  lastRecv : rci'.lastRecv = rci.lastRecv
  redirect : rci'.leaderRedirect = true → rci.leaderRedirect = true ∧ rci.csnLeader = none
  held : ∀ csn, rci.csnLeader = some csn → rci.leaderRedirect = true ∨
    serverTargetIsStale conf rci csn clock = false → tgt = csn

theorem setPingTarget_eq (conf : RaftConf n) (rci : Instance n) (clock random : Nat) :
    ∃ rci' tgt, setPingTarget conf rci clock random = some rci' ∧
      Targets conf rci rci' tgt clock := by
  have hdrawn : random % n < n := Nat.mod_lt _ conf.numMembers_pos
  have hchoose : getMostRecentlyResponsiveServer id (rci.commTimes conf) clock random =
      some (random % n) := getMostRecentlyResponsiveServer_eq ..
  unfold setPingTarget
  simp only [hchoose, Option.bind_eq_bind, Option.bind_some, dif_pos hdrawn]
  cases hcsn : rci.csnLeader with
  | none =>
    refine ⟨_, ⟨random % n, hdrawn⟩, rfl, rfl, rfl, rfl, rfl, rfl, fun hflag => ⟨hflag, hcsn⟩, ?_⟩
    exact fun csn hheld => absurd (hcsn.symm.trans hheld) (by simp)
  | some csn =>
    have hheld : ∀ csn', rci.csnLeader = some csn' → csn = csn' :=
      fun csn' h => Option.some.inj (hcsn.symm.trans h)
    dsimp only
    split
    · exact ⟨_, csn, rfl, rfl, rfl, rfl, rfl, rfl, fun hflag => absurd hflag (by simp),
        fun csn' h _ => hheld csn' h⟩
    · next hredirect =>
      split
      · next hstale =>
        refine ⟨_, ⟨random % n, hdrawn⟩, rfl, rfl, rfl, rfl, rfl, rfl,
          fun hflag => absurd hflag hredirect, fun csn' h hkept => ?_⟩
        rw [← hheld csn' h, hstale] at hkept
        exact absurd hkept (by simp [hredirect])
      · exact ⟨rci, csn, rfl, hcsn, rfl, rfl, rfl, rfl, fun hflag => absurd hflag hredirect,
          fun csn' h _ => hheld csn' h⟩

/-- What a client holds on to at a tick. -/
def HoldsOn (conf : RaftConf n) (rci : Instance n) (csn : Fin n) (clock : Nat) : Prop :=
  rci.csnLeader = some csn ∧ (leaderIsViable conf rci clock = true ∨ rci.leaderRedirect = true ∨
    serverTargetIsStale conf rci csn clock = false)

/-- What a tick does: a server is pinged, or the leader is viable and was heard of lately. -/
structure Ticks (conf : RaftConf n) (rci rci' : Instance n) (pinged : Option (Fin n)) (clock : Nat)
    (sent : Bool) : Prop where
  leaderCsn : rci'.leaderCsn = rci.leaderCsn
  aliveCnt : rci'.leaderAliveCnt = rci.leaderAliveCnt
  lastRecv : rci'.lastRecv = rci.lastRecv
  redirect : rci'.leaderRedirect = true →
    rci.leaderRedirect = true ∧ (rci.csnLeader = none ∨ rci'.csnLeader = rci.csnLeader)
  target : ∀ tgt, pinged = some tgt →
    rci'.csnLeader = some tgt ∧ rci'.lastSend = Function.update rci.lastSend tgt clock
  idle : sent = true → pinged = none → leaderIsViable conf rci clock = true ∧ rci' = rci
  held : ∀ csn, HoldsOn conf rci csn clock → rci'.csnLeader = some csn

theorem pingRaftService_eq {tgt : Fin n} (h : rci.csnLeader = some tgt) (clock : Nat)
    (sent : Bool) : pingRaftService rci clock sent =
      if sent = true then (updateLastSend rci tgt clock, some tgt) else (rci, none) := by
  simp only [pingRaftService, h]

theorem timerfdCb_eq (conf : RaftConf n) (rci : Instance n) (clock random : Nat) (sent : Bool) :
    ∃ rci' pinged, timerfdCb conf rci clock random sent = some (rci', pinged) ∧
      Ticks conf rci rci' pinged clock sent := by
  unfold timerfdCb
  split
  · next hviable =>
    obtain ⟨-, csn, -, hcsn, -⟩ := csnLeader_of_viable hviable
    simp only [hcsn]
    split
    · rw [pingRaftService_eq hcsn]
      cases sent with
      | true =>
        refine ⟨_, _, rfl, rfl, rfl, rfl, fun hflag => ⟨hflag, .inr rfl⟩, ?_,
          fun _ hnone => absurd hnone (by simp), fun csn' h => h.1⟩
        intro tgt htgt
        obtain rfl := Option.some.inj htgt
        exact ⟨hcsn, rfl⟩
      | false =>
        exact ⟨rci, none, rfl, rfl, rfl, rfl, fun hflag => ⟨hflag, .inr rfl⟩,
          fun _ hnone => absurd hnone (by simp), fun hsent => absurd hsent (by simp),
          fun _ h => h.1⟩
    · exact ⟨rci, none, rfl, rfl, rfl, rfl, fun hflag => ⟨hflag, .inr rfl⟩,
        fun _ hnone => absurd hnone (by simp), fun _ _ => ⟨hviable, rfl⟩, fun _ h => h.1⟩
  · next hviable =>
    obtain ⟨rci', tgt, hset, htgt⟩ := setPingTarget_eq conf rci clock random
    rw [hset, Option.bind_eq_bind, Option.bind_some, pingRaftService_eq htgt.csnLeader]
    have hredirect : rci'.leaderRedirect = true →
        rci.leaderRedirect = true ∧ (rci.csnLeader = none ∨ rci'.csnLeader = rci.csnLeader) :=
      fun hflag => ⟨(htgt.redirect hflag).1, .inl (htgt.redirect hflag).2⟩
    have hheld : ∀ csn, HoldsOn conf rci csn clock → rci'.csnLeader = some csn := by
      intro csn h
      rw [htgt.csnLeader, htgt.held csn h.1 (h.2.resolve_left hviable)]
    cases sent with
    | true =>
      refine ⟨_, _, rfl, htgt.leaderCsn, htgt.aliveCnt, htgt.lastRecv, hredirect, ?_,
        fun _ hnone => absurd hnone (by simp), hheld⟩
      intro tgt' htgt'
      obtain rfl := Option.some.inj htgt'
      exact ⟨htgt.csnLeader, by simp only [updateLastSend, htgt.lastSend]⟩
    | false =>
      exact ⟨rci', none, rfl, htgt.leaderCsn, htgt.aliveCnt, htgt.lastRecv, hredirect,
        fun _ hnone => absurd hnone (by simp), fun hsent => absurd hsent (by simp), hheld⟩

/-! ## What the answers say -/

/-- Nothing in it speaks against the server. -/
def Heard.Spares (csn : Fin n) : Heard n → Prop
  | .pingReply sender sysError =>
      sender = csn ∧ isNotReady sysError = false ∧ isNotLeader sysError = false
  | .redirect _ _ => False
  | .completes _ | .ignored => True

/-- The server has answered a ping without an error. -/
def Heard.acks (csn : Fin n) : Heard n → Bool
  | .pingReply sender sysError => decide (sender = csn ∧ sysError = 0)
  | _ => false

/-- The server has answered `k` pings since anything spoke against it. -/
def Answered (csn : Fin n) (k : Nat) (heard : List (Heard n)) : Prop :=
  ∃ before after, heard = before ++ after ∧ (∀ o ∈ after, o.Spares csn) ∧
    after.countP (Heard.acks csn) = k

theorem Answered.zero (csn : Fin n) (heard : List (Heard n)) : Answered csn 0 heard :=
  ⟨heard, [], (List.append_nil _).symm, by simp, rfl⟩

theorem Answered.snoc {csn : Fin n} {k : Nat} {heard : List (Heard n)} (h : Answered csn k heard)
    {o : Heard n} (ho : o.Spares csn) :
    Answered csn (k + if o.acks csn then 1 else 0) (heard ++ [o]) := by
  obtain ⟨before, after, rfl, hspares, hcount⟩ := h
  refine ⟨before, after ++ [o], List.append_assoc .., fun o' ho' => ?_, ?_⟩
  · rcases List.mem_append.mp ho' with hin | hlast
    · exact hspares o' hin
    · rw [List.mem_singleton.mp hlast]
      exact ho
  · rw [List.countP_append, hcount, List.countP_singleton]

/-- The last message that named a leader among the members named this one. -/
def LastNamed (csn : Fin n) (heard : List (Heard n)) : Prop :=
  ∃ before sender after, heard = before ++ Heard.redirect sender (some csn) :: after ∧
    ∀ o ∈ after, ∀ sender' csn', o ≠ .redirect sender' (some csn')

theorem LastNamed.snoc {csn : Fin n} {heard : List (Heard n)} (h : LastNamed csn heard)
    {o : Heard n} (ho : ∀ sender' csn', o ≠ .redirect sender' (some csn')) :
    LastNamed csn (heard ++ [o]) := by
  obtain ⟨before, sender, after, rfl, hafter⟩ := h
  refine ⟨before, sender, after ++ [o], by simp, fun o' ho' => ?_⟩
  rcases List.mem_append.mp ho' with hin | hlast
  · exact hafter o' hin
  · rw [List.mem_singleton.mp hlast]
    exact ho

/-- What a client knows. -/
structure Tracks (c : Client n) : Prop where
  nobody : c.rci.leaderCsn = none → c.rci.leaderAliveCnt = 0
  answered : ∀ csn, c.rci.leaderCsn = some csn → Answered csn c.rci.leaderAliveCnt c.heard
  named : c.rci.leaderRedirect = true → ∃ csn, c.rci.csnLeader = some csn ∧ LastNamed csn c.heard

/-- An answer starts a new count when it comes from another server. -/
def countedFor (rci : Instance n) (senderCsn : Fin n) : Nat :=
  if rci.leaderCsn = some senderCsn then rci.leaderAliveCnt else 0

theorem processPingReply_zero (rci : Instance n) (senderCsn : Fin n) :
    (processPingReply rci 0 senderCsn).leaderCsn = some senderCsn ∧
      (processPingReply rci 0 senderCsn).leaderAliveCnt = countedFor rci senderCsn + 1 := by
  by_cases hcsn : rci.leaderCsn = some senderCsn
  · simp [processPingReply, instanceProgressLeaderInfo, countedFor, hcsn]
  · simp [processPingReply, instanceProgressLeaderInfo, instanceResetLeaderInfo, countedFor, hcsn]

/-- An error leaves the server nothing, or what it had. -/
theorem processPingReply_error (rci : Instance n) {sysError : Int} (herr : sysError ≠ 0)
    (senderCsn : Fin n) :
    (processPingReply rci sysError senderCsn).leaderAliveCnt = 0 ∨
      isNotReady sysError = false ∧ isNotLeader sysError = false ∧
        rci.leaderCsn = some senderCsn ∧ processPingReply rci sysError senderCsn = rci := by
  by_cases hcsn : rci.leaderCsn = some senderCsn
  · simp only [processPingReply, hcsn, ne_eq, not_true_eq_false, if_false, if_neg herr]
    split
    · exact .inl rfl
    · split
      · exact .inl rfl
      · next hready hlead =>
        exact .inr ⟨by simpa using hready, by simpa using hlead, trivial, rfl⟩
  · left
    simp only [processPingReply, ne_eq, hcsn, not_false_eq_true, if_true, if_neg herr]
    split
    · rfl
    · split <;> rfl

theorem processPingReply_target (rci : Instance n) (sysError : Int) (senderCsn : Fin n) :
    (processPingReply rci sysError senderCsn).csnLeader = rci.csnLeader ∧
      (processPingReply rci sysError senderCsn).leaderRedirect = rci.leaderRedirect ∧
      (processPingReply rci sysError senderCsn).lastSend = rci.lastSend ∧
      (processPingReply rci sysError senderCsn).lastRecv = rci.lastRecv := by
  simp only [processPingReply, instanceProgressLeaderInfo, instanceResetLeaderInfo]
  split_ifs <;> exact ⟨rfl, rfl, rfl, rfl⟩

/-- Nobody is named. -/
theorem updateLeaderFromRedirect_none (rci : Instance n) {redirectId : Uuid} (clock : Nat)
    (h : (if redirectId = Uuid.null then none else peer2Idx conf redirectId) = none) :
    (updateLeaderFromRedirect conf rci redirectId clock).csnLeader = rci.csnLeader ∧
      (updateLeaderFromRedirect conf rci redirectId clock).leaderCsn = none ∧
      (updateLeaderFromRedirect conf rci redirectId clock).leaderAliveCnt = 0 ∧
      (updateLeaderFromRedirect conf rci redirectId clock).leaderRedirect = rci.leaderRedirect := by
  unfold updateLeaderFromRedirect applyLeaderRedirect
  split at h
  · next hnull =>
    simp only [if_pos hnull]
    exact ⟨rfl, rfl, rfl, rfl⟩
  · next hnull =>
    simp only [if_neg hnull, h]
    exact ⟨rfl, rfl, rfl, rfl⟩

/-- The leader is named. -/
theorem updateLeaderFromRedirect_some (rci : Instance n) {redirectId : Uuid} (clock : Nat)
    {leaderIdx : Fin n}
    (h : (if redirectId = Uuid.null then none else peer2Idx conf redirectId) = some leaderIdx) :
    (updateLeaderFromRedirect conf rci redirectId clock).csnLeader = some leaderIdx ∧
      (updateLeaderFromRedirect conf rci redirectId clock).leaderCsn = some leaderIdx ∧
      (updateLeaderFromRedirect conf rci redirectId clock).leaderAliveCnt = 0 ∧
      (updateLeaderFromRedirect conf rci redirectId clock).leaderRedirect = true := by
  unfold updateLeaderFromRedirect applyLeaderRedirect
  split at h
  · cases h
  · next hnull =>
    simp only [if_neg hnull, h]
    cases serverTargetTimedOut conf _ leaderIdx clock staleServerTimeMs with
    | true => exact ⟨rfl, rfl, rfl, rfl⟩
    | false => exact ⟨rfl, rfl, rfl, rfl⟩

namespace Tracks

variable {heard : List (Heard n)}

/-- The answer to a ping. -/
theorem pingReply (h : Tracks ⟨rci, heard⟩) (sysError : Int) (senderCsn : Fin n) :
    Tracks ⟨processPingReply rci sysError senderCsn,
      heard ++ [.pingReply senderCsn sysError]⟩ := by
  obtain ⟨hcsn, hflag, -, -⟩ := processPingReply_target rci sysError senderCsn
  have hnamed : (processPingReply rci sysError senderCsn).leaderRedirect = true →
      ∃ csn, (processPingReply rci sysError senderCsn).csnLeader = some csn ∧
        LastNamed csn (heard ++ [.pingReply senderCsn sysError]) := by
    intro hredirect
    obtain ⟨csn, hleader, hlast⟩ := h.named (hflag ▸ hredirect)
    exact ⟨csn, hcsn.trans hleader, hlast.snoc (by simp)⟩
  by_cases herr : sysError = 0
  · subst herr
    obtain ⟨hleader, hcnt⟩ := processPingReply_zero rci senderCsn
    refine ⟨fun hnone => absurd (hleader.symm.trans hnone) (by simp), fun csn hcsn' => ?_, hnamed⟩
    obtain rfl : senderCsn = csn := Option.some.inj (hleader.symm.trans hcsn')
    have hold : Answered senderCsn (countedFor rci senderCsn) heard := by
      unfold countedFor
      split
      · next hsame => exact h.answered senderCsn hsame
      · exact .zero ..
    have hnew := hold.snoc (o := .pingReply senderCsn 0) ⟨rfl, by decide, by decide⟩
    simpa [Heard.acks, hcnt] using hnew
  · cases processPingReply_error rci herr senderCsn with
    | inl hzero =>
      refine ⟨fun _ => hzero, fun csn _ => ?_, hnamed⟩
      show Answered csn (processPingReply rci sysError senderCsn).leaderAliveCnt _
      rw [hzero]
      exact .zero ..
    | inr hsame =>
      obtain ⟨hready, hlead, hleader, heq⟩ := hsame
      rw [heq] at hnamed ⊢
      refine ⟨h.nobody, fun csn hcsn' => ?_, hnamed⟩
      obtain rfl : senderCsn = csn := Option.some.inj (hleader.symm.trans hcsn')
      have hnew := (h.answered senderCsn hleader).snoc (o := .pingReply senderCsn sysError)
        ⟨rfl, hready, hlead⟩
      simpa [Heard.acks, herr] using hnew

/-- A message that has nothing to do with who leads. -/
theorem other (h : Tracks ⟨rci, heard⟩) {o : Heard n}
    (ho : o = .ignored ∨ ∃ sender, o = .completes sender)
    (hcsn : rci'.csnLeader = rci.csnLeader) (hleader : rci'.leaderCsn = rci.leaderCsn)
    (hcnt : rci'.leaderAliveCnt = rci.leaderAliveCnt)
    (hflag : rci'.leaderRedirect = rci.leaderRedirect) : Tracks ⟨rci', heard ++ [o]⟩ := by
  have hspares : ∀ csn : Fin n, o.Spares csn ∧ o.acks csn = false := by
    intro csn
    obtain rfl | ⟨sender, rfl⟩ := ho
    · exact ⟨trivial, rfl⟩
    · exact ⟨trivial, rfl⟩
  refine ⟨fun hnone => ?_, fun csn hcsn' => ?_, fun hredirect => ?_⟩
  · exact hcnt.trans (h.nobody (hleader.symm.trans hnone))
  · have hnew := (h.answered csn (hleader.symm.trans hcsn')).snoc (hspares csn).1
    rw [(hspares csn).2] at hnew
    show Answered csn rci'.leaderAliveCnt _
    rw [hcnt]
    exact hnew
  · obtain ⟨csn, hcsn', hlast⟩ := h.named (hflag.symm.trans hredirect)
    refine ⟨csn, hcsn.trans hcsn', hlast.snoc fun sender' csn'' heq => ?_⟩
    obtain rfl | ⟨sender, rfl⟩ := ho
    · cases heq
    · cases heq

/-- A message that names the leader. -/
theorem redirect (h : Tracks ⟨rci, heard⟩) (redirectId : Uuid) (clock : Nat) (senderCsn : Fin n) :
    Tracks ⟨updateLeaderFromRedirect conf rci redirectId clock, heard ++ [.redirect senderCsn
      (if redirectId = Uuid.null then none else peer2Idx conf redirectId)]⟩ := by
  cases hnamed : (if redirectId = Uuid.null then none else peer2Idx conf redirectId) with
  | none =>
    obtain ⟨hcsn, hleader, hcnt, hflag⟩ := updateLeaderFromRedirect_none rci clock hnamed
    refine ⟨fun _ => hcnt, fun csn hcsn' => ?_, fun hredirect => ?_⟩
    · exact absurd (hleader.symm.trans hcsn') (by simp)
    · obtain ⟨csn, hcsn', hlast⟩ := h.named (hflag.symm.trans hredirect)
      exact ⟨csn, hcsn.trans hcsn', hlast.snoc (by simp)⟩
  | some leaderIdx =>
    obtain ⟨hcsn, hleader, hcnt, -⟩ := updateLeaderFromRedirect_some rci clock hnamed
    refine ⟨fun _ => hcnt, fun csn _ => ?_, fun _ => ⟨leaderIdx, hcsn, ?_⟩⟩
    · show Answered csn (updateLeaderFromRedirect conf rci redirectId clock).leaderAliveCnt _
      rw [hcnt]
      exact .zero ..
    · exact ⟨heard, senderCsn, [], rfl, by simp⟩

/-- A message. -/
theorem recvHandler (h : Tracks ⟨rci, heard⟩) (clock recvBytes : Nat) (fromAddr : Sockaddr)
    (canRecv : Fin n → Bool) (rcrm : ClientRpcMsg) :
    Tracks ⟨(recvHandler conf rci clock recvBytes fromAddr canRecv rcrm).1,
      heard ++ [(recvHandler conf rci clock recvBytes fromAddr canRecv rcrm).2]⟩ := by
  have hignored : Tracks ⟨rci, heard ++ [.ignored]⟩ := h.other (.inl rfl) rfl rfl rfl rfl
  unfold LeaderTracking.recvHandler
  split
  · exact hignored
  split
  · exact hignored
  cases verifySenderServerMsg conf true rcrm.senderId rcrm.raftId fromAddr canRecv with
  | none => exact hignored
  | some senderCsn =>
    dsimp only
    have hrecv : Tracks ⟨noteRecv rci senderCsn clock, heard⟩ := ⟨h.nobody, h.answered, h.named⟩
    cases rcrm.type with
    | pingReply => exact hrecv.pingReply rcrm.sysError senderCsn
    | redirect => exact hrecv.redirect rcrm.redirectId clock senderCsn
    | other => exact hrecv.other (.inl rfl) rfl rfl rfl rfl
    | reply =>
      dsimp only
      split
      · exact hrecv.other (.inl rfl) rfl rfl rfl rfl
      · exact hrecv.other (.inr ⟨senderCsn, rfl⟩) rfl rfl rfl rfl

variable (conf) in
/-- One event, which the client survives. -/
theorem step {c : Client n} (h : Tracks c) (e : Event n) :
    ∃ c', c.step conf e = some c' ∧ Tracks c' := by
  cases e with
  | timerfd clock random sent =>
    obtain ⟨rci', pinged, htick, hticks⟩ := timerfdCb_eq conf c.rci clock random sent
    refine ⟨{ c with rci := rci' }, ?_, fun hnone => ?_, fun csn hcsn => ?_, fun hflag => ?_⟩
    · simp only [Client.step, htick, Option.bind_eq_bind, Option.bind_some]
    · exact hticks.aliveCnt.trans (h.nobody (hticks.leaderCsn.symm.trans hnone))
    · show Answered csn rci'.leaderAliveCnt c.heard
      rw [hticks.aliveCnt]
      exact h.answered csn (hticks.leaderCsn.symm.trans hcsn)
    · obtain ⟨hold, hkept⟩ := hticks.redirect hflag
      obtain ⟨csn, hcsn, hlast⟩ := h.named hold
      have hsame := hkept.resolve_left (by simp [hcsn])
      exact ⟨csn, hsame.trans hcsn, hlast⟩
  | recv clock recvBytes fromAddr canRecv rcrm =>
    exact ⟨_, rfl, h.recvHandler clock recvBytes fromAddr canRecv rcrm⟩
  | launch clock sent =>
    refine ⟨_, rfl, ?_⟩
    unfold rpcLaunch pingRaftService
    cases hcsn : c.rci.csnLeader with
    | none => exact ⟨h.nobody, h.answered, h.named⟩
    | some csn =>
      dsimp only
      split
      · exact ⟨h.nobody, h.answered, h.named⟩
      · exact ⟨h.nobody, h.answered, h.named⟩

variable (conf) in
theorem run {c : Client n} (h : Tracks c) (es : List (Event n)) :
    ∃ c', c.run conf es = some c' ∧ Tracks c' := by
  induction es generalizing c with
  | nil => exact ⟨c, rfl, h⟩
  | cons e es ih =>
    obtain ⟨c', hstep, h'⟩ := h.step conf e
    obtain ⟨c'', hrun, h''⟩ := ih h'
    refine ⟨c'', ?_, h''⟩
    simp only [Client.run, hstep, Option.bind_eq_bind, Option.bind_some, hrun]

end Tracks

/-- A tick, and the answer to the ping if there is one. -/
structure Round where
  tickAt : Nat
  random : Nat
  answerAt : Nat

/-- The tick comes first. -/
def Round.InTime (r : Round) : Prop := 0 < r.tickAt ∧ r.tickAt ≤ r.answerAt

instance (r : Round) : Decidable r.InTime := inferInstanceAs (Decidable (_ ∧ _))

/-- What a server answers that knows the leader. -/
def answerOf (conf : RaftConf n) (leader tgt : Fin n) : ClientRpcMsg where
  type := if tgt = leader then .pingReply else .redirect
  raftId := conf.raftUuid
  senderId := (conf.peers tgt).uuid
  redirectId := (conf.peers leader).uuid
  sysError := if tgt = leader then 0 else ENOSYS

/-- The server that is pinged answers from where it is expected to. -/
def answered (conf : RaftConf n) (leader : Fin n) (rci : Instance n) (tgt : Fin n) (clock : Nat) :
    Instance n :=
  (recvHandler conf rci clock clientRpcMsgSize ⟨(conf.peers tgt).ipaddr, 0⟩ (fun _ => true)
    (answerOf conf leader tgt)).1

/-- The rounds of a client whose pings are answered, with the number of pings. -/
def rounds (conf : RaftConf n) (leader : Fin n) :
    Instance n → List Round → Option (Instance n × Nat)
  | rci, [] => some (rci, 0)
  | rci, r :: rs => do
      let (rci, pinged) ← timerfdCb conf rci r.tickAt r.random true
      match pinged with
      | none => rounds conf leader rci rs
      | some tgt => do
          let (rci, pings) ← rounds conf leader (answered conf leader rci tgt r.answerAt) rs
          some (rci, pings + 1)

/-- The peers can be told apart, and their messages are let in. -/
structure Distinct (conf : RaftConf n) : Prop where
  inj : ∀ i j, (conf.peers i).uuid = (conf.peers j).uuid → i = j
  notNull : ∀ i, (conf.peers i).uuid ≠ Uuid.null
  size : clientRpcMsgSize ≤ conf.maxRpcSize

theorem Distinct.peer2Idx_eq (h : Distinct conf) (i : Fin n) :
    peer2Idx conf (conf.peers i).uuid = some i := by
  unfold peer2Idx
  cases hfind : (List.finRange n).find? fun j => (conf.peers j).uuid = (conf.peers i).uuid with
  | none =>
    have hnone := List.find?_eq_none.mp hfind i (List.mem_finRange i)
    simp at hnone
  | some j =>
    have hsame := List.find?_some hfind
    rw [h.inj j i (by simpa using hsame)]

theorem strncmp_self (a : List UInt8) (len : Nat) : strncmp a a len = 0 := by
  induction len generalizing a with
  | zero => rfl
  | succ len ih =>
    simp only [strncmp, ne_eq, not_true_eq_false, if_false]
    split
    · rfl
    · exact ih a.tail

/-- The answer gets through. -/
theorem answered_eq (h : Distinct conf) (leader : Fin n) {tgt : Fin n} (clock : Nat)
    (hcsn : rci.csnLeader = some tgt) :
    answered conf leader rci tgt clock =
      if tgt = leader then processPingReply (noteRecv rci tgt clock) 0 tgt
      else
        updateLeaderFromRedirect conf (noteRecv rci tgt clock) (conf.peers leader).uuid clock := by
  have hverify : verifySenderServerMsg conf true (conf.peers tgt).uuid conf.raftUuid
      ⟨(conf.peers tgt).ipaddr, 0⟩ (fun _ => true) = some tgt := by
    simp [verifySenderServerMsg, h.notNull, h.peer2Idx_eq, strncmp_self]
  have hsize : ¬(clientRpcMsgSize < clientRpcMsgSize ∨ conf.maxRpcSize < clientRpcMsgSize) := by
    have := h.size
    omega
  unfold answered recvHandler
  rw [if_neg (by simp [hcsn, clientRpcMsgSize]), if_neg hsize]
  by_cases hleader : tgt = leader
  · simp only [answerOf, hverify, if_pos hleader]
  · simp only [answerOf, hverify, if_neg hleader]

/-- How far a client has come whose pings are answered: it was told of the leader, or the leader has
answered it. -/
inductive Settling (leader : Fin n) (rci : Instance n) : Nat → Prop
  | lost : Settling leader rci 0
  | named (csnLeader : rci.csnLeader = some leader) (redirect : rci.leaderRedirect = true)
      (aliveCnt : rci.leaderAliveCnt = 0) : Settling leader rci 1
  | acked (k : Nat) (csnLeader : rci.csnLeader = some leader)
      (leaderCsn : rci.leaderCsn = some leader) (aliveCnt : k ≤ rci.leaderAliveCnt + 1)
      (sent : rci.lastSend leader ≠ 0)
      (recv : rci.lastSend leader ≤ rci.lastRecv leader) : Settling leader rci k

namespace Settling

variable {leader : Fin n} {k : Nat}

/-- The leader has answered everything, so it is not stale. -/
theorem notStale (hsent : rci.lastSend leader ≠ 0)
    (hrecv : rci.lastSend leader ≤ rci.lastRecv leader) (clock : Nat) :
    serverTargetIsStale conf rci leader clock = false :=
  serverTargetIsStale_eq_false_iff.mpr
    ⟨hsent, fun hunacked => absurd hunacked (Nat.not_lt.mpr hrecv)⟩

/-- A ping, and its answer. -/
theorem ping (hconf : Distinct conf) (h : Settling leader rci k) {tgt : Fin n} {r : Round}
    (hr : r.InTime) (hticks : Ticks conf rci rci' (some tgt) r.tickAt true) :
    Settling leader (answered conf leader rci' tgt r.answerAt) (k + 1) := by
  obtain ⟨hcsn, hsend⟩ := hticks.target tgt rfl
  -- once the leader is known, it is the one that is pinged
  have hknown : k ≠ 0 → tgt = leader := by
    intro hk
    have hheld : ∀ csn, HoldsOn conf rci csn r.tickAt → tgt = csn :=
      fun csn h => Option.some.inj (hcsn.symm.trans (hticks.held csn h))
    cases h with
    | lost => exact absurd rfl hk
    | named hleader hredirect _ => exact hheld leader ⟨hleader, .inr (.inl hredirect)⟩
    | acked _ hleader _ _ hsent hrecv =>
      exact hheld leader ⟨hleader, .inr (.inr (notStale hsent hrecv r.tickAt))⟩
  rw [answered_eq hconf leader r.answerAt hcsn]
  split
  · next hleader =>
    subst hleader
    obtain ⟨hleader, hcnt⟩ := processPingReply_zero (noteRecv rci' tgt r.answerAt) tgt
    obtain ⟨htarget, -, hsend', hrecv'⟩ :=
      processPingReply_target (noteRecv rci' tgt r.answerAt) 0 tgt
    have hsent : (processPingReply (noteRecv rci' tgt r.answerAt) 0 tgt).lastSend tgt =
        r.tickAt := by
      rw [hsend']
      show rci'.lastSend tgt = r.tickAt
      rw [hsend, Function.update_self]
    have hrecv : (processPingReply (noteRecv rci' tgt r.answerAt) 0 tgt).lastRecv tgt =
        r.answerAt := by
      rw [hrecv']
      exact Function.update_self ..
    refine .acked _ (htarget.trans hcsn) hleader ?_ ?_ ?_
    · rw [hcnt]
      cases h with
      | lost => omega
      | named _ _ _ => omega
      | acked _ _ hcounted halive _ _ =>
        have hold : countedFor (noteRecv rci' tgt r.answerAt) tgt = rci.leaderAliveCnt := by
          unfold countedFor
          rw [if_pos (show (noteRecv rci' tgt r.answerAt).leaderCsn = some tgt from
            hticks.leaderCsn.trans hcounted)]
          exact hticks.aliveCnt
        omega
    · rw [hsent]
      exact Nat.ne_of_gt hr.1
    · rw [hsent, hrecv]
      exact hr.2
  · next hother =>
    obtain rfl : k = 0 := by
      by_contra hk
      exact hother (hknown hk)
    have hnamed : (if (conf.peers leader).uuid = Uuid.null then none
        else peer2Idx conf (conf.peers leader).uuid) = some leader := by
      rw [if_neg (hconf.notNull leader), hconf.peer2Idx_eq]
    obtain ⟨hleader, -, hcnt, hflag⟩ :=
      updateLeaderFromRedirect_some (noteRecv rci' tgt r.answerAt) r.answerAt hnamed
    exact .named hleader hflag hcnt

theorem rounds (hconf : Distinct conf) {rs : List Round} (hrs : ∀ r ∈ rs, r.InTime)
    (h : Settling leader rci k) : ∃ rci' pings, rounds conf leader rci rs = some (rci', pings) ∧
      Settling leader rci' (k + pings) := by
  induction rs generalizing rci k with
  | nil => exact ⟨rci, 0, rfl, h⟩
  | cons r rs ih =>
    have hlater : ∀ r ∈ rs, r.InTime := fun r hr => hrs r (List.mem_cons_of_mem _ hr)
    obtain ⟨rci', pinged, htick, hticks⟩ := timerfdCb_eq conf rci r.tickAt r.random true
    simp only [LeaderTracking.rounds, htick, Option.bind_eq_bind, Option.bind_some]
    cases pinged with
    | none =>
      obtain ⟨-, rfl⟩ := hticks.idle rfl rfl
      exact ih hlater h
    | some tgt =>
      have hping := h.ping hconf (hrs r List.mem_cons_self) hticks
      obtain ⟨rci'', pings, hrounds, hlast⟩ := ih hlater hping
      refine ⟨rci'', pings + 1, ?_, ?_⟩
      · simp only [hrounds, Option.bind_some]
      · rw [Nat.add_right_comm, Nat.add_assoc] at hlast
        exact hlast

end Settling

end LeaderTracking

end NiovaRaft
