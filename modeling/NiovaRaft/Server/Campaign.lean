import NiovaRaft.Base.Poll
import NiovaRaft.Safety.LogMatching
import NiovaRaft.Spec.Campaign

/-!
# A server that reaches a majority is elected

A server stands, and all that it and a majority of the servers send each other arrives, in any order
and none of it twice.  Nothing else happens to them, whatever the other servers do.  Then the server
leads the next term, with all of its log.

Both rounds are polls among the voters.  A voter says yes in the first one, and in the second one to
the only request that it gets.  None of them may be ahead of the server when it stands, in its term
or its log, or follow a leader of the term that the server is in.
-/

namespace NiovaRaft

open Base Base.Handler RaftServer

variable {n : Nat}

/-- The term that a server stands for. -/
def Cluster.nextTerm (c : Cluster n) (p : Fin n) : Int := (c.servers p).logHdr.term + 1

/-- A server and voters that can elect it. -/
structure Electable (p : Fin n) (voters : Finset (Fin n)) (c : Cluster n) : Prop where
  cons : Consistent (c.servers p)
  self : (c.servers p).self = p
  serves : Cluster.serves (c.servers p) = true
  state : (c.servers p).state ≠ .none ∧ (c.servers p).state ≠ .client
  newest : (c.servers p).newestUnsync.term ≤ (c.servers p).logHdr.term
  several : 1 < n
  other : p ∉ voters
  majority : Majority (insert p voters)
  able : ∀ q ∈ voters, Consistent (c.servers q) ∧ Cluster.serves (c.servers q) = true
  votes : ∀ q ∈ voters, Votes (c.nextTerm p) (c.servers p).newestSync (c.servers q)

/-- A message between the candidate and a voter. -/
def OfCampaign (p : Fin n) (voters : Finset (Fin n)) (pkt : Packet n) : Prop :=
  pkt.src = p ∧ pkt.dst ∈ voters ∨ pkt.src ∈ voters ∧ pkt.dst = p

instance (p : Fin n) (voters : Finset (Fin n)) (pkt : Packet n) :
    Decidable (OfCampaign p voters pkt) :=
  inferInstanceAs (Decidable (_ ∨ _))

/-- A campaign: the timer of `p` expires, and messages between `p` and its voters arrive, those at
the places in the list so far. -/
inductive Campaign [Externals] (p : Fin n) (voters : Finset (Fin n)) (c₀ : Cluster n) :
    Cluster n → List Nat → Prop
  | stands (heartbeatDue : Bool) (clock : SendClock n) :
      Campaign p voters c₀ (c₀.step ⟨p, .timer false heartbeatDue clock, none, 0⟩) []
  | others {c : Cluster n} {arrived : List Nat} (e : Event n) (hp : e.server ≠ p)
      (hq : e.server ∉ voters) (h : Campaign p voters c₀ c arrived) :
      Campaign p voters c₀ (c.step e) arrived
  | arrives {c : Cluster n} {arrived : List Nat} {i : Nat} {pkt : Packet n}
      (h : Campaign p voters c₀ c arrived) (hi : c₀.net.length ≤ i) (hnew : i ∉ arrived)
      (hnet : c.net[i]? = some pkt) (hpkt : OfCampaign p voters pkt) :
      Campaign p voters c₀ (c.step ⟨pkt.dst, .deliver i, none, 0⟩) (i :: arrived)

variable {p : Fin n} {voters : Finset (Fin n)} {prevote : Bool} {c₀ c : Cluster n}
  {arrived : List Nat}

/-! ## The messages of a campaign -/

/-- A request of a round, for `q`. -/
def Asks (p : Fin n) (prevote : Bool) (c₀ : Cluster n) (q : Fin n) (pkt : Packet n) : Prop :=
  pkt.src = p ∧ pkt.dst = q ∧ ∃ vreq, Proposes (c₀.nextTerm p) (c₀.servers p).newestSync vreq ∧
    pkt.msg = requestOf prevote vreq

/-- A yes of `q` in a round. -/
def SaysYes (p : Fin n) (prevote : Bool) (q : Fin n) (pkt : Packet n) : Prop :=
  pkt.src = q ∧ pkt.dst = p ∧ ∃ vreply, vreply.votedGranted = true ∧
    pkt.msg = replyOf prevote vreply

theorem requestOf_inj {b b' : Bool} {vreq vreq' : VoteRequestMsg}
    (h : (requestOf b vreq : RpcMsg n) = requestOf b' vreq') : b = b' ∧ vreq = vreq' := by
  cases b <;> cases b' <;> simp [requestOf] at h <;> simp [h]

theorem replyOf_inj {b b' : Bool} {vreply vreply' : VoteReplyMsg n}
    (h : replyOf b vreply = replyOf b' vreply') : b = b' ∧ vreply = vreply' := by
  cases b <;> cases b' <;> simp [replyOf] at h <;> simp [h]

theorem Asks.round {b b' : Bool} {q q' : Fin n} {pkt : Packet n} (h : Asks p b c₀ q pkt)
    (h' : Asks p b' c₀ q' pkt) : b = b' := by
  obtain ⟨-, -, vreq, -, hmsg⟩ := h
  obtain ⟨-, -, vreq', -, hmsg'⟩ := h'
  exact (requestOf_inj (hmsg.symm.trans hmsg')).1

/-- The request for a vote of `q` has arrived. -/
def Voted (p : Fin n) (c₀ c : Cluster n) (arrived : List Nat) (q : Fin n) : Prop :=
  ∃ i ∈ arrived, ∃ pkt, c₀.net.length ≤ i ∧ c.net[i]? = some pkt ∧ Asks p false c₀ q pkt

/-- There is one request for the vote of `q` at most. -/
def AskedOnce (p : Fin n) (c₀ : Cluster n) (net : List (Packet n)) (q : Fin n) : Prop :=
  ∀ i j pkt pkt', c₀.net.length ≤ i → c₀.net.length ≤ j → net[i]? = some pkt →
    net[j]? = some pkt' → Asks p false c₀ q pkt → Asks p false c₀ q pkt' → i = j

/-- What the messages of a campaign are, and that the servers in it can go on. -/
structure Traffic (p : Fin n) (voters : Finset (Fin n)) (c₀ c : Cluster n) : Prop where
  begun : c₀.net.length ≤ c.net.length
  able : ∀ q ∈ voters, Consistent (c.servers q) ∧ Cluster.serves (c.servers q) = true
  serves : Cluster.serves (c.servers p) = true
  requests : ∀ pkt ∈ c.net.drop c₀.net.length, pkt.src = p → ∃ b, Asks p b c₀ pkt.dst pkt
  replies : ∀ pkt ∈ c.net.drop c₀.net.length, pkt.src ∈ voters → pkt.dst = p →
    ∃ b vreply, pkt.msg = replyOf b vreply

/-- A round of a campaign. -/
structure Polls (p : Fin n) (voters : Finset (Fin n)) (prevote : Bool) (c₀ c : Cluster n)
    (arrived : List Nat) : Prop where
  traffic : Traffic p voters c₀ c
  stands : Standing prevote (c₀.nextTerm p) (c.servers p)
  moved : Unmoved (c₀.servers p) (c.servers p)
  poll : Poll c₀.net.length (Asks p prevote c₀) (SaysYes p prevote)
    (fun q => (c.servers p).candidate.results q = voteResultOf prevote true) voters c.net arrived
  first : prevote = true → ∀ pkt ∈ c.net.drop c₀.net.length, (∀ q, ¬ Asks p false c₀ q pkt) ∧
    ∀ vreply, pkt.src ∈ voters → pkt.dst = p → pkt.msg ≠ replyOf false vreply
  granted : ∀ pkt ∈ c.net.drop c₀.net.length, pkt.src ∈ voters → pkt.dst = p →
    ∀ vreply, pkt.msg = replyOf prevote vreply → vreply.votedGranted = true
  once : ∀ q ∈ voters, AskedOnce p c₀ c.net q
  votes : ∀ q ∈ voters, ¬ Voted p c₀ c arrived q →
    Votes (c₀.nextTerm p) (c₀.servers p).newestSync (c.servers q)

/-- The campaign is won. -/
structure Won (p : Fin n) (voters : Finset (Fin n)) (c₀ c : Cluster n) : Prop where
  traffic : Traffic p voters c₀ c
  leads : TakesLead (c₀.nextTerm p) (c₀.servers p) (c.servers p)

/-- What a yes makes of the candidate. -/
inductive Heard (prevote : Bool) (t : Int) (voter : Fin n) (ri : RaftInstance n) (s : Proc n) :
    Prop
  | counted (hri : s.ri = ri.withVote voter (voteResultOf prevote true))
      (hstands : Standing prevote t s.ri) (hout : s.out = [])
  | asks (hpre : prevote = true) (hmoved : Unmoved ri s.ri) (hstands : Standing false t s.ri)
      (hout : s.out = broadcast ri
        (requestOf false ⟨t, ri.newestUnsync.term, ri.newestUnsync.index⟩))
  | leads (hpre : prevote = false) (hleads : TakesLead t ri s.ri) (hout : s.out = [])

/-! ## Messages are sent -/

theorem AskedOnce.append {net ms : List (Packet n)} {q : Fin n} (h : AskedOnce p c₀ net q)
    (hnone : ∀ pkt ∈ ms, ¬ Asks p false c₀ q pkt) : AskedOnce p c₀ (net ++ ms) q := by
  have hold : ∀ {i : Nat} {pkt : Packet n}, (net ++ ms)[i]? = some pkt → Asks p false c₀ q pkt →
      net[i]? = some pkt := by
    intro i pkt hpkt hasks
    rcases Nat.lt_or_ge i net.length with hlt | hge
    · rwa [List.getElem?_append_left hlt] at hpkt
    · rw [List.getElem?_append_right hge] at hpkt
      exact absurd hasks (hnone pkt (List.mem_of_getElem? hpkt))
  intro i j pkt pkt' hi hj hpkt hpkt' ha ha'
  exact h i j pkt pkt' hi hj (hold hpkt ha) (hold hpkt' ha') ha ha'

/-- One message for everybody asks nobody twice. -/
theorem AskedOnce.of_nodup {net ms : List (Packet n)} {q : Fin n}
    (hnone : ∀ pkt ∈ net.drop c₀.net.length, ¬ Asks p false c₀ q pkt)
    (hnodup : (ms.map Packet.dst).Nodup) : AskedOnce p c₀ (net ++ ms) q := by
  have hplace : ∀ {i : Nat} {pkt : Packet n}, c₀.net.length ≤ i → (net ++ ms)[i]? = some pkt →
      Asks p false c₀ q pkt → net.length ≤ i ∧ (ms.map Packet.dst)[i - net.length]? = some q := by
    intro i pkt hi hpkt ha
    rcases Nat.lt_or_ge i net.length with hlt | hge
    · rw [List.getElem?_append_left hlt] at hpkt
      exact absurd ha (hnone pkt (mem_drop_of_getElem? hi hpkt))
    · rw [List.getElem?_append_right hge] at hpkt
      rw [List.getElem?_map, hpkt, Option.map_some, ha.2.1]
      exact ⟨hge, rfl⟩
  intro i j pkt pkt' hi hj hpkt hpkt' ha ha'
  obtain ⟨hgei, hqi⟩ := hplace hi hpkt ha
  obtain ⟨hgej, hqj⟩ := hplace hj hpkt' ha'
  have heq := (List.getElem?_inj (List.getElem?_eq_some_iff.mp hqi).1 hnodup).mp
    (hqi.trans hqj.symm)
  omega

namespace Traffic

variable {c' : Cluster n} {ms : List (Packet n)}

theorem drop_append (h : Traffic p voters c₀ c) (hnet : c'.net = c.net ++ ms) :
    c'.net.drop c₀.net.length = c.net.drop c₀.net.length ++ ms := by
  rw [hnet, List.drop_append_of_le_length h.begun]

theorem sent (h : Traffic p voters c₀ c) (hnet : c'.net = c.net ++ ms)
    (hable : ∀ q ∈ voters, Consistent (c'.servers q) ∧ Cluster.serves (c'.servers q) = true)
    (hserves : Cluster.serves (c'.servers p) = true)
    (hrequests : ∀ pkt ∈ ms, pkt.src = p → ∃ b, Asks p b c₀ pkt.dst pkt)
    (hreplies : ∀ pkt ∈ ms, pkt.src ∈ voters → pkt.dst = p →
      ∃ b vreply, pkt.msg = replyOf b vreply) : Traffic p voters c₀ c' := by
  refine ⟨?_, hable, hserves, fun pkt hpkt => ?_, fun pkt hpkt => ?_⟩
  · rw [hnet, List.length_append]
    exact Nat.le_add_right_of_le h.begun
  · rw [h.drop_append hnet] at hpkt
    rcases List.mem_append.mp hpkt with hpkt | hpkt
    · exact h.requests pkt hpkt
    · exact hrequests pkt hpkt
  · rw [h.drop_append hnet] at hpkt
    rcases List.mem_append.mp hpkt with hpkt | hpkt
    · exact h.replies pkt hpkt
    · exact hreplies pkt hpkt

/-- The candidate sends nothing. -/
theorem listens (h : Traffic p voters c₀ c) (hother : p ∉ voters) (hnet : c'.net = c.net)
    (hothers : ∀ q, q ≠ p → c'.servers q = c.servers q)
    (hserves : Cluster.serves (c'.servers p) = true) : Traffic p voters c₀ c' := by
  have hsame : c'.net = c.net ++ [] := by rw [hnet, List.append_nil]
  refine h.sent hsame (fun q hq => ?_) hserves (fun pkt hpkt => ?_) fun pkt hpkt => ?_
  · rw [hothers q fun heq => hother (heq ▸ hq)]
    exact h.able q hq
  · cases hpkt
  · cases hpkt

/-- What the other servers do. -/
theorem others [Externals] (h : Traffic p voters c₀ c) {e : Event n} (hp : e.server ≠ p)
    (hq : e.server ∉ voters) : Traffic p voters c₀ (c.step e) := by
  obtain ⟨ms, hnet, hsrc⟩ := Cluster.net_step c e
  have hsame : ∀ q ∈ voters, (c.step e).servers q = c.servers q := fun q hqv =>
    Cluster.step_servers_of_ne fun heq => hq (heq ▸ hqv)
  refine h.sent hnet (fun q hqv => ?_) ?_ (fun pkt hpkt hsrc' => ?_) fun pkt hpkt hsrc' => ?_
  · rw [hsame q hqv]
    exact h.able q hqv
  · rw [Cluster.step_servers_of_ne (Ne.symm hp)]
    exact h.serves
  · exact absurd ((hsrc pkt hpkt).symm.trans hsrc') hp
  · exact absurd (hsrc pkt hpkt ▸ hsrc') hq

end Traffic

/-! ## A request arrives -/

section Arrivals

variable [Externals] {i : Nat} {pkt : Packet n}

/-- A voter answers a request. -/
structure Replied (p : Fin n) (voters : Finset (Fin n)) (c₀ c c' : Cluster n) (pkt : Packet n)
    (b : Bool) (vreply : VoteReplyMsg n) : Prop where
  traffic : Traffic p voters c₀ c'
  net : ∃ cause, c'.net = c.net ++ [⟨pkt.dst, p, replyOf b vreply, cause⟩]
  grants : Votes (c₀.nextTerm p) (c₀.servers p).newestSync (c.servers pkt.dst) →
    vreply.votedGranted = true
  keeps : b = true → Votes (c₀.nextTerm p) (c₀.servers p).newestSync (c.servers pkt.dst) →
    Votes (c₀.nextTerm p) (c₀.servers p).newestSync (c'.servers pkt.dst)

theorem processReceivedServerMsg_requestOf (b : Bool) (sender : Fin n) (vreq : VoteRequestMsg) :
    processReceivedServerMsg sender (requestOf b vreq) =
      processVoteRequestCommon sender b vreq := by
  cases b <;> rfl

theorem processReceivedServerMsg_replyOf (b : Bool) (sender : Fin n) (vreply : VoteReplyMsg n) :
    processReceivedServerMsg sender (replyOf b vreply) =
      processVoteReplyCommon sender b vreply := by
  cases b <;> rfl

namespace Traffic

/-- A request arrives. -/
theorem step_request (h : Traffic p voters c₀ c) (hother : p ∉ voters)
    (hi : c₀.net.length ≤ i) (hnet : c.net[i]? = some pkt) (hsrc : pkt.src = p)
    (hdst : pkt.dst ∈ voters) :
    ∃ b vreply, Asks p b c₀ pkt.dst pkt ∧
      Replied p voters c₀ c (c.step ⟨pkt.dst, .deliver i, none, 0⟩) pkt b vreply := by
  obtain ⟨b, hasks⟩ := h.requests pkt (mem_drop_of_getElem? hi hnet) hsrc
  obtain ⟨hcons, hserves⟩ := h.able pkt.dst hdst
  obtain ⟨-, -, vreq, hproposes, hmsg⟩ := hasks
  have hne : pkt.dst ≠ p := fun heq => hother (heq ▸ hdst)
  have hdel := Cluster.delivered_of_getElem? hnet rfl
  have hwp : (c.handler ⟨pkt.dst, .deliver i, none, 0⟩).wp (fun _ s => ∃ vreply,
      s.out = [(p, replyOf b vreply)] ∧ Consistent s.ri ∧ Cluster.serves s.ri = true ∧
      (Votes (c₀.nextTerm p) (c₀.servers p).newestSync (c.servers pkt.dst) →
        vreply.votedGranted = true) ∧
      (b = true → Votes (c₀.nextTerm p) (c₀.servers p).newestSync (c.servers pkt.dst) →
        Votes (c₀.nextTerm p) (c₀.servers p).newestSync s.ri))
      (fun _ => False) (c.proc ⟨pkt.dst, .deliver i, none, 0⟩) := by
    rw [Cluster.handler_of_delivered hdel, hmsg, processReceivedServerMsg_requestOf, hsrc]
    refine wp_processVoteRequestCommon_answers (s := c.proc _) hcons rfl
      fun ri' vreply hc' hproc hbulk hgrants hkeeps => ⟨vreply, rfl, hc', ?_,
        fun hvotes => hgrants _ _ hvotes hproposes, fun hb hvotes => hkeeps hb _ _ hvotes⟩
    rw [Cluster.serves, hproc, hbulk]
    exact hserves
  obtain ⟨s, ⟨vreply, hout, hc', hserves', hgrants, hkeeps⟩, hself, hsent⟩ :=
    Cluster.exists_step_of_wp hserves hwp
  have hothers : ∀ q, q ≠ pkt.dst →
      (c.step ⟨pkt.dst, .deliver i, none, 0⟩).servers q = c.servers q := fun q hq =>
    Cluster.step_servers_of_ne hq
  have hnet' : (c.step ⟨pkt.dst, .deliver i, none, 0⟩).net = c.net ++ [⟨pkt.dst, p,
      replyOf b vreply, (c.delivered ⟨pkt.dst, .deliver i, none, 0⟩).map (·.msg)⟩] := by
    rw [hsent, hout]
    rfl
  refine ⟨b, vreply, ⟨hsrc, rfl, vreq, hproposes, hmsg⟩, ?_, ⟨_, hnet'⟩, hgrants, ?_⟩
  · refine h.sent hnet' (fun q hqv => ?_) ?_ (fun pkt' hpkt' hsrc' => ?_)
      fun pkt' hpkt' _ _ => ?_
    · by_cases hq : q = pkt.dst
      · rw [hq, hself]
        exact ⟨hc', hserves'⟩
      · rw [hothers q hq]
        exact h.able q hqv
    · rw [hothers p (Ne.symm hne)]
      exact h.serves
    · rw [List.mem_singleton.mp hpkt'] at hsrc'
      exact absurd hsrc' hne
    · rw [List.mem_singleton.mp hpkt']
      exact ⟨b, vreply, rfl⟩
  · rw [hself]
    exact hkeeps

end Traffic

/-! ## A round goes on -/

omit [Externals] in
theorem Voted.mono {c' : Cluster n} {arrived' : List Nat} {ms : List (Packet n)} {q : Fin n}
    (h : Voted p c₀ c arrived q) (hnet : c'.net = c.net ++ ms)
    (hsub : ∀ i ∈ arrived, i ∈ arrived') : Voted p c₀ c' arrived' q := by
  obtain ⟨i, hi, pkt, hk, hpkt, ha⟩ := h
  refine ⟨i, hsub i hi, pkt, hk, ?_, ha⟩
  rw [hnet, List.getElem?_append_left (List.getElem?_eq_some_iff.mp hpkt).1, hpkt]

namespace Polls

variable {c' : Cluster n} {arrived' : List Nat} {ms : List (Packet n)}

omit [Externals] in
/-- In the first round nobody was asked for a vote. -/
theorem not_voted (h : Polls p voters true c₀ c arrived) {q : Fin n} :
    ¬ Voted p c₀ c arrived q := by
  rintro ⟨i, -, pkt, hk, hpkt, ha⟩
  exact (h.first rfl pkt (mem_drop_of_getElem? hk hpkt)).1 q ha

omit [Externals] in
/-- The others send messages, and the candidate does not move. -/
theorem append (h : Polls p voters prevote c₀ c arrived) (ht : Traffic p voters c₀ c')
    (hp : c'.servers p = c.servers p) (hnet : c'.net = c.net ++ ms)
    (hpoll : Poll c₀.net.length (Asks p prevote c₀) (SaysYes p prevote)
      (fun q => (c.servers p).candidate.results q = voteResultOf prevote true) voters
      (c.net ++ ms) arrived')
    (hsrc : ∀ pkt ∈ ms, pkt.src ≠ p)
    (hreplies : ∀ pkt ∈ ms, pkt.src ∈ voters → pkt.dst = p → ∀ b vreply,
      pkt.msg = replyOf b vreply →
      (b = prevote → vreply.votedGranted = true) ∧ (prevote = true → b = true))
    (hvotes : ∀ q ∈ voters, ¬ Voted p c₀ c' arrived' q →
      Votes (c₀.nextTerm p) (c₀.servers p).newestSync (c'.servers q)) :
    Polls p voters prevote c₀ c' arrived' := by
  have hdrop := h.traffic.drop_append hnet
  refine ⟨ht, ?_, ?_, ?_, fun hpre pkt hpkt => ?_, fun pkt hpkt hv hd vreply hmsg => ?_,
    fun q hq => ?_, hvotes⟩
  · rw [hp]
    exact h.stands
  · rw [hp]
    exact h.moved
  · rw [hp, hnet]
    exact hpoll
  · rw [hdrop] at hpkt
    rcases List.mem_append.mp hpkt with hpkt | hpkt
    · exact h.first hpre pkt hpkt
    · refine ⟨fun q ha => hsrc pkt hpkt ha.1, fun vreply hv hd hmsg => ?_⟩
      cases (hreplies pkt hpkt hv hd false vreply hmsg).2 hpre
  · rw [hdrop] at hpkt
    rcases List.mem_append.mp hpkt with hpkt | hpkt
    · exact h.granted pkt hpkt hv hd vreply hmsg
    · exact (hreplies pkt hpkt hv hd prevote vreply hmsg).1 rfl
  · rw [hnet]
    exact (h.once q hq).append fun pkt hpkt ha => hsrc pkt hpkt ha.1

/-- What the other servers do. -/
theorem others (h : Polls p voters prevote c₀ c arrived) {e : Event n} (hp : e.server ≠ p)
    (hq : e.server ∉ voters) : Polls p voters prevote c₀ (c.step e) arrived := by
  obtain ⟨ms, hnet, hsrc⟩ := Cluster.net_step c e
  refine h.append (h.traffic.others hp hq) (Cluster.step_servers_of_ne (Ne.symm hp)) hnet
    (h.poll.append ms) (fun pkt hpkt hsrc' => hp ((hsrc pkt hpkt).symm.trans hsrc'))
    (fun pkt hpkt hv _ _ _ _ => absurd (hsrc pkt hpkt ▸ hv) hq) fun q hqv hnot => ?_
  rw [Cluster.step_servers_of_ne fun heq => hq (heq ▸ hqv)]
  exact h.votes q hqv fun hvoted => hnot (hvoted.mono hnet fun _ hi => hi)

/-- A voter gets a request. -/
theorem request_arrives (h : Polls p voters prevote c₀ c arrived) (hother : p ∉ voters)
    (hi : c₀.net.length ≤ i) (hnew : i ∉ arrived) (hnet : c.net[i]? = some pkt)
    (hsrc : pkt.src = p) (hdst : pkt.dst ∈ voters) :
    Polls p voters prevote c₀ (c.step ⟨pkt.dst, .deliver i, none, 0⟩) (i :: arrived) := by
  obtain ⟨b, vreply, hasks, hreplied⟩ := h.traffic.step_request hother hi hnet hsrc hdst
  obtain ⟨cause, hnet'⟩ := hreplied.net
  have hne : pkt.dst ≠ p := fun heq => hother (heq ▸ hdst)
  have hfirst : prevote = true → b = true := by
    rintro rfl
    by_contra hb
    rw [eq_false_of_ne_true hb] at hasks
    exact (h.first rfl pkt (mem_drop_of_getElem? hi hnet)).1 _ hasks
  -- a voter that is asked for its vote has not been asked before
  have hvotes : b = prevote →
      Votes (c₀.nextTerm p) (c₀.servers p).newestSync (c.servers pkt.dst) := by
    rintro rfl
    refine h.votes pkt.dst hdst fun hvoted => ?_
    cases b with
    | true => exact h.not_voted hvoted
    | false =>
      obtain ⟨j, hj, pkt', hkj, hpkt', ha'⟩ := hvoted
      have heq := h.once pkt.dst hdst i j pkt pkt' hi hkj hnet hpkt' hasks ha'
      exact hnew (heq ▸ hj)
  have hpoll : Poll c₀.net.length (Asks p prevote c₀) (SaysYes p prevote)
      (fun q => (c.servers p).candidate.results q = voteResultOf prevote true) voters
      (c.net ++ [⟨pkt.dst, p, replyOf b vreply, cause⟩]) (i :: arrived) := by
    refine h.poll.arrive hnet (fun _ _ hyes => hyes) (fun q hq ha => ?_) fun q hq ha => ?_
    · have hb := hasks.round ha
      refine ⟨_, List.mem_singleton_self _, ha.2.1, rfl, vreply, hreplied.grants (hvotes hb), ?_⟩
      rw [hb]
    · exact absurd (hsrc.symm.trans ha.1 ▸ hq) hother
  refine h.append hreplied.traffic (Cluster.step_servers_of_ne (Ne.symm hne)) hnet' hpoll
    (fun pkt' hpkt' hsrc' => ?_) (fun pkt' hpkt' _ _ b' vreply' hmsg => ?_) fun q hqv hnot => ?_
  · rw [List.mem_singleton.mp hpkt'] at hsrc'
    exact hne hsrc'
  · rw [List.mem_singleton.mp hpkt'] at hmsg
    obtain ⟨rfl, rfl⟩ := replyOf_inj hmsg
    exact ⟨fun hb => hreplied.grants (hvotes hb), hfirst⟩
  · have hold : Votes (c₀.nextTerm p) (c₀.servers p).newestSync (c.servers q) :=
      h.votes q hqv fun hvoted => hnot (hvoted.mono hnet' fun _ hj => List.mem_cons_of_mem _ hj)
    by_cases hq : q = pkt.dst
    · subst hq
      refine hreplied.keeps ?_ hold
      by_contra hb
      rw [eq_false_of_ne_true hb] at hasks
      exact hnot ⟨i, List.mem_cons_self, pkt, hi, Cluster.getElem?_net_step hnet _, hasks⟩
    · rw [Cluster.step_servers_of_ne hq]
      exact hold

omit [Externals] in
/-- A round begins: the candidate asks everybody. -/
theorem begins (he : Electable p voters c₀) {b : Bool} {vreq : VoteRequestMsg}
    {cause : Option (RpcMsg n)} (ht : Traffic p voters c₀ c)
    (hfirst : ∀ pkt ∈ c.net.drop c₀.net.length, (∀ q, ¬ Asks p false c₀ q pkt) ∧
      ∀ vreply, pkt.src ∈ voters → pkt.dst = p → pkt.msg ≠ replyOf false vreply)
    (hnothing : b = true → c.net.drop c₀.net.length = [])
    (hsent : ∀ j ∈ arrived', j < c.net.length)
    (hproposes : Proposes (c₀.nextTerm p) (c₀.servers p).newestSync vreq)
    (hself : (c.servers p).self = p)
    (hnet : c'.net = c.net ++ (broadcast (c.servers p) (requestOf b vreq)).map fun m =>
      ⟨p, m.1, m.2, cause⟩)
    (hothers : ∀ q, q ≠ p → c'.servers q = c.servers q)
    (hstands : Standing b (c₀.nextTerm p) (c'.servers p))
    (hmoved : Unmoved (c₀.servers p) (c'.servers p))
    (hvotes : ∀ q ∈ voters, Votes (c₀.nextTerm p) (c₀.servers p).newestSync (c.servers q)) :
    Polls p voters b c₀ c' arrived' := by
  set ms : List (Packet n) := (broadcast (c.servers p) (requestOf b vreq)).map fun m =>
    ⟨p, m.1, m.2, cause⟩ with hms
  have hasks : ∀ pkt ∈ ms, Asks p b c₀ pkt.dst pkt := by
    intro pkt hpkt
    obtain ⟨m, hm, rfl⟩ := List.mem_map.mp hpkt
    exact ⟨rfl, rfl, vreq, hproposes, (mem_broadcast.mp hm).2⟩
  have hno : ∀ pkt ∈ ms, pkt.src ∉ voters := fun pkt hpkt hv =>
    he.other ((hasks pkt hpkt).1 ▸ hv)
  have hvoter : ∀ q ∈ voters, c'.servers q = c.servers q := fun q hq =>
    hothers q fun heq => he.other (heq ▸ hq)
  have hdrop := ht.drop_append hnet
  have hserves : Cluster.serves (c'.servers p) = true := by
    rw [Cluster.serves, hmoved.procState, hmoved.bulk]
    exact he.serves
  refine ⟨?_, hstands, hmoved, ?_, fun hb pkt hpkt => ?_, fun pkt hpkt hv hd vreply hmsg => ?_,
    fun q hq => ?_, fun q hq _ => ?_⟩
  · refine ht.sent hnet (fun q hq => ?_) hserves (fun pkt hpkt _ => ⟨b, hasks pkt hpkt⟩)
      fun pkt hpkt hv => absurd hv (hno pkt hpkt)
    rw [hvoter q hq]
    exact ht.able q hq
  · rw [hnet]
    refine .begins ht.begun hsent (fun q hq j _ pkt hk hpkt => ?_) fun q hq => ?_
    · have hmem := mem_drop_of_getElem? hk hpkt
      cases b with
      | true =>
        rw [hnothing rfl] at hmem
        cases hmem
      | false =>
        refine ⟨(hfirst pkt hmem).1 q, ?_⟩
        rintro ⟨rfl, hd, vreply, -, hmsg⟩
        exact (hfirst pkt hmem).2 vreply hq hd hmsg
    · have hne : q ≠ (c.servers p).self := fun heq => he.other (hself ▸ heq ▸ hq)
      have hmem : (⟨p, q, requestOf b vreq, cause⟩ : Packet n) ∈ ms :=
        List.mem_map.mpr ⟨(q, requestOf b vreq), mem_broadcast.mpr ⟨hne, rfl⟩, rfl⟩
      exact ⟨_, hmem, hasks _ hmem⟩
  · subst hb
    rw [hdrop, hnothing rfl, List.nil_append] at hpkt
    exact ⟨fun q ha => (by cases (hasks pkt hpkt).round ha),
      fun _ hv => absurd hv (hno pkt hpkt)⟩
  · rw [hdrop] at hpkt
    rcases List.mem_append.mp hpkt with hold | hnew
    · cases b with
      | true =>
        rw [hnothing rfl] at hold
        cases hold
      | false => exact absurd hmsg ((hfirst pkt hold).2 vreply hv hd)
    · exact absurd hv (hno pkt hnew)
  · rw [hnet]
    refine .of_nodup (fun pkt hpkt => (hfirst pkt hpkt).1 q) ?_
    have hnodup := broadcast_nodup (c.servers p) (requestOf b vreq)
    rw [hms, List.map_map]
    exact hnodup
  · rw [hvoter q hq]
    exact hvotes q hq

omit [Externals] in
/-- The candidate gets a message, and sends nothing. -/
theorem listens (h : Polls p voters prevote c₀ c arrived) (he : Electable p voters c₀)
    (hnet : c'.net = c.net) (hothers : ∀ q, q ≠ p → c'.servers q = c.servers q)
    (hstands : Standing prevote (c₀.nextTerm p) (c'.servers p))
    (hmoved : Unmoved (c₀.servers p) (c'.servers p))
    (hpoll : Poll c₀.net.length (Asks p prevote c₀) (SaysYes p prevote)
      (fun q => (c'.servers p).candidate.results q = voteResultOf prevote true) voters
      (c.net ++ []) (i :: arrived)) :
    Polls p voters prevote c₀ c' (i :: arrived) := by
  have hsame : c'.net = c.net ++ [] := by rw [hnet, List.append_nil]
  have hserves : Cluster.serves (c'.servers p) = true := by
    rw [Cluster.serves, hmoved.procState, hmoved.bulk]
    exact he.serves
  refine ⟨h.traffic.listens he.other hnet hothers hserves, hstands, hmoved, ?_, ?_, ?_, ?_,
    fun q hq hnot => ?_⟩
  · rw [hsame]
    exact hpoll
  · rw [hnet]
    exact h.first
  · rw [hnet]
    exact h.granted
  · rw [hnet]
    exact h.once
  · rw [hothers q fun heq => he.other (heq ▸ hq)]
    exact h.votes q hq fun hvoted => hnot (hvoted.mono hsame fun _ hj => List.mem_cons_of_mem _ hj)

/-- The candidate gets a reply of the first round in the second one. -/
theorem late_arrives (h : Polls p voters false c₀ c arrived) (he : Electable p voters c₀)
    {vreply : VoteReplyMsg n} (hnet : c.net[i]? = some pkt) (hsrc : pkt.src ∈ voters)
    (hdst : pkt.dst = p) (hmsg : pkt.msg = replyOf true vreply) :
    Polls p voters false c₀ (c.step ⟨p, .deliver i, none, 0⟩) (i :: arrived) := by
  have hdel := Cluster.delivered_of_getElem? hnet hdst
  have hwp : (c.handler ⟨p, .deliver i, none, 0⟩).wp
      (fun _ s => s = c.proc ⟨p, .deliver i, none, 0⟩) (fun _ => False)
      (c.proc ⟨p, .deliver i, none, 0⟩) := by
    rw [Cluster.handler_of_delivered hdel, hmsg, processReceivedServerMsg_replyOf]
    exact wp_processVoteReplyCommon_late (.inr ⟨rfl, h.stands.state⟩) rfl
  obtain ⟨s, hs, hp, hsent⟩ := Cluster.exists_step_of_wp h.traffic.serves hwp
  have hsame : (c.step ⟨p, .deliver i, none, 0⟩).servers p = c.servers p := by
    rw [hp, hs]
    rfl
  refine h.listens he ?_ (fun q hq => Cluster.step_servers_of_ne hq) ?_ ?_ ?_
  · rw [hsent, hs]
    exact List.append_nil _
  · rw [hsame]
    exact h.stands
  · rw [hsame]
    exact h.moved
  · rw [hsame]
    refine h.poll.arrive hnet (fun _ _ hyes => hyes) (fun q _ ha => ?_) fun q _ ha => ?_
    · exact absurd (ha.1 ▸ hsrc) he.other
    · obtain ⟨-, -, vreply', -, hmsg'⟩ := ha
      cases (replyOf_inj (hmsg.symm.trans hmsg')).1

/-- The candidate gets a yes of its round. -/
theorem yes_arrives (h : Polls p voters prevote c₀ c arrived) (he : Electable p voters c₀)
    {vreply : VoteReplyMsg n} (hnet : c.net[i]? = some pkt) (hsrc : pkt.src ∈ voters)
    (hdst : pkt.dst = p) (hmsg : pkt.msg = replyOf prevote vreply)
    (hyes : vreply.votedGranted = true) :
    (∃ b, Polls p voters b c₀ (c.step ⟨p, .deliver i, none, 0⟩) (i :: arrived)) ∨
      Won p voters c₀ (c.step ⟨p, .deliver i, none, 0⟩) := by
  have hdel := Cluster.delivered_of_getElem? hnet hdst
  have hself : (c.servers p).self = p := h.moved.self.trans he.self
  have hne : pkt.src ≠ (c.servers p).self := fun heq => he.other (hself ▸ heq ▸ hsrc)
  have hwp : (c.handler ⟨p, .deliver i, none, 0⟩).wp
      (fun _ s => Heard prevote (c₀.nextTerm p) pkt.src (c.servers p) s) (fun _ => False)
      (c.proc ⟨p, .deliver i, none, 0⟩) := by
    rw [Cluster.handler_of_delivered hdel, hmsg, processReceivedServerMsg_replyOf]
    refine wp_processVoteReplyCommon_yes h.stands he.several rfl hyes hne ?_ ?_ ?_
    · rintro ri' rfl hstands
      exact .counted rfl hstands rfl
    · rintro hpre ri' hmoved hstands
      exact .asks hpre hmoved hstands rfl
    · rintro hpre s' hleads hout
      exact .leads hpre hleads hout
  obtain ⟨s, hs, hp, hsent⟩ := Cluster.exists_step_of_wp h.traffic.serves hwp
  have hothers : ∀ q, q ≠ p → (c.step ⟨p, .deliver i, none, 0⟩).servers q = c.servers q :=
    fun q hq => Cluster.step_servers_of_ne hq
  cases hs with
  | counted hri hstands hout =>
    refine .inl ⟨prevote, h.listens he ?_ hothers (hp ▸ hstands) ?_ ?_⟩
    · rw [hsent, hout]
      exact List.append_nil _
    · rw [hp, hri]
      exact h.moved.trans ⟨rfl, rfl, rfl, rfl, rfl⟩
    · rw [hp, hri]
      refine h.poll.arrive hnet (fun q _ hq => ?_) (fun q _ ha => ?_) fun q _ ha => ?_
      · by_cases heq : q = pkt.src
        · rw [heq]
          exact Function.update_self _ _ _
        · exact (Function.update_of_ne heq _ _).trans hq
      · exact absurd (ha.1 ▸ hsrc) he.other
      · rw [← ha.1]
        exact Function.update_self _ _ _
  | asks hpre hmoved hstands hout =>
    subst hpre
    have hproposes : Proposes (c₀.nextTerm p) (c₀.servers p).newestSync ⟨c₀.nextTerm p,
        (c.servers p).newestUnsync.term, (c.servers p).newestUnsync.index⟩ := by
      rw [h.moved.unsync]
      exact ⟨rfl, he.cons.sync_term_le, he.cons.sync_index_le⟩
    rw [hout] at hsent
    refine .inl ⟨false, .begins he h.traffic (h.first rfl) (fun hb => (by cases hb))
      (fun j hj => ?_) hproposes hself hsent hothers (hp ▸ hstands) (hp ▸ h.moved.trans hmoved)
      fun q hq => h.votes q hq h.not_voted⟩
    rcases List.mem_cons.mp hj with rfl | hj
    · exact (List.getElem?_eq_some_iff.mp hnet).1
    · exact h.poll.sent j hj
  | leads hpre hleads hout =>
    refine .inr ⟨h.traffic.listens he.other ?_ hothers ?_, ?_⟩
    · rw [hsent, hout]
      exact List.append_nil _
    · rw [hp, Cluster.serves, hleads.procState, hleads.bulk]
      exact h.traffic.serves
    · rw [hp]
      exact hleads.of_unmoved h.moved

/-- The candidate gets a reply. -/
theorem reply_arrives (h : Polls p voters prevote c₀ c arrived) (he : Electable p voters c₀)
    (hi : c₀.net.length ≤ i) (hnet : c.net[i]? = some pkt) (hsrc : pkt.src ∈ voters)
    (hdst : pkt.dst = p) :
    (∃ b, Polls p voters b c₀ (c.step ⟨p, .deliver i, none, 0⟩) (i :: arrived)) ∨
      Won p voters c₀ (c.step ⟨p, .deliver i, none, 0⟩) := by
  have hmem := mem_drop_of_getElem? hi hnet
  obtain ⟨b, vreply, hmsg⟩ := h.traffic.replies pkt hmem hsrc hdst
  cases prevote with
  | true =>
    cases b with
    | true => exact h.yes_arrives he hnet hsrc hdst hmsg (h.granted pkt hmem hsrc hdst vreply hmsg)
    | false => exact absurd hmsg ((h.first rfl pkt hmem).2 vreply hsrc hdst)
  | false =>
    cases b with
    | true => exact .inl ⟨false, h.late_arrives he hnet hsrc hdst hmsg⟩
    | false => exact h.yes_arrives he hnet hsrc hdst hmsg (h.granted pkt hmem hsrc hdst vreply hmsg)

/-- The campaign begins. -/
theorem starts (he : Electable p voters c₀) (heartbeatDue : Bool) (clock : SendClock n) :
    Polls p voters true c₀ (c₀.step ⟨p, .timer false heartbeatDue clock, none, 0⟩) [] := by
  set ri := c₀.servers p with hri
  have hempty : c₀.net.drop c₀.net.length = [] := List.drop_length
  have hwp : (c₀.handler ⟨p, .timer false heartbeatDue clock, none, 0⟩).wp
      (fun _ s => Unmoved ri s.ri ∧ Standing true (c₀.nextTerm p) s.ri ∧ s.out = broadcast ri
        (requestOf true ⟨c₀.nextTerm p, ri.newestSync.term, ri.newestSync.index⟩))
      (fun _ => False) (c₀.proc ⟨p, .timer false heartbeatDue clock, none, 0⟩) := by
    refine wp_timerfdCb_stands he.state ?_
    refine wp_becomeCandidate_polls he.cons he.several he.newest fun ri' hmoved hstands => ?_
    exact ⟨hmoved, hstands, rfl⟩
  obtain ⟨s, ⟨hmoved, hstands, hout⟩, hp, hsent⟩ := Cluster.exists_step_of_wp he.serves hwp
  rw [hout] at hsent
  have ht : Traffic p voters c₀ c₀ := by
    refine ⟨le_refl _, he.able, he.serves, fun pkt hpkt => ?_, fun pkt hpkt => ?_⟩
    · rw [hempty] at hpkt
      cases hpkt
    · rw [hempty] at hpkt
      cases hpkt
  refine .begins he ht (fun pkt hpkt => ?_) (fun _ => hempty) (fun j hj => (by cases hj))
    ⟨rfl, le_refl _, le_refl _⟩ he.self hsent (fun q hq => Cluster.step_servers_of_ne hq)
    (hp ▸ hstands) (hp ▸ hmoved) he.votes
  rw [hempty] at hpkt
  cases hpkt

omit [Externals] in
/-- A round in which all voters have said yes is over. -/
theorem not_unanimous (h : Polls p voters prevote c₀ c arrived) (he : Electable p voters c₀) :
    ∃ q ∈ voters, (c.servers p).candidate.results q ≠ voteResultOf prevote true := by
  by_contra hnone
  have hall : ∀ q ∈ voters, (c.servers p).candidate.results q = voteResultOf prevote true :=
    fun q hq => not_not.mp fun hno => hnone ⟨q, hq, hno⟩
  have hfew := h.stands.few
  have hmajority := he.majority
  have hsub : insert p voters ⊆ Finset.univ.filter fun q =>
      decide ((c.servers p).candidate.results q = voteResultOf prevote true) = true := by
    intro q hq
    rw [Finset.mem_filter, decide_eq_true_eq]
    refine ⟨Finset.mem_univ _, ?_⟩
    rcases Finset.mem_insert.mp hq with rfl | hq
    · have hown := h.stands.own
      rw [h.moved.self, he.self] at hown
      exact hown
    · exact hall q hq
  have hcard := Finset.card_le_card hsub
  rw [card_filter_eq_countP] at hcard
  rw [Majority, Fintype.card_fin] at hmajority
  rw [candidateCountVotes] at hfew
  omega

end Polls

/-! ## The campaign is over -/

namespace Won

theorem others (h : Won p voters c₀ c) {e : Event n} (hp : e.server ≠ p)
    (hq : e.server ∉ voters) : Won p voters c₀ (c.step e) := by
  refine ⟨h.traffic.others hp hq, ?_⟩
  rw [Cluster.step_servers_of_ne (Ne.symm hp)]
  exact h.leads

theorem request_arrives (h : Won p voters c₀ c) (hother : p ∉ voters)
    (hi : c₀.net.length ≤ i) (hnet : c.net[i]? = some pkt) (hsrc : pkt.src = p)
    (hdst : pkt.dst ∈ voters) : Won p voters c₀ (c.step ⟨pkt.dst, .deliver i, none, 0⟩) := by
  obtain ⟨b, vreply, -, hreplied⟩ := h.traffic.step_request hother hi hnet hsrc hdst
  have hne : p ≠ pkt.dst := fun heq => hother (heq ▸ hdst)
  refine ⟨hreplied.traffic, ?_⟩
  rw [Cluster.step_servers_of_ne hne]
  exact h.leads

/-- Replies that come when the candidate leads. -/
theorem reply_arrives (h : Won p voters c₀ c) (hother : p ∉ voters) (hi : c₀.net.length ≤ i)
    (hnet : c.net[i]? = some pkt) (hsrc : pkt.src ∈ voters) (hdst : pkt.dst = p) :
    Won p voters c₀ (c.step ⟨p, .deliver i, none, 0⟩) := by
  obtain ⟨b, vreply, hmsg⟩ := h.traffic.replies pkt (mem_drop_of_getElem? hi hnet) hsrc hdst
  have hdel := Cluster.delivered_of_getElem? hnet hdst
  have hwp : (c.handler ⟨p, .deliver i, none, 0⟩).wp
      (fun _ s => s = c.proc ⟨p, .deliver i, none, 0⟩) (fun _ => False)
      (c.proc ⟨p, .deliver i, none, 0⟩) := by
    rw [Cluster.handler_of_delivered hdel, hmsg, processReceivedServerMsg_replyOf]
    exact wp_processVoteReplyCommon_late (.inl h.leads.state) rfl
  obtain ⟨s, hs, hp, hsent⟩ := Cluster.exists_step_of_wp h.traffic.serves hwp
  have hsame : (c.step ⟨p, .deliver i, none, 0⟩).servers p = c.servers p := by
    rw [hp, hs]
    rfl
  refine ⟨h.traffic.listens hother ?_ (fun q hq => Cluster.step_servers_of_ne hq) ?_, ?_⟩
  · rw [hsent, hs]
    exact List.append_nil _
  · rw [hsame]
    exact h.traffic.serves
  · rw [hsame]
    exact h.leads

end Won

end Arrivals

section Campaigns

variable [Externals]

theorem Campaign.deliver (h : Campaign p voters c₀ c arrived) (q : Fin n) {i : Nat}
    (hi : c₀.net.length ≤ i) (hnew : i ∉ arrived)
    (hnet : (c.net[i]?.any fun pkt => decide (pkt.dst = q ∧ OfCampaign p voters pkt)) = true) :
    Campaign p voters c₀ (c.step ⟨q, .deliver i, none, 0⟩) (i :: arrived) := by
  obtain ⟨pkt, hpkt, hof⟩ := (Option.any_eq_true _ _).mp hnet
  obtain ⟨rfl, hcampaign⟩ := of_decide_eq_true hof
  exact .arrives h hi hnew hpkt hcampaign

theorem Campaign.polls_or_won (he : Electable p voters c₀) (h : Campaign p voters c₀ c arrived) :
    (∃ prevote, Polls p voters prevote c₀ c arrived) ∨ Won p voters c₀ c := by
  induction h with
  | stands heartbeatDue clock => exact .inl ⟨true, .starts he heartbeatDue clock⟩
  | others e hp hq _ ih =>
    rcases ih with ⟨prevote, h⟩ | h
    · exact .inl ⟨prevote, h.others hp hq⟩
    · exact .inr (h.others hp hq)
  | arrives _ hi hnew hnet hpkt ih =>
    rcases hpkt with ⟨hsrc, hdst⟩ | ⟨hsrc, hdst⟩
    · rcases ih with ⟨prevote, h⟩ | h
      · exact .inl ⟨prevote, h.request_arrives he.other hi hnew hnet hsrc hdst⟩
      · exact .inr (h.request_arrives he.other hi hnet hsrc hdst)
    · rw [hdst]
      rcases ih with ⟨prevote, h⟩ | h
      · exact h.reply_arrives he hi hnet hsrc hdst
      · exact .inr (h.reply_arrives he.other hi hnet hsrc hdst)

/-- Once everything has arrived that the server and its voters sent each other, the server leads
the next term. -/
theorem candidate_wins (he : Electable p voters c₀) (h : Campaign p voters c₀ c arrived)
    (hall : ∀ i pkt, c₀.net.length ≤ i → c.net[i]? = some pkt → OfCampaign p voters pkt →
      i ∈ arrived) : TakesLead (c₀.nextTerm p) (c₀.servers p) (c.servers p) := by
  rcases h.polls_or_won he with ⟨prevote, hpolls⟩ | hwon
  · obtain ⟨q, hq, hno⟩ := hpolls.not_unanimous he
    refine absurd (hpolls.poll.unanimous (fun q hq i pkt hi hpkt hof => ?_) q hq) hno
    refine hall i pkt hi hpkt ?_
    rcases hof with ⟨hsrc, hdst, -⟩ | ⟨hsrc, hdst, -⟩
    · exact .inl ⟨hsrc, hdst ▸ hq⟩
    · exact .inr ⟨hsrc ▸ hq, hdst⟩
  · exact hwon.leads

/-- The leader dies, and server 2 gives up on it. -/
def leaderLost : List (Event 3) := servedRequest ++ [.crash 0, .expire 2]

/-- Server 1 stands, and all that it and server 2 send each other arrives. -/
def secondElection : List (Event 3) :=
  [.expire 1, .deliver 2 19, .deliver 1 20, .deliver 2 22, .deliver 1 23]

theorem run_secondElection (c : Cluster 3) :
    c.run secondElection = ((((c.step (.expire 1)).step (.deliver 2 19)).step
      (.deliver 1 20)).step (.deliver 2 22)).step (.deliver 1 23) := by
  simp only [Cluster.run, secondElection, List.foldl_cons, List.foldl_nil]

omit [Externals] in
theorem electable_leaderLost : Electable 1 {2} (afterRun leaderLost) := by
  have hreach := reach_afterRun leaderLost
  have hc := fun q => @Cluster.Reach.consistent 3 sampleExternals _ _ _ hreach q
  refine ⟨hc 1 (by decide +kernel), by decide +kernel, by decide +kernel, by decide +kernel,
    by decide +kernel, by decide +kernel, by decide +kernel, ?_, fun q hq => ?_, fun q hq => ?_⟩
  · show Fintype.card (Fin 3) < _
    decide +kernel
  · cases Finset.mem_singleton.mp hq
    exact ⟨hc 2 (by decide +kernel), by decide +kernel⟩
  · cases Finset.mem_singleton.mp hq
    exact ⟨by decide +kernel, by decide +kernel, by decide +kernel, by decide +kernel⟩

omit [Externals] in
theorem campaign_secondElection : @Campaign 3 sampleExternals 1 {2} (afterRun leaderLost)
    (afterRun (leaderLost ++ secondElection)) [23, 22, 20, 19] := by
  have h₀ := @Campaign.stands 3 sampleExternals 1 {2} (afterRun leaderLost) false Event.clock
  have h₁ := @Campaign.deliver 3 1 {2} _ _ _ sampleExternals h₀ 2 19 (by decide +kernel)
    (by decide +kernel) (by decide +kernel)
  have h₂ := @Campaign.deliver 3 1 {2} _ _ _ sampleExternals h₁ 1 20 (by decide +kernel)
    (by decide +kernel) (by decide +kernel)
  have h₃ := @Campaign.deliver 3 1 {2} _ _ _ sampleExternals h₂ 2 22 (by decide +kernel)
    (by decide +kernel) (by decide +kernel)
  have happend : afterRun (leaderLost ++ secondElection) =
      @Cluster.run 3 sampleExternals (afterRun leaderLost) secondElection := List.foldl_append
  rw [happend, @run_secondElection sampleExternals]
  exact @Campaign.deliver 3 1 {2} _ _ _ sampleExternals h₃ 1 23 (by decide +kernel)
    (by decide +kernel) (by decide +kernel)

omit [Externals] in
/-- Server 1 takes over from server 0. -/
theorem candidate_wins_leaderLost :
    TakesLead 2 ((afterRun leaderLost).servers 1)
      ((afterRun (leaderLost ++ secondElection)).servers 1) := by
  -- the places of the messages between servers 1 and 2
  have hall : ∀ i < 24, 18 ≤ i → ((afterRun (leaderLost ++ secondElection)).net[i]?.any fun pkt =>
      decide (OfCampaign 1 {2} pkt)) = true → i ∈ [23, 22, 20, 19] := by
    decide +kernel
  have hnet : (afterRun leaderLost).net.length = 18 ∧
      (afterRun (leaderLost ++ secondElection)).net.length = 24 := by
    decide +kernel
  have hterm : (afterRun leaderLost).nextTerm 1 = 2 := by decide +kernel
  have h := @candidate_wins 3 1 {2} _ _ _ sampleExternals electable_leaderLost
    campaign_secondElection fun i pkt hi hpkt hof => by
      have hlt := (List.getElem?_eq_some_iff.mp hpkt).1
      refine hall i (hnet.2 ▸ hlt) (hnet.1 ▸ hi) ((Option.any_eq_true _ _).mpr ⟨pkt, hpkt, ?_⟩)
      exact decide_eq_true hof
  rw [hterm] at h
  exact h

end Campaigns

end NiovaRaft
