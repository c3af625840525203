import NiovaRaft.Model.ClientRequest
import NiovaRaft.Spec.Log

/-!
# Replies to clients

What the server keeps of a client's message once it is done with it, and what it has sent.  The
reference on the client's node and the buffer are accounted for along the way: a preparation that
denies a request gives both back, and otherwise the completion does.

A reply carries what the buffer holds when it is sent.  A redirect puts the leader's uuid where the
client's was.
-/

namespace NiovaRaft

open Base Base.Handler ClientRecv

variable {n : Nat}

/-! ## The fields of a reply -/

namespace RpcField

theorem get_set_same (f : RpcField) (v : Nat) (buf : List UInt8) :
    f.get (f.set v buf) = leBytes f.len v := by
  have h : slice (overwrite buf f.off (leBytes f.len v)) f.off (leBytes f.len v).length =
      leBytes f.len v := slice_overwrite_same
  rwa [length_leBytes] at h

/-- A write to a field further to the front. -/
theorem get_set_front {f g : RpcField} (h : g.off + g.len ≤ f.off) (v : Nat) (buf : List UInt8) :
    f.get (g.set v buf) = f.get buf :=
  slice_overwrite_after (by simpa using h)

/-- A write to a field further to the back. -/
theorem get_set_back {f g : RpcField} (h : f.off + f.len ≤ g.off) {v : Nat} {buf : List UInt8}
    (hlen : f.off + f.len ≤ buf.length) : f.get (g.set v buf) = f.get buf :=
  slice_overwrite_before h hlen

/-- A field that is all there lies within the buffer. -/
theorem le_length_of_get {f : RpcField} {buf : List UInt8} (h : (f.get buf).length = f.len)
    (hpos : 0 < f.len) : f.off + f.len ≤ buf.length := by
  rw [get, length_slice] at h
  omega

/-- What is sent holds the fields of the header. -/
theorem get_take {f : RpcField} {buf : List UInt8} {k : Nat} (h : f.off + f.len ≤ k) :
    f.get (buf.take k) = f.get buf := by
  rw [get, get, slice, slice, List.drop_take, List.take_take, Nat.min_eq_left (by omega)]

end RpcField

/-- The buffer carries the message id and the client of the request. -/
def HeaderCopied (rcm : ClientRequest) (buf : List UInt8) : Prop :=
  RpcField.msgId.get buf = leBytes 8 rcm.msgId ∧ RpcField.destId.get buf = leBytes 16 rcm.senderId

/-- The buffer carries the message id and, if it is no redirect, the client of the request.  A
redirect names a peer. -/
def HeaderAnswers (env : RequestEnv n) (rcm : ClientRequest) (buf : List UInt8) : Prop :=
  RpcField.msgId.get buf = leBytes 8 rcm.msgId ∧
    (RpcField.destId.get buf = leBytes 16 rcm.senderId ∨
      (RpcField.type.get buf = leBytes 4 ClientRpcMsgType.redirect.toNat ∧
        ∃ p, RpcField.destId.get buf = leBytes 16 (env.peers p)))

theorem HeaderAnswers.take {env : RequestEnv n} {rcm : ClientRequest} {buf : List UInt8}
    (h : HeaderAnswers env rcm buf) (k : Nat) :
    HeaderAnswers env rcm (buf.take (clientRpcMsgSize + k)) := by
  have hget : ∀ f : RpcField, f.off + f.len ≤ clientRpcMsgSize →
      f.get (buf.take (clientRpcMsgSize + k)) = f.get buf :=
    fun f hf => RpcField.get_take (Nat.le_add_right_of_le hf)
  rw [HeaderAnswers, hget _ (by decide), hget _ (by decide), hget _ (by decide)]
  exact h

/-- An error code leaves the header as it is. -/
theorem HeaderCopied.sysError {rcm : ClientRequest} {buf : List UInt8} (h : HeaderCopied rcm buf)
    (v : Nat) : HeaderCopied rcm (RpcField.sysError.set v buf) := by
  have hmsg : RpcField.msgId.off + RpcField.msgId.len ≤ buf.length :=
    RpcField.le_length_of_get (by rw [h.1, length_leBytes]; rfl) (by decide)
  have hdest : RpcField.destId.off + RpcField.destId.len ≤ buf.length :=
    RpcField.le_length_of_get (by rw [h.2, length_leBytes]; rfl) (by decide)
  exact ⟨(RpcField.get_set_back (by decide) hmsg).trans h.1,
    (RpcField.get_set_back (by decide) hdest).trans h.2⟩

theorem HeaderCopied.answers {env : RequestEnv n} {rcm : ClientRequest} {buf : List UInt8}
    (h : HeaderCopied rcm buf) : HeaderAnswers env rcm buf :=
  ⟨h.1, .inl h.2⟩

/-- A redirect keeps the message id. -/
theorem HeaderCopied.redirect {env : RequestEnv n} {rcm : ClientRequest} {buf : List UInt8}
    (h : HeaderCopied rcm buf) (p : Fin n) :
    HeaderAnswers env rcm (RpcField.destId.set (env.peers p)
      (RpcField.type.set ClientRpcMsgType.redirect.toNat buf)) := by
  have hlen : RpcField.msgId.off + RpcField.msgId.len ≤
      (RpcField.type.set ClientRpcMsgType.redirect.toNat buf).length := by
    refine RpcField.le_length_of_get ?_ (by decide)
    rw [RpcField.get_set_front (by decide), h.1, length_leBytes]
    rfl
  have htype : RpcField.type.off + RpcField.type.len ≤
      (RpcField.type.set ClientRpcMsgType.redirect.toNat buf).length := by
    refine RpcField.le_length_of_get ?_ (by decide)
    rw [RpcField.get_set_same, length_leBytes]
  refine ⟨?_, .inr ⟨?_, p, RpcField.get_set_same ..⟩⟩
  · rw [RpcField.get_set_back (by decide) hlen, RpcField.get_set_front (by decide), h.1]
  · rw [RpcField.get_set_back (by decide) htype, RpcField.get_set_same]
    rfl

/-! ## The account of a request -/

/-- The account of what a process did for a request. -/
def Accounts (a : Account) (s : RequestProc n) : Prop := account s.trace = some a

theorem account_append (trace : List RncrEvent) (e : RncrEvent) :
    account (trace ++ [e]) = (account trace).bind (·.step e) := by
  simp only [account, List.foldlM_append, List.foldlM_cons, List.foldlM_nil, bind_pure]
  rfl

theorem Accounts.note {a a' : Account} {s s' : RequestProc n} {e : RncrEvent} (h : Accounts a s)
    (htrace : s'.trace = s.trace ++ [e]) (hstep : a.step e = some a') : Accounts a' s' := by
  rw [Accounts, htrace, account_append, h]
  exact hstep

/-- The account of a request that is answered at most once, by replies that satisfy `P`, and of
which nothing is held any more. -/
def Settled (P : Nat × List UInt8 → Prop) (s : RequestProc n) : Prop :=
  ∃ a, Accounts a s ∧ a.csn ≠ .held ∧ a.item ≠ .held ∧ a.replies.length ≤ 1 ∧ ∀ r ∈ a.replies, P r

/-- The reply goes to the client and carries the message id and the client of the request. -/
def Answers (rcm : ClientRequest) (r : Nat × List UInt8) : Prop :=
  r.1 = rcm.senderId ∧ HeaderCopied rcm r.2

/-- The same, but for a redirect. -/
def AnswersOrRedirects (env : RequestEnv n) (rcm : ClientRequest) (r : Nat × List UInt8) : Prop :=
  r.1 = rcm.senderId ∧ HeaderAnswers env rcm r.2

/-- Both are in the state `o`, and the replies so far are one at most, with `P`. -/
def AnsweredWith (o : Ownership) (P : Nat × List UInt8 → Prop) (s : RequestProc n) : Prop :=
  ∃ rs : List (Nat × List UInt8), Accounts ⟨o, o, rs⟩ s ∧ rs.length ≤ 1 ∧ ∀ r ∈ rs, P r

/-- What was given back is settled. -/
theorem AnsweredWith.settled {P : Nat × List UInt8 → Prop} {s : RequestProc n}
    (h : AnsweredWith .released P s) : Settled P s := by
  obtain ⟨rs, hacc, hlen, hall⟩ := h
  exact ⟨⟨.released, .released, rs⟩, hacc, by simp, by simp, hlen, hall⟩

section Steps

variable {α : Type} {s : RequestProc n} {D : RequestProc n → Prop}

@[simp] theorem wp_note {e : RncrEvent} {Q : Unit → RequestProc n → Prop} :
    (note e).wp Q D s ↔ Q () { s with trace := s.trace ++ [e] } := Iff.rfl

@[simp] theorem wp_modifyRncr {f : Rncr → Rncr} {Q : Unit → RequestProc n → Prop} :
    (modifyRncr f).wp Q D s ↔ Q () { s with rncr := f s.rncr } := Iff.rfl

@[simp] theorem wp_writeBuf {f : List UInt8 → List UInt8} {Q : Unit → RequestProc n → Prop} :
    (writeBuf f).wp Q D s ↔
      Q () { s with trace := s.trace ++ [.item .use], buf := f s.buf } := Iff.rfl

@[simp] theorem wp_getInstance {Q : RaftInstance n → RequestProc n → Prop} :
    (getInstance).wp Q D s ↔ Q s.client.proc.ri s := Iff.rfl

/-- A part that does not touch the request. -/
theorem wp_onClient {m : ClientHandler n α} {Q : α → RequestProc n → Prop}
    (h : ∀ a c, m s.client = .ok a c → Q a { s with client := c }) :
    (onClient m).wp Q (fun _ => True) s := by
  refine wp_intro (fun a s' hres => ?_) fun _ _ => trivial
  unfold onClient at hres
  cases hm : m s.client with
  | ok b c =>
    rw [hm] at hres
    cases hres
    exact h _ _ hm
  | abort c =>
    rw [hm] at hres
    cases hres

/-- What `raft_server_may_accept_client_request` returns. -/
def mayAcceptResult (fresh : Bool) (ri : RaftInstance n) : Except Errno Unit :=
  if ri.procState = .booting then .error .EINPROGRESS
  else if ri.isCandidate = true ∨ ri.isCandidatePrevote = true then .error .ENOENT
  else if ri.isLeader = false then .error .ENOSYS
  else if fresh = false then .error .EAGAIN
  else if ri.lastApplied.idx > ri.leader.initialTermIdx then .ok () else .error .EBUSY

theorem rcOf_eq_zero {rc : Except Errno Unit} : rcOf rc = 0 ↔ rc = .ok () := by
  cases rc with
  | ok u => simp [rcOf]
  | error e => cases e <;> simp [rcOf, Errno.toNat]

theorem rcOf_ne_exdev (rc : Except Errno Unit) : rcOf rc ≠ exdev := by
  cases rc with
  | ok u => simp [rcOf, exdev]
  | error e => cases e <;> simp [rcOf, exdev, Errno.toNat]

/-- The check reads the instance and leaves everything as it is. -/
theorem wp_mayAcceptClientRequest_result {fresh : Bool} {p : Proc n} :
    (RaftServer.mayAcceptClientRequest fresh).wp
      (fun rc p' => rc = mayAcceptResult fresh p.ri ∧ p' = p) (fun _ => True) p := by
  simp only [RaftServer.mayAcceptClientRequest, RaftServer.leaderHasAppliedTxnInMyTerm, wp_bind,
    RaftServer.wp_getRi, wp_ite, wp_pure, wp_fatalIf, mayAcceptResult]
  refine ⟨fun h => ?_, fun h₁ => ⟨fun h => ?_, fun h₂ => ⟨fun h => ?_, fun h₃ => ⟨fun h => ?_,
    fun h₄ => ⟨fun _ => ⟨fun _ => trivial, fun _ => ?_⟩, fun h => absurd ?_ h₃⟩⟩⟩⟩⟩
  · simp [h]
  · simp [h₁, h]
  · simp [h₁, h₂, h]
  · simp [h₁, h₂, h₃, h]
  · simp only [if_neg h₁, if_neg h₂, if_neg h₃, if_neg h₄, and_true]
    by_cases h : p.ri.lastApplied.idx > p.ri.leader.initialTermIdx <;> simp [h]
  · simpa using h

theorem wp_mayAccept {fresh : Bool} {Q : Int → RequestProc n → Prop}
    (h : Q (rcOf (mayAcceptResult fresh s.client.proc.ri)) s) :
    (mayAccept fresh).wp Q (fun _ => True) s := by
  rw [mayAccept, wp_bind]
  refine wp_onClient fun rc c hres => ?_
  unfold Coalesce.lift at hres
  cases hm : RaftServer.mayAcceptClientRequest fresh s.client.proc with
  | ok rc' p =>
    obtain ⟨rfl, rfl⟩ := wp_of_ok hm wp_mayAcceptClientRequest_result
    rw [hm] at hres
    cases hres
    exact h
  | abort p =>
    rw [hm] at hres
    cases hres

end Steps

/-! ## Replies -/

section Handlers

variable {env : RequestEnv n} {rcm : ClientRequest} {s : RequestProc n}

/-- Uses of what is held keep the account. -/
theorem Accounts.useItem {a : Account} {s s' : RequestProc n} (h : Accounts a s)
    (hheld : a.item = .held) (htrace : s'.trace = s.trace ++ [.item .use]) : Accounts a s' := by
  refine h.note htrace ?_
  rw [Account.step, hheld]
  cases a
  cases hheld
  rfl

theorem Accounts.useCsn {a : Account} {s s' : RequestProc n} (h : Accounts a s)
    (hheld : a.csn = .held) (htrace : s'.trace = s.trace ++ [.csn .use]) : Accounts a s' := by
  refine h.note htrace ?_
  rw [Account.step, hheld]
  cases a
  cases hheld
  rfl

/-- A reply out of a buffer that answers the request. -/
theorem wp_replyToClient (h : Accounts ⟨.held, .held, []⟩ s) (hcsn : s.rncr.csn = true)
    (hbuf : s.rncr.hasReplyInfo = true → HeaderAnswers env rcm s.buf) :
    (replyToClient rcm).wp (fun _ s' => AnsweredWith .held (AnswersOrRedirects env rcm) s' ∧
      s'.rncr = s.rncr) (fun _ => True) s := by
  simp only [replyToClient, sendMsgToClient, wp_bind, wp_get, wp_whenever, wp_ite, wp_note]
  refine ⟨fun hinfo => ⟨fun _ => ?_, fun hno => absurd hcsn hno⟩, fun _ => ⟨⟨[], h, ?_⟩, trivial⟩⟩
  · refine ⟨⟨[(rcm.senderId, s.buf.take (clientRpcMsgSize + ofLeBytes
      (RpcField.dataSize.get s.buf)))], ?_, Nat.le_refl _, ?_⟩, trivial⟩
    · refine Accounts.note (a := ⟨.held, .held, []⟩)
        (s := { s with trace := (s.trace ++ [.item .use]) ++ [.csn .use] }) ?_ rfl rfl
      have hitem : Accounts ⟨.held, .held, []⟩
          ({ s with trace := s.trace ++ [.item .use] } : RequestProc n) := h.useItem rfl rfl
      exact hitem.useCsn rfl rfl
    · intro r hr
      rw [List.mem_singleton.mp hr]
      exact ⟨rfl, (hbuf hinfo).take _⟩
  · simp

/-- A denial out of a buffer with the header of the request. -/
theorem wp_denyClientRequest {rc : Int} (h : Accounts ⟨.held, .held, []⟩ s)
    (hcsn : s.rncr.csn = true) (hbuf : s.rncr.hasReplyInfo = true → HeaderCopied rcm s.buf) :
    (denyClientRequest env rcm rc).wp (fun _ s' => AnsweredWith .held (AnswersOrRedirects env rcm) s' ∧
      s'.rncr = s.rncr) (fun _ => True) s := by
  simp only [denyClientRequest, wp_bind, wp_get, wp_assert, wp_writeBuf, wp_getInstance]
  refine ⟨fun _ => ?_, fun _ => trivial⟩
  have h₁ : Accounts ⟨.held, .held, []⟩ ({ s with
      trace := s.trace ++ [.item .use], buf := RpcField.sysError.set (sysErrorOf rc) s.buf } :
      RequestProc n) := h.useItem rfl rfl
  cases s.client.proc.ri.csnLeader with
  | none =>
    exact wp_replyToClient h₁ hcsn fun hinfo => ((hbuf hinfo).sysError _).answers
  | some leader =>
    simp only [wp_bind, wp_whenever, wp_writeBuf]
    refine ⟨fun _ => ?_, fun _ => ?_⟩
    · have h₂ : Accounts ⟨.held, .held, []⟩ ({ s with
        trace := s.trace ++ [.item .use] ++ [.item .use]
        buf := RpcField.type.set ClientRpcMsgType.redirect.toNat
          (RpcField.sysError.set (sysErrorOf rc) s.buf) } : RequestProc n) := h₁.useItem rfl rfl
      exact wp_replyToClient (h₂.useItem rfl rfl) hcsn fun hinfo =>
        ((hbuf hinfo).sysError _).redirect leader
    · exact wp_replyToClient h₁ hcsn fun hinfo => ((hbuf hinfo).sysError _).answers

/-! ## Preparation -/

/-- The handle that the preparation hands back. -/
def rncrPrepared (rcm : ClientRequest) (size : Nat) : Rncr :=
  { Rncr.zero with
    replyPtr := true, replyDataMaxSize := size - clientRpcMsgSize, msgId := rcm.msgId,
    clientUuid := rcm.senderId, bi := true, csn := true }

/-- The reply that the preparation hands back. -/
def replyPrepared (env : RequestEnv n) (rcm : ClientRequest) (self : Fin n) (size : Nat) :
    List UInt8 :=
  RpcField.dataSize.set 0 (RpcField.msgId.set rcm.msgId
    (RpcField.type.set
      (if rcm.type = .ping then ClientRpcMsgType.pingReply else ClientRpcMsgType.reply).toNat
      (RpcField.destId.set rcm.senderId (RpcField.senderId.set (env.peers self)
        (RpcField.raftId.set env.raftUuid
          (overwrite (List.replicate size 0) 0 (List.replicate clientRpcMsgSize 0)))))))

theorem headerKept_replyPrepared (self : Fin n) (size : Nat) :
    HeaderCopied rcm (replyPrepared env rcm self size) := by
  constructor
  · rw [replyPrepared, RpcField.get_set_front (by decide), RpcField.get_set_same]
    rfl
  · rw [replyPrepared, RpcField.get_set_front (by decide), RpcField.get_set_front (by decide),
      RpcField.get_set_front (by decide), RpcField.get_set_same]
    rfl

/-- The sender of the message is not ignored. -/
def RequestEnv.Admits (env : RequestEnv n) (rcm : ClientRequest) : Prop :=
  ¬ (rcm.raftId = 0 ∨ rcm.raftId ≠ env.raftUuid) ∧
    ∃ csn, env.csn = some csn ∧ csn.isClient = true ∧ csn.canRecv = true

/-- How a preparation ends: the request is ignored, denied, or in hand. -/
inductive Prepared (env : RequestEnv n) (rcm : ClientRequest) (s : RequestProc n) :
    Int → RequestProc n → Prop
  | ignored {s' : RequestProc n} {o : Ownership} (hadmits : ¬ env.Admits rcm) (ho : o ≠ .held)
      (hacc : Accounts ⟨o, .untaken, []⟩ s') : Prepared env rcm s exdev s'
  | denied {s' : RequestProc n} {rc : Int} (hadmits : env.Admits rcm)
      (hrc : rc = rcOf (mayAcceptResult env.freshPrepare s.client.proc.ri)) (hne : rc ≠ 0)
      (hback : AnsweredWith .released (AnswersOrRedirects env rcm) s') : Prepared env rcm s rc s'
  | inHand {s' : RequestProc n} {size : Nat} (hitem : env.item = some size)
      (hadmits : env.Admits rcm)
      (hok : mayAcceptResult env.freshPrepare s.client.proc.ri = .ok ())
      (hacc : Accounts ⟨.held, .held, []⟩ s') (hclient : s'.client = s.client)
      (hrncr : s'.rncr = rncrPrepared rcm size)
      (hbuf : s'.buf = replyPrepared env rcm s.client.proc.ri.self size) : Prepared env rcm s 0 s'

theorem wp_clientRecvIgnoreRequest (h : s.trace = []) {Q : Bool → RequestProc n → Prop}
    (hignore : ∀ s' o, ¬ env.Admits rcm → o ≠ Ownership.held → Accounts ⟨o, .untaken, []⟩ s' →
      Q true s')
    (hadmits : env.Admits rcm → ∀ s', Accounts ⟨.held, .untaken, []⟩ s' → s'.client = s.client →
      Q false s') :
    (clientRecvIgnoreRequest env rcm).wp Q (fun _ => True) s := by
  have hnone : Accounts ⟨.untaken, .untaken, []⟩ s := by rw [Accounts, h]; rfl
  rw [clientRecvIgnoreRequest, wp_ite, wp_pure]
  refine ⟨fun hverify => hignore s _ (fun ha => ha.1 hverify) (by decide) hnone, fun hverify => ?_⟩
  cases hcsn : env.csn with
  | none =>
    refine hignore s _ (fun ha => ?_) (by decide) hnone
    obtain ⟨csn, hsome, -⟩ := ha.2
    rw [hcsn] at hsome
    cases hsome
  | some csn =>
    have hcsnTaken : Accounts ⟨.held, .untaken, []⟩
        ({ s with trace := s.trace ++ [.csn .take] } : RequestProc n) := hnone.note rfl rfl
    have htaken : Accounts ⟨.held, .untaken, []⟩ ({ s with
        trace := s.trace ++ [.csn .take] ++ [.csn .use] } : RequestProc n) :=
      hcsnTaken.useCsn rfl rfl
    simp only [wp_bind, wp_note, wp_ite, wp_pure]
    refine ⟨fun hmay => hadmits ⟨hverify, csn, hcsn, hmay⟩ _ htaken rfl, fun hno => ?_⟩
    refine hignore _ .released (fun ha => ?_) (by decide) (htaken.note rfl rfl)
    obtain ⟨csn', hsome, hmay⟩ := ha.2
    rw [hcsn] at hsome
    cases hsome
    exact hno hmay

/-- Both are given back. -/
theorem AnsweredWith.release {P : Nat × List UInt8 → Prop} {s' : RequestProc n}
    (h : AnsweredWith .held P s)
    (htrace : s'.trace = s.trace ++ [.csn .release] ++ [.item .release]) :
    AnsweredWith .released P s' := by
  obtain ⟨rs, hacc, hlen, hall⟩ := h
  refine ⟨rs, ?_, hlen, hall⟩
  have hcsn : Accounts ⟨.released, .held, rs⟩
      ({ s with trace := s.trace ++ [.csn .release] } : RequestProc n) := hacc.note rfl rfl
  exact hcsn.note htrace rfl

theorem wp_clientRncrPrepare (h : s.trace = []) :
    (clientRncrPrepare env rcm).wp (Prepared env rcm s) (fun _ => True) s := by
  rw [clientRncrPrepare, wp_bind]
  refine wp_clientRecvIgnoreRequest h (fun s' o hno ho hacc => ?_) fun hadmits s₁ hacc hclient => ?_
  · exact .ignored hno ho hacc
  · cases hitem : env.item with
    | none => exact trivial
    | some size =>
      simp only [Bool.false_eq_true, if_false, wp_bind, wp_note, netClientRequestInitClientRpc,
        clientReplyInit, wp_assert, wp_writeBuf, wp_modifyRncr, wp_get, wp_getInstance]
      refine ⟨fun _ => ⟨fun _ => ⟨fun _ => wp_mayAccept ?_, fun _ => trivial⟩, fun _ => trivial⟩,
        fun _ => trivial⟩
      have hitemTaken : Accounts ⟨.held, .held, []⟩
          ({ s₁ with trace := s₁.trace ++ [.item .take] } : RequestProc n) := hacc.note rfl rfl
      have htaken : Accounts ⟨.held, .held, []⟩ ({ s₁ with
          trace := s₁.trace ++ [.item .take] ++ [.item .use] } : RequestProc n) :=
        hitemTaken.useItem rfl rfl
      rw [wp_ite]
      refine ⟨fun hne => ?_, fun hzero => ?_⟩
      · rw [wp_bind]
        refine wp_mono (wp_denyClientRequest (htaken.useItem rfl rfl) rfl fun _ =>
          headerKept_replyPrepared s₁.client.proc.ri.self size) ?_ fun _ => id
        rintro _ s₂ ⟨hhand, hrncr⟩
        simp only [wp_bind, wp_get, wp_whenever, wp_note, wp_modifyRncr, wp_pure, hrncr]
        refine ⟨fun _ => ⟨fun _ => ?_, fun hno => absurd trivial hno⟩,
          fun hno => absurd trivial hno⟩
        exact .denied hadmits (by rw [← hclient]) hne (hhand.release rfl)
      · rw [not_not] at hzero
        rw [wp_pure, hzero]
        rw [rcOf_eq_zero, hclient] at hzero
        exact .inHand hitem hadmits hzero (htaken.useItem rfl rfl) hclient rfl (by rw [← hclient]; rfl)

/-! ## Completion -/

variable [Externals]

/-- The application's answer leads to a direct reply. -/
def RepliesDirectly (env : RequestEnv n) (ri : RaftInstance n) (rncr : Rncr) (smCbRc : Int) :
    Prop :=
  ¬ (mayAcceptResult env.freshComplete ri = .ok () ∧ smCbRc = 0 ∧ rncr.writeRaftEntry = true) ∧
    rncr.hasReplyInfo = true

/-- What is done with a request that is in hand. -/
theorem wp_clientRncrAnswer {smCbRc : Int} (h : Accounts ⟨.held, .held, []⟩ s)
    (hcsn : s.rncr.csn = true)
    (hbuf : RepliesDirectly env s.client.proc.ri s.rncr smCbRc → HeaderCopied rcm s.buf) :
    (clientRncrAnswer env rcm (rcOf (mayAcceptResult env.freshComplete s.client.proc.ri)) smCbRc).wp
      (fun _ s' => AnsweredWith .held (AnswersOrRedirects env rcm) s' ∧ s'.rncr = s.rncr) (fun _ => True) s := by
  simp only [clientRncrAnswer, wp_bind, wp_get, wp_ite]
  refine ⟨fun hdeny => ?_, fun _ => ⟨fun _ => ?_, fun hdirect => ?_⟩⟩
  · refine wp_denyClientRequest h hcsn fun hinfo => hbuf ⟨?_, hinfo⟩
    rintro ⟨hok, hzero, -⟩
    exact hdeny.elim (fun hne => hne (rcOf_eq_zero.mpr hok)) fun hne => hne hzero
  · simp only [clientRncrWriteRaftEntry, wp_bind, wp_get, wp_assert, wp_note]
    refine ⟨fun _ => wp_onClient fun _ c _ => ⟨⟨[], h.useItem rfl rfl, ?_⟩, rfl⟩, fun _ => trivial⟩
    simp
  · exact wp_replyToClient h hcsn fun hinfo =>
      (hbuf ⟨fun hw => hdirect hw.2.2, hinfo⟩).answers

/-- A completion answers a request that is in hand and gives it back. -/
theorem wp_clientRncrComplete {smCbRc : Int} (h : Accounts ⟨.held, .held, []⟩ s)
    (hcsn : s.rncr.csn = true) (hbi : s.rncr.bi = true)
    (hbuf : RepliesDirectly env s.client.proc.ri s.rncr smCbRc → HeaderCopied rcm s.buf) :
    (clientRncrComplete env rcm smCbRc).wp (fun _ s' => Settled (AnswersOrRedirects env rcm) s')
      (fun _ => True) s := by
  rw [clientRncrComplete, wp_bind]
  refine wp_mayAccept ?_
  rw [wp_bind]
  refine wp_mono (wp_clientRncrAnswer h hcsn hbuf) ?_ fun _ => id
  rintro _ s₁ ⟨hhand, hrncr⟩
  simp only [wp_bind, wp_get, wp_whenever, wp_note, hrncr]
  exact ⟨fun _ => ⟨fun _ => (hhand.release rfl).settled, fun hno => absurd hbi hno⟩,
    fun hno => absurd hcsn hno⟩

/-! ## The handlers -/

/-- What the application makes of the request that the preparation hands it. -/
def smAnswer (env : RequestEnv n) (rcm : ClientRequest) (self : Fin n) (size : Nat) : SmResult :=
  env.smRequestCb (rncrPrepared rcm size) (replyPrepared env rcm self size)

/-- Where a direct reply follows, the application has left the message id and the client in the
buffer. -/
def LeavesHeader (env : RequestEnv n) (rcm : ClientRequest) (ri : RaftInstance n) : Prop :=
  ∀ size, env.item = some size →
    RepliesDirectly env (env.meanwhile ri)
      ((smAnswer env rcm ri.self size).apply (rncrPrepared rcm size))
      (smAnswer env rcm ri.self size).rc →
    HeaderCopied rcm (smAnswer env rcm ri.self size).buf

/-- The part of a handler in which the application is asked. -/
theorem wp_askAndComplete {size : Nat} {s₀ : RequestProc n} (hitem : env.item = some size)
    (hkeep : LeavesHeader env rcm s₀.client.proc.ri) (h : Accounts ⟨.held, .held, []⟩ s)
    (hclient : s.client = s₀.client) (hrncr : s.rncr = rncrPrepared rcm size)
    (hbuf : s.buf = replyPrepared env rcm s₀.client.proc.ri.self size) :
    (do
      let rc ← serverSmRequestCb env
      clientRncrComplete env rcm rc : RequestHandler n Unit).wp
      (fun _ s' => Settled (AnswersOrRedirects env rcm) s') (fun _ => True) s := by
  simp only [serverSmRequestCb, wp_bind, wp_get, wp_writeBuf, wp_modifyRncr, wp_modify, wp_pure,
    hrncr, hbuf, hclient]
  exact wp_clientRncrComplete (h.useItem rfl rfl) rfl rfl fun hdirect => hkeep size hitem hdirect

omit [Externals] in
/-- The common part of the handlers of reads and writes. -/
theorem wp_prepareAndAsk {m : RequestHandler n Unit} (hstart : s.trace = [])
    (hm : ∀ {size : Nat} {s₁ : RequestProc n}, env.item = some size →
      Accounts ⟨.held, .held, []⟩ s₁ → s₁.client = s.client → s₁.rncr = rncrPrepared rcm size →
      s₁.buf = replyPrepared env rcm s.client.proc.ri.self size →
      m.wp (fun _ s' => Settled (AnswersOrRedirects env rcm) s') (fun _ => True) s₁) :
    (do
      let rc ← clientRncrPrepare env rcm
      whenever (rc = 0) m : RequestHandler n Unit).wp
      (fun _ s' => Settled (AnswersOrRedirects env rcm) s') (fun _ => True) s := by
  rw [wp_bind]
  refine wp_mono (wp_clientRncrPrepare hstart) (fun rc s₁ hprep => ?_) fun _ => id
  rw [wp_whenever]
  cases hprep with
  | ignored _ ho hacc =>
    exact ⟨fun h => absurd h (by decide), fun _ => ⟨_, hacc, ho, by simp, by simp, by simp⟩⟩
  | denied _ _ hne hback => exact ⟨fun h => absurd h hne, fun _ => hback.settled⟩
  | inHand hitem _ _ hacc hclient hrncr hbuf =>
    exact ⟨fun _ => hm hitem hacc hclient hrncr hbuf, fun h => absurd rfl h⟩

theorem wp_clientRecvHandler (hstart : s.trace = [])
    (hping : rcm.type = .ping → env.Admits rcm →
      mayAcceptResult env.freshPrepare s.client.proc.ri = .ok ())
    (hkeep : rcm.type ≠ .ping → LeavesHeader env rcm s.client.proc.ri) :
    (clientRecvHandler env rcm).wp (fun _ s' => Settled (AnswersOrRedirects env rcm) s')
      (fun _ => True) s := by
  have hnone : Settled (AnswersOrRedirects env rcm) s :=
    ⟨⟨.untaken, .untaken, []⟩, by rw [Accounts, hstart]; rfl, by simp, by simp, by simp, by simp⟩
  unfold clientRecvHandler
  cases htype : rcm.type with
  | read =>
    have hkeep := hkeep (by rw [htype]; simp)
    exact wp_prepareAndAsk hstart fun hitem hacc hclient hrncr hbuf =>
      wp_askAndComplete hitem hkeep hacc hclient hrncr hbuf
  | write =>
    have hkeep := hkeep (by rw [htype]; simp)
    refine wp_prepareAndAsk hstart fun hitem hacc hclient hrncr hbuf => ?_
    rw [doClientWrite, wp_bind, wp_get, wp_bind, wp_assert]
    exact ⟨fun _ => wp_askAndComplete hitem hkeep hacc hclient hrncr hbuf, fun _ => trivial⟩
  | ping =>
    rw [clientRecvHandlerPing, wp_bind]
    refine wp_mono (wp_clientRncrPrepare hstart) (fun rc s₁ hprep => ?_) fun _ => id
    rw [wp_whenever]
    cases hprep with
    | ignored _ ho hacc =>
      exact ⟨fun h => absurd rfl h, fun _ => ⟨_, hacc, ho, by simp, by simp, by simp⟩⟩
    | denied hadmits hrc hne _ =>
      rw [hping htype hadmits] at hrc
      exact absurd hrc hne
    | inHand hitem _ _ hacc hclient hrncr hbuf =>
      refine ⟨fun _ => wp_clientRncrComplete hacc ?_ ?_ fun _ => ?_, fun h => absurd ?_ h⟩
      · rw [hrncr]; rfl
      · rw [hrncr]; rfl
      · rw [hbuf]
        exact headerKept_replyPrepared _ _
      · decide
  | invalid => exact hnone
  | reply => exact hnone
  | redirect => exact hnone
  | pingReply => exact hnone
  | any => exact hnone

omit [Externals] in
/-- A step that was not allowed is not made up for. -/
theorem account_append_of_none {trace : List RncrEvent} {e : RncrEvent} (h : account trace = none) :
    account (trace ++ [e]) = none := by
  rw [account_append, h]
  rfl

omit [Externals] in
theorem wp_replyToClient_of_none (h : account s.trace = none) :
    (replyToClient rcm).wp (fun _ s' => account s'.trace = none) (fun _ => True) s := by
  simp only [replyToClient, sendMsgToClient, wp_bind, wp_get, wp_whenever, wp_ite, wp_note]
  have h₁ := account_append_of_none (e := .item .use) h
  exact ⟨fun _ => ⟨fun _ => account_append_of_none (account_append_of_none h₁), fun _ =>
    account_append_of_none h₁⟩, fun _ => h⟩

omit [Externals] in
/-- A denial writes to the buffer. -/
theorem wp_denyClientRequest_released {rc : Int} {rs : List (Nat × List UInt8)}
    (h : Accounts ⟨.released, .released, rs⟩ s) :
    (denyClientRequest env rcm rc).wp (fun _ s' => account s'.trace = none) (fun _ => True) s := by
  simp only [denyClientRequest, wp_bind, wp_get, wp_assert, wp_writeBuf, wp_getInstance]
  refine ⟨fun _ => ?_, fun _ => trivial⟩
  have h₁ : account (s.trace ++ [.item .use]) = none := by
    rw [account_append, h]
    rfl
  cases s.client.proc.ri.csnLeader with
  | none => exact wp_replyToClient_of_none h₁
  | some leader =>
    simp only [wp_bind, wp_whenever, wp_writeBuf]
    exact ⟨fun _ => wp_replyToClient_of_none (account_append_of_none (account_append_of_none h₁)),
      fun _ => wp_replyToClient_of_none h₁⟩

/-- The handler of a ping goes on after a denial, with a buffer that it no longer has. -/
theorem wp_clientRecvHandler_deniedPing (hstart : s.trace = []) (htype : rcm.type = .ping)
    (hadmits : env.Admits rcm)
    (hdeny : mayAcceptResult env.freshPrepare s.client.proc.ri ≠ .ok ()) :
    (clientRecvHandler env rcm).wp (fun _ s' => account s'.trace = none) (fun _ => True) s := by
  simp only [clientRecvHandler, htype, clientRecvHandlerPing, wp_bind]
  refine wp_mono (wp_clientRncrPrepare hstart) (fun rc s₁ hprep => ?_) fun _ => id
  rw [wp_whenever]
  cases hprep with
  | ignored hno _ _ => exact absurd hadmits hno
  | inHand _ _ hok _ _ _ _ => exact absurd hok hdeny
  | denied _ hrc hne hback =>
    obtain ⟨rs, hacc, -, -⟩ := hback
    refine ⟨fun _ => ?_, fun h => absurd (by rw [hrc]; exact rcOf_ne_exdev _) h⟩
    rw [clientRncrComplete, wp_bind]
    refine wp_mayAccept ?_
    simp only [wp_bind, clientRncrAnswer, wp_get, wp_ite]
    refine ⟨fun _ => ?_, fun h => absurd (.inr hne) h⟩
    refine wp_mono (wp_denyClientRequest_released hacc) (fun _ s₂ hs₂ => ?_) fun _ => id
    simp only [wp_whenever, wp_note]
    have hcsn := account_append_of_none (e := .csn .release) hs₂
    exact ⟨fun _ => ⟨fun _ => account_append_of_none hcsn, fun _ => hcsn⟩,
      fun _ => ⟨fun _ => account_append_of_none hs₂, fun _ => hs₂⟩⟩

end Handlers

/-! ## One reply, one release -/

/-- A message is answered at most once, with its id and its client or by a redirect, and what was
taken for it is given back once and not used after that.  Left out are pings that the preparation
denies, and applications that write over the header of a reply that is then sent. -/
theorem client_request_settled [Externals] (env : RequestEnv n) (rcm : ClientRequest)
    {s s' : RequestProc n} (hstart : s.trace = [])
    (hping : rcm.type = .ping → env.Admits rcm →
      mayAcceptResult env.freshPrepare s.client.proc.ri = .ok ())
    (hkeep : rcm.type ≠ .ping → LeavesHeader env rcm s.client.proc.ri)
    (hret : clientRecvHandler env rcm s = .ok () s') :
    Settled (AnswersOrRedirects env rcm) s' :=
  wp_of_ok (Q := fun _ s' => Settled (AnswersOrRedirects env rcm) s') hret
    (wp_clientRecvHandler hstart hping hkeep)

/-- A client of the cluster that runs `servedRequest`.  The application puts two bytes of its own
where the reply was and asks for an entry. -/
def sampleRequestEnv : RequestEnv 3 where
  raftUuid := 9
  peers := fun i => i.val + 100
  csn := some ⟨true, true⟩
  item := some 96
  freshPrepare := true
  freshComplete := true
  coalescedWrites := false
  smRequestCb := fun rncr buf => ⟨0, overwrite buf 0 [1, 2], true, 2, rncr.msgId, rncr.clientUuid, []⟩
  meanwhile := id

/-- A message of client 7 to one of the three servers. -/
def sampleRequest (type : ClientRpcMsgType) : ClientRequest := ⟨type, 5, 9, 7, [3, 4]⟩

/-- A server of the cluster with a message to handle. -/
def servedBy (p : Fin 3) : RequestProc 3 :=
  ⟨⟨⟨(afterRun servedRequest).servers p, [], [], none⟩, .zero, [], []⟩, .zero, [], []⟩

def afterRequest (p : Fin 3) (type : ClientRpcMsgType) : Outcome (RequestProc 3) Unit :=
  @clientRecvHandler 3 sampleExternals sampleRequestEnv (sampleRequest type) (servedBy p)

/-- The leader queues a write with the application's bytes. -/
theorem client_request_settled_write :
    (servedBy 0).trace = [] ∧
      ((sampleRequest .write).type ≠ .ping →
        LeavesHeader sampleRequestEnv (sampleRequest .write) (servedBy 0).client.proc.ri) ∧
      ∃ s', afterRequest 0 .write = .ok () s' ∧
        Settled (AnswersOrRedirects sampleRequestEnv (sampleRequest .write)) s' := by
  have hkeep : LeavesHeader sampleRequestEnv (sampleRequest .write)
      (servedBy 0).client.proc.ri := by
    rintro size - ⟨hno, -⟩
    exact absurd ⟨by decide +kernel, rfl, rfl⟩ hno
  have hret : afterRequest 0 .write = .ok () (afterRequest 0 .write).state :=
    Outcome.eq_ok_state (by decide +kernel)
  refine ⟨rfl, fun _ => hkeep, _, hret, ?_⟩
  exact @client_request_settled 3 sampleExternals _ _ _ _ rfl (fun h => (by cases h))
    (fun _ => hkeep) hret

/-- A follower redirects a read.  Its reply has the uuid of the leader in place of the client's. -/
theorem redirect_names_no_client :
    @Cluster.Reach 3 sampleExternals Cluster.anyEvent threeServers (afterRun servedRequest) ∧
      ∃ s', afterRequest 1 .read = .ok () s' ∧ ¬ Settled (Answers (sampleRequest .read)) s' := by
  have hret : afterRequest 1 .read = .ok () (afterRequest 1 .read).state :=
    Outcome.eq_ok_state (by decide +kernel)
  refine ⟨reach_afterRun _, _, hret, ?_⟩
  rintro ⟨a, hacc, -, -, -, hall⟩
  have haccount : (account (afterRequest 1 .read).state.trace).any fun a =>
      a.replies.any fun r => RpcField.destId.get r.2 = leBytes 16 100 := by decide +kernel
  rw [hacc] at haccount
  obtain ⟨r, hr, hdest⟩ := List.any_eq_true.mp haccount
  have hclient := (hall r hr).2.2
  rw [of_decide_eq_true hdest] at hclient
  exact absurd hclient (by decide)

end NiovaRaft
