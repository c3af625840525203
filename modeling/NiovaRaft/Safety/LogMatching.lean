import NiovaRaft.Refinement.Cluster

/-!
# Log matching

The logs of two servers that hold an entry of the same term at some index are the same up to
it.  No rule is needed: this holds in every run with one leader a term.
-/

namespace NiovaRaft

open Base.Replication Refinement

variable {n : Nat}

/-- No rule is in force. -/
def noRules : Rules := ⟨False, False, False⟩

theorem faithful_noRules (c : Cluster n) (e : Event n) : Faithful noRules c e := by
  unfold Faithful
  cases e.action with
  | deliver k =>
    intro pkt _
    unfold Verified
    cases pkt.msg <;> first | trivial | exact fun h => h.elim
  | timer => exact fun h => h.elim
  | remoteSend => exact fun h => h.elim
  | _ => trivial

section

variable [Externals] {opts : Fin n → Options} {c : Cluster n}

theorem Cluster.Reach.coupled_noRules {ok : Cluster n → Event n → Prop}
    (h : Cluster.Reach ok opts c) : ∃ w, Coupled noRules c w :=
  Refinement.Reach.coupled h (fun c e _ => faithful_noRules c e) fun _ _ _ _ h => h.elim

/-- The memory of a running server agrees with its backend. -/
theorem Cluster.Reach.consistent {ok : Cluster n → Event n → Prop} (h : Cluster.Reach ok opts c)
    {p : Fin n} (hrun : (c.servers p).procState = .running) : Consistent (c.servers p) := by
  obtain ⟨w, hw⟩ := h.coupled_noRules
  exact ((hw.servers p).ok hrun).stored.cons

omit [Externals] in
/-- What a server reads at an index is the entry of its peer's log there. -/
theorem getElem_of_read {R : Rules} {w : ClusterWorld n} (h : Coupled R c w) {p : Fin n} {i : Nat}
    {e : Entry} (he : (c.servers p).store.db.read i = some e) :
    (w.peer p).log[i]? = some e.core := by
  unfold Db.read at he
  split at he
  · exact (h.servers p).store.getElem he
  · cases he

/-- Log matching. -/
theorem log_matching (h : Cluster.Reach Cluster.anyEvent opts c) (hu : c.UniqueLeaders)
    {p q : Fin n} {i : Nat} {e e' : Entry} (he : (c.servers p).store.db.read i = some e)
    (he' : (c.servers q).store.db.read i = some e') (ht : e.header.term = e'.header.term)
    {j : Nat} (hj : j ≤ i) {d d' : Entry} (hd : (c.servers p).store.db.read j = some d)
    (hd' : (c.servers q).store.db.read j = some d') :
    d.header.term = d'.header.term ∧ d.header.numEntries = d'.header.numEntries ∧
      d.header.entrySz = d'.header.entrySz ∧ d.data = d'.data := by
  obtain ⟨w, hw⟩ := h.coupled_noRules
  have hwu := hw.unique hu
  have hm := hw.reach.matching hwu
  have htake : (w.peer p).log.take (i + 1) = (w.peer q).log.take (i + 1) :=
    (hm.peer p).agree (hm.peer q) hwu (getElem_of_read hw he) (getElem_of_read hw he') ht
  have hcore : d.core = d'.core := by
    have hp := getElem_of_read hw hd
    have hq := getElem_of_read hw hd'
    rw [← List.getElem?_take_of_lt (show j < i + 1 by omega), htake,
      List.getElem?_take_of_lt (by omega), hq, Option.some.injEq] at hp
    exact hp.symm
  injection hcore with h1 h2 h3 h4 h5
  exact ⟨h1, h2, h3, h5⟩

end

/-- The marker of a leader, on the server that wrote it and on one that has it from there. -/
theorem log_matching_servedRequest :
    ∃ d d' : Entry, ((afterRun servedRequest).servers 0).store.db.read 0 = some d ∧
      ((afterRun servedRequest).servers 1).store.db.read 0 = some d' ∧
      d.header.term = d'.header.term ∧ d.header.numEntries = d'.header.numEntries ∧
      d.header.entrySz = d'.header.entrySz ∧ d.data = d'.data := by
  have hu : (afterRun servedRequest).UniqueLeaders := by decide +kernel
  have hread : ∀ p ∈ [(0 : Fin 3), 1],
      ((afterRun servedRequest).servers p).store.db.read 0 =
        some ⟨⟨7, 0, 0, 1, [0], 1, true, 1⟩, []⟩ ∧
      ((afterRun servedRequest).servers p).store.db.read 1 =
        some ⟨⟨53, 2, 1, 1, [2], 1, false, 1⟩, [7, 8]⟩ := by decide +kernel
  obtain ⟨h0, h0'⟩ := hread 0 (by simp)
  obtain ⟨h1, h1'⟩ := hread 1 (by simp)
  exact ⟨_, _, h0, h1,
    @log_matching 3 sampleExternals _ _ (reach_afterRun _) hu _ _ _ _ _ h0' h1' rfl _
      (Nat.zero_le 1) _ _ h0 h1⟩

end NiovaRaft
