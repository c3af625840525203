import NiovaRaft.Spec.Clients
import NiovaRaft.StateMachine.Resume

/-!
# Coalescing loses nothing

Within one leadership the entries that a leader makes of its buffer, cut into their sub-entries as
the state machine is given them, are the accepted writes in their order.  Two things can go wrong.
The supplements of a write are merged into the buffer before the write is, and a merge that fails is
not noticed: the write is stored without them.  And the state machine is given nothing of an entry
without data, so that writes without data are lost when they come to an entry of their own.
-/

namespace NiovaRaft

open Base Base.Handler

variable {n : Nat}

/-! ## Entries and the writes in them -/

/-- What the state machine is given of an entry. -/
def CoalescedEntry.parts (x : CoalescedEntry) : List (List UInt8) :=
  x.entry.subEntries.map SubEntry.data

/-- An entry is made of the writes `ws`. -/
structure CoalescedEntry.Stores (maxDataSize : Nat) (x : CoalescedEntry) (ws : List ClientWrite) :
    Prop where
  parts : x.parts = ws.map ClientWrite.bytes
  supplements : x.supplements = ws.flatMap ClientWrite.supp
  count : x.entry.header.numEntries ≤ entryNumEntries
  size : x.entry.data.length ≤ maxDataSize

/-- Nothing of the accepted writes `acc` was lost, duplicated or merged on the way into the entries
`wr` and the buffer. -/
structure Lossless (maxDataSize : Nat) (acc : List ClientWrite) (wr : List CoalescedEntry)
    (co : CoWr) : Prop where
  parts : wr.flatMap CoalescedEntry.parts ++ slices co.entrySizes co.buffer =
    acc.map ClientWrite.bytes
  entries : ∃ groups pending, acc = groups.flatten ++ pending ∧
    List.Forall₂ (CoalescedEntry.Stores maxDataSize) wr groups

/-- The writes `acc` are accounted for: by the entries `wr`, and the last ones by the buffer. -/
def Accounted (maxDataSize : Nat) (acc : List ClientWrite) (wr : List CoalescedEntry) (co : CoWr) :
    Prop :=
  ∃ groups pending, acc = groups.flatten ++ pending ∧
    List.Forall₂ (CoalescedEntry.Stores maxDataSize) wr groups ∧
    co.Fills maxDataSize pending ∧ co.ws.ws = pending.flatMap ClientWrite.supp

/-- The parts of entries are their writes. -/
theorem flatMap_parts {sz : Nat} {wr : List CoalescedEntry} {groups : List (List ClientWrite)}
    (h : List.Forall₂ (CoalescedEntry.Stores sz) wr groups) :
    wr.flatMap CoalescedEntry.parts = groups.flatten.map ClientWrite.bytes := by
  induction h with
  | nil => rfl
  | cons hx _ ih => simp [hx.parts, ih]

theorem Accounted.lossless {sz : Nat} {acc : List ClientWrite} {wr : List CoalescedEntry} {co : CoWr}
    (h : Accounted sz acc wr co) : Lossless sz acc wr co := by
  obtain ⟨groups, pending, hacc, hwr, hfills, _⟩ := h
  refine ⟨?_, groups, pending, hacc, hwr⟩
  rw [flatMap_parts hwr, hfills.slices, hacc, List.map_append]

/-- Supplements that the buffer has room for are merged. -/
theorem CoWr.merge_ws {co : CoWr} {supp : List WrSupp}
    (h : supp = [] ∨ co.ws.ws.length + supp.length ≤ RaftServer.netWrSuppMax) :
    (co.merge supp).ws.ws = co.ws.ws ++ supp := by
  unfold CoWr.merge RaftServer.netSmWriteSupplementsMerge
  by_cases hnil : supp = []
  · simp [hnil]
  · have hle := h.resolve_left hnil
    rw [if_neg hnil, if_neg (not_lt.mpr hle)]

section

variable [Externals] {s : ClientProc n} {ws : List ClientWrite}

/-- The entry that a buffer becomes, unless all its writes are empty. -/
theorem stores_coalescedEntry (h : s.coWr.Fills s.proc.ri.entryMaxDataSize ws)
    (hsupp : s.coWr.ws.ws = ws.flatMap ClientWrite.supp) (hpos : 0 < s.coWr.totalSize) :
    CoalescedEntry.Stores s.proc.ri.entryMaxDataSize ⟨Coalesce.coalescedEntry s, s.coWr.ws.ws⟩ ws := by
  have hsum := h.sum_sizes
  have hne : s.coWr.entrySizes.sum ≠ 0 := by omega
  have hdata : s.coWr.buffer.take s.coWr.entrySizes.sum = s.coWr.buffer := by
    rw [hsum, ← h.length_buffer, List.take_length]
  refine ⟨?_, hsupp, ?_, ?_⟩
  · have hidle : ¬ (Coalesce.coalescedEntry s).Idle := by
      simp [Entry.Idle, Coalesce.coalescedEntry, RaftServer.entryOf, hne]
    rw [CoalescedEntry.parts, Entry.subEntries, if_neg hidle, ← h.slices]
    simp only [Coalesce.coalescedEntry, RaftServer.entryOf, hdata, if_neg hne, List.take_length]
    refine List.ext_getElem? fun i => ?_
    rw [List.getElem?_map, List.getElem?_mapIdx, Option.map_map]
    exact congrFun Option.map_id _
  · have hcount := h.count
    rw [h.nentries, ← h.length_sizes] at hcount
    exact hcount
  · have hroom := h.room
    rw [← h.length_buffer, ← hdata] at hroom
    exact hroom

/-- A write of the buffer leaves every write accounted for. -/
theorem Accounted.flushed {acc : List ClientWrite} {wr : List CoalescedEntry}
    (h : Accounted s.proc.ri.entryMaxDataSize acc (wr ++ s.written) s.coWr)
    (hpos : 0 < s.coWr.totalSize) {fuse : Option Nat} :
    Accounted s.proc.ri.entryMaxDataSize acc (wr ++ (Coalesce.flushed s fuse).written)
      (Coalesce.flushed s fuse).coWr := by
  obtain ⟨groups, pending, hacc, hwr, hfills, hsupp⟩ := h
  have hstores := stores_coalescedEntry hfills hsupp hpos
  refine ⟨groups ++ [pending], [], ?_, ?_, (CoWr.holds_zero (Nat.lt_of_lt_of_le hpos hfills.room)).fills,
    rfl⟩
  · simpa using hacc
  · rw [Coalesce.flushed, ← List.append_assoc]
    exact List.rel_append hwr (.cons hstores .nil)

omit [Externals] in
/-- So does a write that goes into the buffer with its supplements. -/
theorem Accounted.taken {acc : List ClientWrite} {wr : List CoalescedEntry} {sz : Nat}
    {w : ClientWrite} (h : Accounted sz acc wr s.coWr) (hholds : ∃ ws, s.coWr.Holds sz ws)
    (hfits : w.data.length + w.appData.length + s.coWr.totalSize ≤ sz)
    (hsupp : w.supp = [] ∨ s.coWr.ws.ws.length + w.supp.length ≤ RaftServer.netWrSuppMax) :
    Accounted sz (acc ++ [w]) wr (Coalesce.taken s w).coWr := by
  obtain ⟨groups, pending, hacc, hwr, hfills, hws⟩ := h
  obtain ⟨_, hroom⟩ := hholds
  have hholds : s.coWr.Holds sz pending := hfills.holds hroom.count.ne hroom.room.ne
  refine ⟨groups, pending ++ [w], ?_, hwr, (hholds.merge w.supp).push ?_, ?_⟩
  · rw [hacc, List.append_assoc]
  · rw [CoWr.merge_totalSize]
    exact hfits
  · change (s.coWr.merge w.supp).ws.ws = _
    rw [CoWr.merge_ws hsupp, hws]
    simp

end

/-! ## One leadership -/

namespace Clients

/-- The buffer that a write goes into: an empty one when the write does not fit beside what is
there. -/
def receiving (c : Clients n) (p : Fin n) (w : ClientWrite) : CoWr :=
  if w.data.length + w.appData.length + (c.coWr p).totalSize >
      (c.cluster.servers p).entryMaxDataSize then .zero
  else c.coWr p

/-- A write that goes to `p` is no longer than an entry may be. -/
def WriteFits (p : Fin n) (c : Clients n) : ClientEvent n → Prop
  | .request q _ _ w _ _ =>
      q = p → w.data.length + w.appData.length ≤ (c.cluster.servers p).entryMaxDataSize
  | .coWrTimer .. | .peer _ => True

instance (p : Fin n) (c : Clients n) : ∀ e : ClientEvent n, Decidable (WriteFits p c e)
  | .request .. => inferInstanceAs (Decidable (_ → _))
  | .coWrTimer .. | .peer _ => .isTrue trivial

/-- The supplements of a write fit into the buffer of `p`, and no entry is made of empty writes
alone. -/
def WriteKept (p : Fin n) (c : Clients n) : ClientEvent n → Prop
  | .request q coalescedWrites _ w _ _ => q = p →
      (w.supp = [] ∨
        (c.receiving p w).ws.ws.length + w.supp.length ≤ RaftServer.netWrSuppMax) ∧
      (coalescedWrites = false ∨ (c.receiving p w).nentries + 1 = entryNumEntries →
        0 < (c.receiving p w).totalSize + w.data.length + w.appData.length)
  | .coWrTimer q _ _ _ => q = p → (c.coWr p).nentries ≠ 0 → 0 < (c.coWr p).totalSize
  | .peer _ => True

instance (p : Fin n) (c : Clients n) : ∀ e : ClientEvent n, Decidable (WriteKept p c e)
  | .request .. => inferInstanceAs (Decidable (_ → _ ∧ (_ → _)))
  | .coWrTimer .. => inferInstanceAs (Decidable (_ → _ → _))
  | .peer _ => .isTrue trivial

/-- Server `p` leads term `t`. -/
def Leads (p : Fin n) (t : Int) (c : Clients n) : Prop :=
  (c.cluster.servers p).isLeader = true ∧ (c.cluster.servers p).leader.leaderTerm = t

instance (p : Fin n) (t : Int) (c : Clients n) : Decidable (Leads p t c) :=
  inferInstanceAs (Decidable (_ ∧ _))

/-- The writes a server has accepted. -/
def acceptedBy (c : Clients n) (p : Fin n) : List ClientWrite :=
  (c.accepted.filter (·.1 = p)).map (·.2.2)

/-- The entries a server has made of its buffer. -/
def writtenBy (c : Clients n) (p : Fin n) : List CoalescedEntry :=
  (c.written.filter (·.1 = p)).map (·.2)

section

variable [Externals] {opts : Fin n → Options} {c : Clients n} {p : Fin n} {acc : List ClientWrite}
  {wr : List CoalescedEntry}

/-- The writes `acc` and those of the request in hand are accounted for. -/
def Tracks (c : Clients n) (p : Fin n) (acc : List ClientWrite) (wr : List CoalescedEntry)
    (s : ClientProc n) : Prop :=
  Accounted (c.cluster.servers p).entryMaxDataSize (acc ++ s.accepted.map Prod.snd)
    (wr ++ s.written) s.coWr

/-- The buffer is written, unless it holds nothing or only empty writes. -/
theorem Tracks.wp_flush {s : ClientProc n} {Q : Unit → ClientProc n → Prop} (h : Tracks c p acc wr s)
    (hs : Serving opts c p s) (hpos : s.coWr.nentries ≠ 0 → 0 < s.coWr.totalSize)
    (hnone : s.coWr.nentries = 0 → Q () s)
    (hQ : ∀ fuse, Ready opts c p (Coalesce.flushed s fuse) →
      Tracks c p acc wr (Coalesce.flushed s fuse) → Q () (Coalesce.flushed s fuse)) :
    Coalesce.writeCoalescedEntries.wp Q (fun _ => True) s := by
  refine wp_mono (hs.wp_flush hnone fun fuse hne _ hready => hQ fuse hready ?_) (fun _ _ => id)
    fun _ _ => trivial
  have hacc := h
  unfold Tracks at hacc ⊢
  rw [← hs.maxDataSize] at hacc ⊢
  exact hacc.flushed (hpos hne)

/-- A request that is kept leaves every write accounted for. -/
theorem Tracks.wp_request {s : ClientProc n} (h : Tracks c p acc wr s) (hr : Ready opts c p s)
    (hco : s.coWr = c.coWr p) {coalescedWrites fresh : Bool} {w : ClientWrite} {fuse : Option Nat}
    {keep : Nat} (hfits : WriteFits p c (.request p coalescedWrites fresh w fuse keep))
    (hkept : WriteKept p c (.request p coalescedWrites fresh w fuse keep)) :
    (Coalesce.clientRncrComplete coalescedWrites fresh w).wp
      (fun _ s' => Ready opts c p s' ∧ Tracks c p acc wr s') (fun _ => True) s := by
  have hlen : w.data.length + w.appData.length ≤ (c.cluster.servers p).entryMaxDataSize := hfits rfl
  obtain ⟨hsupp, hbytes⟩ := hkept rfl
  have hsz := hr.1.maxDataSize
  refine Coalesce.wp_clientRncrComplete
    (J := fun s' => Ready opts c p s' ∧ Tracks c p acc wr s' ∧ s'.coWr = c.receiving p w)
    (K := fun s' => Serving opts c p s' ∧ Tracks c p acc wr s' ∧
      s'.coWr.nentries = (c.receiving p w).nentries + 1 ∧
      s'.coWr.totalSize = (c.receiving p w).totalSize + w.data.length + w.appData.length)
    (fun _ => trivial) (fun _ => ⟨hr, h⟩) (fun _ hover => ?_) (fun _ hover => ?_) ?_
    (fun _ _ _ => trivial) ?_ ?_
  · refine ⟨hr, h, ?_⟩
    rw [Coalesce.overflows, hsz, hco] at hover
    rw [receiving, if_neg hover, hco]
  · have hover' := hover
    rw [Coalesce.overflows, hsz, hco] at hover'
    have hreceive : c.receiving p w = .zero := by
      rw [receiving, if_pos hover']
    have htotal : 0 < s.coWr.totalSize := by
      rw [hco]
      omega
    refine h.wp_flush hr.1 (fun _ => htotal) (fun hnone => ?_) fun fuse hready htracks =>
      ⟨hready, htracks, hreceive.symm⟩
    -- a buffer without writes has no bytes
    obtain ⟨ws, hws⟩ := hr.2
    rw [hws.nentries] at hnone
    rw [hws.total, List.length_eq_zero_iff.mp hnone] at htotal
    exact absurd htotal (by simp)
  · rintro s' ⟨⟨hs', hholds⟩, htracks, hco'⟩ hover
    refine ⟨?_, ?_, ?_, ?_⟩
    · obtain ⟨ws, hws⟩ := hholds
      exact hs'.taken hws hover
    · have hover' := not_lt.mp hover
      rw [hs'.maxDataSize] at hover' hholds
      have htaken := Accounted.taken htracks hholds hover' (by rwa [hco'])
      simpa [Tracks, Coalesce.taken] using htaken
    · simp [Coalesce.taken, CoWr.push, hco']
    · simp [Coalesce.taken, CoWr.push, hco']
  · rintro s' ⟨hs', htracks, _, _⟩ hfull
    obtain ⟨ws, hws⟩ := hs'.fills
    simp only [Coalesce.fullAfter, not_or] at hfull
    exact ⟨⟨hs', ws, hws.holds hfull.2.1 hfull.2.2⟩, htracks⟩
  · rintro s' ⟨hs', htracks, hnent, htotal⟩ hfull
    refine htracks.wp_flush hs' (fun _ => ?_) (fun hnone => absurd hnone (by omega))
      fun fuse hready htracks' => ⟨hready, htracks'⟩
    rw [htotal]
    rcases hfull with hoff | hcount | hroom
    · exact hbytes (.inl hoff)
    · exact hbytes (.inr (hnent.symm.trans hcount))
    · rw [← htotal, hroom]
      exact RaftInstance.entryMaxDataSize_pos _

/-- Since `c₀`, every write that server `p` has accepted is accounted for. -/
def AccountedSince (c c₀ : Clients n) (p : Fin n) : Prop :=
  ∃ acc wr, c.acceptedBy p = c₀.acceptedBy p ++ acc ∧ c.writtenBy p = c₀.writtenBy p ++ wr ∧
    (c.cluster.servers p).entryMaxDataSize = (c₀.cluster.servers p).entryMaxDataSize ∧
    Accounted (c.cluster.servers p).entryMaxDataSize acc wr (c.coWr p)

omit [Externals] in
/-- A process that was restarted does not lead. -/
theorem restart_not_leader (ri : RaftInstance n) (keep : Nat) :
    (Cluster.restart ri keep).isLeader = false := by
  have hstate := (RaftServer.instanceRun_loaded ri.self ri.opts
    (ri.store.recoverable.getD keep ri.store.db)).state
  simpa [RaftInstance.isLeader, Cluster.restart] using hstate

/-- A handler of requests to `p` that leaves `p` the leader. -/
theorem AccountedSince.serve {c₀ : Clients n} (h : c.AccountedSince c₀ p) (hsound : Sound opts c)
    {fuse : Option Nat} {keep : Nat} {m : ClientHandler n Unit}
    (hm : ∀ acc wr, Tracks c p acc wr (c.clientProc p fuse) →
      Ready opts c p (c.clientProc p fuse) →
      m.wp (fun _ s' => Ready opts c p s' ∧ Tracks c p acc wr s') (fun _ => True)
        (c.clientProc p fuse))
    (hlead : ((c.serve p fuse keep m).cluster.servers p).isLeader = true) :
    (c.serve p fuse keep m).AccountedSince c₀ p := by
  obtain ⟨acc, wr, hacc, hwr, hmax, haccounted⟩ := h
  unfold Clients.serve at hlead ⊢
  split at hlead
  · rename_i hserves
    rw [if_pos hserves]
    have hwp := hm acc wr (by simpa [Tracks, clientProc] using haccounted)
      ⟨hsound.serving hserves fuse, hsound.holds p⟩
    cases hres : m (c.clientProc p fuse) with
    | ok u s =>
      obtain ⟨hready, htracks⟩ := wp_of_ok hres hwp
      have hsize : s.proc.ri.entryMaxDataSize = (c.cluster.servers p).entryMaxDataSize :=
        hready.1.maxDataSize
      refine ⟨acc ++ s.accepted.map Prod.snd, wr ++ s.written, ?_, ?_, ?_, ?_⟩
      · simp only [acceptedBy] at hacc
        simp [acceptedBy, commit, List.filter_map, Function.comp_def, hacc]
      · simp only [writtenBy] at hwr
        simp [writtenBy, commit, List.filter_map, Function.comp_def, hwr]
      · simpa [commit, hsize] using hmax
      · simpa [commit, hsize, Tracks] using htracks
    | abort s =>
      rw [hres] at hlead
      simp [commit, restart_not_leader] at hlead
  · rename_i hserves
    rw [if_neg hserves]
    exact ⟨acc, wr, hacc, hwr, hmax, haccounted⟩

omit [Externals] in
/-- A request to another server. -/
theorem AccountedSince.serve_ne {c₀ : Clients n} (h : c.AccountedSince c₀ p) {q : Fin n} (hq : p ≠ q)
    {fuse : Option Nat} {keep : Nat} {m : ClientHandler n Unit} :
    (c.serve q fuse keep m).AccountedSince c₀ p := by
  have hcommit : ∀ (s : ClientProc n) (ri : RaftInstance n) (co : CoWr),
      (c.commit q s ri co).AccountedSince c₀ p := by
    intro s ri co
    obtain ⟨acc, wr, hacc, hwr, hmax, haccounted⟩ := h
    refine ⟨acc, wr, ?_, ?_, ?_, ?_⟩
    · rw [← hacc]
      simp [acceptedBy, commit, List.filter_map, Function.comp_def, hq.symm]
    · rw [← hwr]
      simp [writtenBy, commit, List.filter_map, Function.comp_def, hq.symm]
    · simpa [commit, Function.update_of_ne hq] using hmax
    · simpa [commit, Function.update_of_ne hq] using haccounted
  unfold Clients.serve
  split
  · split
    · exact hcommit _ _ _
    · exact hcommit _ _ _
  · exact h

/-- One event of a leadership of `p`. -/
theorem AccountedSince.step {c₀ : Clients n} (h : c.AccountedSince c₀ p) (hsound : Sound opts c)
    {e : ClientEvent n} (hfits : WriteFits p c e) (hkept : WriteKept p c e)
    (hlead : ((c.step e).cluster.servers p).isLeader = true) : (c.step e).AccountedSince c₀ p := by
  cases e with
  | request q coalescedWrites fresh w fuse keep =>
    by_cases hq : q = p
    · subst hq
      exact h.serve hsound (fun acc wr htracks hready => htracks.wp_request hready rfl hfits hkept)
        hlead
    · exact h.serve_ne (Ne.symm hq)
  | coWrTimer q fresh fuse keep =>
    by_cases hq : q = p
    · subst hq
      refine h.serve hsound (fun acc wr htracks hready => ?_) hlead
      refine Coalesce.wp_leaderCoWrTimerExpired (fun _ => trivial) (fun _ => ⟨hready, htracks⟩)
        fun _ => ?_
      exact htracks.wp_flush hready.1 (hkept rfl) (fun _ => ⟨hready, htracks⟩)
        fun fuse hr ht => ⟨hr, ht⟩
    · exact h.serve_ne (Ne.symm hq)
  | peer e =>
    unfold Clients.step at hlead ⊢
    dsimp only at hlead ⊢
    split at hlead
    · rename_i hidle
      rw [if_pos hidle]
      exact h
    · rename_i hidle
      rw [if_neg hidle]
      obtain ⟨acc, wr, hacc, hwr, hmax, haccounted⟩ := h
      have hsize : ((c.cluster.step e).servers p).entryMaxDataSize =
          (c.cluster.servers p).entryMaxDataSize := by
        unfold RaftInstance.entryMaxDataSize
        rw [Cluster.step_opts]
      refine ⟨acc, wr, hacc, hwr, hsize.trans hmax, ?_⟩
      have hco : Function.update c.coWr e.server (c.coWrAfter e) p = c.coWr p := by
        by_cases hp : p = e.server
        · subst hp
          rw [Function.update_self]
          have hen : c.cluster.enabled e = true := by simpa using (not_or.mp hidle).2
          unfold Cluster.step at hlead
          rw [if_pos hen] at hlead
          unfold coWrAfter
          cases hres : c.cluster.handler e (c.cluster.proc e) with
          | ok u s =>
            rw [hres] at hlead
            have hstate : s.ri.state = .leader := by
              simpa [Cluster.commit, RaftInstance.isLeader] using hlead
            simp [RaftInstance.isFollower, hstate]
          | abort s =>
            rw [hres] at hlead
            simp [Cluster.commit, restart_not_leader] at hlead
        · rw [Function.update_of_ne hp]
      dsimp only
      rw [hco, hsize]
      exact haccounted

end

end Clients

/-- A run within a leadership of `p`. -/
theorem Clients.AccountedSince.run [Externals] {opts : Fin n → Options} {c₀ c : Clients n} {p : Fin n}
    {t : Int} (h : c.AccountedSince c₀ p) (hsound : Clients.Sound opts c) {es : List (ClientEvent n)}
    (hes : Clients.AllEvents
      (fun c e => c.WriteFits p e ∧ c.WriteKept p e ∧ (c.step e).Leads p t) c es) :
    (c.run es).AccountedSince c₀ p := by
  induction es generalizing c with
  | nil => exact h
  | cons e es ih =>
    obtain ⟨⟨hfits, hkept, hlead⟩, hes⟩ := hes
    exact ih (h.step hsound hfits hkept hlead.1) (hsound.step e) hes

/-- As long as a server leads a term, from a point on where its buffer is empty: if the supplements
of every write fit into the buffer it goes into, and no entry is made of empty writes alone, then
the entries the server has made since, cut up as the state machine is given them, and what its
buffer holds are the writes it has accepted since. -/
theorem coalescing_lossless [Externals] {opts : Fin n → Options} {c : Clients n} {p : Fin n} {t : Int}
    (h : Clients.Reach Clients.anyEvent opts c) (hempty : c.coWr p = .zero)
    {es : List (ClientEvent n)}
    (hes : Clients.AllEvents
      (fun c e => c.WriteFits p e ∧ c.WriteKept p e ∧ (c.step e).Leads p t) c es) :
    ∃ acc wr, (c.run es).acceptedBy p = c.acceptedBy p ++ acc ∧
      (c.run es).writtenBy p = c.writtenBy p ++ wr ∧
      Lossless (c.cluster.servers p).entryMaxDataSize acc wr ((c.run es).coWr p) := by
  have hnone : Accounted (c.cluster.servers p).entryMaxDataSize [] [] (c.coWr p) :=
    ⟨[], [], rfl, .nil, hempty ▸ (CoWr.holds_zero (RaftInstance.entryMaxDataSize_pos _)).fills,
      by rw [hempty]; rfl⟩
  have hsince : c.AccountedSince c p := ⟨[], [], by simp, by simp, rfl, hnone⟩
  obtain ⟨acc, wr, hacc, hwr, hmax, haccounted⟩ := hsince.run h.sound hes
  rw [hmax] at haccounted
  exact ⟨acc, wr, hacc, hwr, haccounted.lossless⟩

/-- Two writes, one with supplements and data of the application. -/
def twoWrites : List (ClientEvent 3) :=
  [.request 0 true true ⟨[1, 2], [3], [⟨.write, none, [1], [2]⟩]⟩ none 0,
    .request 0 true true ⟨[4], [], []⟩ none 0, .coWrTimer 0 true none 0]

/-- The two writes are in one entry. -/
theorem coalescing_lossless_twoWrites :
    ∃ acc wr, (@Clients.run 3 sampleExternals (afterClientRun (marksTerm.map .peer)) twoWrites).writtenBy 0
        = wr ∧ wr.map CoalescedEntry.parts = [[[1, 2, 3], [4]]] ∧
      Lossless 4193808 acc wr
        ((@Clients.run 3 sampleExternals (afterClientRun (marksTerm.map .peer)) twoWrites).coWr 0) := by
  have hempty : (afterClientRun (marksTerm.map .peer)).coWr 0 = .zero := by decide +kernel
  have hes : @Clients.AllEvents 3 sampleExternals
      (fun c e => c.WriteFits 0 e ∧ c.WriteKept 0 e ∧ (@Clients.step 3 sampleExternals c e).Leads 0 1)
      (afterClientRun (marksTerm.map .peer)) twoWrites := by decide +kernel
  have hsize : ((afterClientRun (marksTerm.map .peer)).cluster.servers 0).entryMaxDataSize = 4193808 := by
    decide +kernel
  have hnone : (afterClientRun (marksTerm.map .peer)).writtenBy 0 = [] := by decide +kernel
  obtain ⟨acc, wr, _, hwr, hlossless⟩ := @coalescing_lossless 3 sampleExternals threeServers _ 0 1
    (reach_afterClientRun (marksTerm.map .peer)) hempty _ hes
  rw [hnone, List.nil_append] at hwr
  refine ⟨acc, wr, hwr, ?_, hsize ▸ hlossless⟩
  rw [← hwr]
  decide +kernel

/-! ## Too many supplements -/

namespace Clients

variable [Externals] {c : Clients n} {p : Fin n}

omit [Externals] in
theorem not_booting_of_serves {ri : RaftInstance n} (h : Cluster.serves ri = true) :
    ri.procState ≠ .booting := by
  simp only [Cluster.serves, decide_eq_true_eq] at h
  simp [h.1]

/-- A write that a buffer with coalescing has room for. -/
theorem step_request_of_room {w : ClientWrite} {keep : Nat}
    (hserves : Cluster.serves (c.cluster.servers p) = true)
    (hacc : RaftServer.Accepts (c.cluster.servers p))
    (hcount : (c.coWr p).nentries + 1 < entryNumEntries)
    (hroom : w.data.length + w.appData.length + (c.coWr p).totalSize <
      (c.cluster.servers p).entryMaxDataSize) :
    c.step (.request p true true w none keep) =
      { c with
        coWr := Function.update c.coWr p (((c.coWr p).merge w.supp).push w.data w.appData)
        accepted := c.accepted ++ [(p, (c.cluster.servers p).logHdr.term, w)] } := by
  have hwp : (Coalesce.clientRncrComplete true true w).wp
      (fun _ s' => s' = Coalesce.taken (c.clientProc p none) w) (fun _ => False)
      (c.clientProc p none) := by
    refine Coalesce.wp_clientRncrComplete (J := fun s' => s' = c.clientProc p none)
      (K := fun s' => s' = Coalesce.taken (c.clientProc p none) w) (fun h => h hacc.term) ?_
      (fun _ _ => rfl) (fun _ hover => absurd hroom (by exact not_lt.mpr hover.le))
      (fun s' hs' _ => by rw [hs']) ?_ (fun _ h _ => h) ?_
    · exact fun hdenied => absurd hacc (hdenied (not_booting_of_serves hserves) rfl)
    · rintro s' rfl hdies
      have hover := hdies (by change (c.coWr p).nentries < _; omega)
        (by change (c.coWr p).totalSize < (c.cluster.servers p).entryMaxDataSize; omega)
      exact absurd hroom (not_lt.mpr hover.le)
    · rintro s' rfl hfull
      rcases hfull with hoff | hcount' | hroom'
      · exact absurd hoff (by simp)
      · simp [Coalesce.taken, CoWr.push, clientProc] at hcount'
        omega
      · simp [Coalesce.taken, CoWr.push, clientProc] at hroom'
        omega
  obtain ⟨_, s', hok, rfl⟩ := exists_ok_of_wp hwp
  have hstep : c.step (.request p true true w none keep) =
      c.serve p none keep (Coalesce.clientRncrComplete true true w) := rfl
  rw [hstep, Clients.serve, if_pos hserves, hok]
  simp [commit, Coalesce.taken, clientProc]

/-- The timer of a buffer that holds writes. -/
theorem step_coWrTimer_of_writes {keep : Nat}
    (hserves : Cluster.serves (c.cluster.servers p) = true)
    (hacc : RaftServer.Accepts (c.cluster.servers p)) (hc : Consistent (c.cluster.servers p))
    (hterm : (c.cluster.servers p).newestUnsync.term ≤ (c.cluster.servers p).logHdr.term)
    (hne : (c.coWr p).nentries ≠ 0) (hlen : (c.coWr p).entrySizes.length ≠ 0)
    (hsum : (c.coWr p).entrySizes.sum ≤ (c.cluster.servers p).entryMaxDataSize) :
    (c.step (.coWrTimer p true none keep)).written =
        c.written ++ [(p, ⟨Coalesce.coalescedEntry (c.clientProc p none), (c.coWr p).ws.ws⟩)] ∧
      (c.step (.coWrTimer p true none keep)).accepted = c.accepted ∧
      (c.step (.coWrTimer p true none keep)).coWr p = .zero ∧
      ((c.step (.coWrTimer p true none keep)).cluster.servers p).isLeader = true ∧
      ((c.step (.coWrTimer p true none keep)).cluster.servers p).leader =
        (c.cluster.servers p).leader := by
  have hwp : (Coalesce.leaderCoWrTimerExpired true).wp
      (fun _ s' => ∃ fuse, s' = Coalesce.flushed (c.clientProc p none) fuse) (fun _ => False)
      (c.clientProc p none) := by
    refine Coalesce.wp_leaderCoWrTimerExpired (fun h => h hacc.term) (fun hdenied => ?_) fun _ => ?_
    · exact absurd hacc (hdenied (not_booting_of_serves hserves) rfl)
    · exact Coalesce.wp_writeCoalescedEntries hc
        (fun hdies => hdies hacc.leads hterm hsum hlen rfl) (fun h => absurd h hne)
        fun fuse _ _ _ => ⟨fuse, rfl⟩
  obtain ⟨_, s', hok, fuse, rfl⟩ := exists_ok_of_wp hwp
  have hstep : c.step (.coWrTimer p true none keep) =
      c.serve p none keep (Coalesce.leaderCoWrTimerExpired true) := rfl
  rw [hstep, Clients.serve, if_pos hserves, hok]
  refine ⟨?_, ?_, ?_, ?_, ?_⟩
  · simp [commit, Coalesce.flushed, clientProc]
  · simp [commit, Coalesce.flushed, clientProc]
  · simp [commit, Coalesce.flushed]
  · simpa [commit, Coalesce.flushed, RaftInstance.withEntry, RaftInstance.isLeader, clientProc]
      using hacc.leads
  · simp [commit, Coalesce.flushed, RaftInstance.withEntry, clientProc]

end Clients

/-- A leader that takes requests. -/
def acceptingLeader : Clients 3 := afterClientRun (marksTerm.map .peer)

/-- A write with the supplements `supp`, and another one with one supplement. -/
def crowdedWrites (supp : List WrSupp) : List (ClientEvent 3) :=
  [.request 0 true true ⟨[1], [], supp⟩ none 0,
    .request 0 true true ⟨[2], [], [⟨.write, none, [3], [4]⟩]⟩ none 0, .coWrTimer 0 true none 0]

theorem reach_acceptingLeader :
    @Clients.Reach 3 sampleExternals Clients.anyEvent threeServers acceptingLeader :=
  reach_afterClientRun (marksTerm.map .peer)

/-- The leader of the first term, before any write. -/
structure FreshLeader (c : Clients 3) (ri : RaftInstance 3) : Prop where
  serves : Cluster.serves ri = true
  accepts : RaftServer.Accepts ri
  size : ri.entryMaxDataSize = 4193808
  term : ri.logHdr.term = 1
  leaderTerm : ri.leader.leaderTerm = 1
  newest : ri.newestUnsync.term ≤ ri.logHdr.term
  log : ri.store.db.entries.length = 1
  running : ri.procState = .running
  coWr : c.coWr 0 = .zero
  accepted : c.accepted = []
  written : c.written = []

theorem freshLeader_acceptingLeader :
    FreshLeader acceptingLeader (acceptingLeader.cluster.servers 0) where
  serves := by decide +kernel
  accepts := ⟨by decide +kernel, by decide +kernel, by decide +kernel⟩
  size := by decide +kernel
  term := by decide +kernel
  leaderTerm := by decide +kernel
  newest := by decide +kernel
  log := by decide +kernel
  running := by decide +kernel
  coWr := by decide +kernel
  accepted := by decide +kernel
  written := by decide +kernel

/-- The leader with the buffer `co`, after it has accepted some writes. -/
def crowdedLeader (co : CoWr) (accepted : List ClientWrite) : Clients 3 :=
  { acceptingLeader with
    coWr := Function.update acceptingLeader.coWr 0 co
    accepted := accepted.map (0, 1, ·) }

section

variable {co : CoWr} {accepted : List ClientWrite}

theorem crowdedLeader_server :
    (crowdedLeader co accepted).cluster.servers 0 = acceptingLeader.cluster.servers 0 := by
  simp only [crowdedLeader]

theorem crowdedLeader_coWr : (crowdedLeader co accepted).coWr 0 = co := by
  simp [crowdedLeader]

theorem leads_crowdedLeader : (crowdedLeader co accepted).Leads 0 1 := by
  rw [Clients.Leads, crowdedLeader_server]
  exact ⟨freshLeader_acceptingLeader.accepts.leads, freshLeader_acceptingLeader.leaderTerm⟩

/-- One more write in the buffer. -/
theorem step_crowdedLeader {w : ClientWrite} (hcount : co.nentries < 50) (hroom : co.totalSize < 50)
    (hw : w.data.length + w.appData.length = 1) :
    @Clients.step 3 sampleExternals (crowdedLeader co accepted) (.request 0 true true w none 0) =
      crowdedLeader ((co.merge w.supp).push w.data w.appData) (accepted ++ [w]) := by
  have hfresh := freshLeader_acceptingLeader
  rw [@Clients.step_request_of_room 3 sampleExternals (crowdedLeader co accepted) 0 w 0]
  · rw [crowdedLeader_server, crowdedLeader_coWr, hfresh.term]
    simp [crowdedLeader]
  · rw [crowdedLeader_server]
    exact hfresh.serves
  · rw [crowdedLeader_server]
    exact hfresh.accepts
  · rw [crowdedLeader_coWr, entryNumEntries]
    omega
  · rw [crowdedLeader_coWr, crowdedLeader_server, hfresh.size]
    omega

/-- The buffer is written. -/
theorem timer_crowdedLeader (hne : co.nentries ≠ 0) (hlen : co.entrySizes.length ≠ 0)
    (hsum : co.entrySizes.sum ≤ 4193808) :
    let c := @Clients.step 3 sampleExternals (crowdedLeader co accepted) (.coWrTimer 0 true none 0)
    c.written = [(0, ⟨@RaftServer.entryOf 3 sampleExternals (acceptingLeader.cluster.servers 0) 1 1
        co.buffer co.entrySizes false, co.ws.ws⟩)] ∧
      c.accepted = accepted.map (0, 1, ·) ∧ c.Leads 0 1 := by
  have hfresh := freshLeader_acceptingLeader
  have hsound := @Clients.Reach.sound 3 sampleExternals _ _ _ reach_acceptingLeader
  have hcons : Consistent (acceptingLeader.cluster.servers 0) :=
    @Cluster.Reach.consistent 3 sampleExternals _ _ _
      (@Clients.Sound.reach 3 sampleExternals _ _ hsound) 0 hfresh.running
  obtain ⟨hwritten, haccepted, -, hlead, hleader⟩ :=
    @Clients.step_coWrTimer_of_writes 3 sampleExternals (crowdedLeader co accepted) 0 0
      (by rw [crowdedLeader_server]; exact hfresh.serves)
      (by rw [crowdedLeader_server]; exact hfresh.accepts)
      (by rw [crowdedLeader_server]; exact hcons)
      (by rw [crowdedLeader_server]; exact hfresh.newest) (by rwa [crowdedLeader_coWr])
      (by rwa [crowdedLeader_coWr])
      (by rwa [crowdedLeader_coWr, crowdedLeader_server, hfresh.size])
  refine ⟨?_, ?_, hlead, ?_⟩
  · rw [hwritten, crowdedLeader_coWr]
    simp only [Coalesce.coalescedEntry, Clients.clientProc, crowdedLeader_server, crowdedLeader_coWr,
      hfresh.term, hfresh.log]
    simp [crowdedLeader, hfresh.written]
  · rw [haccepted, crowdedLeader]
  · rw [hleader, crowdedLeader_server]
    exact hfresh.leaderTerm

end

/-- The buffer after writes of the given sizes, the first of which has brought `supp`. -/
def crowdedBuffer (sizes : List Nat) (bytes : List UInt8) (supp : List WrSupp) : CoWr :=
  ⟨sizes.length, sizes, sizes.sum, ⟨supp, 0, false⟩, bytes⟩

section

variable {supp : List WrSupp} (hlen : supp.length = RaftServer.netWrSuppMax)
include hlen

theorem crowdedWrites_first :
    @Clients.step 3 sampleExternals acceptingLeader (.request 0 true true ⟨[1], [], supp⟩ none 0) =
      crowdedLeader (crowdedBuffer [1] [1] supp) [⟨[1], [], supp⟩] := by
  have hne : supp ≠ [] := by
    intro h
    rw [h, RaftServer.netWrSuppMax] at hlen
    simp at hlen
  have hfresh := freshLeader_acceptingLeader
  have hstart : acceptingLeader = crowdedLeader .zero [] := by
    rw [crowdedLeader, ← hfresh.coWr, Function.update_eq_self, List.map_nil, ← hfresh.accepted]
  rw [hstart, step_crowdedLeader (by decide) (by decide) rfl]
  simp [crowdedBuffer, CoWr.merge, RaftServer.netSmWriteSupplementsMerge, hne, hlen, CoWr.zero,
    CoWr.push]

/-- The supplements of the second write do not fit, and the write is taken without them. -/
theorem crowdedWrites_second {w : ClientWrite} :
    @Clients.step 3 sampleExternals (crowdedLeader (crowdedBuffer [1] [1] supp) [w])
        (.request 0 true true ⟨[2], [], [⟨.write, none, [3], [4]⟩]⟩ none 0) =
      crowdedLeader (crowdedBuffer [1, 1] [1, 2] supp)
        [w, ⟨[2], [], [⟨.write, none, [3], [4]⟩]⟩] := by
  rw [step_crowdedLeader (by simp [crowdedBuffer]) (by simp [crowdedBuffer]) rfl]
  simp [crowdedBuffer, CoWr.merge, RaftServer.netSmWriteSupplementsMerge, hlen, CoWr.push]

/-- Every write fits and the server leads throughout, and the supplement of the second write is
lost. -/
theorem crowdedWrites_lose :
    @Clients.AllEvents 3 sampleExternals
        (fun c e => c.WriteFits 0 e ∧ (@Clients.step 3 sampleExternals c e).Leads 0 1)
        acceptingLeader (crowdedWrites supp) ∧
      ∀ acc wr, (@Clients.run 3 sampleExternals acceptingLeader (crowdedWrites supp)).acceptedBy 0 =
          acceptingLeader.acceptedBy 0 ++ acc →
        (@Clients.run 3 sampleExternals acceptingLeader (crowdedWrites supp)).writtenBy 0 =
          acceptingLeader.writtenBy 0 ++ wr →
        ¬ Lossless 4193808 acc wr
          ((@Clients.run 3 sampleExternals acceptingLeader (crowdedWrites supp)).coWr 0) := by
  have hsize := freshLeader_acceptingLeader.size
  have hfirst := crowdedWrites_first hlen
  have hsecond := crowdedWrites_second hlen (w := ⟨[1], [], supp⟩)
  obtain ⟨hwritten, haccepted, hlead⟩ := @timer_crowdedLeader (crowdedBuffer [1, 1] [1, 2] supp)
    [⟨[1], [], supp⟩, ⟨[2], [], [⟨.write, none, [3], [4]⟩]⟩]
    (by simp [crowdedBuffer]) (by simp [crowdedBuffer]) (by simp [crowdedBuffer])
  constructor
  · refine ⟨⟨fun _ => ?_, ?_⟩, ⟨fun _ => ?_, ?_⟩, ⟨trivial, ?_⟩, trivial⟩
    · rw [hsize]
      exact Nat.le_of_ble_eq_true rfl
    · rw [hfirst]
      exact leads_crowdedLeader
    · rw [hfirst, crowdedLeader_server, hsize]
      decide
    · rw [hfirst, hsecond]
      exact leads_crowdedLeader
    · rw [hfirst, hsecond]
      exact hlead
  · have hrun : @Clients.run 3 sampleExternals acceptingLeader (crowdedWrites supp) =
        @Clients.step 3 sampleExternals (crowdedLeader (crowdedBuffer [1, 1] [1, 2] supp)
          [⟨[1], [], supp⟩, ⟨[2], [], [⟨.write, none, [3], [4]⟩]⟩]) (.coWrTimer 0 true none 0) := by
      simp only [Clients.run, crowdedWrites, List.foldl_cons, List.foldl_nil]
      rw [hfirst, hsecond]
    have hnone : acceptingLeader.acceptedBy 0 = [] := by
      rw [Clients.acceptedBy, freshLeader_acceptingLeader.accepted]
      rfl
    have hnone' : acceptingLeader.writtenBy 0 = [] := by
      rw [Clients.writtenBy, freshLeader_acceptingLeader.written]
      rfl
    intro acc wr hacc hwr hlossless
    rw [hrun, Clients.acceptedBy, haccepted, hnone, List.nil_append] at hacc
    rw [hrun, Clients.writtenBy, hwritten, hnone', List.nil_append] at hwr
    obtain ⟨groups, pending, hgroups, hstores⟩ := hlossless.entries
    have hacc' : acc = [⟨[1], [], supp⟩, ⟨[2], [], [⟨.write, none, [3], [4]⟩]⟩] := by
      simpa using hacc.symm
    rw [← show _ = wr by simpa using hwr] at hstores
    -- the one entry has both parts, so both writes are in it
    cases hstores with
    | @cons _ ws _ _ hentry hrest =>
      cases hrest
      have hparts : (@RaftServer.entryOf 3 sampleExternals (acceptingLeader.cluster.servers 0) 1 1
          [1, 2] [1, 1] false).subEntries.length = 2 := by decide +kernel
      have hcount : ws.length = 2 := by
        have hlength := congrArg List.length hentry.parts
        rw [List.length_map, CoalescedEntry.parts, List.length_map] at hlength
        exact hlength.symm.trans hparts
      have hws : ws = [⟨[1], [], supp⟩, ⟨[2], [], [⟨.write, none, [3], [4]⟩]⟩] := by
        rw [hacc'] at hgroups
        simp only [List.flatten_cons, List.flatten_nil, List.append_nil] at hgroups
        exact (List.append_inj_left (by rw [List.append_nil]; exact hgroups) (by rw [hcount]; rfl)).symm
      have hsupp := congrArg List.length hentry.supplements
      rw [hws] at hsupp
      simp [crowdedBuffer] at hsupp

end

/-- The first of two writes has as many supplements as the buffer holds.  The second write is stored
without its own. -/
theorem crowdedWrites_not_lossless :
    @Clients.Reach 3 sampleExternals Clients.anyEvent threeServers acceptingLeader ∧
      acceptingLeader.coWr 0 = .zero ∧
      ∃ es, @Clients.AllEvents 3 sampleExternals
          (fun c e => c.WriteFits 0 e ∧ (@Clients.step 3 sampleExternals c e).Leads 0 1)
          acceptingLeader es ∧
        es = crowdedWrites (List.replicate RaftServer.netWrSuppMax ⟨.write, none, [1], [2]⟩) ∧
        ∀ acc wr, (@Clients.run 3 sampleExternals acceptingLeader es).acceptedBy 0 =
            acceptingLeader.acceptedBy 0 ++ acc →
          (@Clients.run 3 sampleExternals acceptingLeader es).writtenBy 0 =
            acceptingLeader.writtenBy 0 ++ wr →
          ¬ Lossless 4193808 acc wr ((@Clients.run 3 sampleExternals acceptingLeader es).coWr 0) := by
  obtain ⟨hall, hlost⟩ := crowdedWrites_lose (List.length_replicate
    (n := RaftServer.netWrSuppMax) (a := (⟨.write, none, [1], [2]⟩ : WrSupp)))
  exact ⟨reach_acceptingLeader, freshLeader_acceptingLeader.coWr, _, hall, rfl, hlost⟩

end NiovaRaft
