import NiovaRaft.Model.RaftNet
import NiovaRaft.Model.Clients

/-!
# Write supplements are accounted for

Supplements are handed from set to set by a shallow copy, and the source then forgets its items
without destroying them.  Whatever the calls, an item is in one set, once, until a set is destroyed
with the item in it; then its buffers are released and its completion is run.
-/

namespace NiovaRaft.RaftNet

open Base

/-! ## One set -/

namespace WriteSupplements

/-- The items of a set, in order. -/
def items (rnsws : WriteSupplements) : List WrSuppItem := rnsws.ws.take rnsws.nitems

/-- The array has the items and no more, and they are not too many. -/
structure Fits (rnsws : WriteSupplements) : Prop where
  length_ws : rnsws.ws.length = rnsws.nitems
  nitems_le : rnsws.nitems ≤ RaftServer.netWrSuppMax

theorem Fits.items_eq {rnsws : WriteSupplements} (h : rnsws.Fits) : rnsws.items = rnsws.ws := by
  rw [items, ← h.length_ws, List.take_length]

theorem Fits.empty (kvCrc : Nat) (kvCrcEnabled : Bool) :
    Fits ⟨0, [], kvCrc, kvCrcEnabled⟩ :=
  ⟨rfl, Nat.zero_le _⟩

end WriteSupplements

open WriteSupplements

theorem reallocarray_of_le {ws : List WrSuppItem} {n : Nat} (h : ws.length ≤ n) :
    reallocarray ws n = ws ++ List.replicate (n - ws.length) default := by
  rw [reallocarray, List.take_of_length_le h]

theorem writeSuppNew_of_fits {rnsws : WriteSupplements} (h : rnsws.Fits)
    (hlt : rnsws.nitems < RaftServer.netWrSuppMax) (handle : Option String) :
    writeSuppNew rnsws handle =
      some ({ rnsws with
        ws := rnsws.ws ++ [⟨⟨.write, handle, [], []⟩, none, 0⟩]
        nitems := rnsws.nitems + 1 }, rnsws.nitems) := by
  have hone : rnsws.nitems + 1 - rnsws.ws.length = 1 := by
    have := h.length_ws
    omega
  have hset : (reallocarray rnsws.ws (rnsws.nitems + 1)).set rnsws.nitems
      ⟨⟨.write, handle, [], []⟩, none, 0⟩ = rnsws.ws ++ [⟨⟨.write, handle, [], []⟩, none, 0⟩] := by
    rw [reallocarray_of_le (by rw [h.length_ws]; omega), hone, ← h.length_ws,
      List.set_append_right _ _ (Nat.le_refl _), Nat.sub_self]
    rfl
  rw [writeSuppNew, if_pos hlt]
  simp only [show (default : WrSuppItem).compCb = none from rfl,
    show (default : WrSuppItem).serial = 0 from rfl, hset]

section Add

variable [Externals] {rnsws : WriteSupplements}

theorem smWriteSupplementCrcUpdate_ws (ws : WrSuppItem) :
    (smWriteSupplementCrcUpdate rnsws ws).ws = rnsws.ws := by
  rw [smWriteSupplementCrcUpdate]
  split <;> rfl

theorem smWriteSupplementCrcUpdate_nitems (ws : WrSuppItem) :
    (smWriteSupplementCrcUpdate rnsws ws).nitems = rnsws.nitems := by
  rw [smWriteSupplementCrcUpdate]
  split <;> rfl

/-- The set with one more item. -/
def WriteSupplements.push (rnsws : WriteSupplements) (ws : WrSuppItem) : WriteSupplements :=
  smWriteSupplementCrcUpdate { rnsws with ws := rnsws.ws ++ [ws], nitems := rnsws.nitems + 1 } ws

theorem push_ws (ws : WrSuppItem) : (rnsws.push ws).ws = rnsws.ws ++ [ws] :=
  smWriteSupplementCrcUpdate_ws ws

theorem WriteSupplements.Fits.push (h : rnsws.Fits) (hlt : rnsws.nitems < RaftServer.netWrSuppMax)
    (ws : WrSuppItem) : (rnsws.push ws).Fits := by
  have hnitems : (rnsws.push ws).nitems = rnsws.nitems + 1 := smWriteSupplementCrcUpdate_nitems ws
  constructor
  · rw [push_ws, hnitems, List.length_append, h.length_ws, List.length_singleton]
  · rw [hnitems]
    exact hlt

/-- Nothing is added without a key or to a full set, or there is one item more. -/
theorem smWriteSupplementAdd_cases (h : rnsws.Fits) (op : WrSuppOp) (handle : Option String)
    (compCb : Option Nat) (key : Option (List UInt8)) (value : List UInt8) (serial : Nat) :
    ((key.getD [] = [] ∨ rnsws.nitems ≥ RaftServer.netWrSuppMax) ∧
      ∃ rc, smWriteSupplementAdd rnsws op handle compCb key value serial =
        some (rnsws, .error rc)) ∨
    ∃ bytes, key = some bytes ∧ bytes ≠ [] ∧ rnsws.nitems < RaftServer.netWrSuppMax ∧
      smWriteSupplementAdd rnsws op handle compCb key value serial =
        some (rnsws.push ⟨⟨op, handle, bytes, value⟩, compCb, serial⟩, .ok ()) := by
  rw [smWriteSupplementAdd]
  cases key with
  | none => exact .inl ⟨.inl rfl, _, if_pos (.inl rfl)⟩
  | some bytes =>
    cases bytes with
    | nil => exact .inl ⟨.inl rfl, _, if_pos (.inr rfl)⟩
    | cons b bs =>
      rw [if_neg (by simp)]
      by_cases hmax : rnsws.nitems ≥ RaftServer.netWrSuppMax
      · exact .inl ⟨.inr hmax, _, if_pos hmax⟩
      · have hlt := Nat.not_le.mp hmax
        refine .inr ⟨b :: bs, rfl, List.cons_ne_nil b bs, hlt, ?_⟩
        rw [if_neg hmax, writeSuppNew_of_fits h hlt]
        simp only [Option.bind_eq_bind, Option.bind_some, writeSuppAdd, ← h.length_ws]
        simp [WriteSupplements.push, h.length_ws]

end Add

/-! ### Merging and destroying -/

theorem copyItems_eq {src ws : List WrSuppItem} {k : Nat} (n : Nat) (hsrc : n ≤ src.length)
    (hws : k + n ≤ ws.length) :
    copyItems src k n ws = ws.take k ++ src.take n ++ ws.drop (k + n) := by
  induction n with
  | zero => simp [copyItems]
  | succ n ih =>
    have hlen : (ws.take k ++ src.take n).length = k + n := by
      rw [List.length_append, List.length_take, List.length_take]
      omega
    have hdrop : ws.drop (k + n) = (ws.drop (k + n)).head (by simp; omega) :: ws.drop (k + n + 1) := by
      rw [← List.tail_drop, List.cons_head_tail]
    rw [copyItems, ih (by omega) (by omega),
      List.set_append_right _ _ (by rw [hlen]), hlen, Nat.sub_self, hdrop, List.set_cons_zero,
      List.getD_eq_getElem?_getD, List.getElem?_eq_getElem hsrc, Option.getD_some,
      List.take_succ_eq_append_getElem hsrc]
    simp only [List.append_assoc, List.singleton_append, Nat.add_assoc]

/-- The items of two sets in one. -/
def mergedSet (dest src : WriteSupplements) : WriteSupplements :=
  ⟨dest.nitems + src.nitems, dest.ws ++ src.ws, 0, false⟩

theorem WriteSupplements.Fits.merged {dest src : WriteSupplements} (hd : dest.Fits) (hs : src.Fits)
    (hmax : ¬dest.nitems + src.nitems > RaftServer.netWrSuppMax) : (mergedSet dest src).Fits := by
  constructor
  · rw [mergedSet, List.length_append, hd.length_ws, hs.length_ws]
  · exact Nat.not_lt.mp hmax

theorem merge_of_fits {dest src : WriteSupplements} (hd : dest.Fits) (hs : src.Fits)
    (hnone : ¬src.nitems = 0) (hmax : ¬dest.nitems + src.nitems > RaftServer.netWrSuppMax) :
    smWriteSupplementsMerge dest src = (mergedSet dest src, ⟨0, [], 0, false⟩, [], .ok ()) := by
  have hle : dest.ws.length ≤ dest.nitems + src.nitems := by
    rw [hd.length_ws]
    exact Nat.le_add_right _ _
  have hws : copyItems src.ws dest.nitems src.nitems
      (reallocarray dest.ws (dest.nitems + src.nitems)) = dest.ws ++ src.ws := by
    have hlen : (reallocarray dest.ws (dest.nitems + src.nitems)).length =
        dest.nitems + src.nitems := by
      rw [reallocarray_of_le hle, List.length_append, List.length_replicate, hd.length_ws]
      omega
    rw [copyItems_eq _ (Nat.le_of_eq hs.length_ws.symm) (Nat.le_of_eq hlen.symm),
      List.drop_of_length_le (Nat.le_of_eq hlen), List.append_nil, ← hs.length_ws, List.take_length,
      reallocarray_of_le (hs.length_ws ▸ hle), ← hd.length_ws, List.take_left]
  rw [smWriteSupplementsMerge, if_neg hnone]
  simp only [if_neg hmax, hws, smWriteSupplementDestroyInternal, if_neg hnone]
  rfl

/-- Nothing to merge, no room, or all the items move. -/
theorem smWriteSupplementsMerge_cases {dest src : WriteSupplements} (hd : dest.Fits)
    (hs : src.Fits) :
    (src.ws = [] ∧ smWriteSupplementsMerge dest src = (dest, src, [], .ok ())) ∨
    (∃ rc, smWriteSupplementsMerge dest src = (dest, src, [], .error rc)) ∨
    (mergedSet dest src).Fits ∧
      smWriteSupplementsMerge dest src = (mergedSet dest src, ⟨0, [], 0, false⟩, [], .ok ()) := by
  by_cases hnone : src.nitems = 0
  · refine .inl ⟨List.eq_nil_of_length_eq_zero (hs.length_ws.trans hnone), ?_⟩
    rw [smWriteSupplementsMerge, if_pos hnone]
  by_cases hmax : dest.nitems + src.nitems > RaftServer.netWrSuppMax
  · refine .inr (.inl ⟨.E2BIG, ?_⟩)
    rw [smWriteSupplementsMerge, if_neg hnone]
    exact if_pos hmax
  · exact .inr (.inr ⟨hd.merged hs hmax, merge_of_fits hd hs hnone hmax⟩)

theorem flatMap_range_getD (ws : List WrSuppItem) (f : WrSuppItem → List Cleanup) :
    (List.range ws.length).flatMap (fun i => f (ws.getD i default)) = ws.flatMap f := by
  have hmap : (List.range ws.length).map (fun i => ws.getD i default) = ws := by
    apply List.ext_getElem
    · simp
    · intro i hi hi'
      simp [List.getElem?_eq_getElem hi']
  calc (List.range ws.length).flatMap (fun i => f (ws.getD i default))
      = ((List.range ws.length).map fun i => ws.getD i default).flatMap f := by
        rw [List.flatMap_map]
    _ = ws.flatMap f := by rw [hmap]

/-- Every item of the set is destroyed, and the set is empty. -/
theorem smWriteSupplementDestroy_spec {rnsws : WriteSupplements} (h : rnsws.Fits) :
    (smWriteSupplementDestroy rnsws).1.Fits ∧ (smWriteSupplementDestroy rnsws).1.ws = [] ∧
      (smWriteSupplementDestroy rnsws).2 = rnsws.ws.flatMap writeSuppDestroy := by
  rw [smWriteSupplementDestroy, smWriteSupplementDestroyInternal]
  by_cases hnone : rnsws.nitems = 0
  · have hws : rnsws.ws = [] := List.eq_nil_of_length_eq_zero (h.length_ws.trans hnone)
    rw [if_pos hnone]
    exact ⟨h, hws, by rw [hws]; rfl⟩
  · rw [if_neg hnone]
    refine ⟨Fits.empty _ _, rfl, ?_⟩
    rw [if_pos rfl, ← h.length_ws]
    exact flatMap_range_getD _ _

/-! ### The sets of the server

A server never looks at the array or the completions.  Its sets are these, without them. -/

namespace WriteSupplements

/-- What of a set the server sees. -/
def view (rnsws : WriteSupplements) : SmWriteSupplements :=
  ⟨rnsws.items.map WrSuppItem.supp, rnsws.kvCrc, rnsws.kvCrcEnabled⟩

theorem length_view_ws {rnsws : WriteSupplements} (h : rnsws.Fits) :
    rnsws.view.ws.length = rnsws.nitems := by
  rw [view, List.length_map, h.items_eq, h.length_ws]

theorem view_push [Externals] {rnsws : WriteSupplements} (h : rnsws.Fits)
    (hlt : rnsws.nitems < RaftServer.netWrSuppMax) (ws : WrSuppItem) :
    (rnsws.push ws).view = RaftServer.netSmWriteSupplementCrcUpdate
      { rnsws.view with ws := rnsws.view.ws ++ [ws.supp] } ws.supp := by
  have hitems : (rnsws.push ws).items.map WrSuppItem.supp = rnsws.view.ws ++ [ws.supp] := by
    rw [(h.push hlt ws).items_eq, push_ws, view, h.items_eq, List.map_append]
    rfl
  rw [view, hitems]
  by_cases hskip : rnsws.kvCrcEnabled = false ∨ ws.supp.hashed = false
  · simp only [push, smWriteSupplementCrcUpdate, RaftServer.netSmWriteSupplementCrcUpdate, view,
      if_pos hskip]
    exact (if_pos hskip).symm
  · simp only [push, smWriteSupplementCrcUpdate, RaftServer.netSmWriteSupplementCrcUpdate, view,
      if_neg hskip]
    exact (if_neg hskip).symm

theorem view_add [Externals] {rnsws rnsws' : WriteSupplements} (h : rnsws.Fits) {op : WrSuppOp}
    {handle : Option String} {compCb : Option Nat} {key : Option (List UInt8)} {value : List UInt8}
    {serial : Nat} {rc : Except Errno Unit}
    (hadd : smWriteSupplementAdd rnsws op handle compCb key value serial = some (rnsws', rc)) :
    rnsws'.view =
      RaftServer.netSmWriteSupplementAdd rnsws.view ⟨op, handle, key.getD [], value⟩ := by
  rw [RaftServer.netSmWriteSupplementAdd, length_view_ws h]
  obtain ⟨hnone, rc', hcase⟩ | ⟨bytes, rfl, hbytes, hlt, hcase⟩ :=
    smWriteSupplementAdd_cases h op handle compCb key value serial
  · cases hcase.symm.trans hadd
    rw [if_pos hnone]
  · cases hcase.symm.trans hadd
    have hroom : ¬(bytes = [] ∨ rnsws.nitems ≥ RaftServer.netWrSuppMax) :=
      not_or.mpr ⟨hbytes, Nat.not_le.mpr hlt⟩
    rw [view_push h hlt]
    exact (if_neg hroom).symm

theorem view_merge {dest src : WriteSupplements} (hd : dest.Fits) (hs : src.Fits) :
    RaftServer.netSmWriteSupplementsMerge dest.view src.view.ws =
      (smWriteSupplementsMerge dest src).2.2.2.map fun _ =>
        (smWriteSupplementsMerge dest src).1.view := by
  rw [RaftServer.netSmWriteSupplementsMerge, length_view_ws hd, length_view_ws hs]
  have hnil : src.view.ws = [] ↔ src.nitems = 0 := by
    rw [← length_view_ws hs]
    exact List.length_eq_zero_iff.symm
  by_cases hnone : src.nitems = 0
  · rw [if_pos (hnil.mpr hnone), smWriteSupplementsMerge, if_pos hnone]
    rfl
  rw [if_neg (hnil.not.mpr hnone)]
  by_cases hmax : dest.nitems + src.nitems > RaftServer.netWrSuppMax
  · rw [if_pos hmax, smWriteSupplementsMerge, if_neg hnone]
    simp only [if_pos hmax]
    rfl
  · rw [if_neg hmax, merge_of_fits hd hs hnone hmax]
    show _ = Except.ok (mergedSet dest src).view
    have hws : dest.view.ws ++ src.view.ws = (mergedSet dest src).items.map WrSuppItem.supp := by
      rw [(hd.merged hs hmax).items_eq, view, view, hd.items_eq, hs.items_eq]
      exact List.map_append.symm
    rw [hws]
    rfl

theorem view_destroy {rnsws : WriteSupplements} (h : rnsws.Fits) :
    (smWriteSupplementDestroy rnsws).1.view =
      RaftServer.netSmWriteSupplementDestroy rnsws.view := by
  have hnil : rnsws.view.ws = [] ↔ rnsws.nitems = 0 := by
    rw [← length_view_ws h]
    exact List.length_eq_zero_iff.symm
  rw [RaftServer.netSmWriteSupplementDestroy, smWriteSupplementDestroy,
    smWriteSupplementDestroyInternal]
  by_cases hnone : rnsws.nitems = 0
  · rw [if_pos hnone, if_pos (hnil.mpr hnone)]
  · rw [if_neg hnone, if_neg (hnil.not.mpr hnone)]
    rfl

end WriteSupplements

/-! ## Calls on all sets -/

variable {ι : Type} [DecidableEq ι] [Externals]

namespace SuppSets

omit [DecidableEq ι] in
/-- What a call has done with the items, if it was successful. -/
def deed (st : SuppSets ι) : SuppCall ι → Except Errno Unit → List (BinDeed ι WrSuppItem)
  | .add (some s) op handle compCb (some key) value, .ok () =>
      [.put s ⟨⟨op, handle, key, value⟩, compCb, st.additions⟩]
  | .merge (some dest) (some src) _, .ok () => [.pour dest src (st.sets src).items]
  | .destroy (some s), _ => [.empty s (st.sets s).items]
  | _, _ => []

/-- A sequence of calls, and what they have done with the items. -/
def run (st : SuppSets ι) : List (SuppCall ι) → Option (SuppSets ι × List (BinDeed ι WrSuppItem))
  | [] => some (st, [])
  | c :: cs => do
      let (st', rc) ← st.call c
      let (st'', ds) ← st'.run cs
      pure (st'', st.deed c rc ++ ds)

end SuppSets

/-- The items that were added, and those that were destroyed. -/
def addedItems (ds : List (BinDeed ι WrSuppItem)) : List WrSuppItem := ds.flatMap BinDeed.added

def destroyedItems (ds : List (BinDeed ι WrSuppItem)) : List WrSuppItem := ds.flatMap BinDeed.removed

/-- What holds after any calls, with what they have done. -/
structure Kept (ds : List (BinDeed ι WrSuppItem)) (st : SuppSets ι) : Prop where
  fits : ∀ s, (st.sets s).Fits
  items_eq : ∀ s, (st.sets s).items = received s ds
  accounted : Accounted (fun s => (st.sets s).items) (destroyedItems ds) (addedItems ds)
  serial_lt : ∀ x ∈ addedItems ds, x.serial < st.additions
  serial_inj : ∀ x ∈ addedItems ds, ∀ y ∈ addedItems ds, x.serial = y.serial → x = y
  cleanups_eq : st.cleanups = (destroyedItems ds).flatMap writeSuppDestroy

section Kept

variable {ds : List (BinDeed ι WrSuppItem)} {st : SuppSets ι}

omit [DecidableEq ι] [Externals] in
@[simp] theorem addedItems_append (ds ds' : List (BinDeed ι WrSuppItem)) :
    addedItems (ds ++ ds') = addedItems ds ++ addedItems ds' := List.flatMap_append

omit [DecidableEq ι] [Externals] in
@[simp] theorem destroyedItems_append (ds ds' : List (BinDeed ι WrSuppItem)) :
    destroyedItems (ds ++ ds') = destroyedItems ds ++ destroyedItems ds' := List.flatMap_append

omit [Externals] in
theorem fits_update {sets : ι → WriteSupplements} (h : ∀ s, (sets s).Fits) {rnsws : WriteSupplements} (hr : rnsws.Fits)
    (t : ι) : ∀ s, (Function.update sets t rnsws s).Fits := by
  intro s
  rcases eq_or_ne s t with rfl | hne
  · rwa [Function.update_self]
  · rw [Function.update_of_ne hne]
    exact h s

omit [Externals] in
theorem items_update (sets : ι → WriteSupplements) (t : ι) (rnsws : WriteSupplements) :
    (fun s => (Function.update sets t rnsws s).items) =
      Function.update (fun s => (sets s).items) t rnsws.items :=
  funext fun s => Function.apply_update (fun _ => WriteSupplements.items) sets t rnsws s

omit [Externals] in
theorem Kept.init : Kept [] (SuppSets.init : SuppSets ι) :=
  ⟨fun _ => Fits.empty _ _, fun _ => rfl, Accounted.nil, fun _ hx => (by cases hx),
    fun _ hx => (by cases hx), rfl⟩

omit [Externals] in
/-- The items stay as they are. -/
theorem Kept.same (h : Kept ds st) {t : ι} {rnsws : WriteSupplements} (hr : rnsws.Fits)
    (hws : rnsws.items = (st.sets t).items) :
    Kept ds { st with sets := Function.update st.sets t rnsws } := by
  have hitems : (fun s => (Function.update st.sets t rnsws s).items) = fun s => (st.sets s).items := by
    rw [items_update, hws, Function.update_eq_self t (fun s => (st.sets s).items)]
  refine ⟨fits_update h.fits hr t, fun s => ?_, ?_, h.serial_lt, h.serial_inj, h.cleanups_eq⟩
  · exact (congrFun hitems s).trans (h.items_eq s)
  · rw [hitems]
    exact h.accounted

omit [Externals] in
/-- An item was added. -/
theorem Kept.put (h : Kept ds st) {t : ι} {rnsws : WriteSupplements} (hr : rnsws.Fits)
    {x : WrSuppItem} (hx : x.serial = st.additions)
    (hws : rnsws.items = (st.sets t).items ++ [x]) :
    Kept (ds ++ [.put t x])
      { st with sets := Function.update st.sets t rnsws, additions := st.additions + 1 } := by
  have hnew : x ∉ addedItems ds := fun hmem => Nat.lt_irrefl _ (hx ▸ h.serial_lt x hmem)
  have hadded : addedItems (ds ++ [.put t x]) = addedItems ds ++ [x] := by
    rw [addedItems_append]
    rfl
  have hdestroyed : destroyedItems (ds ++ [.put t x]) = destroyedItems ds := by
    rw [destroyedItems_append]
    exact List.append_nil _
  refine ⟨fits_update h.fits hr t, fun s => ?_, ?_, ?_, ?_, ?_⟩
  · show (Function.update st.sets t rnsws s).items = _
    rw [received_put, ← h.items_eq s]
    rcases eq_or_ne s t with rfl | hne
    · rw [if_pos rfl, Function.update_self, hws]
    · rw [if_neg hne.symm, Function.update_of_ne hne]
  · rw [items_update, hws, hadded, hdestroyed]
    exact h.accounted.put t hnew
  · rw [hadded]
    intro y hy
    rcases List.mem_append.mp hy with hy | hy
    · exact Nat.lt_succ_of_lt (h.serial_lt y hy)
    · rw [List.mem_singleton.mp hy, hx]
      exact Nat.lt_succ_self _
  · rw [hadded]
    intro y hy z hz hyz
    rcases List.mem_append.mp hy with hy | hy <;> rcases List.mem_append.mp hz with hz | hz
    · exact h.serial_inj y hy z hz hyz
    · have := h.serial_lt y hy
      rw [List.mem_singleton.mp hz] at hyz
      omega
    · have := h.serial_lt z hz
      rw [List.mem_singleton.mp hy] at hyz
      omega
    · rw [List.mem_singleton.mp hy, List.mem_singleton.mp hz]
  · rw [hdestroyed]
    exact h.cleanups_eq

omit [Externals] in
/-- A set was merged into another one. -/
theorem Kept.pour (h : Kept ds st) {t u : ι} (hne : t ≠ u) {dest src : WriteSupplements}
    (hd : dest.Fits) (hs : src.Fits) (hdest : dest.items = (st.sets t).items ++ (st.sets u).items)
    (hsrc : src.items = []) :
    Kept (ds ++ [.pour t u (st.sets u).items])
      { st with sets := Function.update (Function.update st.sets t dest) u src } := by
  have hadded : addedItems (ds ++ [.pour t u (st.sets u).items]) = addedItems ds := by
    rw [addedItems_append]
    exact List.append_nil _
  have hdestroyed : destroyedItems (ds ++ [.pour t u (st.sets u).items]) = destroyedItems ds := by
    rw [destroyedItems_append]
    exact List.append_nil _
  have hfits : ∀ s, (Function.update (Function.update st.sets t dest) u src s).Fits :=
    fits_update (fits_update h.fits hd t) hs u
  refine ⟨hfits, fun s => ?_, ?_, ?_, ?_, ?_⟩
  · show (Function.update (Function.update st.sets t dest) u src s).items = _
    rw [received_pour, ← h.items_eq s]
    rcases eq_or_ne s u with rfl | hsu
    · rw [if_pos rfl, Function.update_self, hsrc]
    · rw [if_neg hsu.symm, Function.update_of_ne hsu]
      rcases eq_or_ne s t with rfl | hst
      · rw [if_pos rfl, Function.update_self, hdest]
      · rw [if_neg hst.symm, Function.update_of_ne hst]
  · rw [items_update, items_update, hdest, hsrc, hadded, hdestroyed]
    exact h.accounted.pour hne
  · rw [hadded]
    exact h.serial_lt
  · rw [hadded]
    exact h.serial_inj
  · rw [hdestroyed]
    exact h.cleanups_eq

omit [Externals] in
/-- A set was destroyed. -/
theorem Kept.emptied (h : Kept ds st) {t : ι} {rnsws : WriteSupplements} (hr : rnsws.Fits)
    (hws : rnsws.items = []) :
    Kept (ds ++ [.empty t (st.sets t).items])
      { st with
        sets := Function.update st.sets t rnsws
        cleanups := st.cleanups ++ (st.sets t).items.flatMap writeSuppDestroy } := by
  have hadded : addedItems (ds ++ [.empty t (st.sets t).items]) = addedItems ds := by
    rw [addedItems_append]
    exact List.append_nil _
  have hdestroyed : destroyedItems (ds ++ [.empty t (st.sets t).items]) =
      destroyedItems ds ++ (st.sets t).items := by
    rw [destroyedItems_append]
    exact congrArg _ (List.append_nil _)
  refine ⟨fits_update h.fits hr t, fun s => ?_, ?_, ?_, ?_, ?_⟩
  · show (Function.update st.sets t rnsws s).items = _
    rw [received_empty, ← h.items_eq s]
    rcases eq_or_ne s t with rfl | hne
    · rw [if_pos rfl, Function.update_self, hws]
    · rw [if_neg hne.symm, Function.update_of_ne hne]
  · rw [items_update, hws, hadded, hdestroyed]
    exact h.accounted.empty t
  · rw [hadded]
    exact h.serial_lt
  · rw [hadded]
    exact h.serial_inj
  · rw [hdestroyed, List.flatMap_append, ← h.cleanups_eq]

/-- A call goes through.  If it returns an error, it has changed nothing. -/
theorem Kept.call (h : Kept ds st) (c : SuppCall ι) :
    ∃ st' rc, st.call c = some (st', rc) ∧ Kept (ds ++ st.deed c rc) st' ∧
      (rc.isOk = false → st' = st) := by
  cases c with
  | add rnsws op handle compCb key value =>
    cases rnsws with
    | none => exact ⟨st, _, rfl, (List.append_nil ds).symm ▸ h, fun _ => rfl⟩
    | some s =>
      obtain ⟨-, rc, hadd⟩ | ⟨bytes, rfl, -, hlt, hadd⟩ :=
        smWriteSupplementAdd_cases (h.fits s) op handle compCb key value st.additions
      · refine ⟨st, .error rc, ?_, ?_, fun _ => rfl⟩
        · simp only [SuppSets.call, hadd, Option.bind_eq_bind, Option.bind_some, Except.isOk,
            Except.toBool, Function.update_eq_self]
          rfl
        · cases key <;> exact (List.append_nil ds).symm ▸ h
      · have hfits := (h.fits s).push hlt ⟨⟨op, handle, bytes, value⟩, compCb, st.additions⟩
        have hserial : (⟨⟨op, handle, bytes, value⟩, compCb, st.additions⟩ : WrSuppItem).serial =
            st.additions := rfl
        refine ⟨_, .ok (), ?_, h.put hfits hserial ?_, fun hrc => by cases hrc⟩
        · simp only [SuppSets.call, hadd, Option.bind_eq_bind, Option.bind_some, Except.isOk,
            Except.toBool]
          rfl
        · rw [hfits.items_eq, (h.fits s).items_eq, push_ws]
  | merge dest src distinct =>
    cases dest with
    | none => exact ⟨st, _, rfl, (List.append_nil ds).symm ▸ h, fun _ => rfl⟩
    | some t =>
      cases src with
      | none => exact ⟨st, _, rfl, (List.append_nil ds).symm ▸ h, fun _ => rfl⟩
      | some u =>
        have hne : t ≠ u := fun htu => distinct t rfl (htu ▸ rfl)
        have hself : Function.update (Function.update st.sets t (st.sets t)) u (st.sets u) =
            st.sets := by
          rw [Function.update_eq_self, Function.update_eq_self]
        obtain ⟨hnone, hmerge⟩ | ⟨rc, hmerge⟩ | ⟨hfits, hmerge⟩ :=
          smWriteSupplementsMerge_cases (h.fits t) (h.fits u)
        · have hu : (st.sets u).items = [] := (h.fits u).items_eq.trans hnone
          refine ⟨_, .ok (), ?_, h.pour hne (h.fits t) (h.fits u) ?_ hu, fun hrc => by cases hrc⟩
          · simp only [SuppSets.call, hmerge, List.append_nil]
          · rw [hu, List.append_nil]
        · refine ⟨st, .error rc, ?_, (List.append_nil ds).symm ▸ h, fun _ => rfl⟩
          simp only [SuppSets.call, hmerge, List.append_nil, hself]
        · refine ⟨_, .ok (), ?_, h.pour hne hfits (Fits.empty 0 false) ?_ rfl, fun hrc => by cases hrc⟩
          · simp only [SuppSets.call, hmerge, List.append_nil]
          · rw [hfits.items_eq, (h.fits t).items_eq, (h.fits u).items_eq, mergedSet]
  | destroy rnsws =>
    cases rnsws with
    | none => exact ⟨st, _, rfl, (List.append_nil ds).symm ▸ h, fun _ => rfl⟩
    | some s =>
      obtain ⟨hfits, hws, hcleanups⟩ := smWriteSupplementDestroy_spec (h.fits s)
      refine ⟨_, .ok (), ?_, h.emptied hfits (hfits.items_eq.trans hws), fun hrc => by cases hrc⟩
      rw [(h.fits s).items_eq, ← hcleanups]
      rfl
  | enableKvCrc rnsws seed =>
    cases rnsws with
    | none => exact ⟨st, _, rfl, (List.append_nil ds).symm ▸ h, fun _ => rfl⟩
    | some s =>
      have hfits : (smWriteSupplementEnableKvCrc (st.sets s) seed).Fits :=
        ⟨(h.fits s).length_ws, (h.fits s).nitems_le⟩
      exact ⟨_, .ok (), rfl, (List.append_nil ds).symm ▸ h.same hfits rfl, fun hrc => by cases hrc⟩

theorem Kept.run (h : Kept ds st) (cs : List (SuppCall ι)) :
    ∃ st' ds', st.run cs = some (st', ds') ∧ Kept (ds ++ ds') st' := by
  induction cs generalizing ds st with
  | nil => exact ⟨st, [], rfl, (List.append_nil ds).symm ▸ h⟩
  | cons c cs ih =>
    obtain ⟨st', rc, hcall, hkept, -⟩ := h.call c
    obtain ⟨st'', ds', hrun, hkept'⟩ := ih hkept
    refine ⟨st'', st.deed c rc ++ ds', ?_, List.append_assoc .. ▸ hkept'⟩
    simp only [SuppSets.run, hcall, hrun, Option.bind_eq_bind, Option.bind_some]
    rfl

/-! ### Completions -/

/-- The cleanup runs the completion of the item. -/
def Cleanup.completes (x : WrSuppItem) : Cleanup → Bool
  | .compCb serial _ _ => decide (serial = x.serial)
  | _ => false

/-- The completions that were run for an item. -/
def SuppSets.completions (st : SuppSets ι) (x : WrSuppItem) : List Cleanup :=
  st.cleanups.filter (Cleanup.completes x)

omit [Externals] in
theorem filter_completes_writeSuppDestroy {x : WrSuppItem} {cb : Nat} (hcb : x.compCb = some cb)
    {y : WrSuppItem} (h : y.serial = x.serial → y = x) :
    (writeSuppDestroy y).filter (Cleanup.completes x) =
      if y = x then [.compCb x.serial cb x.supp.handle] else [] := by
  by_cases hyx : y = x
  · subst hyx
    simp [writeSuppDestroy, Cleanup.completes, hcb]
  · have hserial : y.serial ≠ x.serial := fun hs => hyx (h hs)
    rw [if_neg hyx, writeSuppDestroy]
    cases y.compCb <;> simp [Cleanup.completes, hserial]

omit [Externals] in
/-- The completion of an item is run as often as it is destroyed. -/
theorem filter_completes_flatMap {x : WrSuppItem} {cb : Nat} (hcb : x.compCb = some cb)
    {out : List WrSuppItem} (h : ∀ y ∈ out, y.serial = x.serial → y = x) :
    (out.flatMap writeSuppDestroy).filter (Cleanup.completes x) =
      List.replicate (out.count x) (.compCb x.serial cb x.supp.handle) := by
  induction out with
  | nil => rfl
  | cons y out ih =>
    rw [List.flatMap_cons, List.filter_append, ih fun z hz => h z (List.mem_cons_of_mem y hz),
      filter_completes_writeSuppDestroy hcb (h y List.mem_cons_self), List.count_cons]
    by_cases hyx : y = x
    · rw [if_pos hyx, if_pos (beq_iff_eq.mpr hyx), List.replicate_succ]
      rfl
    · rw [if_neg hyx, if_neg fun hb => hyx (beq_iff_eq.mp hb)]
      rfl

omit [Externals] in
theorem Kept.completions_eq (h : Kept ds st) {x : WrSuppItem} (hx : x ∈ addedItems ds) {cb : Nat}
    (hcb : x.compCb = some cb) :
    st.completions x =
      List.replicate ((destroyedItems ds).count x) (.compCb x.serial cb x.supp.handle) := by
  rw [SuppSets.completions, h.cleanups_eq]
  refine filter_completes_flatMap hcb fun y hy hserial => ?_
  exact h.serial_inj y ((h.accounted.mem_iff y).mpr (.inl hy)) x hx hserial

omit [Externals] in
/-- An item is in one set, once, and was not completed, or it is in none and was completed once. -/
theorem Kept.once (h : Kept ds st) {x : WrSuppItem} (hx : x ∈ addedItems ds) {cb : Nat}
    (hcb : x.compCb = some cb) :
    ((∃ s, (st.sets s).items.count x = 1 ∧ ∀ t, t ≠ s → x ∉ (st.sets t).items) ∧
        st.completions x = []) ∨
      ((∀ s, x ∉ (st.sets s).items) ∧
        st.completions x = [.compCb x.serial cb x.supp.handle]) := by
  rw [h.completions_eq hx hcb]
  rcases (h.accounted.mem_iff x).mp hx with hout | ⟨s, hs⟩
  · refine .inr ⟨fun s hs => h.accounted.out_disjoint s hs hout, ?_⟩
    rw [List.count_eq_one_of_mem h.accounted.out_nodup hout]
    rfl
  · have hout : x ∉ destroyedItems ds := fun ho => h.accounted.out_disjoint s hs ho
    refine .inl ⟨⟨s, List.count_eq_one_of_mem (h.accounted.nodup s) hs, fun t hne ht => ?_⟩, ?_⟩
    · exact hne (h.accounted.bin_unique ht hs)
    · rw [List.count_eq_zero_of_not_mem hout]
      rfl

/-- A merge that succeeds leaves the source empty. -/
theorem Kept.merge_empties (h : Kept ds st) {dest src : ι}
    {distinct : ∀ s, some dest = some s → some src ≠ some s} {st' : SuppSets ι}
    (hcall : st.call (.merge (some dest) (some src) distinct) = some (st', .ok ())) :
    (st'.sets src).items = [] := by
  obtain ⟨st₁, rc, hcall₁, hkept, -⟩ := h.call (.merge (some dest) (some src) distinct)
  cases hcall.symm.trans hcall₁
  rw [hkept.items_eq src]
  have hclears : (BinDeed.pour dest src (st.sets src).items).clears src = true := decide_eq_true rfl
  exact received_append_of_clears hclears ds

omit [DecidableEq ι] [Externals] in
/-- The items of the set that a call destroys. -/
def SuppSets.destroyedBy (st : SuppSets ι) : SuppCall ι → List WrSuppItem
  | .destroy (some s) => (st.sets s).items
  | _ => []

/-- Items are cleaned up when the set they are in is destroyed, and by no other call. -/
theorem Kept.cleanups_call (h : Kept ds st) (c : SuppCall ι) {st' : SuppSets ι}
    {rc : Except Errno Unit} (hcall : st.call c = some (st', rc)) :
    st'.cleanups = st.cleanups ++ (st.destroyedBy c).flatMap writeSuppDestroy := by
  obtain ⟨st₁, rc₁, hcall₁, hkept, -⟩ := h.call c
  cases hcall.symm.trans hcall₁
  rw [hkept.cleanups_eq, destroyedItems_append, List.flatMap_append, ← h.cleanups_eq]
  congr 2
  cases c with
  | add rnsws op handle compCb key value => cases rnsws <;> cases key <;> cases rc <;> rfl
  | merge dest src distinct => cases dest <;> cases src <;> cases rc <;> rfl
  | destroy rnsws =>
    cases rnsws with
    | none => rfl
    | some s => exact List.append_nil _
  | enableKvCrc rnsws seed => cases rnsws <;> rfl

end Kept

/-- Whatever the calls were: each set holds what it was given since it was last emptied, no call
that fails changes anything, and the completion of each item is run once, when the set that holds it
is destroyed. -/
theorem supplements_accounted (cs : List (SuppCall ι)) :
    ∃ st ds, (SuppSets.init : SuppSets ι).run cs = some (st, ds) ∧
      (∀ s, (st.sets s).items = received s ds ∧
        (st.sets s).items.length = (st.sets s).nitems ∧
        (st.sets s).nitems ≤ RaftServer.netWrSuppMax) ∧
      (∀ c, ∃ st' rc, st.call c = some (st', rc) ∧ (rc.isOk = false → st' = st)) ∧
      (∀ dest src distinct st',
        st.call (.merge (some dest) (some src) distinct) = some (st', .ok ()) →
          (st'.sets src).items = []) ∧
      (∀ c st' rc, st.call c = some (st', rc) →
        st'.cleanups = st.cleanups ++ (st.destroyedBy c).flatMap writeSuppDestroy) ∧
      ∀ x ∈ addedItems ds, ∀ cb, x.compCb = some cb →
        ((∃ s, (st.sets s).items.count x = 1 ∧ ∀ t, t ≠ s → x ∉ (st.sets t).items) ∧
            st.completions x = []) ∨
          ((∀ s, x ∉ (st.sets s).items) ∧
            st.completions x = [.compCb x.serial cb x.supp.handle]) := by
  obtain ⟨st, ds, hrun, hkept⟩ := Kept.init.run cs
  rw [List.nil_append] at hkept
  refine ⟨st, ds, hrun, fun s => ⟨hkept.items_eq s, ?_, (hkept.fits s).nitems_le⟩, fun c => ?_,
    fun dest src distinct st' hcall => hkept.merge_empties hcall,
    fun c st' rc hcall => hkept.cleanups_call c hcall, fun x hx cb hcb => hkept.once hx hcb⟩
  · rw [(hkept.fits s).items_eq, (hkept.fits s).length_ws]
  · obtain ⟨st', rc, hcall, -, herr⟩ := hkept.call c
    exact ⟨st', rc, hcall, herr⟩

end NiovaRaft.RaftNet
