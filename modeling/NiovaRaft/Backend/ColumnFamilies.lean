import Mathlib.Data.List.Infix
import Mathlib.Data.List.Nodup
import NiovaRaft.Base.Calls
import NiovaRaft.Model.ColumnFamilies

/-!
# Which names the table of column families takes

A name is to be refused when it is there already and to be added otherwise.  The search for it leaves
out the first name, takes what is at the pointer for the name though the name may be shorter, and looks
at as many characters as there may be column families.  `Misjudged` says of a call what these three
come to, and the table is what it should be in the runs without such a call.
-/

namespace NiovaRaft.RocksCf

open Base

/-- The table as a name is searched for: with the default column family in it. -/
def CfTable.withDefault (cft : CfTable) : CfTable := if cft.numCf = 0 then ⟨[defaultCf]⟩ else cft

/-- The names that the search looks at. -/
def CfTable.searched (cft : CfTable) : List (List UInt8) := cft.withDefault.cfNames.tail

/-- The arguments of a call. -/
structure CfCall where
  cfName : Option (List UInt8)
  cfNameLen : Nat

/-- The call, when there is memory. -/
def add (cft : CfTable) (call : CfCall) : CfTable × Int :=
  addCfName cft call.cfName call.cfNameLen true true

/-- The call gives a name of a valid length and there is room. -/
structure Admitted (cft : CfTable) (call : CfCall) (cfName : List UInt8) : Prop where
  given : call.cfName = some cfName
  pos : 0 < call.cfNameLen
  le_max : call.cfNameLen ≤ maxCfNameLen
  room : cft.withDefault.numCf < maxCf

/-- The names are what they should be. -/
structure CfTable.Sound (cft : CfTable) : Prop where
  nodup : cft.cfNames.Nodup
  first : ∀ name ∈ cft.cfNames.head?, name = defaultCf
  numCf_le : cft.numCf ≤ maxCf

/-- A name is refused when it is there and added otherwise, and a call that fails changes nothing. -/
structure AddsRight (cft : CfTable) (call : CfCall) : Prop where
  already_iff : ∀ cfName, Admitted cft call cfName →
    ((add cft call).2 = -EALREADY ↔ strndup cfName call.cfNameLen ∈ cft.withDefault.cfNames)
  added : ∀ cfName, Admitted cft call cfName → (add cft call).2 ≠ -EALREADY →
    add cft call = (⟨cft.withDefault.cfNames ++ [strndup cfName call.cfNameLen]⟩, 0)
  unchanged : (add cft call).2 ≠ 0 → (add cft call).1 = cft

/-- What is at the pointer agrees with a name that the search looks at, as far as it looks. -/
def Agrees (cft : CfTable) (cfName : List UInt8) : Prop :=
  ∃ other ∈ cft.searched, strncmp cfName other maxCf = 0

/-- The search misses the default name, or a name that is cut off early, or it takes another name for
the one that is given. -/
def Misjudged (cft : CfTable) (call : CfCall) : Prop :=
  ∃ cfName, Admitted cft call cfName ∧
    ((strndup cfName call.cfNameLen = defaultCf ∧ ¬ Agrees cft cfName) ∨
      (strndup cfName call.cfNameLen ∈ cft.searched ∧ call.cfNameLen < maxCf ∧
        call.cfNameLen < (cstr cfName).length ∧ ¬ Agrees cft cfName) ∨
      (strndup cfName call.cfNameLen ≠ defaultCf ∧
        strndup cfName call.cfNameLen ∉ cft.searched ∧ Agrees cft cfName))

section Calls

variable {cft : CfTable} {call : CfCall} {cfName : List UInt8}

theorem strndup_defaultCf : strndup defaultCf 7 = defaultCf := by decide

theorem Admitted.unique {cfName' : List UInt8} (h : Admitted cft call cfName)
    (h' : Admitted cft call cfName') : cfName' = cfName :=
  Option.some.inj (h'.given.symm.trans h.given)

theorem numCf_withDefault_pos : 0 < cft.withDefault.numCf := by
  unfold CfTable.withDefault
  split
  · exact Nat.one_pos
  · next h => exact Nat.pos_of_ne_zero h

/-- The default name is first, and the search looks at the others. -/
theorem CfTable.Sound.cfNames_withDefault (h : cft.Sound) :
    cft.withDefault.cfNames = defaultCf :: cft.searched := by
  have hfirst : cft.withDefault.cfNames.head? = some defaultCf := by
    unfold CfTable.withDefault
    split
    · rfl
    · next hne =>
      cases hnames : cft.cfNames with
      | nil => exact absurd (congrArg List.length hnames) hne
      | cons name names =>
        rw [List.head?_cons, h.first name (by rw [hnames]; rfl)]
  exact (List.eq_cons_of_mem_head? hfirst)

theorem CfTable.Sound.withDefault (h : cft.Sound) : cft.withDefault.Sound := by
  unfold CfTable.withDefault
  split
  · exact ⟨List.pairwise_singleton _ _, fun name hname => (Option.some.inj hname).symm, by decide⟩
  · exact h

/-- With names to look at there was a table before. -/
theorem CfTable.withDefault_of_searched (h : cft.searched ≠ []) : cft.withDefault = cft := by
  unfold CfTable.searched at h
  unfold CfTable.withDefault at h ⊢
  split at h
  · exact absurd rfl h
  · next hne => rw [if_neg hne]

/-- What a call with a name comes to, when there is memory for the default one. -/
theorem addCfName_some {len : Nat} {defaultAllocated nameAllocated : Bool} (hpos : 0 < len)
    (hle : len ≤ maxCfNameLen) (hmem : ¬ (cft.numCf = 0 ∧ defaultAllocated = false)) :
    addCfName cft (some cfName) len defaultAllocated nameAllocated =
      if cft.withDefault.numCf ≥ maxCf then (cft.withDefault, -ENOSPC)
      else if cft.searched.any fun name => strncmp cfName name maxCf == 0 then
        (cft.withDefault, -EALREADY)
      else if nameAllocated = false then (cft.withDefault, -ENOMEM)
      else (⟨cft.withDefault.cfNames ++ [strndup cfName len]⟩, 0) := by
  have hlen : ¬ (len = 0 ∨ len > maxCfNameLen) := by omega
  rw [addCfName, if_neg hlen, if_neg hmem, strndup_defaultCf]
  simp only [List.drop_one]
  rfl

/-- What any call leaves of the table. -/
theorem addCfName_cases (cft : CfTable) (given : Option (List UInt8)) (len : Nat)
    (defaultAllocated nameAllocated : Bool) :
    (addCfName cft given len defaultAllocated nameAllocated).1 = cft ∨
      (addCfName cft given len defaultAllocated nameAllocated).1 = cft.withDefault ∨
      (cft.withDefault.numCf < maxCf ∧ ∃ name,
        (addCfName cft given len defaultAllocated nameAllocated).1 =
          ⟨cft.withDefault.cfNames ++ [name]⟩) := by
  cases given with
  | none => exact .inl rfl
  | some cfName =>
    by_cases hlen : len = 0 ∨ len > maxCfNameLen
    · rw [addCfName, if_pos hlen]
      exact .inl rfl
    · by_cases hmem : cft.numCf = 0 ∧ defaultAllocated = false
      · rw [addCfName, if_neg hlen, if_pos hmem]
        exact .inl rfl
      · rw [addCfName_some (by omega) (by omega) hmem]
        right
        split
        · exact .inl rfl
        · next hroom =>
          split
          · exact .inl rfl
          · split
            · exact .inl rfl
            · exact .inr ⟨Nat.not_le.mp hroom, _, rfl⟩

/-- Names stay where they are, whatever fails. -/
theorem isPrefix_addCfName (cft : CfTable) (given : Option (List UInt8)) (len : Nat)
    (defaultAllocated nameAllocated : Bool) :
    cft.cfNames <+: (addCfName cft given len defaultAllocated nameAllocated).1.cfNames := by
  have hdefault : cft.cfNames <+: cft.withDefault.cfNames := by
    unfold CfTable.withDefault
    split
    · next h =>
      rw [List.length_eq_zero_iff.mp h]
      exact List.nil_prefix
    · exact List.prefix_refl _
  rcases addCfName_cases cft given len defaultAllocated nameAllocated with h | h | ⟨-, name, h⟩
  · rw [h]
  · rw [h]
    exact hdefault
  · rw [h]
    exact hdefault.trans (List.prefix_append _ _)

/-- There are never too many names, whatever fails. -/
theorem numCf_addCfName_le (h : cft.numCf ≤ maxCf) (given : Option (List UInt8)) (len : Nat)
    (defaultAllocated nameAllocated : Bool) :
    (addCfName cft given len defaultAllocated nameAllocated).1.numCf ≤ maxCf := by
  rcases addCfName_cases cft given len defaultAllocated nameAllocated with
    heq | heq | ⟨hroom, name, heq⟩
  · rw [heq]
    exact h
  · rw [heq, CfTable.withDefault]
    split
    · exact (by decide : 1 ≤ maxCf)
    · exact h
  · rw [heq, CfTable.numCf, List.length_append, List.length_singleton]
    exact hroom

theorem add_of_agrees (h : Admitted cft call cfName) (hagrees : Agrees cft cfName) :
    add cft call = (cft, -EALREADY) := by
  obtain ⟨other, hother, heq⟩ := hagrees
  have hany : (cft.searched.any fun name => strncmp cfName name maxCf == 0) = true :=
    List.any_eq_true.mpr ⟨other, hother, beq_iff_eq.mpr heq⟩
  rw [add, h.given, addCfName_some h.pos h.le_max (by simp),
    if_neg (Nat.not_le.mpr h.room), if_pos hany, CfTable.withDefault_of_searched (List.ne_nil_of_mem hother)]

theorem add_of_not_agrees (h : Admitted cft call cfName) (hagrees : ¬ Agrees cft cfName) :
    add cft call = (⟨cft.withDefault.cfNames ++ [strndup cfName call.cfNameLen]⟩, 0) := by
  have hany : ¬ (cft.searched.any fun name => strncmp cfName name maxCf == 0) = true := by
    intro hany
    obtain ⟨other, hother, heq⟩ := List.any_eq_true.mp hany
    exact hagrees ⟨other, hother, beq_iff_eq.mp heq⟩
  rw [add, h.given, addCfName_some h.pos h.le_max (by simp),
    if_neg (Nat.not_le.mpr h.room), if_neg hany, if_neg (by decide)]

/-- A call that is not admitted fails and changes nothing. -/
theorem add_of_not_admitted (h : ∀ cfName, ¬ Admitted cft call cfName) :
    add cft call = (cft, -EINVAL) ∨ add cft call = (cft, -ENOSPC) := by
  rw [add]
  cases hname : call.cfName with
  | none => exact .inl rfl
  | some cfName =>
    by_cases hlen : call.cfNameLen = 0 ∨ call.cfNameLen > maxCfNameLen
    · rw [addCfName, if_pos hlen]
      exact .inl rfl
    · have hfull : cft.withDefault.numCf ≥ maxCf := by
        by_contra hroom
        exact h cfName ⟨hname, by omega, by omega, Nat.not_le.mp hroom⟩
      have htable : cft.withDefault = cft := by
        unfold CfTable.withDefault at hfull ⊢
        split at hfull
        · exact absurd hfull (by decide)
        · next hne => rw [if_neg hne]
      rw [addCfName_some (by omega) (by omega) (by simp), if_pos hfull, htable]
      exact .inr rfl

theorem add_already_iff (h : Admitted cft call cfName) :
    (add cft call).2 = -EALREADY ↔ Agrees cft cfName := by
  by_cases hagrees : Agrees cft cfName
  · rw [add_of_agrees h hagrees]
    exact iff_of_true rfl hagrees
  · rw [add_of_not_agrees h hagrees]
    exact iff_of_false (show (0 : Int) ≠ -EALREADY by decide) hagrees

/-- A name that is not cut off early agrees with itself. -/
theorem not_agrees_iff_of_searched (h : strndup cfName call.cfNameLen ∈ cft.searched)
    (hno : ¬ Agrees cft cfName) :
    call.cfNameLen < maxCf ∧ call.cfNameLen < (cstr cfName).length := by
  have hself : ¬ (maxCf ≤ call.cfNameLen ∨ (cstr cfName).length ≤ call.cfNameLen) := by
    rw [← strncmp_strndup]
    exact fun heq => hno ⟨_, h, heq⟩
  omega

/-- The search finds the name when it is there, or the call is misjudged. -/
theorem agrees_iff_mem (hsound : cft.Sound) (h : Admitted cft call cfName) :
    (Agrees cft cfName ↔ strndup cfName call.cfNameLen ∈ cft.withDefault.cfNames) ↔
      ¬ Misjudged cft call := by
  rw [hsound.cfNames_withDefault, List.mem_cons]
  constructor
  · rintro hiff ⟨cfName', h', hcase⟩
    obtain rfl : cfName' = cfName := h.unique h'
    rcases hcase with ⟨hdefault, hno⟩ | ⟨hmem, -, -, hno⟩ | ⟨hdefault, hmem, hagrees⟩
    · exact hno (hiff.mpr (.inl hdefault))
    · exact hno (hiff.mpr (.inr hmem))
    · exact (hiff.mp hagrees).elim hdefault hmem
  · intro hright
    constructor
    · intro hagrees
      by_contra hmem
      rw [not_or] at hmem
      exact hright ⟨cfName, h, .inr (.inr ⟨hmem.1, hmem.2, hagrees⟩)⟩
    · intro hmem
      by_contra hno
      rcases hmem with hdefault | hmem
      · exact hright ⟨cfName, h, .inl ⟨hdefault, hno⟩⟩
      · obtain ⟨hlt, hcut⟩ := not_agrees_iff_of_searched hmem hno
        exact hright ⟨cfName, h, .inr (.inl ⟨hmem, hlt, hcut, hno⟩)⟩

/-- Whatever the search finds, a call does what it finds. -/
theorem addsRight_iff (hsound : cft.Sound) : AddsRight cft call ↔ ¬ Misjudged cft call := by
  constructor
  · intro hright hmis
    obtain ⟨cfName, h, -⟩ := id hmis
    have hiff := (add_already_iff h).symm.trans (hright.already_iff cfName h)
    exact (agrees_iff_mem hsound h).mp hiff hmis
  · intro hright
    constructor
    · intro cfName h
      exact (add_already_iff h).trans ((agrees_iff_mem hsound h).mpr hright)
    · intro cfName h hno
      exact add_of_not_agrees h (mt (add_already_iff h).mpr hno)
    · intro hfails
      by_cases hadm : ∃ cfName, Admitted cft call cfName
      · obtain ⟨cfName, h⟩ := hadm
        by_cases hagrees : Agrees cft cfName
        · rw [add_of_agrees h hagrees]
        · rw [add_of_not_agrees h hagrees] at hfails
          exact absurd rfl hfails
      · rcases add_of_not_admitted (not_exists.mp hadm) with heq | heq <;> rw [heq]

/-- A name that is not there yet goes to the end of a table with room. -/
theorem CfTable.Sound.append {name : List UInt8} (h : cft.Sound)
    (hroom : cft.withDefault.numCf < maxCf) (hname : name ∉ cft.withDefault.cfNames) :
    CfTable.Sound ⟨cft.withDefault.cfNames ++ [name]⟩ := by
  constructor
  · exact h.withDefault.nodup.append (List.pairwise_singleton _ _)
      (List.disjoint_singleton.mpr hname)
  · intro first hfirst
    rw [h.cfNames_withDefault, List.cons_append, List.head?_cons] at hfirst
    exact (Option.some.inj hfirst).symm
  · rw [CfTable.numCf, List.length_append, List.length_singleton]
    exact hroom

/-- A call that is not misjudged keeps the table what it should be. -/
theorem CfTable.Sound.add (h : cft.Sound) (hright : ¬ Misjudged cft call) :
    (add cft call).1.Sound := by
  by_cases hadm : ∃ cfName, Admitted cft call cfName
  · obtain ⟨cfName, ha⟩ := hadm
    by_cases hagrees : Agrees cft cfName
    · rw [add_of_agrees ha hagrees]
      exact h
    · rw [add_of_not_agrees ha hagrees]
      exact h.append ha.room (mt ((agrees_iff_mem h ha).mpr hright).mpr hagrees)
  · rcases add_of_not_admitted (not_exists.mp hadm) with heq | heq <;> rw [heq] <;> exact h

end Calls

/-! ## Runs -/

/-- Each call does what it should, and leaves the table what it should be. -/
def AddsNames (calls : List CfCall) : Prop :=
  EachCall (fun cft call => (add cft call).1)
    (fun cft call => AddsRight cft call ∧ (add cft call).1.Sound) ⟨[]⟩ calls

theorem sound_empty : CfTable.Sound ⟨[]⟩ :=
  ⟨List.Pairwise.nil, fun _ h => (by cases h), Nat.zero_le _⟩

/-- The table is what it should be just in the runs in which no call is misjudged. -/
theorem addsNames_iff (calls : List CfCall) :
    AddsNames calls ↔
      EachCall (fun cft call => (add cft call).1) (fun cft call => ¬ Misjudged cft call) ⟨[]⟩ calls := by
  refine eachCall_congr sound_empty ?_ (fun cft call _ h => h.2) calls
  intro cft call hsound
  constructor
  · exact fun h => (addsRight_iff hsound).mp h.1
  · exact fun h => ⟨(addsRight_iff hsound).mpr h, hsound.add h⟩

/-- The default name is added again. -/
theorem not_addsNames_default : ¬ AddsNames [⟨some defaultCf, 7⟩] := by
  intro h
  have hnodup : [defaultCf, defaultCf].Nodup := h.1.2.nodup
  exact (List.nodup_cons.mp hnodup).1 List.mem_cons_self

/-! ## Plain names -/

/-- A name that the search sees whole. -/
structure PlainName (name : List UInt8) : Prop where
  terminated : 0 ∉ name
  short : name.length < maxCf

/-- The call gives a whole name, a plain one that is not the default one. -/
structure PlainCall (call : CfCall) : Prop where
  whole : ∀ cfName, call.cfName = some cfName → (cstr cfName).length ≤ call.cfNameLen
  plain : ∀ cfName, call.cfName = some cfName → (cstr cfName).length < maxCf
  other : ∀ cfName, call.cfName = some cfName → cstr cfName ≠ defaultCf

/-- Only plain names besides the default one. -/
structure PlainTable (cft : CfTable) : Prop where
  sound : cft.Sound
  plain : ∀ name ∈ cft.searched, PlainName name

section Plain

variable {cft : CfTable} {call : CfCall} {cfName : List UInt8}

theorem PlainCall.strndup_eq (h : PlainCall call) (hname : call.cfName = some cfName) :
    strndup cfName call.cfNameLen = cstr cfName :=
  List.take_of_length_le (h.whole cfName hname)

/-- Plain names agree only when they are the same. -/
theorem PlainTable.agrees_iff (hcft : PlainTable cft) (hshort : (cstr cfName).length < maxCf) :
    Agrees cft cfName ↔ cstr cfName ∈ cft.searched := by
  have heq : ∀ other ∈ cft.searched, strncmp cfName other maxCf = 0 ↔ cstr cfName = other := by
    intro other hother
    have hplain := hcft.plain other hother
    rw [strncmp_eq_zero_iff, cstr_of_notMem hplain.terminated, List.take_of_length_le hshort.le,
      List.take_of_length_le hplain.short.le]
  constructor
  · rintro ⟨other, hother, hcmp⟩
    rw [(heq other hother).mp hcmp]
    exact hother
  · intro hmem
    exact ⟨_, hmem, (heq _ hmem).mpr rfl⟩

theorem PlainTable.not_misjudged (hcft : PlainTable cft) (h : PlainCall call) :
    ¬ Misjudged cft call := by
  rintro ⟨cfName, hadm, hcase⟩
  rw [h.strndup_eq hadm.given, hcft.agrees_iff (h.plain cfName hadm.given)] at hcase
  rcases hcase with ⟨hdefault, -⟩ | ⟨hmem, -, -, hno⟩ | ⟨-, hno, hmem⟩
  · exact h.other cfName hadm.given hdefault
  · exact hno hmem
  · exact hno hmem

theorem PlainTable.add (hcft : PlainTable cft) (h : PlainCall call) :
    PlainTable (add cft call).1 := by
  constructor
  · exact hcft.sound.add (hcft.not_misjudged h)
  · by_cases hadm : ∃ cfName, Admitted cft call cfName
    · obtain ⟨cfName, ha⟩ := hadm
      by_cases hagrees : Agrees cft cfName
      · rw [add_of_agrees ha hagrees]
        exact hcft.plain
      · rw [add_of_not_agrees ha hagrees, CfTable.searched, CfTable.withDefault,
          if_neg (by simp [CfTable.numCf]), hcft.sound.cfNames_withDefault, List.cons_append,
          List.tail_cons]
        intro name hname
        rcases List.mem_append.mp hname with hold | hnew
        · exact hcft.plain name hold
        · rw [List.mem_singleton.mp hnew]
          have hshort := h.plain cfName ha.given
          rw [← h.strndup_eq ha.given] at hshort
          exact ⟨zero_notMem_strndup _ _, hshort⟩
    · rcases add_of_not_admitted (not_exists.mp hadm) with heq | heq <;> rw [heq] <;>
        exact hcft.plain

end Plain

/-- With plain names, which do not repeat the default one, the table is always what it should be. -/
theorem addsNames_of_plain {calls : List CfCall} (h : ∀ call ∈ calls, PlainCall call) :
    AddsNames calls := by
  have hempty : PlainTable ⟨[]⟩ := ⟨sound_empty, fun _ hname => (by cases hname)⟩
  refine eachCall_of_invariant PlainTable hempty ?_ h
  intro cft call hcft hcall
  have hright := hcft.not_misjudged hcall
  exact ⟨⟨(addsRight_iff hcft.sound).mpr hright, hcft.sound.add hright⟩, hcft.add hcall⟩

end NiovaRaft.RocksCf
