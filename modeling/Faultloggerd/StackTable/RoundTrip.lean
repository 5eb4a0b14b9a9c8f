import Faultloggerd.StackTable.Table

/-! # A stored stack reads back, whatever is stored later

`Placed` says where an insertion put a list of pcs: each in the slot its own probe sequence settles
in, with its caller placed before it. Along a run of insertions and resizes no filled slot changes
(`apply_ready`), so the chain of nodes that a successful insertion leaves behind is still there when
its stack id is looked up (`getPcsByStackId_putPcsInTable`). A probe sequence belongs to one
geometry of the table; what survives a resize is the chain (`Chain`), not the placement.
-/
namespace Faultloggerd.StackTable
open List Node Function Foundations Foundations.WriteOnce UniqueStackTable

variable {t : UniqueStackTable} {slots slots' : Slots}

/-! ## One insertion -/

/-- The 39 bits of the pc that a node keeps are not all 0. -/
def LowBits (pc : BitVec 64) : Prop := pc.setWidth 39 ≠ 0

variable {pc : BitVec 64}

theorem nodeOf_ne_zero (h : LowBits pc) (prev : ℕ) : nodeOf pc prev≠zero := by
  intro he
  exact h (congrArg Node.pc he)

theorem probeLoop_extends (t : UniqueStackTable) (node : Node) (times cur : ℕ) (slots : Slots) :
    Extends zero slots (t.probeLoop node times cur slots).2 := by
  induction times generalizing cur with
  | zero => exact Extends.refl _
  | succ times ih =>
    rw [probeLoop]
    split_ifs with h0
    · exact extends_update node h0
    · exact Extends.refl _
    · exact Extends.refl _
    · exact ih _

variable {i : ℕ}

theorem probeLoop_frame (t : UniqueStackTable) (node : Node) (times cur : ℕ) (slots : Slots)
    (hi : i∉t.probesFrom times cur) : (t.probeLoop node times cur slots).2 i=slots i := by
  induction times generalizing cur with
  | zero => rfl
  | succ times ih =>
    rw [probesFrom, mem_cons, not_or] at hi
    rw [probeLoop]
    split_ifs
    · exact update_of_ne hi.1 _ _
    · rfl
    · rfl
    · exact ih _ hi.2

theorem probeLoop_settled (t : UniqueStackTable) (node : Node) (times cur : ℕ) (slots : Slots)
    (hr : (t.probeLoop node times cur slots).1≠0) :
    Settled zero (t.probeLoop node times cur slots).2 node (t.probesFrom times cur)
      (t.probeLoop node times cur slots).1 := by
  induction times generalizing cur with
  | zero => exact absurd rfl hr
  | succ times ih =>
    have he := probeLoop_extends t node (times+1) cur slots
    rw [probeLoop] at hr he ⊢
    split_ifs at hr he ⊢ with h0 hn
    · exact ⟨update_self _ _ _, [], _, rfl, by simp [Passed]⟩
    · exact ⟨hn, [], _, rfl, by simp [Passed]⟩
    · exact absurd rfl hr
    · obtain ⟨hs1, pre, post, hs, hp⟩ := ih _ hr
      refine ⟨hs1, cur::pre, post, by rw [probesFrom, hs]; rfl, ?_⟩
      intro i hi
      obtain rfl | hi := mem_cons.mp hi
      · rw [he i h0]
        exact ⟨h0, hn⟩
      · exact hp i hi

theorem putPcInSlot_extends (t : UniqueStackTable) (pc : BitVec 64) (prev : ℕ) (slots : Slots) :
    Extends zero slots (t.putPcInSlot pc prev slots).2 := by
  unfold putPcInSlot
  split_ifs
  · exact Extends.refl _
  · exact probeLoop_extends _ _ _ _ _

theorem putPcInSlot_frame (h : Geometry t) (pc : BitVec 64) (prev : ℕ) (slots : Slots) (hi : t.totalNodes≤ i)
    : (t.putPcInSlot pc prev slots).2 i=slots i := by
  unfold putPcInSlot
  split_ifs
  · rfl
  · exact probeLoop_frame _ _ _ _ _ fun hm => absurd (probes_bounds h.toWindow pc prev i hm).2 (by omega)

theorem putPcInSlot_settled (t : UniqueStackTable) (pc : BitVec 64) (prev : ℕ) (slots : Slots)
    (hr : (t.putPcInSlot pc prev slots).1≠0) : Settled zero (t.putPcInSlot pc prev slots).2 (nodeOf pc prev)
      (t.probes pc prev) (t.putPcInSlot pc prev slots).1 := by
  unfold putPcInSlot at hr ⊢
  split_ifs at hr ⊢ with h0
  · exact absurd rfl hr
  · exact probeLoop_settled _ _ _ _ _ hr

/-! ## Placed lists -/

/-- The pcs, innermost first, sit in the slots an insertion finds for them, the first at `idx`. -/
def Placed (t : UniqueStackTable) (slots : Slots) : List (BitVec 64) → ℕ → Prop
  | [], idx => idx = 0
  | pc :: rest, idx => idx ≠ 0 ∧ ∃ prev, Placed t slots rest prev ∧
      Settled Node.zero slots (UniqueStackTable.nodeOf pc prev) (t.probes pc prev) idx

variable {idx : ℕ}

theorem Placed.mono {pcs : List (BitVec 64)} (hl : ∀ pc∈pcs, LowBits pc) (h : Placed t slots pcs idx)
    (hs : Extends zero slots slots') : Placed t slots' pcs idx := by
  induction pcs generalizing idx with
  | nil => exact h
  | cons pc rest ih =>
    obtain ⟨hi, prev, hp1, hs1⟩ := h
    exact ⟨hi, prev, ih (fun p hp => hl p (by simp [hp])) hp1, hs1.mono (nodeOf_ne_zero (hl pc (by simp)) prev) hs⟩

theorem Placed.bounds (hg : Geometry t) {rest : List (BitVec 64)} (h : Placed t slots (pc::rest) idx)
    : t.availableIndex≤ idx ∧ idx<t.totalNodes := by
  obtain ⟨-, prev, -, -, pre, post, hs, -⟩ := h
  exact probes_bounds hg.toWindow pc prev idx (by rw [hs]; simp)

theorem Placed.lt (hg : Geometry t) {pcs : List (BitVec 64)} (h : Placed t slots pcs idx) : idx<2^25 := by
  cases pcs with
  | nil =>
    rw [show idx=0 from h]
    decide
  | cons pc rest => exact lt_of_lt_of_le (h.bounds hg).2 hg.indexable

def entries (pcs : List (BitVec 64)) : List (BitVec 64) := pcs.filter (· ≠ 0)

variable (pcs : List (BitVec 64))

theorem entries_reverse : entries pcs.reverse=(entries pcs).reverse := filter_reverse

theorem entries_cons_zero : entries (0::pcs)=entries pcs := filter_cons_of_neg (by decide)

theorem entries_cons_of_ne (h : pc≠0) (pcs : List (BitVec 64)) : entries (pc::pcs)=pc::entries pcs :=
  filter_cons_of_pos (decide_eq_true h)

theorem putPcs_placed {stored : List (BitVec 64)} {prev r : ℕ} (hl : ∀ pc∈pcs, pc≠0 → LowBits pc)
    (hs : ∀ pc∈stored, LowBits pc) (hp : Placed t slots stored prev)
    (hp1 : t.putPcs pcs prev slots=(some r, slots')) : Placed t slots' ((entries pcs).reverse++stored) r := by
  induction pcs generalizing stored prev slots with
  | nil =>
    cases hp1
    exact hp
  | cons pc pcs ih =>
    have hlow' : ∀ p∈pcs, p≠0 → LowBits p := fun p hm => hl p (by simp [hm])
    rw [putPcs] at hp1
    by_cases h0 : pc=0
    · subst h0
      exact ih hlow' hs hp hp1
    · rw [if_neg h0] at hp1
      dsimp only at hp1
      by_cases hr : (t.putPcInSlot pc prev slots).1=0
      · rw [if_pos hr] at hp1
        cases hp1
      rw [if_neg hr] at hp1
      have hstored' : ∀ p∈pc::stored, LowBits p := by grind
      have hp2 : Placed t (t.putPcInSlot pc prev slots).2 (pc::stored)
          (t.putPcInSlot pc prev slots).1 :=
        ⟨hr, prev, hp.mono hs (putPcInSlot_extends t pc prev slots), putPcInSlot_settled t pc prev slots hr⟩
      rw [entries_cons_of_ne h0, reverse_cons, append_assoc]
      exact ih hlow' hstored' hp2 hp1

theorem putPcs_extends (t : UniqueStackTable) (pcs : List (BitVec 64)) (prev : ℕ) (slots : Slots) :
    Extends zero slots (t.putPcs pcs prev slots).2 := by
  induction pcs generalizing prev slots with
  | nil => exact Extends.refl _
  | cons pc pcs ih =>
    rw [putPcs]
    dsimp only
    split_ifs
    · exact ih _ _
    · exact putPcInSlot_extends t pc prev slots
    · exact (putPcInSlot_extends t pc prev slots).trans (ih _ _)

theorem putPcs_frame (h : Geometry t) (pcs : List (BitVec 64)) (prev : ℕ) (slots : Slots) (hi : t.totalNodes≤ i)
    : (t.putPcs pcs prev slots).2 i=slots i := by
  induction pcs generalizing prev slots with
  | nil => rfl
  | cons pc pcs ih =>
    rw [putPcs]
    dsimp only
    split_ifs
    · exact ih _ _
    · exact putPcInSlot_frame h pc prev slots hi
    · rw [ih, putPcInSlot_frame h pc prev slots hi]

/-! ## Chains -/

/-- The nodes from `idx` on hold these truncated pcs and end at index 0. -/
def Chain (totalNodes : ℕ) (slots : Slots) : List (BitVec 39) → ℕ → Prop
  | [], idx => idx = 0
  | pc :: rest, idx => idx ≠ 0 ∧ idx < totalNodes ∧ slots idx ≠ Node.zero ∧ (slots idx).pc = pc ∧
      Chain totalNodes slots rest (slots idx).prevIdx.toNat

theorem Placed.chain (hg : Geometry t) {pcs : List (BitVec 64)} (hl : ∀ pc∈pcs, LowBits pc)
    (h : Placed t slots pcs idx) : Chain t.totalNodes slots (pcs.map (·.setWidth 39)) idx := by
  induction pcs generalizing idx with
  | nil => exact h
  | cons pc rest ih =>
    have hb := h.bounds hg
    obtain ⟨hi, prev, hp1, hs, -⟩ := h
    refine ⟨hi, hb.2, ?_, by rw [hs]; rfl, ?_⟩
    · rw [hs]
      exact nodeOf_ne_zero (hl pc (by simp)) prev
    · rw [hs]
      change Chain _ _ _ (BitVec.ofNat 25 prev).toNat
      rw [BitVec.toNat_ofNat, Nat.mod_eq_of_lt (hp1.lt hg)]
      exact ih (fun p hp => hl p (by simp [hp])) hp1

theorem Chain.mono {n n' : ℕ} {pcs : List (BitVec 39)} (h : Chain n slots pcs idx) (hn : n≤n')
    (hs : Extends zero slots slots') : Chain n' slots' pcs idx := by
  induction pcs generalizing idx with
  | nil => exact h
  | cons pc rest ih =>
    obtain ⟨hi, hlt, hne, hpc, hr⟩ := h
    have hs1 := hs idx hne
    refine ⟨hi, lt_of_lt_of_le hlt hn, by rwa [hs1], by rwa [hs1], ?_⟩
    rw [hs1]
    exact ih hr

theorem walk_chain {pc : BitVec 39} {rest : List (BitVec 39)} {nr : ℕ} (h : Chain t.totalNodes slots (pc::rest) idx)
    (hnr : rest.length<nr) : t.walk slots nr (t.getFrame slots idx)=(pc::rest).map (·.setWidth 64) := by
  induction rest generalizing pc idx nr with
  | nil =>
    obtain ⟨-, hlt, -, hpc, he⟩ := h
    obtain ⟨nr, rfl⟩ := Nat.exists_eq_succ_of_ne_zero (Nat.ne_of_gt hnr)
    rw [getFrame, if_neg (not_le.mpr hlt), walk, if_pos (show (slots idx).prevIdx.toNat=headNodeIndex from he), hpc]
    rfl
  | cons pc' rest ih =>
    obtain ⟨-, hlt, -, hpc, hr⟩ := h
    obtain ⟨nr, rfl⟩ := Nat.exists_eq_succ_of_ne_zero (Nat.ne_of_gt (Nat.zero_lt_of_lt hnr))
    have hne : (slots idx).prevIdx.toNat≠headNodeIndex := hr.1
    rw [getFrame, if_neg (not_le.mpr hlt), walk, if_neg hne, hpc, ih hr (Nat.lt_of_succ_lt_succ hnr)]
    rfl

/-! ## Runs of insertions and resizes -/

structure Ready (t : UniqueStackTable) (slots : Slots) : Prop where
  buffer : t.tableBufMMap = some slots
  geometry : Geometry t
  size : t.tableSize = nodeSize*t.totalNodes
  even : t.totalNodes % 2 = 0
  unused : ∀ i, t.totalNodes ≤ i → slots i = Node.zero
  profiler : t.profilerInit = false

inductive Op where
  | putPcsInTable (pcs : List (BitVec 64))
  | resize (mmapOk : Bool)

def Op.apply (t : UniqueStackTable) : Op → UniqueStackTable
  | .putPcsInTable pcs => (t.putPcsInTable pcs).2.2
  | .resize mmapOk => (t.resize mmapOk).2

def runOps (t : UniqueStackTable) (ops : List Op) : UniqueStackTable := ops.foldl Op.apply t

def initialised : UniqueStackTable := (({} : UniqueStackTable).init true).2

theorem initialised_ready : Ready initialised fun _ => zero where
  buffer := rfl
  geometry := ⟨by constructor <;> decide, by decide⟩
  size := rfl
  even := rfl
  unused := fun _ _ => rfl
  profiler := rfl

theorem putPcsInTable_table (h : t.tableBufMMap=some slots) (pcs : List (BitVec 64)) : (t.putPcsInTable pcs).2.2 =
      {t with tableBufMMap := some (t.putPcs pcs.reverse 0 slots).2} := by
  unfold putPcsInTable
  rw [h]
  dsimp only
  split <;> simp_all

theorem putPcsInTable_ready (h : Ready t slots) (pcs : List (BitVec 64)) :
    Ready (t.putPcsInTable pcs).2.2 (t.putPcs pcs.reverse 0 slots).2 := by
  rw [putPcsInTable_table h.buffer]
  exact
    { buffer := rfl
      geometry := ⟨⟨h.geometry.first, h.geometry.part, h.geometry.room, h.geometry.modulus, h.geometry.stride⟩,
        h.geometry.indexable⟩
      size := h.size
      even := h.even
      unused := fun i hi => (putPcs_frame h.geometry _ _ _ hi).trans (h.unused i hi)
      profiler := h.profiler}

theorem extends_copySlots (h : Ready t slots) : Extends zero slots (copySlots slots t.tableSize) := by
  intro i hi
  have hlt : i<t.totalNodes := by
    by_contra hge
    exact hi (h.unused i (not_lt.mp hge))
  apply if_pos
  rw [h.size, nodeSize]
  omega

@[grind unfold] def grown (t : UniqueStackTable) (slots : Slots) : UniqueStackTable where
  tableBufMMap := some (UniqueStackTable.copySlots slots t.tableSize)
  tableSize := 4*t.tableSize
  totalNodes := 4*t.tableSize/nodeSize/2*2
  availableNodes := 4*t.tableSize/nodeSize/2*2-t.totalNodes
  hashModulus := 4*t.tableSize/nodeSize/2*2-t.totalNodes-1
  availableIndex := t.availableIndex+t.availableNodes
  hashStep := (4*t.tableSize/nodeSize/2*2-t.totalNodes) /
    ((t.deconflictTimes+deconflictIncreaseStep) % 2^16*2+1)
  deconflictTimes := (t.deconflictTimes+deconflictIncreaseStep) % 2^16
  profilerInit := t.profilerInit

/-- The bytes of the table are those of its nodes, up to the last odd one. -/
@[grind unfold] def Sized (t : UniqueStackTable) : Prop := t.totalNodes = t.tableSize/nodeSize/2*2 ∧ t.tableSize < 2^32

theorem le_grown (h : Sized t) : 4*t.totalNodes≤4*t.tableSize/nodeSize/2*2 := by
  grind

theorem resize_eq (hb1 : t.tableBufMMap=some slots) (h : Sized t) (hp : 0<t.totalNodes) (mmapOk : Bool) :
    t.resize mmapOk=if 4*t.totalNodes≤ maxNodesCnt ∧ mmapOk=true then (true, grown t slots) else (false, t) := by
  have hle := le_grown h
  obtain ⟨hs, hlt⟩ := h
  simp only [nodeSize] at hs hle
  have hn : t.totalNodes*2^resizeMultiple % 2^32=4*t.totalNodes := by
    grind
  unfold resize
  rw [hb1]
  dsimp only
  rw [hn]
  by_cases hl : 4*t.totalNodes > maxNodesCnt
  · rw [if_pos hl, if_neg fun hg => absurd hg.1 (not_le.mpr hl)]
  have hb : t.tableSize*2^resizeMultiple % 2^32=4*t.tableSize := by
    grind
  rw [hb, if_neg (show ¬4*t.tableSize<t.tableSize by omega),
    if_neg (show ¬4*t.tableSize/nodeSize/2*2-t.totalNodes=0 by simp only [nodeSize]; omega)]
  cases mmapOk with
  | false => simp
  | true => simp [not_lt.mp hl, grown]

theorem grown_window (h : Window t) (hs : Sized t) : Window (grown t slots) := by
  have hf := h.first
  have hp := h.part
  have hr := h.room
  refine ⟨Nat.le_add_right_of_le hf, ?_, ?_, rfl, Nat.div_mul_le_self _ _⟩
  · grind
  · grind

section

variable (h : Ready t slots)
include h

theorem Ready.sized : Sized t := by
  have hs := h.size
  have he := h.even
  have hm := h.geometry.indexable
  grind

theorem grown_ready (hm : 4*t.totalNodes≤ maxNodesCnt) : Ready (grown t slots) (copySlots slots t.tableSize) := by
  have hs := h.size
  have ht : (grown t slots).totalNodes=4*t.totalNodes := by
    grind
  exact
    { buffer := rfl
      geometry := ⟨grown_window h.geometry.toWindow h.sized, ht.trans_le hm⟩
      size := by rw [ht, grown, hs]; ring
      even := by omega
      unused := by
        intro i hi
        apply if_neg
        grind
      profiler := h.profiler}

theorem resize_ready (mmapOk : Bool) : ∃ slots', Ready (t.resize mmapOk).2 slots' ∧ Extends zero slots slots' ∧
      t.totalNodes≤(t.resize mmapOk).2.totalNodes := by
  have hp := h.geometry.part
  have hr := h.geometry.room
  rw [resize_eq h.buffer h.sized (by omega)]
  split_ifs with hg
  · exact ⟨_, grown_ready h hg.1, extends_copySlots h, le_trans (Nat.le_mul_of_pos_left _ four_pos) (le_grown h.sized)⟩
  · exact ⟨slots, h, Extends.refl _, le_rfl⟩

theorem apply_ready (op : Op) :
    ∃ slots', Ready (op.apply t) slots' ∧ Extends zero slots slots' ∧ t.totalNodes≤(op.apply t).totalNodes := by
  cases op with
  | putPcsInTable pcs =>
    refine ⟨_, putPcsInTable_ready h pcs, putPcs_extends _ _ _ _, ?_⟩
    rw [Op.apply, putPcsInTable_table h.buffer]
  | resize mmapOk => exact resize_ready h mmapOk

theorem runOps_ready (ops : List Op) : ∃ slots', Ready (runOps t ops) slots' ∧ Extends zero slots slots' ∧
      t.totalNodes≤(runOps t ops).totalNodes := by
  induction ops generalizing t slots with
  | nil => exact ⟨slots, h, Extends.refl _, le_rfl⟩
  | cons op ops ih =>
    obtain ⟨slots1, h1, he1, hle1⟩ := apply_ready h op
    obtain ⟨slots2, h2, he2, hle2⟩ := ih h1
    exact ⟨slots2, h2, he1.trans he2, hle1.trans hle2⟩

theorem putPcsInTable_success {pcs : List (BitVec 64)}
    (hl : ∀ pc∈pcs, pc≠0 → LowBits pc) (hp : (t.putPcsInTable pcs).1≠0) :
    (t.putPcsInTable pcs).2.1=some ⟨BitVec.ofNat 25 (t.putPcsInTable pcs).1, BitVec.ofNat 39 pcs.length⟩ ∧
      Placed t (t.putPcs pcs.reverse 0 slots).2 (entries pcs) (t.putPcsInTable pcs).1 := by
  unfold putPcsInTable at hp ⊢
  rw [h.buffer] at hp ⊢
  dsimp only at hp ⊢
  split at hp
  · exact absurd rfl hp
  · rename_i prev slots' heq
    rw [heq]
    refine ⟨rfl, ?_⟩
    have := putPcs_placed pcs.reverse (fun pc hm => hl pc (by simpa using hm))
      (by simp) (show Placed t slots [] 0 from rfl) heq
    rwa [entries_reverse, reverse_reverse, append_nil] at this

theorem getPcsByStackId_chain {r nr : ℕ} {pcs : List (BitVec 39)} (hr : r≠0)
    (hlt : r<2^25) (hnr : nr≤256) (hl : pcs.length≤nr) (hc : Chain t.totalNodes slots pcs r) :
    t.getPcsByStackId ⟨BitVec.ofNat 25 r, BitVec.ofNat 39 nr⟩=(true, pcs.map (·.setWidth 64)) := by
  have hid : (BitVec.ofNat 25 r).toNat=r := by rw [BitVec.toNat_ofNat, Nat.mod_eq_of_lt hlt]
  have hnr' : (BitVec.ofNat 39 nr).toNat=nr := by
    rw [BitVec.toNat_ofNat, Nat.mod_eq_of_lt (lt_of_le_of_lt hnr (by decide))]
  unfold getPcsByStackId
  rw [h.profiler, h.buffer]
  simp only [Bool.false_eq_true, if_false, hid, hnr', maxPcsCnt, if_neg (not_lt.mpr hnr)]
  cases pcs with
  | nil => exact absurd hc hr
  | cons pc rest => rw [walk_chain hc hl]

end

/-- A stack id returned by a successful insertion reads back the stored pcs after any further
insertions and resizes. -/
theorem getPcsByStackId_putPcsInTable (before : List Op) (pcs : List (BitVec 64))
    (hnr : pcs.length≤256) (hlow : ∀ pc∈pcs, pc≠0 → LowBits pc)
    (hput : ((runOps initialised before).putPcsInTable pcs).1≠0) :
    ∃ id, ((runOps initialised before).putPcsInTable pcs).2.1 = some id ∧ ∀ later : List Op,
        (runOps ((runOps initialised before).putPcsInTable pcs).2.2 later).getPcsByStackId id =
          (true, (pcs.filter (· ≠ 0)).map fun pc => (pc.setWidth 39).setWidth 64) := by
  obtain ⟨slots, hr, -, -⟩ := runOps_ready initialised_ready before
  generalize runOps initialised before=t at hr hput ⊢
  obtain ⟨hid, hp⟩ := putPcsInTable_success hr hlow hput
  refine ⟨_, hid, fun later => ?_⟩
  have he : ∀ pc∈entries pcs, LowBits pc := by
    intro pc hm
    have hm' := mem_filter.mp hm
    exact hlow pc hm'.1 (by simpa using hm'.2)
  obtain ⟨slots', hr', he1, hle⟩ := runOps_ready (putPcsInTable_ready hr pcs) later
  have hle' : t.totalNodes≤(runOps (t.putPcsInTable pcs).2.2 later).totalNodes := by
    rwa [putPcsInTable_table hr.buffer] at hle ⊢
  rw [getPcsByStackId_chain hr' hput (hp.lt hr.geometry) hnr
    (by rw [length_map]; exact length_filter_le _ _) ((hp.chain hr.geometry he).mono hle' he1), map_map]
  rfl

theorem getPcsByStackId_four_eight : ∃ id, (initialised.putPcsInTable [4, 0, 8]).2.1 = some id ∧ ∀ later : List Op,
        (runOps (initialised.putPcsInTable [4, 0, 8]).2.2 later).getPcsByStackId id = (true, [4, 8]) :=
  getPcsByStackId_putPcsInTable [] [4, 0, 8] (by decide) (by simp [LowBits]) (by decide +kernel)

/-! ## Imported nodes -/

/-- The frame is accepted exactly where the table has a node, and no other node changes. -/
def ImportsNode (t : UniqueStackTable) (index : ℕ) (node : Node) : Prop :=
  ((t.importNode index node).1=true ↔ index<t.totalNodes) ∧
    ((t.importNode index node).1=true → ∃ slots slots', t.tableBufMMap=some slots ∧
      (t.importNode index node).2 = {t with tableBufMMap := some slots'} ∧
      t.getFrame slots' index=some node ∧ ∀ j≠index, t.getFrame slots' j=t.getFrame slots j)

/-- The size in bytes, which `ImportNode` compares with, and the number of nodes agree about the index. -/
def NodeBound (t : UniqueStackTable) (index : ℕ) : Prop :=
  if t.tableBufMMap.isSome then (index<t.tableSize ↔ index<t.totalNodes) else t.totalNodes ≤ index

theorem importNode_of_lt (hb : t.tableBufMMap=some slots) (hi : i<t.tableSize) (node : Node) :
    t.importNode i node=(true, {t with tableBufMMap := some (update slots i node)}) := by
  simp [importNode, hb, if_neg (not_le.mpr hi)]

theorem importsNode_iff (t : UniqueStackTable) (index : ℕ) (node : Node) :
    ImportsNode t index node ↔ NodeBound t index := by
  cases hb : t.tableBufMMap with
  | none => simp [ImportsNode, NodeBound, importNode, hb]
  | some slots =>
    by_cases hi : index<t.tableSize
    · simp only [ImportsNode, NodeBound, importNode_of_lt hb hi, hb, hi, Option.isSome_some, if_true, true_iff,
        and_iff_left_iff_imp]
      intro hlt _
      refine ⟨slots, _, rfl, rfl, ?_, fun j hj => ?_⟩
      · rw [getFrame, if_neg (not_le.mpr hlt), update_self]
      · rw [getFrame, update_of_ne hj, getFrame]
    · simp [ImportsNode, NodeBound, importNode, hb, hi, not_lt.mp hi]

def importNodes (t : UniqueStackTable) (slots : Slots) (used : List ℕ) : UniqueStackTable :=
  used.foldl (fun t i => (t.importNode i (slots i)).2) t

theorem importNodes_eq (hb : t.tableBufMMap=some slots') (slots : Slots) {used : List ℕ}
    (hu : ∀ i∈used, i<t.tableSize) :
    ∃ new, importNodes t slots used={t with tableBufMMap := some new} ∧
      ∀ i, i∈used ∨ slots' i=slots i → new i=slots i := by
  induction used generalizing t slots' with
  | nil => exact ⟨slots', by rw [←hb]; rfl, by simp⟩
  | cons i used ih =>
    rw [importNodes, foldl_cons, importNode_of_lt hb (hu i (by simp))]
    obtain ⟨new, hn, hs⟩ := ih (t := {t with tableBufMMap := some (update slots' i (slots i))}) rfl
      fun j hj => hu j (by simp [hj])
    refine ⟨new, hn, fun j hj => hs j ?_⟩
    by_cases hji : j=i
    · exact .inr (by rw [hji, update_self])
    · simpa [hji] using hj

/-- Two tables of the same size return the same pcs if they agree on the nodes that are visited. -/
theorem getPcsByStackId_congr {t' : UniqueStackTable} (hb : t.tableBufMMap=some slots)
    (hb' : t'.tableBufMMap=some slots') (ht : t'.totalNodes=t.totalNodes)
    (hp : t'.profilerInit=t.profilerInit) (Visited : ℕ → Prop) (hs : ∀ i, Visited i → slots' i=slots i)
    (hn : ∀ i, Visited i → (slots i).prevIdx.toNat≠headNodeIndex → Visited (slots i).prevIdx.toNat)
    {id : StackId} (hid : Visited id.id.toNat) : t'.getPcsByStackId id=t.getPcsByStackId id := by
  have hw : ∀ nr i, Visited i → t'.walk slots' nr (t'.getFrame slots' i)=t.walk slots nr (t.getFrame slots i) := by
    intro nr
    induction nr with
    | zero => exact fun _ _ => rfl
    | succ nr ih =>
      intro i hi
      rw [getFrame, getFrame, ht, hs i hi]
      by_cases hlt : i ≥ t.totalNodes
      · rw [if_pos hlt]
        rfl
      rw [if_neg hlt, walk, walk]
      by_cases he : (slots i).prevIdx.toNat=headNodeIndex
      · rw [if_pos he, if_pos he]
      · rw [if_neg he, if_neg he, ih _ (hn i hi he)]
  rw [getPcsByStackId, getPcsByStackId, hb, hb', hp]
  dsimp only
  rw [hw _ _ hid]

/-- What `ImportNode` accepts; and a table of the same size that has taken over the used nodes of another one returns
the same pcs for every stack id whose nodes form a chain there. -/
theorem importNode_transfers (t : UniqueStackTable) : (∀ index node, ImportsNode t index node ↔ NodeBound t index) ∧
    ∀ (source : UniqueStackTable) (slots old : Slots) (used : List ℕ), source.tableBufMMap = some slots →
      t.tableBufMMap = some old → t.totalNodes = source.totalNodes → t.profilerInit = source.profilerInit →
      (∀ i∈used, i<t.tableSize) → (∀ i, slots i≠zero → i∈used) →
      ∀ (id : StackId) (pcs : List (BitVec 39)), id.id ≠ 0 → Chain source.totalNodes slots pcs id.id.toNat →
        (importNodes t slots used).getPcsByStackId id = source.getPcsByStackId id := by
  refine ⟨importsNode_iff t, fun source slots old used hs ho ht hp hlt hu id pcs hid h => ?_⟩
  obtain ⟨new, hn, hs1⟩ := importNodes_eq ho slots hlt
  refine getPcsByStackId_congr hs (congrArg _ hn) ((congrArg _ hn).trans ht)
    ((congrArg _ hn).trans hp) (fun i => i≠0 ∧ ∃ pcs, Chain source.totalNodes slots pcs i) ?_ ?_
    ⟨by simpa [BitVec.toNat_eq] using hid, pcs, h⟩
  · rintro i ⟨hne, pcs, h⟩
    cases pcs with
    | nil => exact absurd h hne
    | cons pc rest => exact hs1 i (.inl (hu i h.2.2.1))
  · rintro i ⟨hne, pcs, h⟩ hp1
    cases pcs with
    | nil => exact absurd h hne
    | cons pc rest => exact ⟨hp1, rest, h.2.2.2.2⟩

def oneNode : Slots := Function.update (fun _ => zero) 2 ⟨4, 0⟩

theorem importNode_transfers_one : (importNodes initialised oneNode [2]).getPcsByStackId ⟨2, 1⟩ =
    {initialised with tableBufMMap := some oneNode}.getPcsByStackId ⟨2, 1⟩ := by
  refine (importNode_transfers initialised).2 {initialised with tableBufMMap := some oneNode} oneNode (fun _ => zero)
    [2] rfl rfl rfl rfl (by decide) (fun i hi => ?_) ⟨2, 1⟩ [4] (by decide) ⟨by decide, by decide, by decide, rfl, rfl⟩
  by_contra hne
  exact hi (update_of_ne (by simpa using hne) _ _)

/-- The index is compared with the size in bytes. -/
theorem importNode_accepts_bytes : (initialised.importNode 131072 ⟨1, 0⟩).1 = true ∧ initialised.totalNodes = 131072 ∧
    ¬ImportsNode initialised 131072 ⟨1, 0⟩ := by
  rw [importsNode_iff]
  simp [NodeBound]
  decide

end Faultloggerd.StackTable
