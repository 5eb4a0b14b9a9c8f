import Faultloggerd.Foundations.WriteOnce
import Mathlib.Tactic.Ring

/-! # The unique stack table (`unique_stack_table.cpp`)

A stack is stored as a chain of nodes, each holding 39 bits of a pc and the 25-bit index of the
node of its caller; slot 0 means no caller. Nodes are shared between stacks. A node is placed by a
hash of the full pc and the caller's index, with a bounded probe sequence whose stride shrinks. A
resize copies the table into one four times as large and from then on only fills the new part.

`Geometry` relates the fields of a table; it holds after `init` and is kept by `resize`. Under it
every probe stays inside the part of the table that is being filled (`probes_bounds`).
-/
namespace Faultloggerd.StackTable
open Nat Foundations

/-- The 64 bits of the union `Node`, by its two fields; `value` is 0 when both are. -/
structure Node where
  pc : BitVec 39
  prevIdx : BitVec 25
deriving DecidableEq

def Node.zero : Node := ⟨0, 0⟩

structure StackId where
  id : BitVec 25
  nr : BitVec 39
deriving DecidableEq

abbrev Slots := ℕ → Node

def initialTableSize : ℕ := 1024*1024
def maxNodesCnt : ℕ := 2^25
def nodeSize : ℕ := 8
def deconflictIncreaseStep : ℕ := 3
def resizeMultiple : ℕ := 2
def initDeconflictAllowed : ℕ := 22
def headNodeIndex : ℕ := 0
def maxPcsCnt : ℕ := 256
attribute [grind unfold] maxNodesCnt nodeSize resizeMultiple

structure UniqueStackTable where
  tableBufMMap : Option Slots := none
  tableSize : ℕ := initialTableSize
  totalNodes : ℕ := 0
  availableNodes : ℕ := 0
  hashModulus : ℕ := 0
  availableIndex : ℕ := 1
  hashStep : ℕ := 0
  deconflictTimes : ℕ := initDeconflictAllowed
  profilerInit : Bool := false

namespace UniqueStackTable

/-- `mmapOk` is the outcome of `mmap`, which gives zeroed memory when it succeeds. -/
def init (t : UniqueStackTable) (mmapOk : Bool) : Bool × UniqueStackTable :=
  if t.tableBufMMap.isSome then (true, t)
  else
    let t := {t with availableIndex := 1, totalNodes := t.tableSize/nodeSize/2*2}
    if t.totalNodes > maxNodesCnt then (false, t)
    else
      let t := {t with availableNodes := t.totalNodes}
      if t.availableNodes = 0 then (false, t)
      else
        let t := {t with
          hashModulus := t.availableNodes-1
          hashStep := t.totalNodes/(t.deconflictTimes*2+1)}
        if mmapOk then (true, {t with tableBufMMap := some fun _ => Node.zero}) else (false, t)

/-- `memcpy_s` of the old buffer into the zeroed new one. -/
def copySlots (slots : Slots) (tableSize : ℕ) : Slots :=
  fun i => if i < tableSize/nodeSize then slots i else Node.zero

def resize (t : UniqueStackTable) (mmapOk : Bool) : Bool × UniqueStackTable :=
  match t.tableBufMMap with
  | none => (false, t)
  | some slots =>
    let oldNumNodes := t.totalNodes
    if t.totalNodes*2^resizeMultiple % 2^32 > maxNodesCnt then (false, t)
    else
      let newtableSize := t.tableSize*2^resizeMultiple % 2^32
      if !mmapOk then (false, t)
      else if newtableSize < t.tableSize then (false, t)
      else
        let newTotalNodes := newtableSize/nodeSize/2*2
        let newAvailableNodes := newTotalNodes-oldNumNodes
        if newAvailableNodes = 0 then (false, t)
        else
          -- a `uint16_t`
          let deconflictTimes := (t.deconflictTimes+deconflictIncreaseStep) % 2^16
          (true, {t with
            tableBufMMap := some (copySlots slots t.tableSize)
            tableSize := newtableSize
            deconflictTimes := deconflictTimes
            availableIndex := t.availableIndex+t.availableNodes
            totalNodes := newTotalNodes
            availableNodes := newAvailableNodes
            hashModulus := newAvailableNodes-1
            hashStep := newAvailableNodes/(deconflictTimes*2+1)})

def firstIdx (t : UniqueStackTable) (thisPc : BitVec 64) (prevIdx : ℕ) : ℕ :=
  ((thisPc >>> 2) ^^^ (BitVec.ofNat 64 prevIdx <<< 4)).toNat % t.hashModulus+t.availableIndex

def nextIdx (t : UniqueStackTable) (currentDeconflictTimes curPcIdx : ℕ) : ℕ :=
  let curPcIdx := curPcIdx+currentDeconflictTimes*t.hashStep+1
  if curPcIdx ≥ t.totalNodes then curPcIdx-(t.availableNodes-1) else curPcIdx

/-- The node a pc is stored as: the bit fields truncate. -/
def nodeOf (thisPc : BitVec 64) (prevIdx : ℕ) : Node := ⟨thisPc.setWidth 39, BitVec.ofNat 25 prevIdx⟩

/-- The loop of `PutPcInSlot`: one compare-exchange an attempt. -/
def probeLoop (t : UniqueStackTable) (node : Node) : ℕ → ℕ → Slots → ℕ × Slots
  | 0, _, slots => (0, slots)
  | times+1, curPcIdx, slots =>
    if slots curPcIdx = Node.zero then (curPcIdx, Function.update slots curPcIdx node)
    else if slots curPcIdx = node then (curPcIdx, slots)
    else if t.availableNodes = 0 then (0, slots)
    else probeLoop t node times (t.nextIdx times curPcIdx) slots

def putPcInSlot (t : UniqueStackTable) (thisPc : BitVec 64) (prevIdx : ℕ) (slots : Slots) :
    ℕ × Slots :=
  if t.hashModulus = 0 then (0, slots)
  else
    -- the counter is a `uint8_t`
    t.probeLoop (nodeOf thisPc prevIdx) (t.deconflictTimes % 2^8) (t.firstIdx thisPc prevIdx) slots

/-- The loop of `PutPcsInTable` over the pcs from the outermost caller inwards; `none` when a pc
found no slot. -/
def putPcs (t : UniqueStackTable) : List (BitVec 64) → ℕ → Slots → Option ℕ × Slots
  | [], prev, slots => (some prev, slots)
  | pc :: rest, prev, slots =>
    if pc = 0 then t.putPcs rest prev slots
    else
      let (prev, slots) := t.putPcInSlot pc prev slots
      if prev = 0 then (none, slots) else t.putPcs rest prev slots

def putPcsInTable (t : UniqueStackTable) (pcs : List (BitVec 64)) :
    ℕ × Option StackId × UniqueStackTable :=
  match t.tableBufMMap with
  | none => (0, none, t)
  | some slots =>
    match t.putPcs pcs.reverse 0 slots with
    | (none, slots) => (0, none, {t with tableBufMMap := some slots})
    | (some prev, slots) =>
      (prev, some ⟨BitVec.ofNat 25 prev, BitVec.ofNat 39 pcs.length⟩, {t with tableBufMMap := some slots})

def getFrame (t : UniqueStackTable) (slots : Slots) (stackId : ℕ) : Option Node :=
  if stackId ≥ t.totalNodes then none else some (slots stackId)

def walk (t : UniqueStackTable) (slots : Slots) : ℕ → Option Node → List (BitVec 64)
  | 0, _ => []
  | _+1, none => []
  | nr+1, some node =>
    node.pc.setWidth 64 ::
      if node.prevIdx.toNat = headNodeIndex then []
      else t.walk slots nr (t.getFrame slots node.prevIdx.toNat)

def importNode (t : UniqueStackTable) (index : ℕ) (node : Node) : Bool × UniqueStackTable :=
  match t.tableBufMMap with
  | none => (false, t)
  | some slots =>
    if index ≥ t.tableSize then (false, t)
    else (true, {t with tableBufMMap := some (Function.update slots index node)})

def getPcsByStackId (t : UniqueStackTable) (stackId : StackId) : Bool × List (BitVec 64) :=
  if t.profilerInit then (false, [])
  else
    match t.tableBufMMap with
    | none => (false, [])
    | some slots =>
      let nr := stackId.nr.toNat
      if nr > maxPcsCnt then (false, [])
      else (true, t.walk slots nr (t.getFrame slots stackId.id.toNat))

end UniqueStackTable

/-- The part of the table that is used for hashing. -/
structure Window (t : UniqueStackTable) : Prop where
  first : 1 ≤ t.availableIndex
  part : t.availableIndex+t.availableNodes = t.totalNodes+1
  room : 2 ≤ t.availableNodes
  modulus : t.hashModulus = t.availableNodes-1
  stride : t.hashStep*(t.deconflictTimes*2+1) ≤ t.availableNodes

/-- The nodes of a table fit the index of a node. -/
structure Geometry (t : UniqueStackTable) : Prop extends Window t where
  indexable : t.totalNodes ≤ maxNodesCnt

namespace Window
variable {t : UniqueStackTable}

theorem firstIdx_bounds (h : Window t) (pc : BitVec 64) (prev : ℕ) :
    t.availableIndex≤t.firstIdx pc prev ∧ t.firstIdx pc prev<t.totalNodes := by
  have hp := h.part
  have hr := h.room
  have hlt : ((pc >>> 2) ^^^ (BitVec.ofNat 64 prev <<< 4)).toNat % t.hashModulus<t.hashModulus :=
    mod_lt _ (by rw [h.modulus]; omega)
  rw [h.modulus] at hlt
  unfold UniqueStackTable.firstIdx
  rw [h.modulus]
  omega

theorem jump_le (h : Window t) {times : ℕ} (ht : times<t.deconflictTimes) : times*t.hashStep+2≤t.availableNodes := by
  have hs1 := h.stride
  have hr := h.room
  have hm : times*t.hashStep≤t.deconflictTimes*t.hashStep := Nat.mul_le_mul_right _ ht.le
  obtain hs | hs := Nat.eq_zero_or_pos t.hashStep
  · grind
  · have hs2 : t.hashStep*(t.deconflictTimes*2+1) = 2*(t.deconflictTimes*t.hashStep)+t.hashStep := by ring
    omega

theorem nextIdx_bounds (h : Window t) {times cur : ℕ} (ht : times<t.deconflictTimes)
    (hlo : t.availableIndex≤ cur) (hhi : cur<t.totalNodes) :
    t.availableIndex≤t.nextIdx times cur ∧ t.nextIdx times cur<t.totalNodes := by
  have hj := h.jump_le ht
  have hp := h.part
  unfold UniqueStackTable.nextIdx
  dsimp only
  split_ifs <;> omega

end Window

namespace UniqueStackTable

def probesFrom (t : UniqueStackTable) : ℕ → ℕ → List ℕ
  | 0, _ => []
  | times+1, cur => cur :: t.probesFrom times (t.nextIdx times cur)

def probes (t : UniqueStackTable) (pc : BitVec 64) (prev : ℕ) : List ℕ :=
  t.probesFrom (t.deconflictTimes % 2^8) (t.firstIdx pc prev)

end UniqueStackTable

variable {t : UniqueStackTable}

theorem probesFrom_bounds (h : Window t) {times cur : ℕ} (ht : times≤t.deconflictTimes)
    (hlo : t.availableIndex≤ cur) (hhi : cur<t.totalNodes) :
    ∀ i∈t.probesFrom times cur, t.availableIndex≤ i ∧ i<t.totalNodes := by
  induction times generalizing cur with
  | zero => simp [UniqueStackTable.probesFrom]
  | succ times ih =>
    intro i hi
    obtain rfl | hi := List.mem_cons.mp hi
    · exact ⟨hlo, hhi⟩
    · obtain ⟨hlo', hhi'⟩ := h.nextIdx_bounds (lt_of_succ_le ht) hlo hhi
      exact ih (le_of_succ_le ht) hlo' hhi' i hi

theorem probes_bounds (h : Window t) (pc : BitVec 64) (prev : ℕ) :
    ∀ i∈t.probes pc prev, t.availableIndex≤ i ∧ i<t.totalNodes := by
  obtain ⟨hlo, hhi⟩ := h.firstIdx_bounds pc prev
  exact probesFrom_bounds h (mod_le _ _) hlo hhi

end Faultloggerd.StackTable
