import Faultloggerd.Foundations.LinkedChain
import Faultloggerd.StackTable.Table

/-! # The tree of sampled stacks (`stack_printer.cpp`)

The stacks of a thread are inserted, outermost pc first, into a tree of items that are linked by `child` and `siblings`;
an item whose count has grown moves in front of the siblings that it has overtaken. The tree is then listed in preorder
with an explicit stack of nodes. Items live in a heap and are named by their addresses. `none` stands for a null pointer
that is followed, or for a walk that does not come to its end.
-/
namespace Faultloggerd.StackPrinter

open Foundations StackTable

structure StackRecord where
  stackId : StackId
  snapshotTimes : List ℕ
deriving DecidableEq

structure StackItem where
  pc : BitVec 64 := 0
  pcCount : BitVec 32 := 0
  level : ℕ := 0
  stackId : StackId := ⟨0, 0⟩
  child : Option ℕ := none
  siblings : Option ℕ := none

structure SampledFrame where
  indent : ℕ
  count : BitVec 32
  level : ℕ
  pc : BitVec 64
  isLeaf : Bool
  timestamps : List ℕ

/-- The addresses below `next` are in use. -/
structure Heap where
  item : ℕ → StackItem := fun _ => {}
  next : ℕ := 0

namespace Heap

/-- `make_shared`, with the assignments that follow it; the item gets the address `next`. -/
def make (h : Heap) (item : StackItem) : Heap where
  item := Function.update h.item h.next item
  next := h.next+1

def modify (h : Heap) (x : ℕ) (f : StackItem → StackItem) : Heap :=
  {h with item := Function.update h.item x (f (h.item x))}

def addCount (h : Heap) (x : ℕ) (pcCount : BitVec 32) : Heap :=
  h.modify x fun item => {item with pcCount := item.pcCount+pcCount}

def setSiblings (h : Heap) (x : ℕ) (siblings : Option ℕ) : Heap :=
  h.modify x fun item => {item with siblings := siblings}

def setChild (h : Heap) (x : ℕ) (child : Option ℕ) : Heap :=
  h.modify x fun item => {item with child := child}

def siblings (h : Heap) (x : ℕ) : Option ℕ :=
  (h.item x).siblings

/-- `p->siblings` in `AdjustSiblings`, where `none` is the local dummy in front of the first child. -/
def siblingsOf (h : Heap) (first p : Option ℕ) : Option ℕ :=
  nextOf h.siblings first p

def placeLoop (h : Heap) (first : Option ℕ) (node : ℕ) : ℕ → Option ℕ → Option (Option ℕ)
  | 0, _ => none
  | fuel+1, p =>
    match h.siblingsOf first p with
    | none => none
    | some y =>
      if y ≠ node ∧ (h.item node).pcCount.sle (h.item y).pcCount then placeLoop h first node fuel (some y) else some p

def adjustSiblings (h : Heap) (acient cur node : ℕ) : Option (Heap×Option ℕ) :=
  let first := (h.item acient).child
  (h.placeLoop first node (h.next+1) none).map fun p =>
    if h.siblingsOf first p = some node then (h, some node)
    else
      let h := h.setSiblings cur (h.item node).siblings
      let h := h.setSiblings node (h.siblingsOf first p)
      match p with
      | none => (h.setChild acient (some node), some node)
      | some p => (h.setSiblings p (some node), some node)

/-- The end of `InsertImpl`, from the test of `curNode->siblings` on. -/
def insertBehind (insertImpl : Heap → Option ℕ → ℕ → Option (Heap×Option ℕ)) (h : Heap) (pc : BitVec 64)
    (pcCount : BitVec 32) (curNode acientNode : ℕ) : Option (Heap×Option ℕ) :=
  match (h.item curNode).siblings with
  | none =>
    let node := h.next
    let h := (h.make {level := (h.item curNode).level}).setSiblings curNode (some node)
    match insertImpl h (some node) acientNode with
    | some (h, some node) => h.adjustSiblings acientNode curNode node
    | _ => none
  | some node =>
    if (h.item node).pc = pc then (h.addCount node pcCount).adjustSiblings acientNode curNode node
    else insertImpl h (some node) acientNode

def insertImpl (pc : BitVec 64) (pcCount : BitVec 32) (level : ℕ) :
    ℕ → Heap → Option ℕ → ℕ → Option (Heap×Option ℕ)
  | 0, _, _, _ => none
  | _+1, h, none, _ => some (h, none)
  | fuel+1, h, some curNode, acientNode =>
    let item := h.item curNode
    if level = item.level ∧ item.pc = pc then some (h.addCount curNode pcCount, some curNode)
    else if item.pc = 0 then
      some ((h.modify curNode fun item => {item with pc := pc}).addCount curNode pcCount, some curNode)
    else if item.level < level then
      match item.child with
      | none =>
        let child := h.next
        let h := (h.make {level := item.level+1}).setChild curNode (some child)
        insertImpl pc pcCount level fuel h (some child) curNode
      | some child =>
        if (h.item child).pc = pc then some (h.addCount child pcCount, some child)
        else insertBehind (insertImpl pc pcCount level fuel) h pc pcCount child curNode
    else insertBehind (insertImpl pc pcCount level fuel) h pc pcCount curNode acientNode

def insertLoop (pcCount : BitVec 32) (acientNode : ℕ) : List (BitVec 64) → ℕ → Heap → Option ℕ → Option (Heap×Option ℕ)
  | [], _, h, curNode => some (h, curNode)
  | pc :: rest, level, h, curNode =>
    match insertImpl pc pcCount level (h.next+2) h curNode acientNode with
    | none => none
    | some (h, curNode) => insertLoop pcCount acientNode rest (level+1) h curNode

def makeRoot (h : Heap) : Option ℕ → Heap × ℕ
  | none => (h.make {}, h.next)
  | some root => (h, root)

def insert (h : Heap) (root : Option ℕ) (pcs : List (BitVec 64)) (pcCount : BitVec 32) (stackId : StackId) :
    Option (Heap×Option ℕ) :=
  let (h, root) := h.makeRoot root
  let dummyNode := h.next
  match insertLoop pcCount dummyNode pcs.reverse 0 (h.make {child := some root}) (some root) with
  | some (h, some curNode) => some (h.modify curNode fun item => {item with stackId := stackId}, some root)
  | _ => none

def buildLoop (uniqueStackTable : Option UniqueStackTable) :
    List StackRecord → Heap → Option ℕ → Option (Heap×Option ℕ)
  | [], h, root => some (h, root)
  | record :: rest, h, root =>
    match uniqueStackTable with
    | none => none
    | some table =>
      match table.getPcsByStackId record.stackId with
      | (false, _) => buildLoop uniqueStackTable rest h root
      | (true, pcs) =>
        match h.insert root pcs (BitVec.ofNat 32 record.snapshotTimes.length) record.stackId with
        | none => none
        | some (h, root) => buildLoop uniqueStackTable rest h root

def frameOf (stackRecordVec : List StackRecord) (back : StackItem) : SampledFrame where
  indent := 2*back.level
  count := back.pcCount
  level := back.level
  pc := back.pc
  isLeaf := back.child.isNone
  timestamps :=
    if back.child.isSome then []
    else ((stackRecordVec.find? fun record => record.stackId=back.stackId).map StackRecord.snapshotTimes).getD []

def framesLoop (stackRecordVec : List StackRecord) (h : Heap) :
    ℕ → List ℕ → List SampledFrame → Option (List SampledFrame)
  | _, [], sampledFrameVec => some sampledFrameVec
  | 0, _ :: _, _ => none
  | fuel+1, back :: nodes, sampledFrameVec =>
    framesLoop stackRecordVec h fuel ((h.item back).child.toList++((h.item back).siblings.toList++nodes))
      (sampledFrameVec++[frameOf stackRecordVec (h.item back)])

end Heap

/-- `std::sort` by the number of samples; the order of equal ones is not specified. -/
structure SampleSort where
  sort : List StackRecord → List StackRecord
  perm : ∀ records, (sort records).Perm records
  sorted : ∀ records, (sort records).Pairwise fun a b => b.snapshotTimes.length ≤ a.snapshotTimes.length

def timeFilter (stackRecordVec : List StackRecord) (beginTime endTime : ℕ) : List StackRecord :=
  if (beginTime=0 ∧ endTime=0) ∨ beginTime > endTime then stackRecordVec
  else
    stackRecordVec.filterMap fun stackRecord =>
      let snapshotTimes := stackRecord.snapshotTimes.filter fun t => t ≥ beginTime ∧ t < endTime
      if snapshotTimes = [] then none else some ⟨stackRecord.stackId, snapshotTimes⟩

structure Impl where
  heap : Heap := {}
  root : Option ℕ := none
  uniqueStackTable : Option UniqueStackTable := none
  tidStackRecordMap : ℤ → List StackRecord := fun _ => []

namespace Impl

def addSnapshot (stackId : StackId) (snapshotTime : ℕ) : List StackRecord → List StackRecord
  | [] => [⟨stackId, [snapshotTime]⟩]
  | record :: rest =>
    if record.stackId = stackId then {record with snapshotTimes := record.snapshotTimes++[snapshotTime]} :: rest
    else record::addSnapshot stackId snapshotTime rest

def putPcsInTable (s : Impl) (pcs : List (BitVec 64)) (tid : ℤ) (snapshotTime : ℕ) : Bool × Impl :=
  match s.uniqueStackTable with
  | none => (false, s)
  | some table =>
    let (_, stackId, table) := table.putPcsInTable pcs
    (true, {s with
      uniqueStackTable := some table
      tidStackRecordMap := Function.update s.tidStackRecordMap tid
        (addSnapshot (stackId.getD ⟨0, 0⟩) snapshotTime (s.tidStackRecordMap tid))})

def buildStackTree (sort : SampleSort) (s : Impl) (stackRecordVec : List StackRecord) :
    Option (Impl×List StackRecord) :=
  let stackRecordVec := sort.sort stackRecordVec
  (s.heap.buildLoop s.uniqueStackTable stackRecordVec s.root).map fun (heap, root) =>
    ({s with heap := heap, root := root}, stackRecordVec)

def generateTreeStackFrames (s : Impl) (stackRecordVec : List StackRecord) : Option (List SampledFrame×Impl) :=
  (s.heap.framesLoop stackRecordVec s.heap.next s.root.toList []).map fun frames => (frames, {s with root := none})

def getSampledFramesByTid (sort : SampleSort) (s : Impl) (tid : ℤ) (beginTime endTime : ℕ) :
    Option (List SampledFrame×Impl) :=
  (s.buildStackTree sort (timeFilter (s.tidStackRecordMap tid) beginTime endTime)).bind fun (s, vec) =>
    s.generateTreeStackFrames vec

end Impl

/-- Between two calls there is no tree, and each record has a sample. -/
structure Printer where
  impl : Impl
  idle : impl.root = none
  sampled : ∀ tid, ∀ record ∈ impl.tidStackRecordMap tid, record.snapshotTimes ≠ []

theorem Impl.addSnapshot_sampled (id : StackId) (snapshotTime : ℕ) {recs : List StackRecord}
    (h : ∀ record∈recs, record.snapshotTimes≠[]) :
    ∀ record∈addSnapshot id snapshotTime recs, record.snapshotTimes≠[] := by
  induction recs with
  | nil => simp [addSnapshot]
  | cons first rest ih =>
    obtain ⟨hf, hr⟩ := List.forall_mem_cons.mp h
    unfold addSnapshot
    split
    · exact List.forall_mem_cons.mpr ⟨by simp, hr⟩
    · exact List.forall_mem_cons.mpr ⟨hf, ih hr⟩

namespace Printer

def new : Printer := ⟨{}, rfl, nofun⟩

def initUniqueTable (p : Printer) (size : ℕ) (mmapOk : Bool) : Bool × Printer :=
  let (done, table) := ({tableSize := size} : UniqueStackTable).init mmapOk
  (done, ⟨{p.impl with uniqueStackTable := some table}, p.idle, p.sampled⟩)

def putPcsInTable (p : Printer) (pcs : List (BitVec 64)) (tid : ℤ) (snapshotTime : ℕ) : Bool × Printer where
  fst := (p.impl.putPcsInTable pcs tid snapshotTime).1
  snd :=
    { impl := (p.impl.putPcsInTable pcs tid snapshotTime).2
      idle := by
        unfold Impl.putPcsInTable
        split <;> exact p.idle
      sampled := by
        unfold Impl.putPcsInTable
        split
        · exact p.sampled
        · intro other
          by_cases htid : other=tid
          · rw [htid]
            dsimp only
            rw [Function.update_self]
            exact Impl.addSnapshot_sampled _ _ (p.sampled tid)
          · dsimp only
            rw [Function.update_of_ne htid]
            exact p.sampled other}

def records (p : Printer) (tid : ℤ) (beginTime endTime : ℕ) : List StackRecord :=
  timeFilter (p.impl.tidStackRecordMap tid) beginTime endTime

end Printer

end Faultloggerd.StackPrinter
