import Faultloggerd.Foundations.DoublyLinked
import Faultloggerd.Foundations.FreeRuns
import Mathlib.Algebra.Group.Nat.Defs

/-! # The allocator of `dfx_allocator.c`

Memory is a map from byte addresses to the 8-byte word that starts there; every access of the
allocator is to an aligned word or to a whole range of them, so words never overlap. A mapping is kept
under its base address with its size. `mmap` answers through a parameter: `os size` is the base that the
call for `size` bytes returns, `none` where it fails.

`PageTag.mempool` is written and never read; it is left out. The logging calls are left out too.
-/
namespace Faultloggerd.Allocator
open Foundations

def alignSize : ℕ := 16

def dfxPageSize : ℕ := 4096

def dfxMempoolsNum : ℕ := 7

def dfxMempoolMinType : ℕ := 4

def dfxMempoolMaxType : ℕ := 10

def dfxMempoolMaxBlockSize : ℕ := 1024

def dfxMmapType : ℕ := 111

/-- `SIZE_MAX`: adding it to a `size_t` subtracts one. -/
def sizeMax : ℕ := 2^64-1

def sizeofPageInfo : ℕ := 48

/-- The bytes `'D', 'F', 'X', 1` as a little-endian word. -/
def dfxMemPageSign : ℕ := 0x01584644

/-- `SECUREC_MEM_MAX_LEN`, the largest destination `memcpy_s` accepts. -/
def securecMemMaxLen : ℕ := 0x7fffffff

def pageStart (addr : ℕ) : ℕ := addr/dfxPageSize*dfxPageSize

def pageEnd (addr : ℕ) : ℕ := pageStart ((addr+(dfxPageSize-1)) % 2^64)

/-- Every `align` in use is a power of two, for which masking is rounding down. -/
def alignRoundUp (val align : ℕ) : ℕ :=
  let size := if align = 0 then 1 else align
  (val+size-1) % 2^64/size*size

def pageInfoSize : ℕ := alignRoundUp sizeofPageInfo alignSize

def memsetZero (mem : ℕ → ℕ) (dest count : ℕ) : ℕ → ℕ :=
  fun a => if dest ≤ a ∧ a < dest+count then 0 else mem a

/-- `memcpy_s(dest, destMax, src, count)`; the destination is cleared on the errors that do so. -/
def memcpyS (mem : ℕ → ℕ) (dest destMax src count : ℕ) : ℕ → ℕ :=
  if destMax = 0 ∨ destMax > securecMemMaxLen then mem
  else if count > destMax ∨ (src<dest+count ∧ dest<src+count) then
    memsetZero mem dest destMax
  else fun a => if dest ≤ a ∧ a < dest+count then mem (src+(a-dest)) else mem a

/-- The addresses of the fields of a `PageInfo`. The tag word holds `tagInfo` and `type`. -/
def PageInfo.tag (page : ℕ) : ℕ := page

def PageInfo.mMapAllocSize (page : ℕ) : ℕ := page+8

@[grind unfold] def PageInfo.prev (page : ℕ) : ℕ := page+16

@[grind unfold] def PageInfo.next (page : ℕ) : ℕ := page+24

def PageInfo.freeBlockList (page : ℕ) : ℕ := page+32

def PageInfo.freeBlocksCnt (page : ℕ) : ℕ := page+40

def tagInfo (mem : ℕ → ℕ) (page : ℕ) : ℕ := mem (PageInfo.tag page) % 2^32

def tagType (mem : ℕ → ℕ) (page : ℕ) : ℕ := mem (PageInfo.tag page)/2^32

def setTagInfo (mem : ℕ → ℕ) (page v : ℕ) : ℕ → ℕ :=
  Function.update mem (PageInfo.tag page) (v+tagType mem page*2^32)

def setTagType (mem : ℕ → ℕ) (page v : ℕ) : ℕ → ℕ :=
  Function.update mem (PageInfo.tag page) (tagInfo mem page+v*2^32)

structure DfxMempool where
  type : ℕ
  blockSize : ℕ
  blocksPerPage : ℕ
  freePagesCnt : ℕ
  pageList : ℕ

structure Process where
  mem : ℕ → ℕ
  mappings : ℕ → Option ℕ
  initFlag : Bool
  pageList : ℕ
  dfxMempoolBuf : ℕ → DfxMempool

def Process.start (mem : ℕ → ℕ) : Process where
  mem := mem
  mappings := fun _ => none
  initFlag := false
  pageList := 0
  dfxMempoolBuf := fun _ => ⟨0, 0, 0, 0, 0⟩

def Process.mmap (s : Process) (base size : ℕ) : Process :=
  {s with
    mem := memsetZero s.mem base size
    mappings := Function.update s.mappings base (some size)}

def Process.munmap (s : Process) (base size : ℕ) : Process :=
  if s.mappings base = some size then
    {s with mappings := Function.update s.mappings base none}
  else s

def Process.setPool (s : Process) (i : ℕ) (mempool : DfxMempool) : Process :=
  {s with dfxMempoolBuf := Function.update s.dfxMempoolBuf i mempool}

def addPage (mem : ℕ → ℕ) (pageList page : ℕ) : (ℕ → ℕ) × ℕ :=
  if page = 0 then (mem, pageList)
  else (DoublyLinked.pushFront PageInfo.prev PageInfo.next mem pageList page, page)

def removePage (mem : ℕ → ℕ) (pageList page : ℕ) : (ℕ → ℕ) × ℕ :=
  if page = 0 then (mem, pageList)
  else DoublyLinked.unlink PageInfo.prev PageInfo.next mem pageList page

def mempoolAddPage (s : Process) (i page : ℕ) : Process :=
  let r := addPage s.mem (s.dfxMempoolBuf i).pageList page
  {s with mem := r.1}.setPool i {s.dfxMempoolBuf i with pageList := r.2}

def mempoolRemovePage (s : Process) (i page : ℕ) : Process :=
  let r := removePage s.mem (s.dfxMempoolBuf i).pageList page
  {s with mem := r.1}.setPool i {s.dfxMempoolBuf i with pageList := r.2}

def fillPage (mem : ℕ → ℕ) (mempool : DfxMempool) (page : ℕ) : ℕ → ℕ :=
  let mem := setTagInfo mem page dfxMemPageSign
  let mem := setTagType mem page mempool.type
  let mem := Function.update mem (PageInfo.freeBlocksCnt page) mempool.blocksPerPage
  let firstBlock := alignRoundUp (page+sizeofPageInfo) mempool.blockSize
  let mem := Function.update mem (firstBlock+8) mempool.blocksPerPage
  Function.update mem (PageInfo.freeBlockList page) firstBlock

def addFreePages (mempool : DfxMempool) (d : ℕ) : DfxMempool :=
  {mempool with freePagesCnt := (mempool.freePagesCnt+d) % 2^64}

def mempoolAllocPage (s : Process) (i : ℕ) (os : ℕ → Option ℕ) : Process :=
  match os dfxPageSize with
  | none => s
  | some page =>
    let s := s.mmap page dfxPageSize
    let s := {s with mem := fillPage s.mem (s.dfxMempoolBuf i) page}
    let s := mempoolAddPage s i page
    s.setPool i (addFreePages (s.dfxMempoolBuf i) 1)

def mempoolFreePage (s : Process) (i page : ℕ) : Process :=
  if s.mem (PageInfo.freeBlocksCnt page) ≠ (s.dfxMempoolBuf i).blocksPerPage then s
  else
    let s := mempoolRemovePage s i page
    let s := s.munmap page dfxPageSize
    s.setPool i (addFreePages (s.dfxMempoolBuf i) sizeMax)

def takeBlock (mem : ℕ → ℕ) (blockSize page : ℕ) : ℕ → ℕ :=
  let taken := FreeRuns.takeFront blockSize mem (mem (PageInfo.freeBlockList page))
  Function.update taken.1 (PageInfo.freeBlockList page) taken.2

def countDown (mem : ℕ → ℕ) (page : ℕ) : ℕ → ℕ :=
  let cnt := mem (PageInfo.freeBlocksCnt page)
  if cnt > 0 then Function.update mem (PageInfo.freeBlocksCnt page) (cnt-1) else mem

/-- The part of `MempoolAlloc` after a page with free blocks was found. -/
def carveBlock (s : Process) (i page : ℕ) : Process × ℕ :=
  let mempool := s.dfxMempoolBuf i
  let block := s.mem (PageInfo.freeBlockList page)
  let mem := takeBlock s.mem mempool.blockSize page
  let mempool' := if mem (PageInfo.freeBlocksCnt page) = mempool.blocksPerPage then
    addFreePages mempool sizeMax else mempool
  let mem := memsetZero (countDown mem page) block mempool.blockSize
  let s := {s with mem := mem}.setPool i mempool'
  (if mem (PageInfo.freeBlocksCnt page)=0 then mempoolRemovePage s i page else s, block)

def mempoolAlloc (s : Process) (i : ℕ) (os : ℕ → Option ℕ) : Process × ℕ :=
  if (s.dfxMempoolBuf i).blockSize = 0 then (s, 0)
  else
    let s := if (s.dfxMempoolBuf i).pageList = 0 then mempoolAllocPage s i os else s
    let page := (s.dfxMempoolBuf i).pageList
    if page = 0 ∨ s.mem (PageInfo.freeBlockList page) = 0 then (s, 0) else carveBlock s i page

def giveBlock (mem : ℕ → ℕ) (blockSize page ptr : ℕ) : ℕ → ℕ :=
  let mem := memsetZero mem ptr blockSize
  let mem := FreeRuns.giveBack mem (mem (PageInfo.freeBlockList page)) ptr
  let mem := Function.update mem (PageInfo.freeBlockList page) ptr
  Function.update mem (PageInfo.freeBlocksCnt page) (mem (PageInfo.freeBlocksCnt page)+1)

def mempoolFree (s : Process) (i ptr : ℕ) : Process :=
  let page := pageStart ptr
  let mempool := s.dfxMempoolBuf i
  if ptr = 0 ∨ mempool.blockSize = 0 ∨ ptr % mempool.blockSize ≠ 0 then s
  else
    let s := {s with mem := giveBlock s.mem mempool.blockSize page ptr}
    let cnt := s.mem (PageInfo.freeBlocksCnt page)
    if cnt = mempool.blocksPerPage then
      let s := s.setPool i (addFreePages mempool 1)
      if (s.dfxMempoolBuf i).freePagesCnt ≥ 1 then mempoolFreePage s i page else s
    else if cnt = 1 then mempoolAddPage s i page
    else s

/-- The loop of `SelectMempoolType`; 64 rounds empty any `size_t`. -/
def selectLoop : ℕ → ℕ → ℕ → ℕ
  | 0, res, _ => res
  | rounds+1, res, n => if n = 0 then res else selectLoop rounds (res+1) (n >>> 1)

def selectMempoolType (num : ℕ) : ℕ := selectLoop 64 0 ((num+sizeMax) % 2^64)

def initMempool (i : ℕ) : DfxMempool where
  type := i+dfxMempoolMinType
  blockSize := 1 <<< (i+dfxMempoolMinType)
  blocksPerPage := (dfxPageSize-sizeofPageInfo)/(1 <<< (i+dfxMempoolMinType))
  freePagesCnt := 0
  pageList := 0

def initDfxAllocator (s : Process) : Process :=
  {s with
    initFlag := true
    dfxMempoolBuf := fun i => if i<dfxMempoolsNum then initMempool i else s.dfxMempoolBuf i}

def ensureInit (s : Process) : Process := if s.initFlag then s else initDfxAllocator s

def getPageUnchecked (ptr : ℕ) : ℕ := pageStart ((ptr+(2^64-pageInfoSize)) % 2^64)

def getPage (s : Process) (ptr : ℕ) : ℕ :=
  let page := getPageUnchecked ptr
  if tagInfo s.mem page ≠ dfxMemPageSign then 0 else page

def fillMmapPage (mem : ℕ → ℕ) (page allocSize : ℕ) : ℕ → ℕ :=
  let mem := setTagInfo mem page dfxMemPageSign
  let mem := setTagType mem page dfxMmapType
  let mem := Function.update mem (PageInfo.mMapAllocSize page) allocSize
  let mem := Function.update mem (PageInfo.prev page) 0
  let mem := Function.update mem (PageInfo.next page) 0
  let mem := Function.update mem (PageInfo.freeBlockList page) 0
  Function.update mem (PageInfo.freeBlocksCnt page) 0

def allocMmap (s : Process) (align size : ℕ) (os : ℕ → Option ℕ) : Process × ℕ :=
  let headSize := alignRoundUp pageInfoSize align
  let allocSize := headSize+size
  if allocSize ≥ 2^64 ∨ pageEnd allocSize < allocSize then (s, 0)
  else
    let allocSize := pageEnd allocSize
    match os allocSize with
    | none => (s, 0)
    | some mptr =>
      let s := s.mmap mptr allocSize
      let result := mptr+headSize
      let page := getPageUnchecked result
      let r := addPage (fillMmapPage s.mem page allocSize) s.pageList page
      ({s with mem := r.1, pageList := r.2}, result)

def allocImpl (s : Process) (align size : ℕ) (os : ℕ → Option ℕ) : Process × ℕ :=
  let s := ensureInit s
  if size > dfxMempoolMaxBlockSize then allocMmap s align size os
  else mempoolAlloc s (max (selectMempoolType size) dfxMempoolMinType-dfxMempoolMinType) os

def dfxAlloc (s : Process) (size : ℕ) (os : ℕ → Option ℕ) : Process × ℕ :=
  allocImpl s alignSize (if size=0 then 1 else size) os

def getChunkSize (s : Process) (ptr : ℕ) : ℕ :=
  if ptr = 0 then 0
  else
    let page := getPage s ptr
    let type := tagType s.mem page
    if page = 0 ∨ (type≠dfxMmapType ∧ (type<dfxMempoolMinType ∨ type > dfxMempoolMaxType)) then 0
    else if type = dfxMmapType then
      (s.mem (PageInfo.mMapAllocSize page)+(2^64-(ptr-page))) % 2^64
    else (s.dfxMempoolBuf (type-dfxMempoolMinType)).blockSize

def dfxFree (s : Process) (ptr : ℕ) : Process :=
  if s.initFlag = false then s
  else if ptr = 0 then s
  else
    let page := getPage s ptr
    let type := tagType s.mem page
    if page = 0 then s
    else if type = dfxMmapType then
      let r := removePage s.mem s.pageList page
      {s with mem := r.1, pageList := r.2}.munmap page (r.1 (PageInfo.mMapAllocSize page))
    else if type ≤ dfxMempoolMaxType ∧ type ≥ dfxMempoolMinType then
      mempoolFree s (type-dfxMempoolMinType) ptr
    else s

def dfxRealloc (s : Process) (ptr size : ℕ) (os : ℕ → Option ℕ) : Process × ℕ :=
  let s := ensureInit s
  if ptr = 0 then dfxAlloc s size os
  else if size = 0 then (s, 0)
  else
    let oldsize := getChunkSize s ptr
    if oldsize = 0 then (s, 0)
    else if oldsize < size then
      let r := dfxAlloc s size os
      if r.2 ≠ 0 then
        (dfxFree {r.1 with mem := memcpyS r.1.mem r.2 size ptr oldsize} ptr, r.2)
      -- the allocation failed; the old block is returned as it is
      else (r.1, ptr)
    else (s, ptr)

end Faultloggerd.Allocator
