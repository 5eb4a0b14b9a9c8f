import Faultloggerd.Dwarf.CallFrame

/-! # Unwind entries: `DwarfEntryParser`

CIEs and FDEs are parsed once and kept by address. Headers and bodies are read from memory first and
stored into the entry that is being filled after, so that a field that an entry does not set keeps
what the entry held before. Functions that may read an uninitialised local have no result there; a result
`none` inside is the `false` of the source.
-/
namespace Faultloggerd.Dwarf

structure EntryHeader where
  isCieEntry : Bool
  ptr : Word
  instructionsEnd : Word
  cieAddr : Word
  pointerEncoding : Byte
deriving DecidableEq

def readHeader (m : DfxMemory) (addr : Word) : Option EntryHeader :=
  let value32 := m.readInto addr 4 0
  if value32.1 = 0xffffffff then
    (m.read value32.2 8).map fun length =>
      let ptr := value32.2+8
      let ciePtr := m.readInto ptr 8 length
      ⟨decide (ciePtr.1=0), ciePtr.2+8, ptr+length, ciePtr.2-ciePtr.1, 0x0c⟩
  else
    let ptr := value32.2
    let ciePtr := (m.readInto ptr 4 value32.1).1
    some ⟨decide (ciePtr=0), ptr+4, ptr+value32.1, ptr-ciePtr, 0x0b⟩

namespace EntryHeader

def storeCie (h : EntryHeader) (cie : CommonInfoEntry) : CommonInfoEntry :=
  {cie with instructionsEnd := h.instructionsEnd, pointerEncoding := h.pointerEncoding}

def storeFde (h : EntryHeader) (fde : FrameDescEntry) : FrameDescEntry :=
  {fde with instructionsEnd := h.instructionsEnd, cieAddr := h.cieAddr}

end EntryHeader

/-- What a CIE sets: `none` and `false` leave the field as it is. -/
structure CieFields where
  codeAlignFactor : BitVec 32
  dataAlignFactor : BitVec 32
  returnAddressRegister : Word
  hasAugmentationData : Bool
  isSignalFrame : Bool
  segmentSize : Option Byte
  instructionsOff : Word
  personality : Option Byte
  lsdaEncoding : Option Byte
  pointerEncoding : Option Byte

def CieFields.store (f : CieFields) (cie : CommonInfoEntry) : CommonInfoEntry where
  codeAlignFactor := f.codeAlignFactor
  dataAlignFactor := f.dataAlignFactor
  returnAddressRegister := f.returnAddressRegister
  hasAugmentationData := f.hasAugmentationData || cie.hasAugmentationData
  isSignalFrame := f.isSignalFrame || cie.isSignalFrame
  segmentSize := f.segmentSize.getD cie.segmentSize
  instructionsOff := f.instructionsOff
  instructionsEnd := cie.instructionsEnd
  personality := f.personality.getD cie.personality
  lsdaEncoding := f.lsdaEncoding.getD cie.lsdaEncoding
  pointerEncoding := f.pointerEncoding.getD cie.pointerEncoding

/-- The augmentation string, up to its end, the end of the entry or `left` characters. -/
def readAugStr (m : DfxMemory) (instructionsEnd : Word) : ℕ → Word → List Byte × Word
  | 0, ptr => ([], ptr)
  | left+1, ptr =>
    if instructionsEnd ≠ 0 ∧ ptr.toNat < instructionsEnd.toNat then
      match m.read ptr 1 with
      | none => ([], ptr)
      | some ch =>
        if ch = 0 then ([], ptr+1)
        else
          let rest := readAugStr m instructionsEnd left (ptr+1)
          (ch.setWidth 8::rest.1, rest.2)
    else ([], ptr)

def parseAugChar (m : DfxMemory) (ch : Byte) (ptr : Word) (f : CieFields) :
    Option (Word×CieFields) :=
  match ch.toNat with
  -- 'P'
  | 0x50 =>
    (m.read ptr 1).map fun encoding =>
      let value := m.readEncodedValue (ptr+1) (encoding.setWidth 8)
      (value.2, {f with personality := some (value.1.setWidth 8)})
  -- 'L'
  | 0x4c =>
    match m.read ptr 1 with
    | none => some (ptr, f)
    | some encoding => some (ptr+1, {f with lsdaEncoding := some (encoding.setWidth 8)})
  -- 'R'
  | 0x52 =>
    match m.read ptr 1 with
    | none => some (ptr, f)
    | some encoding => some (ptr+1, {f with pointerEncoding := some (encoding.setWidth 8)})
  -- 'S'
  | 0x53 => some (ptr, {f with isSignalFrame := true})
  | _ => some (ptr, f)

def parseAugChars (m : DfxMemory) : List Byte → Word → CieFields → Option CieFields
  | [], _, f => some f
  | ch :: chars, ptr, f => (parseAugChar m ch ptr f).bind fun next => parseAugChars m chars next.1 next.2

def parseAugData (m : DfxMemory) (augStr : List Byte) (ptr : Word) (f : CieFields) :
    Option CieFields :=
  let augSize := m.readUleb128 ptr
  parseAugChars m augStr.tail augSize.2 {f with instructionsOff := augSize.2+augSize.1}

def readReturnAddress (m : DfxMemory) (version : Word) (ptr : Word) : Option (Word×Word) :=
  if version = 1 then (m.read ptr 1).map fun val => (val, ptr+1)
  else some (m.readUleb128 ptr)

def fillInCie (m : DfxMemory) (ptr instructionsEnd : Word) : Option (Option CieFields) :=
  (m.read ptr 1).bind fun version =>
    if version ∉ ([1, 3, 4, 5] : List Word) then some none
    else
      let augStr := readAugStr m instructionsEnd 64 (ptr+1)
      let segment : Option Byte × Word :=
        if version = 4 ∨ version = 5 then
          match m.read (augStr.2+1) 1 with
          | none => (none, augStr.2+1)
          | some size => (some (size.setWidth 8), augStr.2+2)
        else (some 0, augStr.2)
      let code := m.readUleb128 segment.2
      let data := m.readSleb128 code.2
      (readReturnAddress m version data.2).bind fun ra =>
        let f : CieFields := ⟨code.1.setWidth 32, data.1.setWidth 32, ra.1, false, false, segment.1, ra.2,
          none, none, none⟩
        -- 'z'
        if augStr.1.head? = some 0x7a then
          (parseAugData m augStr.1 ra.2 {f with hasAugmentationData := true}).map some
        else some (some f)

def fdeLsda (m : DfxMemory) (lsdaEncoding : Byte) (ptr : Word) : Word :=
  if lsdaEncoding ≠ DfxMemory.dwEhPeOmit ∧
      (m.readEncodedValue ptr (lsdaEncoding &&& 0x0f)).1 ≠ 0 then
    (m.readEncodedValue ptr lsdaEncoding).1
  else 0

def fillInFdeBody (m : DfxMemory) (ptr : Word) (fde : FrameDescEntry) : Option FrameDescEntry :=
  let ptr := ptr+fde.cie.segmentSize.setWidth 64
  let pcStart := m.readEncodedValue ptr fde.cie.pointerEncoding
  let pcRange := m.readEncodedValue pcStart.2 (fde.cie.pointerEncoding &&& 0x0f)
  let pcEnd := pcStart.1+pcRange.1
  if fde.cie.hasAugmentationData then
    let augLen := m.readUleb128 pcRange.2
    let instructionsPtr := augLen.2+augLen.1
    if augLen.2.toNat+augLen.1.toNat ≥ 2^64 ∨
        (fde.instructionsEnd≠0 ∧ instructionsPtr.toNat > fde.instructionsEnd.toNat) then none
    else
      some {fde with
        lsda := fdeLsda m fde.cie.lsdaEncoding augLen.2
        instructionsOff := instructionsPtr
        pcStart := pcStart.1
        pcEnd := pcEnd}
  else
    some {fde with lsda := 0, instructionsOff := pcRange.2, pcStart := pcStart.1, pcEnd := pcEnd}

structure ParserState where
  fdeEntries : Word → Option FrameDescEntry
  cieEntries : Word → Option CommonInfoEntry
  dataOffset : Word

namespace ParserState

def fresh (dataOffset : Word) : ParserState := ⟨fun _ => none, fun _ => none, dataOffset⟩

def setCie (st : ParserState) (addr : Word) (cie : Option CommonInfoEntry) : ParserState :=
  {st with cieEntries := Function.update st.cieEntries addr cie}

def setFde (st : ParserState) (addr : Word) (fde : Option FrameDescEntry) : ParserState :=
  {st with fdeEntries := Function.update st.fdeEntries addr fde}

end ParserState

section Parsing

variable (m : DfxMemory)

def mem (st : ParserState) : DfxMemory := m.setDataOffset st.dataOffset

/-- An entry is kept when it was filled and forgotten when it was not. -/
def finishCie (st : ParserState) (cieAddr ptr : Word) (cieInfo : CommonInfoEntry) :
    Option (Option CommonInfoEntry×ParserState) :=
  (fillInCie (mem m st) ptr cieInfo.instructionsEnd).map fun fields =>
    let cie := fields.map fun f => f.store cieInfo
    (cie, st.setCie cieAddr cie)

def parseCie (st : ParserState) (cieAddr ciePtr : Word) (cieInfo : CommonInfoEntry) :
    Option (Option CommonInfoEntry×ParserState) :=
  match st.cieEntries cieAddr with
  | some cie => some (some cie, st)
  | none =>
    if cieAddr = ciePtr then
      (readHeader (mem m st) ciePtr).bind fun h =>
        if h.isCieEntry then finishCie m st cieAddr h.ptr (h.storeCie {}) else some (none, st)
    else finishCie m st cieAddr ciePtr cieInfo

def fillInFde (st : ParserState) (ptr : Word) (fdeInfo : FrameDescEntry) :
    Option (Option FrameDescEntry×ParserState) :=
  (parseCie m st fdeInfo.cieAddr fdeInfo.cieAddr fdeInfo.cie).map fun out =>
    (out.1.bind fun cie => fillInFdeBody (mem m st) ptr {fdeInfo with cie := cie}, out.2)

def finishFde (st : ParserState) (fdeAddr ptr : Word) (fdeInfo : FrameDescEntry) :
    Option (Option FrameDescEntry×ParserState) :=
  (fillInFde m st ptr fdeInfo).map fun out => (out.1, out.2.setFde fdeAddr out.1)

def parseFde (st : ParserState) (fdeAddr fdePtr : Word) (fdeInfo : FrameDescEntry) :
    Option (Option FrameDescEntry×ParserState) :=
  match st.fdeEntries fdeAddr with
  | some fde => some (some fde, st)
  | none =>
    if fdeAddr = fdePtr then
      (readHeader (mem m st) fdePtr).bind fun h =>
        if h.isCieEntry then some (none, st)
        else finishFde m st fdeAddr h.ptr (h.storeFde fdeInfo)
    else finishFde m st fdeAddr fdePtr fdeInfo

/-- The entry at `addr` is parsed over `fdeInfo`; with it comes the address of the next entry. -/
def getCieOrFde (st : ParserState) (addr : Word) (fdeInfo : FrameDescEntry) :
    Option (Option (Word×FrameDescEntry)×ParserState) :=
  (readHeader (mem m st) addr).bind fun h =>
    if h.isCieEntry then
      (parseCie m st addr h.ptr (h.storeCie fdeInfo.cie)).map fun out =>
        (out.1.map fun cie => (cie.instructionsEnd, {fdeInfo with cie := cie}), out.2)
    else
      (parseFde m st addr h.ptr (h.storeFde fdeInfo)).map fun out =>
        (out.1.map fun fde => (fde.instructionsEnd, fde), out.2)

structure UnwindTableInfo where
  endPc : Word
  isLinear : Bool
  segbase : Word
  tableLen : Word
  tableData : Word

def covers (fde : FrameDescEntry) (pc : Word) : Prop :=
  fde.pcStart.toNat ≤ pc.toNat ∧ pc.toNat < fde.pcEnd.toNat

instance (fde : FrameDescEntry) (pc : Word) : Decidable (covers fde pc) :=
  inferInstanceAs (Decidable (_ ∧ _))

/-- The scan over at most `count` entries; all of them are parsed over one `fdeInfo`. -/
def linearLoop (pc endPc : Word) :
    ℕ → ParserState → Word → FrameDescEntry → Option (Option Word×ParserState)
  | 0, st, _, _ => some (none, st)
  | count+1, st, ptr, fdeInfo =>
    if ptr.toNat < endPc.toNat then
      (getCieOrFde m st ptr fdeInfo).bind fun out =>
        match out with
        | (none, st) => some (none, st)
        | (some (next, fdeInfo), st) =>
          if covers fdeInfo pc then some (some ptr, st) else linearLoop pc endPc count st next fdeInfo
    else some (none, st)

def linearSearchEntry (st : ParserState) (pc : Word) (uti : UnwindTableInfo) :
    Option (Option Word×ParserState) :=
  linearLoop m pc uti.endPc uti.tableLen.toNat st uti.tableData {}

def tableWord (uti : UnwindTableInfo) (ptr : Word) : Option Word :=
  (m.read ptr 4).map fun value => signed value 4+uti.segbase

/-- The found address, 0 if there is none, and the upper bound of the search. -/
def searchLoop (pc : Word) (uti : UnwindTableInfo) :
    ℕ → Word → Word → Option (Option (Word×Word))
  | 0, low, high => if low.toNat < high.toNat then none else some (some (0, high))
  | fuel+1, low, high =>
    if low.toNat < high.toNat then
      let cur := (low+high)/2
      let ptr := uti.tableData+cur*8
      match tableWord m uti ptr with
      | none => some none
      | some startPc =>
        if startPc = pc then some ((tableWord m uti (ptr+4)).map fun entry => (entry, high))
        else if pc.toNat < startPc.toNat then searchLoop pc uti fuel low cur
        else searchLoop pc uti fuel (cur+1) high
    else some (some (0, high))

def searchEntry (pc : Word) (uti : UnwindTableInfo) : Option (Option Word) :=
  (searchLoop m pc uti uti.tableLen.toNat 0 uti.tableLen).map fun found =>
    found.bind fun out =>
      if out.1 ≠ 0 then some out.1
      else if out.2 ≠ 0 then tableWord m uti (uti.tableData+(out.2-1)*8+4)
      else none

def search (st : ParserState) (pc : Word) (uti : UnwindTableInfo) :
    Option (Option Word×ParserState) :=
  if uti.isLinear then linearSearchEntry m st pc uti
  else (searchEntry (mem m st) pc uti).map fun entry => (entry, st)

def stepEntry {t : Target} (fuel : ℕ) (st : ParserState) (pc segbase entry : Word)
    (rs : RegLocState t) : Option (Option (RegLocState t)×ParserState) :=
  let st := {st with dataOffset := segbase}
  (parseFde m st entry entry {}).bind fun out =>
    match out with
    | (none, st) => some (none, st)
    | (some fde, st) =>
      if covers fde pc then (parse (mem m st) pc fde fuel rs).map fun rs => (some rs, st)
      else some (none, st)

def step {t : Target} (fuel : ℕ) (st : ParserState) (pc : Word) (uti : UnwindTableInfo)
    (rs : RegLocState t) : Option (Option (RegLocState t)×ParserState) :=
  (search m st pc uti).bind fun out =>
    match out with
    | (none, st) => some (none, st)
    | (some entry, st) => stepEntry m fuel st pc uti.segbase entry rs

end Parsing

end Faultloggerd.Dwarf
