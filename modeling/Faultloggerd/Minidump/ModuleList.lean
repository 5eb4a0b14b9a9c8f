import Faultloggerd.Minidump.Streams

/-! # The module list stream (`minidump_module.cpp`)

`read` decodes the modules first and then, one module after the other, reads its name and registers its range, so that
a list whose third name is broken has registered two ranges when it fails. As with memory regions a module is
registered with its end as an address of the range, in the one optimizer of the process.
-/
namespace Faultloggerd.Minidump

structure ProcessOptimizer extends PerformanceOptimizer where
  intervalTreeModule : IntervalTree ℕ ℕ
  rangeMapModule : RangeMap ℕ
  adaptiveModuleIndex : AdaptiveAddressIndex ℕ

def ProcessOptimizer.new (config : MinidumpConfig) : ProcessOptimizer where
  toPerformanceOptimizer := PerformanceOptimizer.new config
  intervalTreeModule := IntervalTree.empty
  rangeMapModule := RangeMap.empty
  adaptiveModuleIndex :=
    AdaptiveAddressIndex.new AdaptiveAddressIndex.defaultAddressRange AdaptiveAddressIndex.defaultBitmapGranularity

structure MDRawModule where
  baseOfImage : ℕ
  sizeOfImage : ℕ
  moduleNameRva : ℕ
deriving DecidableEq

namespace MDRawModule

def byteSize : ℕ := 108

def decode (bytes : List UInt8) : MDRawModule where
  baseOfImage := leValue (bytes.take 8)
  sizeOfImage := leValue ((bytes.drop 8).take 4)
  moduleNameRva := leValue ((bytes.drop 20).take 4)

end MDRawModule

structure MinidumpModule where
  moduleValid : Bool
  module : MDRawModule
  name : Option (List UInt8)
  isValid : Bool
deriving DecidableEq

namespace MinidumpModule

def ofRaw (module : MDRawModule) : MinidumpModule := ⟨true, module, none, false⟩

def baseAddress (m : MinidumpModule) : ℕ := if m.isValid then m.module.baseOfImage else 2^64-1

def size (m : MinidumpModule) : ℕ := if m.isValid then m.module.sizeOfImage else 0

def readAuxiliaryData (config : ParserConfig) (r : MinidumpMemoryReader) (m : MinidumpModule) :
    Bool × MinidumpModule × MinidumpMemoryReader :=
  if !m.moduleValid then (false, m, r)
  else
    let (name, r) :=
      if m.module.moduleNameRva > 0 then r.readString config m.module.moduleNameRva else (none, r)
    match name with
    | none => (false, {m with name := none}, r)
    | some name => (true, {m with name := some name, isValid := true}, r)

end MinidumpModule

structure MinidumpModuleList where
  memoryReader : Option MinidumpMemoryReader
  isValid : Bool
  lastError : Option (StreamError×String)
  modules : List MinidumpModule
  moduleCount : ℕ
  /-- `addressIndex_` points at the optimizer's adaptive index, or is null. -/
  addressIndex : Bool

namespace MinidumpModuleList

def new (reader : Option MinidumpMemoryReader) (addressIndex : Bool) : MinidumpModuleList :=
  ⟨reader, false, none, [], 0, addressIndex⟩

def overlap (l : MinidumpModuleList) : MinidumpModuleList :=
  {l with lastError := some (.rangeOverlap, "Module range overlap detected")}

def registerModuleRange (config : ParserConfig) (base size index : ℕ) (s : ProcessOptimizer×MinidumpModuleList) :
    ProcessOptimizer × MinidumpModuleList :=
  let (opt, l) := s
  let stop := base+size
  if stop ≥ 2^64 then (opt, {l with lastError := some (.corruptedData, "Module range overflow")})
  else if l.addressIndex then
    let (ok, x) := opt.adaptiveModuleIndex.insert base stop index
    ({opt with adaptiveModuleIndex := x}, if ok then l else l.overlap)
  else
    let (opt, l) :=
      if config.enableRangeMap then
        let (ok, m) := opt.rangeMapModule.storeRange base size index
        ({opt with rangeMapModule := m}, if ok then l else l.overlap)
      else (opt, l)
    let (opt, l) :=
      if config.enableIntervalTree then
        let (ok, t) := opt.intervalTreeModule.insert base stop index
        ({opt with intervalTreeModule := t}, if ok then l else l.overlap)
      else (opt, l)
    if config.enableBitmapIndex then
      -- one bitmap serves modules and memory regions
      ({opt with bitmapIndex := opt.bitmapIndex.markRange base stop}, l)
    else (opt, l)

/-- The loop of `ReadModuleAuxiliaryDataAndIndex` over the modules with their positions. -/
def readModuleAuxiliaryDataAndIndex (config : ParserConfig) :
    List (MinidumpModule×ℕ) → MinidumpMemoryReader → ProcessOptimizer × MinidumpModuleList →
      Bool × ProcessOptimizer × MinidumpModuleList
  | [], r, (opt, l) => (true, opt, {l with memoryReader := some r})
  | (m, i) :: rest, r, (opt, l) =>
    let (ok, m, r) := m.readAuxiliaryData config r
    let l := {l with modules := l.modules.set i m}
    if !ok && !m.isValid then
      (false, opt, {l with
        memoryReader := some r
        lastError := some (.stringRead, "Cannot read module name")})
    else if m.baseAddress = 2^64-1 then
      (false, opt, {l with
        memoryReader := some r
        lastError := some (.corruptedData, "Invalid module base address")})
    else readModuleAuxiliaryDataAndIndex config rest r (registerModuleRange config m.baseAddress m.size i (opt, l))

def read (config : ParserConfig) (opt : ProcessOptimizer) (l : MinidumpModuleList) :
    Bool × ProcessOptimizer × MinidumpModuleList :=
  let l := {l with moduleCount := 0, isValid := false, modules := []}
  match l.memoryReader with
  | none => (false, opt, l)
  | some r =>
    match r.readBytes 4 with
    | none => (false, opt, {l with lastError := some (.moduleRead, "Cannot read module count")})
    | some (bytes, r) =>
      let moduleCount := leValue bytes
      if moduleCount = 0 ∨ moduleCount > config.maxModules then
        (false, opt, {l with memoryReader := some r, lastError := some (.moduleCount, "Invalid module count")})
      else
        match r.readRecords MDRawModule.byteSize moduleCount with
        | (none, r) =>
          (false, opt, {l with memoryReader := some r, lastError := some (.moduleRead, "Cannot read module data")})
        | (some records, r) =>
          let modules := records.map fun bytes => MinidumpModule.ofRaw (MDRawModule.decode bytes)
          match readModuleAuxiliaryDataAndIndex config modules.zipIdx r (opt, {l with modules := modules}) with
          | (false, opt, l) => (false, opt, l)
          | (true, opt, l) => (true, opt, {l with moduleCount := moduleCount, isValid := true, lastError := none})

def getModuleAtIndex (l : MinidumpModuleList) (index : ℕ) : Option ℕ :=
  if !l.isValid || index ≥ l.moduleCount then none else some index

def getMainModule (l : MinidumpModuleList) : Option ℕ :=
  if !l.isValid || l.moduleCount = 0 then none else l.getModuleAtIndex 0

def findModule (config : ParserConfig) (opt : ProcessOptimizer) (l : MinidumpModuleList) (address : ℕ) : Option ℕ :=
  if l.addressIndex then opt.adaptiveModuleIndex.lookup address
  else if config.enableBitmapIndex && !opt.bitmapIndex.isInRange address && opt.bitmapIndex.size != 0 then none
  else
    let found := if config.enableRangeMap then opt.rangeMapModule.retrieveRange address else none
    if found.isNone && config.enableIntervalTree then opt.intervalTreeModule.search address else found

def getModuleForAddress (config : ParserConfig) (opt : ProcessOptimizer) (l : MinidumpModuleList) (address : ℕ) :
    Option ℕ :=
  if !l.isValid then none
  else (findModule config opt l address).bind l.getModuleAtIndex

end MinidumpModuleList

end Faultloggerd.Minidump
