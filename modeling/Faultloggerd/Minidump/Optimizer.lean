import Faultloggerd.Minidump.AddressIndex

/-! # The process-wide lookup structures (`RangeMap`, `PerformanceOptimizer`, `MinidumpConfig`)

`PerformanceOptimizer` is a singleton. A memory list that was given no address index of its own
registers its regions in the range map, the interval tree and the bitmap here, as far as the
configuration enables them; one that was given an index uses the optimizer's adaptive one.
-/
namespace Faultloggerd.Minidump

structure MinidumpConfig where
  maxMemoryRegions : ℕ := 4096
  enableRangeMap : Bool := false
  enableIntervalTree : Bool := true
  enableBitmapIndex : Bool := true
  bitmapGranularity : ℕ := 134217728
  lruCacheCapacity : ℕ := 32

/-- A `std::map` from the base of a range to its last address and value, in key order. -/
structure RangeMap (ε : Type) where
  map : List (IndexEntry ℕ ε)
  high : ℕ

namespace RangeMap
variable {ε : Type}

def empty : RangeMap ε := ⟨[], 0⟩

def storeRange (m : RangeMap ε) (base size : ℕ) (value : ε) : Bool × RangeMap ε :=
  if size = 0 then (false, m)
  else if base+size ≥ 2^64 then (false, m)
  else
    let high := base+size-1
    let before := m.map.takeWhile fun e => e.start < base
    let after := m.map.dropWhile fun e => e.start < base
    if after.head?.any fun e => e.start ≤ high then (false, m)
    else if before.getLast?.any fun e => e.stop ≥ base then (false, m)
    else (true, ⟨before++⟨base, high, value⟩::after, max m.high high⟩)

def retrieveRange (m : RangeMap ε) (address : ℕ) : Option ε :=
  ((m.map.takeWhile fun e => e.start≤address).getLast?).bind fun e =>
    if e.Contains address then some e.value else none

end RangeMap

/-- The members that serve memory regions; those for modules are of the same types. -/
structure PerformanceOptimizer where
  intervalTreeMemory : IntervalTree ℕ ℕ
  bitmapIndex : BitmapIndex
  rangeMapMemory : RangeMap ℕ
  adaptiveMemoryIndex : AdaptiveAddressIndex ℕ

namespace PerformanceOptimizer

def new (config : MinidumpConfig) : PerformanceOptimizer where
  intervalTreeMemory := IntervalTree.empty
  bitmapIndex := BitmapIndex.new 0x800000000000 config.bitmapGranularity
  rangeMapMemory := RangeMap.empty
  adaptiveMemoryIndex :=
    AdaptiveAddressIndex.new AdaptiveAddressIndex.defaultAddressRange
      AdaptiveAddressIndex.defaultBitmapGranularity

end PerformanceOptimizer
end Faultloggerd.Minidump
