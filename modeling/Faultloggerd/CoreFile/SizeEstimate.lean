import Mathlib.Algebra.Order.BigOperators.Group.List
import Faultloggerd.CoreFile.Layout

/-! # The size estimate

`EstimateFileSize` decides how much is mapped before anything is written. It allows for the memory of the dumped
regions and for a fixed amount per region of the map. The notes of the threads, the auxiliary vector, the build
string and the last two section headers come out of the space that is left.
-/
namespace Faultloggerd.CoreFile
open Dump List Foundations.ByteStore

namespace Dump

/-- The part of the file whose size varies: notes, build string with the padding behind the strings, a header and
a section per segment, and the segments. -/
def variableSize (d : Dump) : ℕ :=
  d.noteSize+((buildInfo d.version).length+paddingOf alignSize (stringsEnd d.version d.versionStart)) +
    (phdrSize*(includedRegions d.maps).length+shdrSize*(d.sectionCount-4)+totalSize d.dumpedRegions)

/-- What the estimate leaves for it. -/
@[grind unfold] def reservedSize (d : Dump) : ℕ := 823+(232*d.maps.length+totalSize (includedRegions d.maps))

end Dump

theorem length_strTable : strTable.length=49 := by decide

theorem coreSize_eq (d : Dump) : d.coreSize=425+d.variableSize := by
  have hc : d.sectionCount=d.sectionCount-4+4 := rfl
  rw [coreSize, sectionTableStart, sectionsStart, variableSize]
  rw [stringsEnd, versionStart, loadStart, noteStart, d.headerCount_eq, length_strTable]
  grind

theorem exactEstimate_eq (d : Dump) : exactEstimate d.maps=425+d.reservedSize := by
  grind

theorem coreSize_le_estimate {d : Dump} (h : exactEstimate d.maps< maxCoredumpSize.toNat) :
    d.coreSize≤(estimateFileSize d.maps).toNat ↔ d.variableSize≤d.reservedSize := by
  rw [toNat_estimateFileSize h, coreSize_eq, exactEstimate_eq]
  omega

theorem totalSize_dumpedRegions_le_included (d : Dump) :
    totalSize d.dumpedRegions≤totalSize (includedRegions d.maps) := by
  have hs := totalSize_append ((includedRegions d.maps).take (d.phnum.toNat-1))
    ((includedRegions d.maps).drop (d.phnum.toNat-1))
  rw [take_append_drop] at hs
  rw [hs]
  exact Nat.le_add_right _ _

theorem fits_estimate {d : Dump} (bytes : Bytes) (h : exactEstimate d.maps< maxCoredumpSize.toNat) :
    (d.generate bytes (estimateFileSize d.maps)).ranOut=false ↔ d.variableSize≤d.reservedSize := by
  have he := toNat_estimateFileSize h
  have hf : phdrPos 1+16≤(estimateFileSize d.maps).toNat := by
    grind
  have hm : totalSize d.dumpedRegions<2^64 := by
    have hle := totalSize_dumpedRegions_le_included d
    unfold exactEstimate at h
    omega
  rw [(generated d bytes (estimateFileSize d.maps) hf hm).room, coreSize_le_estimate h]

/-- The file fits the estimate, and no writer runs out of buffer, exactly if what varies takes no more than the estimate
allows per region. -/
theorem size_estimate_sufficient (d : Dump) (bytes : Bytes) (hcap : exactEstimate d.maps< maxCoredumpSize.toNat) :
    (d.coreSize≤(estimateFileSize d.maps).toNat ↔ d.variableSize≤d.reservedSize) ∧
      ((d.generate bytes (estimateFileSize d.maps)).ranOut=false ↔ d.variableSize≤d.reservedSize) :=
  ⟨coreSize_le_estimate hcap, fits_estimate bytes hcap⟩

/-- One thread has room beside eight regions. -/
theorem one_thread_fits :
    let d := sampleDump ((List.range 8).map fun k => anonymousRegion (.ofNat 64 (0x2000 * (k + 1))) 4096) 1
    d.variableSize ≤ d.reservedSize ∧ d.coreSize ≤ (estimateFileSize d.maps).toNat ∧
      (d.generate (fun _ => 0) (estimateFileSize d.maps)).ranOut = false := by
  intro d
  have hf : d.variableSize ≤ d.reservedSize := by decide +kernel
  have he := size_estimate_sufficient d (fun _ => 0) (by decide +kernel)
  exact ⟨hf, he.1.mpr hf, he.2.mpr hf⟩

theorem outgrown_by_threads {d : Dump} (hr : (includedRegions d.maps).length<65532)
    (hn : d.cfg.process.multiThread=true)
    (ht : 823+232*d.maps.length<threadNoteSize d.cfg.threads*d.target.threadCount) :
    d.reservedSize<d.variableSize := by
  have hw : ProcessNote.multiThread∈processWriters d.cfg.process := mem_filter.mpr ⟨by simp, hn⟩
  have hn1 : threadNoteSize d.cfg.threads*d.target.threadCount≤d.noteSize := le_sum_of_mem (mem_map_of_mem hw)
  rw [reservedSize, variableSize, dumpedRegions_eq hr]
  omega

/-- Two threads outgrow what three regions leave them. -/
theorem threads_outgrow_estimate :
    let d := sampleDump [anonymousRegion 0x1000 4096, anonymousRegion 0x3000 4096, anonymousRegion 0x5000 4096] 2
    exactEstimate d.maps< maxCoredumpSize.toNat ∧ (estimateFileSize d.maps).toNat<d.coreSize ∧
      (d.generate (fun _ => 0) (estimateFileSize d.maps)).ranOut=true := by
  intro d
  have hc : exactEstimate d.maps< maxCoredumpSize.toNat := by decide +kernel
  have ho : ¬d.variableSize≤d.reservedSize := (outgrown_by_threads (by decide) rfl (by decide +kernel)).not_ge
  refine ⟨hc, ?_, ?_⟩
  · rwa [←coreSize_le_estimate hc, Nat.not_le] at ho
  · rwa [←fits_estimate (fun _ => 0) hc, Bool.not_eq_false] at ho

end Faultloggerd.CoreFile
