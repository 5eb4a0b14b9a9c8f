import Faultloggerd.CoreFile.NoteWriters

/-! # The size of the note segment

Every note appends a number of bytes known beforehand, and stores nowhere before its own start.
-/
namespace Faultloggerd.CoreFile
open List Nat Foundations.ByteStore Buffer

@[grind unfold] def noteHeadSize : ℕ := nhdrSize+noteNameSize

def ThreadNote.size : ThreadNote → ℕ
  | .prstatus => noteHeadSize+392
  | .armPacMask => noteHeadSize+16
  | .fpregset => noteHeadSize+528
  | .siginfo => noteHeadSize+128
  | .armTaggedAddrCtrl => noteHeadSize+sizeofLong

def threadNoteSize (cfg : NoteDumpThreadConfig) : ℕ := ((threadWriters cfg).map ThreadNote.size).sum

def TargetNotes.threadCount (target : TargetNotes) : ℕ :=
  match target.task with
  | none => 0
  | some entries => (entries.filter TaskEntry.isThread).length

def TargetNotes.auxvCount (target : TargetNotes) : ℕ :=
  match target.auxv with
  | none => 0
  | some file => (auxvRecords file).length

@[grind unfold] def fileDescSize (maps : List DumpMemoryRegions) : ℕ :=
  fileHeaderSize+(24*(fileRegions maps).length + ((fileRegions maps).map fun region => region.pathName.length+1).sum)

def ProcessNote.size (cfg : CoredumpConfig) (target : TargetNotes) (maps : List DumpMemoryRegions) :
    ProcessNote → ℕ
  | .prpsinfo => noteHeadSize+136
  | .multiThread => threadNoteSize cfg.threads*target.threadCount
  | .auxv => noteHeadSize+sizeofAuxv*target.auxvCount
  | .dumpMappings => noteHeadSize+(fileDescSize maps+paddingOf 4 (fileDescSize maps))

def noteSegmentSize (cfg : CoredumpConfig) (target : TargetNotes) (maps : List DumpMemoryRegions) : ℕ :=
  ((processWriters cfg.process).map (ProcessNote.size cfg target maps)).sum

theorem paddingOf_lt {alignment : ℕ} (size : ℕ) (h : 0<alignment) : paddingOf alignment size<alignment := by
  unfold paddingOf
  split
  · exact h
  · omega

theorem appends_pokes_advance {size : ℕ} (data : List UInt8) (hd : data.length≤ size) :
    Appends size fun b => (true, (advance size (b.pokes [⟨b.current, data⟩])).2) where
  emits b := emits_pokes_advance _ (by simpa using hd)
  sound _ _ := rfl

variable (noteType : ℕ)

theorem appends_noteWrite (descSize : ℕ) {noteName : List UInt8} (hn : noteName.length+1≤8) :
    Appends noteHeadSize (noteWrite noteType descSize noteName) :=
  Appends.andThen (appends_write (length_encode _) (by decide))
    (appends_pokes_advance _ (by simpa [noteNameSize] using hn))

theorem appends_recordWrite {n : ℕ} {noteName : List UInt8} (record : Blob n) (hn1 : noteName.length+1≤8)
    (hn : n≤ maxCopyCap) : Appends (noteHeadSize+n) (recordWrite noteType noteName record.val) :=
  (appends_noteWrite noteType record.val.length hn1).andThen (appends_write record.property hn)

theorem appends_armTaggedAddrCtrlWrite : Appends (noteHeadSize+sizeofLong) armTaggedAddrCtrlWrite := by
  refine (appends_noteWrite _ _ (by decide)).andThen ⟨fun b => ?_, fun b => ?_⟩
  · by_cases hr : b.capacity-b.current<sizeofLong
    · simp only [hr, refuse]
      refine ⟨rfl, ⟨by simp, fun h => ?_⟩, by simp, by simp⟩
      omega
    · simp only [hr]
      exact emits_pokes_advance _ (by simp)
  · by_cases hr : b.capacity-b.current<sizeofLong
    · simp [Sound, hr, refuse]
    · simp [Sound, hr]

theorem ThreadNote.appends (notes : ThreadNotes) (note : ThreadNote) : Appends note.size (note.write notes) := by
  cases note with
  | prstatus | armPacMask | fpregset | siginfo => exact appends_recordWrite _ _ (by decide) (by decide)
  | armTaggedAddrCtrl => exact appends_armTaggedAddrCtrlWrite

theorem emits_threadNoteWrite (cfg : NoteDumpThreadConfig) (notes : ThreadNotes) (b : Buffer) :
    Emits b.current (threadNoteSize cfg) b (threadNoteWrite cfg notes b).2 :=
  emits_each _ (fun note _ => (note.appends notes).emits) b

theorem emits_multiThreadNoteWrite (cfg : NoteDumpThreadConfig) (target : TargetNotes) (b : Buffer) :
    Emits b.current (threadNoteSize cfg*target.threadCount) b (multiThreadNoteWrite cfg target b).2 := by
  unfold multiThreadNoteWrite TargetNotes.threadCount
  cases target.task with
  | none => exact .refl
  | some es =>
    have h := emits_each (es.filter TaskEntry.isThread)
      (fun entry _ => emits_threadNoteWrite cfg entry.notes) b
    exact h.congr_amount (by simp [mul_comm])

theorem appends_beginNote : Appends noteHeadSize (beginNote noteType) := by
  have hn : (noteNameCore++List.replicate 4 0).length=noteNameSize := by decide
  refine ⟨fun b => ?_, fun b => sound_write (by decide)⟩
  have hh : Emits b.current nhdrSize b (advance nhdrSize (b.pokes
      [⟨b.current, toLE 4 (noteNameCore.length+1)⟩, ⟨b.current+8, toLE 4 noteType⟩])).2 :=
    emits_pokes_advance _ (by simp [nhdrSize])
  refine hh.append le_rfl ?_
  exact (appends_write hn (by decide)).emits _

theorem length_of_mem_auxvRecordsFrom (fuel : ℕ) (file : List UInt8) :
    ∀ record∈auxvRecordsFrom fuel file, record.length=sizeofAuxv := by
  induction fuel generalizing file with
  | zero => simp [auxvRecordsFrom]
  | succ fuel ih =>
    unfold auxvRecordsFrom
    split
    · simp
    · intro record hr
      rcases mem_cons.mp hr with rfl | hr
      · grind
      · split at hr
        · simp at hr
        · exact ih _ record hr

variable {note : ℕ}

/-- The header stays behind the records, so the patches touch nothing else. -/
theorem emits_writeAuxvRecords (recs : List (List UInt8)) (hr1 : ∀ record∈recs, record.length=sizeofAuxv) (b : Buffer)
    (hn : b.ranOut=false → note+nhdrSize≤b.current) :
    Emits note (sizeofAuxv*recs.length) b (writeAuxvRecords note recs b).2 := by
  induction recs generalizing b with
  | nil => exact .refl
  | cons record recs ih =>
    rw [forall_mem_cons] at hr1
    have hc : record.length≤ maxCopyCap := by rw [hr1.1]; decide
    set descsz := BitVec.ofNat 32 (field b.bytes (note+4) 4)+BitVec.ofNat 32 sizeofAuxv
    have hp : Emits note 0 b (b.poke (note+4) (toLE 4 descsz.toNat)) := by
      refine emits_poke fun hr => ?_
      grind
    have hn' : (b.poke (note+4) (toLE 4 descsz.toNat)).ranOut=false →
        note+nhdrSize≤b.current := fun hr => hn (hp.before hr)
    have hw : Emits note sizeofAuxv (b.poke (note+4) (toLE 4 descsz.toNat))
        (write record (b.poke (note+4) (toLE 4 descsz.toNat))).2 :=
      hr1.1 ▸ emits_write hc fun hr => (by have := hn' hr; exact (by omega : note≤b.current))
    have hr2 := ih hr1.2 (write record (b.poke (note+4) (toLE 4 descsz.toNat))).2
      fun hr => by
        rw [hw.current hr]
        exact (hn' (hw.before hr)).trans (le_add_right _ _)
    refine (hp.trans (emits_andThen hw (sound_write hc) hr2)).congr_amount ?_
    simp only [length_cons]
    ring

theorem emits_readProcessAuxv (target : TargetNotes) (b : Buffer) (hn : b.ranOut=false → note+nhdrSize≤b.current) :
    Emits note (sizeofAuxv*target.auxvCount) b (readProcessAuxv note target.auxv b).2 := by
  have hp : Emits note 0 b (b.poke (note+4) (toLE 4 0)) := by
    refine emits_poke fun hr => ?_
    grind
  unfold TargetNotes.auxvCount
  cases target.auxv with
  | none => exact hp
  | some file =>
    have hr1 := emits_writeAuxvRecords (auxvRecords file) (length_of_mem_auxvRecordsFrom _ _)
      (b.poke (note+4) (toLE 4 0)) fun hr => hn (hp.before hr)
    exact (hp.trans hr1).congr_amount (zero_add _)

theorem emits_auxvWrite (target : TargetNotes) (b : Buffer) :
    Emits b.current (noteHeadSize+sizeofAuxv*target.auxvCount) b (auxvWrite target b).2 := by
  have hb := (appends_beginNote ntAuxv).emits b
  refine emits_andThen hb ((appends_beginNote ntAuxv).sound b) ?_
  refine emits_readProcessAuxv target _ fun hr => ?_
  rw [hb.current hr]
  grind

variable (maps : List DumpMemoryRegions)

theorem appends_writeAddrRelated : Appends (24*(fileRegions maps).length) (writeAddrRelated maps) := by
  have h : Appends ((fileRegions maps).map fun _ => 24).sum (writeAddrRelated maps) :=
    appends_all _ fun _ _ => appends_write (length_encode _) (by decide)
  rwa [map_const', sum_replicate_nat, mul_comm] at h

theorem appends_writeFilePath :
    Appends ((fileRegions maps).map fun region => region.pathName.length+1).sum (writeFilePath maps) := by
  refine appends_all _ fun region _ => ?_
  have hp : region.pathName.length≤ maxCopyCap := region.length_pathName.le.trans (by decide)
  exact (appends_write rfl hp).andThen (appends_pokes_advance [0] (by decide))

theorem emits_padZeros (count : ℕ) (b : Buffer) : Emits b.current count b (padZeros count b) := by
  induction count generalizing b with
  | zero => exact .refl
  | succ count ih =>
    have ho : Emits b.current 1 b (advance 1 (b.pokes [⟨b.current, [0]⟩])).2 := emits_pokes_advance _ (by simp)
    exact (ho.append le_rfl (ih _)).congr_amount (add_comm _ _)

theorem emits_endFileNote {start desc : ℕ} (b : Buffer) (hd : fileHeaderSize≤desc)
    (hc : b.ranOut=false → note+nhdrSize≤ start ∧ b.current=start+desc) :
    Emits note (paddingOf 4 desc) b (endFileNote note start maps b).2 := by
  simp only [endFileNote]
  set count := ((BitVec.ofNat 16 ((fileRegions maps).length+1)).setWidth 64-1).toNat
  set patched := (b.poke (note+4) (toLE 4 (b.current-start))).poke start (toLE 8 count) with hp2
  simp only [fileHeaderSize] at hc hd
  have hp : Emits note 0 b patched := by
    have hf : Emits note 0 b (b.poke (note+4) (toLE 4 (b.current-start))) := by
      refine emits_poke fun hr => ?_
      grind
    refine hf.trans (emits_poke fun hr => ?_)
    have := hc (hf.before hr)
    change note≤ start ∧ start+8≤b.current
    omega
  -- the padding is counted from the position the patches leave
  have hp1 := emits_padZeros (paddingOf 4 (b.current-start)) patched
  cases hr : b.ranOut with
  | true =>
    exact .of_ranOut (hp1.capacity.trans hp.capacity) hr
      (hp1.ranOut_of_ranOut (hp.ranOut_of_ranOut hr))
  | false =>
    have he := hc hr
    have hs : b.current-start=desc := by omega
    have hlo : note≤patched.current := (by omega : note≤b.current)
    rw [hs] at hp1 ⊢
    exact (hp.trans (hp1.mono hlo)).congr_amount (zero_add _)

theorem emits_fileRegionWrite (b : Buffer) :
    Emits b.current (noteHeadSize+(fileDescSize maps+paddingOf 4 (fileDescSize maps))) b
      (fileRegionWrite maps b).2 := by
  have hb := (appends_beginNote ntFile).emits b
  refine emits_andThen hb ((appends_beginNote ntFile).sound b) ?_
  set b1 := (beginNote ntFile b).2
  have hh : Emits b.current fileHeaderSize b1
      (advance fileHeaderSize (b1.pokes [⟨b1.current+8, toLE 8 1⟩])).2 :=
    (emits_pokes_advance _ (by simp [fileHeaderSize])).mono_of_room fun hr => by
      rw [hb.current hr]; omega
  set b2 := (advance fileHeaderSize (b1.pokes [⟨b1.current+8, toLE 8 1⟩])).2
  have ha : Emits b.current (24*(fileRegions maps).length) b2 (writeAddrRelated maps b2).2 :=
    ((appends_writeAddrRelated maps).emits b2).mono_of_room fun hr => by
      rw [hh.current hr, hb.current (hh.before hr)]; omega
  set b3 := (writeAddrRelated maps b2).2
  have hp : Emits b.current _ b3 (writeFilePath maps b3).2 :=
    ((appends_writeFilePath maps).emits b3).mono_of_room fun hr => by
      have hroom' := ha.before hr
      rw [ha.current hr, hh.current hroom', hb.current (hh.before hroom')]; omega
  set b4 := (writeFilePath maps b3).2
  have he : Emits b.current (paddingOf 4 (fileDescSize maps)) b4
      (endFileNote b.current b1.current maps b4).2 := by
    refine emits_endFileNote maps b4 (by simp [fileDescSize]) fun hr => ?_
    have hr3 := hp.before hr
    have hr2 := ha.before hr3
    have hr1 := hh.before hr2
    rw [hp.current hr, ha.current hr3, hh.current hr2, hb.current hr1]
    grind
  have hb1 := emits_andThen ha ((appends_writeAddrRelated maps).sound b2)
    (emits_andThen hp ((appends_writeFilePath maps).sound b3) he)
  refine (hh.trans hb1).congr_amount ?_
  grind

theorem ProcessNote.emits (cfg : CoredumpConfig) (target : TargetNotes) (maps : List DumpMemoryRegions)
    (note : ProcessNote) (b : Buffer) :
    Emits b.current (note.size cfg target maps) b (note.write cfg target maps b).2 := by
  cases note with
  | prpsinfo => exact (appends_recordWrite _ _ (by decide) (by decide)).emits b
  | multiThread => exact emits_multiThreadNoteWrite cfg.threads target b
  | auxv => exact emits_auxvWrite target b
  | dumpMappings => exact emits_fileRegionWrite maps b

theorem emits_notes (cfg : CoredumpConfig) (target : TargetNotes) (maps : List DumpMemoryRegions) (b : Buffer) :
    Emits b.current (noteSegmentSize cfg target maps) b
      (Writer.each ((processWriters cfg.process).map (ProcessNote.write cfg target maps)) b) :=
  emits_each _ (fun note _ => note.emits cfg target maps) b

end Faultloggerd.CoreFile
