import Faultloggerd.CoreFile.LoadWriter

/-! # What the load segments hold

The image of a list of segments says what each byte of the file should be. Merging neighbours keeps it, dealing
the segments to threads cuts it into consecutive pieces, and every store a thread makes agrees with it.
-/
namespace Faultloggerd.CoreFile
open List Nat Foundations.ByteStore

def segmentsSize (segs : List Phdr) : ℕ := (segs.map fun seg => seg.pMemsz.toNat).sum

@[simp] theorem segmentsSize_nil : segmentsSize []=0 := rfl

@[simp, grind =] theorem segmentsSize_cons (seg : Phdr) (segs : List Phdr) :
    segmentsSize (seg::segs)=seg.pMemsz.toNat+segmentsSize segs := by
  simp [segmentsSize]

variable (segs : List Phdr)

@[simp] theorem segmentsSize_append (segs' : List Phdr) :
    segmentsSize (segs++segs')=segmentsSize segs+segmentsSize segs' := by
  simp [segmentsSize]

def image (vm : ProcessVm) : ℕ → List Phdr → ℕ → Option UInt8
  | _, [], _ => none
  | pos, seg :: segs, a =>
    if a < pos then none
    else if a < pos+seg.pMemsz.toNat then some (vm.memory (seg.pVaddr+BitVec.ofNat 64 (a-pos)))
    else image vm (pos+seg.pMemsz.toNat) segs a

variable {vm : ProcessVm}

variable (pos : ℕ)

theorem image_cons (seg : Phdr) (segs : List Phdr) (a : ℕ) : image vm pos (seg::segs) a=if a<pos then none
      else if a<pos+seg.pMemsz.toNat then some (vm.memory (seg.pVaddr+BitVec.ofNat 64 (a-pos)))
      else image vm (pos+seg.pMemsz.toNat) segs a := rfl

theorem image_isSome_iff (segs : List Phdr) (a : ℕ) :
    (image vm pos segs a).isSome ↔ pos≤a ∧ a<pos+segmentsSize segs := by
  induction segs generalizing pos with
  | nil => simp [image]
  | cons seg segs ih =>
    rw [image_cons, segmentsSize_cons]
    split
    · simp; omega
    · split
      · simp; omega
      · rw [ih]; omega

theorem image_append (segs segs' : List Phdr) (a : ℕ) : image vm pos (segs++segs') a =
      (image vm pos segs a).or (image vm (pos+segmentsSize segs) segs' a) := by
  induction segs generalizing pos with
  | nil => simp [image]
  | cons seg segs ih =>
    rw [cons_append, image_cons, image_cons]
    split
    · have hn : image vm (pos+segmentsSize (seg::segs)) segs' a=none := by
        rw [←Option.not_isSome_iff_eq_none, image_isSome_iff]
        omega
      rw [hn]
      rfl
    · split
      · rfl
      · rw [ih, segmentsSize_cons, add_assoc]

theorem image_at (segs : List Phdr) (i : ℕ) (hi : i<segs.length) (j : ℕ) (hj : j<segs[i].pMemsz.toNat) :
    image vm pos segs (pos+segmentsSize (segs.take i)+j)=some (vm.memory (segs[i].pVaddr+BitVec.ofNat 64 j)) := by
  induction segs generalizing pos i with
  | nil => exact absurd hi (not_lt_zero i)
  | cons seg segs ih =>
    cases i with
    | zero =>
      rw [getElem_cons_zero] at hj ⊢
      rw [take_zero, segmentsSize_nil, add_zero, image_cons, if_neg (by omega), if_pos (by omega),
        Nat.add_sub_cancel_left]
    | succ i =>
      have h := ih (pos+seg.pMemsz.toNat) i (by simpa using hi) hj
      rw [take_succ_cons, segmentsSize_cons, getElem_cons_succ, ←add_assoc, image_cons,
        if_neg (by omega), if_neg (by omega), h]

variable (merged : Phdr)

theorem segmentsSize_mergeFrom (segs : List Phdr) (hs : segmentsSize (merged::segs)<2^64) :
    segmentsSize (mergeFrom merged segs)=segmentsSize (merged::segs) := by
  induction segs generalizing merged with
  | nil => rfl
  | cons seg segs ih =>
    rw [segmentsSize_cons, segmentsSize_cons] at hs
    rw [mergeFrom]
    split
    · grind
    · rw [segmentsSize_cons, ih _ (by grind), segmentsSize_cons merged]

theorem image_mergeFrom (segs : List Phdr) (pos a : ℕ) (hs1 : segmentsSize (merged::segs)<2^64) :
    image vm pos (mergeFrom merged segs) a=image vm pos (merged::segs) a := by
  induction segs generalizing merged pos with
  | nil => rfl
  | cons seg segs ih =>
    rw [segmentsSize_cons, segmentsSize_cons] at hs1
    rw [mergeFrom]
    split
    · rename_i hj
      have ha1 : (merged.pMemsz+seg.pMemsz).toNat=merged.pMemsz.toNat+seg.pMemsz.toNat := by
        rw [BitVec.toNat_add, mod_eq_of_lt (by omega)]
      rw [ih _ pos (by grind)]
      simp only [image_cons, ha1]
      by_cases hl : a<pos
      · simp [hl]
      by_cases hf : a<pos+merged.pMemsz.toNat
      · have hb : a<pos+(merged.pMemsz.toNat+seg.pMemsz.toNat) := by omega
        simp [hf, hb]
      by_cases hs : a<pos+merged.pMemsz.toNat+seg.pMemsz.toNat
      · -- the second segment goes on where the first one ends, in the file and in the target
        have ha : merged.pVaddr+BitVec.ofNat 64 (a-pos) =
            seg.pVaddr+BitVec.ofNat 64 (a-(pos+merged.pMemsz.toNat)) := by
          rw [←hj.1, BitVec.add_assoc]
          congr 1
          apply BitVec.eq_of_toNat_eq
          grind
        have hb : a<pos+(merged.pMemsz.toNat+seg.pMemsz.toNat) := by omega
        simp [hf, hs, hb, ha]
      · have hb : ¬a<pos+(merged.pMemsz.toNat+seg.pMemsz.toNat) := by omega
        simp [hf, hb, add_assoc]
    · rw [image_cons, image_cons pos merged, ih _ _ (by grind)]

theorem forall_mem_mergeFrom {P : BitVec 64 → Prop} (segs : List Phdr) (hs1 : segmentsSize (merged::segs)<2^64)
    (h : ∀ seg∈merged::segs, ∀ i<seg.pMemsz.toNat, P (seg.pVaddr+BitVec.ofNat 64 i)) :
    ∀ seg∈mergeFrom merged segs, ∀ i<seg.pMemsz.toNat, P (seg.pVaddr+BitVec.ofNat 64 i) := by
  induction segs generalizing merged with
  | nil => exact h
  | cons seg segs ih =>
    simp only [segmentsSize_cons] at hs1
    rw [forall_mem_cons, forall_mem_cons] at h
    rw [mergeFrom]
    split
    · rename_i hj
      have ha1 : (merged.pMemsz+seg.pMemsz).toNat=merged.pMemsz.toNat+seg.pMemsz.toNat := by
        rw [BitVec.toNat_add, mod_eq_of_lt (by omega)]
      refine ih _ (by grind) (forall_mem_cons.mpr ⟨fun i hi => ?_, h.2.2⟩)
      rw [ha1] at hi
      by_cases hf : i< merged.pMemsz.toNat
      · exact h.1 i hf
      · have hs := h.2.1 (i-merged.pMemsz.toNat) (by omega)
        have ha : merged.pVaddr+BitVec.ofNat 64 i = seg.pVaddr+BitVec.ofNat 64 (i-merged.pMemsz.toNat) := by
          rw [←hj.1, BitVec.add_assoc]
          congr 1
          apply BitVec.eq_of_toNat_eq
          grind
        rw [ha]
        exact hs
    · exact forall_mem_cons.mpr ⟨h.1, ih _ (by grind) (forall_mem_cons.mpr h.2)⟩

section Copies

variable {cap : ℕ}

variable (segs : List Phdr) (pos : ℕ)

theorem ranOut_copySegments (hp : pos≤ cap) :
    (copySegments vm cap pos segs).ranOut=false ↔ pos+segmentsSize segs≤ cap := by
  induction segs generalizing pos with
  | nil => simpa [copySegments] using hp
  | cons seg segs ih =>
    rw [copySegments, segmentsSize_cons]
    split
    · simp; omega
    · rw [ih _ (by omega)]; omega

theorem totalWritten_copySegments (hf : pos+segmentsSize segs≤ cap) (hs : segmentsSize segs<2^64) :
    (copySegments vm cap pos segs).totalWritten.toNat=segmentsSize segs := by
  induction segs generalizing pos with
  | nil => rfl
  | cons seg segs ih =>
    rw [segmentsSize_cons] at hf hs
    rw [copySegments, if_neg (by omega), BitVec.toNat_add, ih _ (by omega) (by omega), mod_eq_of_lt hs,
      segmentsSize_cons]

theorem image_of_puts_copySegments :
    ∀ w∈(copySegments vm cap pos segs).stores, ∀ a x, w.Puts a x → image vm pos segs a=some x := by
  induction segs generalizing pos with
  | nil => simp [copySegments]
  | cons seg segs ih =>
    intro w hw a x hp
    rw [copySegments] at hw
    split at hw
    · simp at hw
    · rcases mem_cons.mp hw with rfl | hw
      · obtain ⟨i, hi, ha, hx⟩ := hp
        have hl : i<seg.pMemsz.toNat := by
          simp only [ProcessVm.readv, length_map, length_range] at hi
          omega
        have ha : a=pos+i := ha
        rw [image_cons, if_neg (by omega), if_pos (by omega), ha, ←hx]
        simp [ProcessVm.readv]
      · have hr := ih _ w hw a x hp
        have hs : (image vm (pos+seg.pMemsz.toNat) segs a).isSome := by simp [hr]
        have hin := (image_isSome_iff _ _ _).mp hs
        rw [image_cons, if_neg (by omega), if_neg (by omega), hr]

theorem reaches_copySegments (hf : pos+segmentsSize segs≤ cap)
    (hr : ∀ seg∈segs, seg.pMemsz.toNat≤vm.transferred seg.pVaddr seg.pMemsz) (a : ℕ) (hlo : pos≤a)
    (hhi : a<pos+segmentsSize segs) : ∃ w∈(copySegments vm cap pos segs).stores, w.Reaches a := by
  induction segs generalizing pos with
  | nil => simp at hhi; omega
  | cons seg segs ih =>
    rw [segmentsSize_cons] at hf hhi
    rw [forall_mem_cons] at hr
    rw [copySegments, if_neg (by omega)]
    by_cases hf1 : a<pos+seg.pMemsz.toNat
    · refine ⟨_, mem_cons_self, hlo, ?_⟩
      simp only [ProcessVm.readv, length_map, length_range]
      omega
    · obtain ⟨w, hw, hr1⟩ := ih (pos+seg.pMemsz.toNat) (by omega) hr.2 (by omega) (by omega)
      exact ⟨w, mem_cons_of_mem _ hw, hr1⟩

end Copies

theorem mem_offsetStores (idx pos : ℕ) (w : Store) : w∈offsetStores idx pos segs ↔ ∃ i<segs.length,
      w=⟨phdrPos (idx+i+1)+Phdr.pOffsetAt, toLE 8 (pos+segmentsSize (segs.take i))⟩ := by
  induction segs generalizing idx pos with
  | nil => simp [offsetStores]
  | cons seg segs ih =>
    rw [offsetStores, mem_cons, ih]
    constructor
    · rintro (rfl | ⟨i, hi, rfl⟩)
      · exact ⟨0, by simp, by simp⟩
      · refine ⟨i+1, by simpa using hi, ?_⟩
        simp [add_assoc, add_comm 1 i]
    · rintro ⟨i, hi, rfl⟩
      cases i with
      | zero => exact .inl (by simp)
      | succ i =>
        refine .inr ⟨i, by simpa using hi, ?_⟩
        simp [add_assoc, add_comm 1 i]

theorem offsetStores_append (segs' : List Phdr) (idx pos : ℕ) : offsetStores idx pos (segs++segs') =
      offsetStores idx pos segs++offsetStores (idx+segs.length) (pos+segmentsSize segs) segs' := by
  induction segs generalizing idx pos with
  | nil => simp [offsetStores]
  | cons seg segs ih =>
    rw [cons_append, offsetStores, offsetStores, ih]
    simp [add_assoc, add_comm 1 segs.length]

/-- The tasks take the segments from `idx` on in their order, and place them one after another from `pos` on. -/
inductive Planned : ℕ → List Phdr → ℕ → List WriteTask → Prop where
  | done (idx pos : ℕ) : Planned idx [] pos []
  | task (idx pos : ℕ) (own rest : List Phdr) (tasks : List WriteTask) :
      Planned (idx+own.length) rest (pos+segmentsSize own) tasks →
        Planned idx (own++rest) pos (⟨idx, idx+own.length, pos⟩::tasks)

theorem takeSegments_spec (isLast : Bool) (targetSize : BitVec 64) (segs : List Phdr) (accSize : BitVec 64)
    (hs : accSize.toNat+segmentsSize segs<2^64) : (takeSegments isLast targetSize segs accSize).1≤ segs.length ∧
      (takeSegments isLast targetSize segs accSize).2.toNat =
        accSize.toNat+segmentsSize (segs.take (takeSegments isLast targetSize segs accSize).1) ∧
      (isLast=true → (takeSegments isLast targetSize segs accSize).1=segs.length) := by
  induction segs generalizing accSize with
  | nil => simp [takeSegments]
  | cons seg segs ih =>
    rw [segmentsSize_cons] at hs
    have ha1 : (accSize+seg.pMemsz).toNat=accSize.toNat+seg.pMemsz.toNat := by
      rw [BitVec.toNat_add, mod_eq_of_lt (by omega)]
    rw [takeSegments]
    split
    · obtain ⟨hle, ha, hl⟩ := ih (accSize+seg.pMemsz) (by omega)
      refine ⟨by simpa using hle, ?_, fun h => by simpa using hl h⟩
      rw [ha, ha1, take_succ_cons, segmentsSize_cons, add_assoc]
    · rename_i hno
      refine ⟨by simp, by simp, fun h => ?_⟩
      simp [h] at hno

theorem planned_writeTasksFrom (targetSize : BitVec 64) (base ths start : ℕ) (off : BitVec 64)
    (hs1 : off.toNat+segmentsSize (segs.drop start)<2^64) : Planned start (segs.drop start) (base+off.toNat)
      (writeTasksFrom segs targetSize base (ths+1) start off) := by
  induction ths generalizing start off with
  | zero =>
    obtain ⟨-, -, hl1⟩ := takeSegments_spec true targetSize (segs.drop start) 0 (by simpa using by omega)
    have ha1 := hl1 rfl
    have h := Planned.task start (base+off.toNat) (segs.drop start) [] [] (.done _ _)
    rw [append_nil] at h
    simpa only [writeTasksFrom, beq_self_eq_true, ha1] using h
  | succ ths ih =>
    obtain ⟨hle, ha, -⟩ := takeSegments_spec false targetSize (segs.drop start) 0 (by simpa using by omega)
    set r := takeSegments false targetSize (segs.drop start) 0
    have hs : (segs.drop start).take r.1++segs.drop (start+r.1)=segs.drop start := by
      rw [←drop_drop, take_append_drop]
    have hl : ((segs.drop start).take r.1).length=r.1 := by
      grind
    have ht := congrArg segmentsSize hs
    rw [segmentsSize_append] at ht
    have hz : (0 : BitVec 64).toNat=0 := rfl
    rw [hz, zero_add] at ha
    have ho : (off+r.2).toNat=off.toNat+segmentsSize ((segs.drop start).take r.1) := by
      rw [BitVec.toNat_add, ha, mod_eq_of_lt (by omega)]
    have hr := ih (start+r.1) (off+r.2) (by omega)
    have h := Planned.task start (base+off.toNat) ((segs.drop start).take r.1) (segs.drop (start+r.1))
      (writeTasksFrom segs targetSize base (ths+1) (start+r.1) (off+r.2))
      (by rw [hl, add_assoc, ←ho]; exact hr)
    rwa [hs, hl] at h

end Faultloggerd.CoreFile
