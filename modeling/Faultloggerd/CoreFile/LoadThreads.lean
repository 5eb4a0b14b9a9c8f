import Faultloggerd.CoreFile.LoadImage

/-! # The threads of the load writer

Whatever order the threads' stores take place in, the headers carry the offsets of consecutive segments and the
segments hold the image.
-/
namespace Faultloggerd.CoreFile
open List Option TaskResult Foundations.ByteStore

/-- A read of bytes that all satisfy `P` is not cut short. -/
def ProcessVm.Delivers (vm : ProcessVm) (P : BitVec 64 → Prop) : Prop :=
  ∀ addr len, (∀ i<len.toNat, P (addr+BitVec.ofNat 64 i)) → len.toNat ≤ vm.transferred addr len

section Plan

variable {vm : ProcessVm} {capacity idx pos : ℕ} {segs rest : List Phdr} {tasks : List WriteTask}

theorem mergeLoadSeg_spec (vm : ProcessVm) (own : List Phdr) (hsize : segmentsSize own<2^64) :
    segmentsSize (mergeLoadSeg own)=segmentsSize own ∧
      (∀ pos a, image vm pos (mergeLoadSeg own) a=image vm pos own a) ∧
      ∀ P : BitVec 64 → Prop, (∀ seg∈own, ∀ i<seg.pMemsz.toNat, P (seg.pVaddr+BitVec.ofNat 64 i)) →
        ∀ seg∈mergeLoadSeg own, ∀ i<seg.pMemsz.toNat, P (seg.pVaddr+BitVec.ofNat 64 i) := by
  cases own with
  | nil => exact ⟨rfl, fun _ _ => rfl, fun _ h => h⟩
  | cons seg own =>
    exact ⟨segmentsSize_mergeFrom seg own hsize, fun _ _ => image_mergeFrom seg own _ _ hsize,
      fun _ h => forall_mem_mergeFrom seg own hsize h⟩

theorem slice_eq {own : List Phdr} (hdrop : segs.drop idx=own++rest) :
    (segs.drop idx).take (idx+own.length-idx)=own := by
  rw [hdrop, Nat.add_sub_cancel_left, take_left]

theorem drop_rest {own : List Phdr} (hdrop : segs.drop idx=own++rest) : segs.drop (idx+own.length)=rest := by
  rw [←drop_drop, hdrop, drop_left]

section

variable (hplan : Planned idx rest pos tasks) (hdrop : segs.drop idx=rest)
include hplan hdrop

theorem Planned.stores
    (hsize : segmentsSize rest<2^64) : ∀ r∈tasks.map (writeMergedSeg vm capacity segs), ∀ w∈r.stores,
      w∈offsetStores idx pos rest ∨ ∀ a x, w.Puts a x → image vm pos rest a=some x := by
  induction hplan with
  | done => simp
  | task idx pos own rest tasks _ ih =>
    rw [segmentsSize_append] at hsize
    obtain ⟨-, hi, -⟩ := mergeLoadSeg_spec vm own (by omega)
    rw [offsetStores_append, map_cons, forall_mem_cons]
    refine ⟨fun w hw => ?_, fun r hr w hw => ?_⟩
    · simp only [writeMergedSeg, slice_eq hdrop, mem_append] at hw
      rcases hw with hw | hw
      · exact .inl (mem_append_left _ hw)
      · refine .inr fun a x hp => ?_
        have ho := image_of_puts_copySegments _ _ w hw a x hp
        rw [hi] at ho
        rw [image_append, ho]
        rfl
    · rcases ih (drop_rest hdrop) (by omega) r hr w hw with hw | hw
      · exact .inl (mem_append_right _ hw)
      · refine .inr fun a x hp => ?_
        have hr1 := hw a x hp
        have hin := (image_isSome_iff _ _ a).mp (isSome_of_eq_some hr1)
        have ho : image vm pos own a=none := by
          rw [←not_isSome_iff_eq_none, image_isSome_iff]
          omega
        rw [image_append, ho, hr1]
        rfl

theorem Planned.offsets :
    ∀ w∈offsetStores idx pos rest, ∃ r∈tasks.map (writeMergedSeg vm capacity segs), w∈r.stores := by
  induction hplan with
  | done => simp [offsetStores]
  | task idx pos own rest tasks _ ih =>
    intro w hw
    rw [offsetStores_append, mem_append] at hw
    rcases hw with hw | hw
    · refine ⟨_, mem_cons_self, ?_⟩
      simp only [writeMergedSeg, slice_eq hdrop]
      exact mem_append_left _ hw
    · obtain ⟨r, hr, hwr⟩ := ih (drop_rest hdrop) w hw
      exact ⟨r, mem_cons_of_mem _ hr, hwr⟩

section

variable (hsize : segmentsSize rest<2^64)
include hsize

theorem Planned.ranOut (hp : pos≤ capacity) :
    (tasks.map (writeMergedSeg vm capacity segs)).any ranOut=false ↔ pos+segmentsSize rest≤ capacity := by
  induction hplan with
  | done => simpa using hp
  | task idx pos own rest tasks _ ih =>
    rw [segmentsSize_append] at hsize ⊢
    obtain ⟨hm, -, -⟩ := mergeLoadSeg_spec vm own (by omega)
    have ho : (writeMergedSeg vm capacity segs ⟨idx, idx+own.length, pos⟩).ranOut=false ↔
        pos+segmentsSize own≤ capacity := by
      simp only [writeMergedSeg, slice_eq hdrop]
      rw [ranOut_copySegments _ _ hp, hm]
    rw [map_cons, any_cons, Bool.or_eq_false_iff, ho]
    constructor
    · rintro ⟨hf, hr⟩
      have := (ih (drop_rest hdrop) (by omega) hf).mp hr
      omega
    · intro hf
      exact ⟨by omega, (ih (drop_rest hdrop) (by omega) (by omega)).mpr (by omega)⟩

theorem Planned.totalWritten (hf : pos+segmentsSize rest≤ capacity) :
    ((tasks.map (writeMergedSeg vm capacity segs)).map fun r => r.totalWritten.toNat).sum=segmentsSize rest := by
  induction hplan with
  | done => rfl
  | task idx pos own rest tasks _ ih =>
    rw [segmentsSize_append] at hsize hf ⊢
    obtain ⟨hm, -, -⟩ := mergeLoadSeg_spec vm own (by omega)
    have ho : (writeMergedSeg vm capacity segs ⟨idx, idx+own.length, pos⟩).totalWritten.toNat = segmentsSize own := by
      simp only [writeMergedSeg, slice_eq hdrop]
      rw [totalWritten_copySegments _ _ (by omega) (by omega), hm]
    rw [map_cons, map_cons, sum_cons, ho, ih (drop_rest hdrop) (by omega) (by omega)]

theorem Planned.reaches (hf : pos+segmentsSize rest≤ capacity)
    {P : BitVec 64 → Prop} (hvm : vm.Delivers P)
    (hP : ∀ seg∈rest, ∀ i<seg.pMemsz.toNat, P (seg.pVaddr+BitVec.ofNat 64 i)) (a : ℕ)
    (hlo : pos≤a) (hhi : a<pos+segmentsSize rest) :
    ∃ r∈tasks.map (writeMergedSeg vm capacity segs), ∃ w∈r.stores, w.Reaches a := by
  induction hplan with
  | done => simp at hhi; omega
  | task idx pos own rest tasks _ ih =>
    rw [segmentsSize_append] at hsize hf hhi
    obtain ⟨hm1, -, hm⟩ := mergeLoadSeg_spec vm own (by omega)
    by_cases hf1 : a<pos+segmentsSize own
    · have ho := hm P fun seg hs => hP seg (mem_append_left _ hs)
      obtain ⟨w, hw, hr1⟩ : ∃ w∈(copySegments vm capacity pos (mergeLoadSeg own)).stores, w.Reaches a :=
        reaches_copySegments _ _ (by omega) (fun seg hs => hvm _ _ (ho seg hs)) a hlo (by omega)
      refine ⟨_, mem_cons_self, w, ?_, hr1⟩
      simp only [writeMergedSeg, slice_eq hdrop]
      exact mem_append_right _ hw
    · obtain ⟨r, hr, w, hw, hr1⟩ := ih (drop_rest hdrop) (by omega) (by omega)
        (fun seg hs => hP seg (mem_append_right _ hs)) (by omega) (by omega)
      exact ⟨r, mem_cons_of_mem _ hr, w, hw, hr1⟩

end

end

end Plan

@[grind unfold] def offsetPos (i : ℕ) : ℕ := phdrPos (i+1)+Phdr.pOffsetAt

section Stores

variable {vm : ProcessVm} {capacity pos : ℕ} {segs : List Phdr} {tasks : List WriteTask} {m : Bytes}
  {sched : List ℕ}

theorem mem_threadStores {w : Store} {results : List TaskResult} :
    w∈interleave sched (results.map stores) ↔ ∃ r∈results, w∈r.stores := by
  rw [mem_interleave]
  simp

section

variable (hplan : Planned 0 segs pos tasks) (hsize : segmentsSize segs<2^64)
include hplan hsize

/-- The headers come before the segments, so a store never serves both. -/
theorem Planned.puts_cases {w : Store} (hw : w∈interleave sched
      ((tasks.map (writeMergedSeg vm capacity segs)).map TaskResult.stores)) {a : ℕ} {x : UInt8} (hp : w.Puts a x) :
    (∃ i<segs.length, w=⟨offsetPos i, toLE 8 (pos+segmentsSize (segs.take i))⟩) ∨ image vm pos segs a=some x := by
  obtain ⟨r, hr, hwr⟩ := mem_threadStores.mp hw
  rcases hplan.stores drop_zero hsize r hr w hwr with ho | hi1
  · obtain ⟨i, hi, rfl⟩ := (mem_offsetStores _ _ _ _).mp ho
    exact .inl ⟨i, hi, by simp [offsetPos]⟩
  · exact .inr (hi1 a x hp)

theorem Planned.storeAll_elsewhere {a : ℕ} (hh : ∀ i<segs.length, a<offsetPos i ∨ offsetPos i+8≤a)
    (hs : a<pos ∨ pos+segmentsSize segs≤a) : storeAll m (interleave sched
      ((tasks.map (writeMergedSeg vm capacity segs)).map TaskResult.stores)) a=m a := by
  refine storeAll_of_not_reached fun w hw hr => ?_
  obtain ⟨x, hp⟩ := hr.puts
  rcases hplan.puts_cases hsize hw hp with ⟨i, hi, rfl⟩ | hi1
  · grind
  · have := (image_isSome_iff _ _ _).mp (isSome_of_eq_some hi1)
    omega

theorem Planned.storeAll_offset (hp1 : phdrPos (segs.length+1)≤pos) {i : ℕ} (hi : i<segs.length) {a : ℕ}
    (hlo : offsetPos i≤a) (hhi : a<offsetPos i+8) : storeAll m (interleave sched
      ((tasks.map (writeMergedSeg vm capacity segs)).map TaskResult.stores)) a =
      store m (offsetPos i) (toLE 8 (pos+segmentsSize (segs.take i))) a := by
  obtain ⟨j, hj, rfl⟩ : ∃ j, j<8 ∧ a=offsetPos i+j := ⟨a-offsetPos i, by omega, by omega⟩
  rw [store_at j (by exact hj)]
  refine storeAll_of_agree (fun w hw x hp => ?_) (.inr ?_)
  · rcases hplan.puts_cases hsize hw hp with ⟨k, hk, rfl⟩ | hi1
    · -- two header offsets that share a byte are the same
      obtain ⟨l, hl, heq, hx⟩ := hp
      have heq : offsetPos i+j=offsetPos k+l := heq
      have hik : i=k := by
        grind
      subst hik
      have hjl : j=l := by omega
      subst hjl
      exact hx.symm
    · have hin := (image_isSome_iff _ _ _).mp (isSome_of_eq_some hi1)
      grind
  · obtain ⟨r, hr, hwr⟩ : ∃ r∈tasks.map (writeMergedSeg vm capacity segs),
        ⟨offsetPos i, toLE 8 (pos+segmentsSize (segs.take i))⟩∈r.stores :=
      hplan.offsets drop_zero _ ((mem_offsetStores _ _ _ _).mpr ⟨i, hi, by simp [offsetPos]⟩)
    exact ⟨_, mem_threadStores.mpr ⟨r, hr, hwr⟩, by omega, by rw [length_toLE]; omega⟩

theorem Planned.storeAll_reached (hp1 : phdrPos (segs.length+1)≤pos) {a : ℕ} {byte : UInt8}
    (hi : image vm pos segs a=some byte) (hr : ∃ w∈interleave sched
      ((tasks.map (writeMergedSeg vm capacity segs)).map TaskResult.stores), w.Reaches a) : storeAll m
      (interleave sched ((tasks.map (writeMergedSeg vm capacity segs)).map TaskResult.stores)) a=byte := by
  have hin := (image_isSome_iff _ _ _).mp (isSome_of_eq_some hi)
  refine storeAll_of_agree (fun w hw x hp => ?_) (.inr hr)
  rcases hplan.puts_cases hsize hw hp with ⟨k, hk, rfl⟩ | hx
  · obtain ⟨l, hl, heq, -⟩ := hp
    grind
  · exact some_injective _ (hx.symm.trans hi)

theorem Planned.storeAll_image (hp : phdrPos (segs.length+1)≤pos) (hf : pos+segmentsSize segs≤ capacity)
    {P : BitVec 64 → Prop} (hvm : vm.Delivers P)
    (hP : ∀ seg∈segs, ∀ i<seg.pMemsz.toNat, P (seg.pVaddr+BitVec.ofNat 64 i)) {a : ℕ} {byte : UInt8}
    (hi : image vm pos segs a=some byte) : storeAll m (interleave sched
      ((tasks.map (writeMergedSeg vm capacity segs)).map TaskResult.stores)) a=byte := by
  have hin := (image_isSome_iff _ _ _).mp (isSome_of_eq_some hi)
  obtain ⟨r, hr, w, hw, hr1⟩ : ∃ r∈tasks.map (writeMergedSeg vm capacity segs), ∃ w∈r.stores, w.Reaches a :=
    hplan.reaches drop_zero hsize hf hvm hP a hin.1 hin.2
  exact hplan.storeAll_reached hsize hp hi ⟨w, mem_threadStores.mpr ⟨r, hr, hw⟩, hr1⟩

end

end Stores

def loadHeaders (ePhnum : BitVec 16) (m : Bytes) : List Phdr :=
  (List.range (ePhnum.toNat-1)).map fun i => Phdr.read m (phdrPos (i+1))

structure LoadsWritten (vm : ProcessVm) (segs : List Phdr) (b b' : Buffer) : Prop where
  capacity : b'.capacity = b.capacity
  room : b'.ranOut = false ↔ b.ranOut = false ∧ b.current+segmentsSize segs ≤ b.capacity
  current : b'.ranOut = false → b'.current = b.current+segmentsSize segs
  elsewhere : b'.ranOut = false → ∀ a, (∀ i<segs.length, a<offsetPos i ∨ offsetPos i+8≤a) →
    a < b.current ∨ b.current+segmentsSize segs ≤ a → b'.bytes a = b.bytes a
  offset : b'.ranOut = false → ∀ i < segs.length, ∀ a, offsetPos i ≤ a → a < offsetPos i+8 →
    b'.bytes a = store b.bytes (offsetPos i) (toLE 8 (b.current+segmentsSize (segs.take i))) a
  content : b'.ranOut = false → ∀ P : BitVec 64 → Prop, vm.Delivers P →
    (∀ seg∈segs, ∀ i<seg.pMemsz.toNat, P (seg.pVaddr+BitVec.ofNat 64 i)) →
    ∀ a byte, image vm b.current segs a = some byte → b'.bytes a = byte

theorem getDumpThreadCount_pos (count : ℤ) : ∃ ths, getDumpThreadCount count=ths+1 := by
  refine ⟨getDumpThreadCount count-1, ?_⟩
  simp only [getDumpThreadCount]
  split <;> split <;> omega

theorem bytes_each_advance (results : List TaskResult) (b : Buffer) :
    (Writer.each (results.map fun r => Buffer.advance r.totalWritten.toNat) b).bytes=b.bytes := by
  induction results generalizing b with
  | nil => rfl
  | cons r results ih =>
    rw [map_cons, Writer.each, ih]
    unfold Buffer.advance
    split <;> rfl

theorem Planned.written {vm : ProcessVm} {segs : List Phdr} {tasks : List WriteTask} {b : Buffer}
    (sched : List ℕ) (hplan : Planned 0 segs b.current tasks) (hsize : segmentsSize segs<2^64)
    (hp : b.ranOut=false → phdrPos (segs.length+1)≤b.current) : LoadsWritten vm segs b
      (runWriteTasks sched (tasks.map (writeMergedSeg vm b.capacity segs)) b) := by
  have hr : (tasks.map (writeMergedSeg vm b.capacity segs)).any TaskResult.ranOut=false ↔
      b.current+segmentsSize segs≤b.capacity := hplan.ranOut drop_zero hsize b.current_le
  have ht : b.current+segmentsSize segs≤b.capacity →
      ((tasks.map (writeMergedSeg vm b.capacity segs)).map fun r => r.totalWritten.toNat).sum = segmentsSize segs :=
    hplan.totalWritten drop_zero hsize
  set results := tasks.map (writeMergedSeg vm b.capacity segs)
  have ha : Emits b.current (results.map fun r => r.totalWritten.toNat).sum
      (joinThreads sched results b) (runWriteTasks sched results b) :=
    emits_each results (fun r _ _ => emits_advance r.totalWritten.toNat) (joinThreads sched results b)
  have hb : (runWriteTasks sched results b).bytes =
      storeAll b.bytes (interleave sched (results.map TaskResult.stores)) :=
    bytes_each_advance results _
  have hj : (joinThreads sched results b).ranOut=false ↔ b.ranOut=false ∧ b.current+segmentsSize segs≤b.capacity := by
    rw [joinThreads, Bool.or_eq_false_iff, hr]
  have hs := fun h => hj.mp (ha.before h)
  refine ⟨ha.capacity, ⟨hs, fun h => ?_⟩, fun h => ?_, fun h a hh hs1 => ?_,
    fun h i hi a hlo hhi => ?_, fun h P hvm hP a byte hi1 => ?_⟩
  · rw [ha.room, hj, ht h.2]
    exact ⟨h, h.2⟩
  · exact (ha.current h).trans (by rw [ht (hs h).2]; rfl)
  · rw [hb]
    exact hplan.storeAll_elsewhere hsize hh hs1
  · rw [hb]
    exact hplan.storeAll_offset hsize (hp (hs h).1) hi hlo hhi
  · rw [hb]
    exact hplan.storeAll_image hsize (hp (hs h).1) (hs h).2 hvm hP hi1

theorem planned_generateWriteTasks (segs : List Phdr) (count : ℤ) (base : ℕ) (hsize : segmentsSize segs<2^64) :
    Planned 0 segs base (generateWriteTasks segs (getDumpThreadCount count) base) := by
  obtain ⟨ths, ht⟩ := getDumpThreadCount_pos count
  have hplan := planned_writeTasksFrom segs (getTotalSize segs/BitVec.ofNat 64 (ths+1)) base ths 0 0
    (by simpa using hsize)
  rwa [←ht] at hplan

theorem loadsWritten (vm : ProcessVm) (count : ℤ) (sched : List ℕ) (ePhnum : BitVec 16)
    (b : Buffer) (hsize : segmentsSize (loadHeaders ePhnum b.bytes)<2^64)
    (hp : b.ranOut=false → phdrPos ((loadHeaders ePhnum b.bytes).length+1)≤b.current) :
    LoadsWritten vm (loadHeaders ePhnum b.bytes) b (loadSegmentWrite vm count sched ePhnum b).2 := by
  have hplan := planned_generateWriteTasks (loadHeaders ePhnum b.bytes) count b.current hsize
  exact Planned.written sched hplan hsize hp

end Faultloggerd.CoreFile
