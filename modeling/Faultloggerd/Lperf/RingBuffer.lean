import Faultloggerd.Foundations.ByteStore

/-! # Draining the ring buffer of lperf

The kernel puts records between `data_tail` and `data_head`; `ReadRecordsFromMmaps` hands the samples to a callback.
-/
namespace Faultloggerd.Lperf
open List Foundations.ByteStore

def recordSizeLimit : ℕ := 65535
def perfRecordSample : ℕ := 9

structure MmapFd where
  bufSize : ℕ
  buf : Bytes
  dataHead : ℕ
  dataTail : ℕ
  dataSize : ℕ

/-- The type and the size in a `perf_event_header`, of 8 bytes. -/
def typeOf (header : List UInt8) : ℕ := ofLE (header.take 4)
def sizeOf (header : List UInt8) : ℕ := ofLE ((header.drop 6).take 2)

/-- No size here is above `destSize`, so that the second copy fits. -/
def getRecordFieldFromMmap (m : MmapFd) (destSize pos size : ℕ) : List UInt8 :=
  let copySize := min (min size (m.bufSize-pos%m.bufSize)) destSize
  load m.buf (pos%m.bufSize) copySize++
    if copySize < size ∧ copySize < destSize then load m.buf 0 (size-copySize) else []

/-- The size of the next sample. Another record is skipped. -/
def getHeaderFromMmap (m : MmapFd) : Option ℕ×MmapFd :=
  if m.dataSize = 0 then (none, m)
  else
    let header := getRecordFieldFromMmap m 8 m.dataTail 8
    if sizeOf header = 0 ∨ m.dataSize < sizeOf header then (none, m)
    else if typeOf header ≠ perfRecordSample then (none, {m with dataTail := m.dataTail+sizeOf header})
    else (some (sizeOf header), m)

/-- The loop with `GetRecordFromMmap`: the records that the callback gets. Every round takes a part of the data. -/
def drain : ℕ → MmapFd → List (List UInt8)×MmapFd
  | 0, m => ([], m)
  | fuel+1, m =>
    match getHeaderFromMmap m with
    | (none, m) => ([], m)
    | (some size, m) =>
      let rest := drain fuel {m with dataTail := m.dataTail+size, dataSize := m.dataSize-size}
      (getRecordFieldFromMmap m recordSizeLimit m.dataTail size::rest.1, rest.2)

def readRecordsFromMmaps (m : MmapFd) : List (List UInt8)×MmapFd :=
  if m.bufSize = 0 ∨ m.dataHead ≤ m.dataTail then ([], m)
  else if m.dataHead-m.dataTail > m.bufSize then ([], {m with dataTail := m.dataHead})
  else drain (m.dataHead-m.dataTail) {m with dataSize := m.dataHead-m.dataTail}

def ring (m : MmapFd) (pos n : ℕ) : List UInt8 := (range n).map fun k => m.buf ((pos+k)%m.bufSize)

def IsRecord (record : List UInt8) : Prop :=
  8 ≤ record.length ∧ record.length ≤ recordSizeLimit ∧ sizeOf record = record.length

def isSample (record : List UInt8) : Bool := typeOf record == perfRecordSample

/-- The data are these records, and there is room for them. -/
structure Holds (m : MmapFd) (records : List (List UInt8)) : Prop where
  each : ∀ r ∈ records, IsRecord r
  head : m.dataHead = m.dataTail+records.flatten.length
  room : records.flatten.length ≤ m.bufSize
  bytes : ring m m.dataTail records.flatten.length = records.flatten

theorem ring_add (m : MmapFd) (pos n k : ℕ) : ring m pos (n+k)=ring m pos n++ring m (pos+n) k := by
  simp [ring, range_add, Nat.add_assoc]

theorem load_eq_ring {m : MmapFd} {pos n : ℕ} (h : pos%m.bufSize+n≤ m.bufSize) :
    load m.buf (pos%m.bufSize) n=ring m pos n := by
  refine map_congr_left fun k hk => congrArg m.buf ?_
  have hk1 := mem_range.mp hk
  exact ((Nat.mod_add_mod pos _ k).symm.trans (Nat.mod_eq_of_lt (by omega))).symm

theorem getRecordFieldFromMmap_eq {m : MmapFd} {size destSize : ℕ} (pos : ℕ) (hb : 0< m.bufSize)
    (hs : size≤ m.bufSize) (hd : size≤destSize) : getRecordFieldFromMmap m destSize pos size=ring m pos size := by
  simp only [getRecordFieldFromMmap]
  by_cases hw : pos%m.bufSize+size≤ m.bufSize
  · rw [show min (min size (m.bufSize-pos%m.bufSize)) destSize=size by omega, if_neg (by omega), append_nil,
      load_eq_ring hw]
  · have hp : pos%m.bufSize< m.bufSize := Nat.mod_lt _ hb
    obtain ⟨c, hc⟩ : ∃ c, pos%m.bufSize+c=m.bufSize := ⟨m.bufSize-pos%m.bufSize, by omega⟩
    have hz : (pos+c)%m.bufSize=0 := by
      rw [←Nat.mod_add_mod, hc, Nat.mod_self]
    rw [show min (min size (m.bufSize-pos%m.bufSize)) destSize=c by omega, if_pos (by omega),
      load_eq_ring (by omega), ←hz, load_eq_ring (by omega), ←ring_add]
    congr 1
    omega

/-- The samples up to the first other record, and the length of what is taken with it. -/
def taken : List (List UInt8) → List (List UInt8)×ℕ
  | [] => ([], 0)
  | r :: records =>
    if isSample r then (r::(taken records).1, r.length+(taken records).2) else ([], r.length)

theorem drain_eq {records : List (List UInt8)} {fuel : ℕ} {m : MmapFd} (hr : ∀ r∈records, IsRecord r)
    (hm : ring m m.dataTail records.flatten.length=records.flatten) (hd : m.dataSize=records.flatten.length)
    (hs : records.flatten.length≤ m.bufSize) (hf : records.flatten.length≤fuel) :
    (drain fuel m).1=(taken records).1 ∧ (drain fuel m).2.dataTail=m.dataTail+(taken records).2 := by
  induction records generalizing fuel m with
  | nil =>
    cases fuel with
    | zero => exact ⟨rfl, rfl⟩
    | succ fuel => simp [drain, getHeaderFromMmap, taken, show m.dataSize=0 from hd]
  | cons r records ih =>
    obtain ⟨h8, hl, hz⟩ := hr r mem_cons_self
    rw [flatten_cons, length_append] at hm hd hs hf
    rw [ring_add] at hm
    obtain ⟨hm1, hm2⟩ := append_inj hm (by simp [ring])
    have hh : getRecordFieldFromMmap m 8 m.dataTail 8=r.take 8 := by
      rw [getRecordFieldFromMmap_eq _ (by omega) (by omega) (Nat.le_refl _), ←hm1, ring, ring,
        ←map_take, take_range, Nat.min_eq_left h8]
    have ht : typeOf (r.take 8)=typeOf r := by
      rw [typeOf, take_take]
      rfl
    have hz1 : sizeOf (r.take 8)=r.length := by
      rw [←hz, sizeOf, sizeOf, drop_take, take_take]
      rfl
    obtain ⟨fuel, rfl⟩ : ∃ n, fuel=n+1 := ⟨fuel-1, by omega⟩
    rw [drain, getHeaderFromMmap, if_neg (by omega)]
    simp only [hh, hz1, ht, taken, isSample]
    rw [if_neg (by omega)]
    by_cases hp : typeOf r=perfRecordSample
    · obtain ⟨h1, h2⟩ := @ih fuel {m with dataTail := m.dataTail+r.length, dataSize := m.dataSize-r.length}
        (fun r hr1 => hr r (mem_cons_of_mem _ hr1)) hm2 (by dsimp only; omega) (by dsimp only; omega) (by omega)
      simp only [hp, ne_eq, not_true, if_false, beq_self_eq_true, if_true]
      refine ⟨congrArg₂ cons ?_ h1, h2.trans (Nat.add_assoc ..)⟩
      rw [getRecordFieldFromMmap_eq _ (by omega) (by omega) hl, hm1]
    · simp [hp]

theorem taken_eq_iff {records : List (List UInt8)} (hr : ∀ r∈records, IsRecord r) :
    taken records=(records.filter isSample, records.flatten.length) ↔ ∀ r∈records.dropLast, isSample r := by
  induction records with
  | nil => simp [taken]
  | cons r records ih =>
    have ih1 := ih fun r hr1 => hr r (mem_cons_of_mem _ hr1)
    rw [taken]
    by_cases hp : isSample r
    · cases records with
      | nil => simp [hp, taken]
      | cons q records =>
        rw [if_pos hp, dropLast_cons_cons, forall_mem_cons, ←ih1]
        simp [hp, Prod.ext_iff]
    · cases records with
      | nil => simp [hp]
      | cons q records =>
        have h8 := (hr q (by simp)).1
        refine iff_of_false (fun h => ?_) fun h => hp (h r (by simp))
        rw [if_neg hp] at h
        have hl := congrArg Prod.snd h
        simp only [flatten_cons, length_append] at hl
        omega

/-- One call hands over every sample and empties the buffer if and only if every record but the last one is a sample. -/
theorem drained_iff {m : MmapFd} {records : List (List UInt8)} (h : Holds m records) :
    (readRecordsFromMmaps m).1 = records.filter isSample ∧ (readRecordsFromMmaps m).2.dataTail = m.dataHead ↔
      ∀ r ∈ records.dropLast, isSample r := by
  have hh := h.head
  have hr := h.room
  rw [←taken_eq_iff h.each, readRecordsFromMmaps]
  by_cases h0 : records=[]
  · subst h0
    rw [if_pos (.inr (by simp [hh]))]
    simp [taken, hh]
  · have hp : 0< records.flatten.length := by
      obtain ⟨r, hm⟩ := exists_mem_of_ne_nil records h0
      have h8 := (h.each r hm).1
      have hl := (sublist_flatten_of_mem hm).length_le
      omega
    rw [if_neg (by omega), if_neg (by omega)]
    obtain ⟨h1, h2⟩ := @drain_eq records (m.dataHead-m.dataTail) {m with dataSize := m.dataHead-m.dataTail}
      h.each h.bytes
      (by dsimp only; omega) hr (by omega)
    rw [h1, h2, Prod.ext_iff]
    exact and_congr_right fun _ => by
      dsimp only
      omega

/-- A buffer of 16 bytes with an empty sample behind another record. -/
def twoRecords : MmapFd where
  bufSize := 16
  buf := fun a => if a = 0 then 3 else if a = 8 then 9 else if a = 6 ∨ a = 14 then 8 else 0
  dataHead := 16
  dataTail := 0
  dataSize := 0

/-- A record of another type ends the loop, and the sample behind it stays. -/
theorem other_record_ends_drain : Holds twoRecords [[3, 0, 0, 0, 0, 0, 8, 0], [9, 0, 0, 0, 0, 0, 8, 0]] ∧
    (readRecordsFromMmaps twoRecords).1 = [] ∧ (readRecordsFromMmaps twoRecords).2.dataTail = 8 := by
  refine ⟨⟨?_, rfl, by decide, by decide⟩, by decide, by decide⟩
  unfold IsRecord
  decide

def wrappedSamples : List (List UInt8) := [[9, 0, 0, 0, 0, 0, 8, 0], [9, 0, 0, 0, 0, 0, 16, 0, 1, 2, 3, 4, 5, 6, 7, 8]]

/-- Two samples that fill a buffer of 24 bytes from its byte 20 on, so that it ends inside the first header. -/
def wrappedBuffer : MmapFd where
  bufSize := 24
  buf := fun a => wrappedSamples.flatten[(a + 4) % 24]?.getD 0
  dataHead := 44
  dataTail := 20
  dataSize := 0

theorem drained_wrapped : (readRecordsFromMmaps wrappedBuffer).1 = wrappedSamples ∧
    (readRecordsFromMmaps wrappedBuffer).2.dataTail = 44 := by
  have h : Holds wrappedBuffer wrappedSamples := by
    refine ⟨?_, rfl, by decide, by decide⟩
    unfold IsRecord
    decide
  exact (drained_iff h).mpr (by decide)

end Faultloggerd.Lperf
