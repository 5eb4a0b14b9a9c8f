import Faultloggerd.Foundations.ByteStore

/-! # The bounded buffer of the core writers

`CoredumpBufferWriter` appends to a mapped file of fixed capacity. Some writers append through it, others
store through raw pointers into the mapping. The mark `ranOut` is not in the source: it says that some writer
was refused for want of room, or stored past the end of the mapping. Positions count from the base.
-/
namespace Faultloggerd.CoreFile

open Foundations.ByteStore

structure Buffer where
  bytes : Bytes
  current : ℕ
  capacity : ℕ
  ranOut : Bool
  current_le : current ≤ capacity

abbrev Writer := Buffer → Bool × Buffer

namespace Buffer

def maxCopyCap : ℕ := 1*1024*1024

def fresh (bytes : Bytes) (capacity : ℕ) : Buffer := ⟨bytes, 0, capacity, false, Nat.zero_le _⟩

def refuse (b : Buffer) : Bool × Buffer := (false, {b with ranOut := true})

def write (data : List UInt8) : Writer := fun b =>
  if h : data.length > b.capacity-b.current then
    b.refuse
  else
    let cap := min maxCopyCap (b.capacity-b.current)
    -- memcpy_s clears the destination when the source does not fit
    if data.length > cap then
      (false, {b with bytes := store b.bytes b.current (List.replicate cap 0)})
    else
      (true, {b with
        bytes := store b.bytes b.current data
        current := b.current+data.length
        current_le := by have := b.current_le; omega})

def writeAt (data : List UInt8) (offset : ℕ) : Writer := fun b =>
  if offset+data.length > b.capacity then
    b.refuse
  else
    let cap := min maxCopyCap (b.capacity-offset)
    if data.length > cap then
      (false, {b with bytes := store b.bytes offset (List.replicate cap 0)})
    else
      (true, {b with bytes := store b.bytes offset data})

def advance (size : ℕ) : Writer := fun b =>
  if h : b.current+size > b.capacity then
    b.refuse
  else
    (true, {b with current := b.current+size, current_le := by omega})

def setCurrent (pos : ℕ) : Writer := fun b =>
  if h : pos > b.capacity then
    b.refuse
  else
    (true, {b with current := pos, current_le := by omega})

def poke (pos : ℕ) (data : List UInt8) (b : Buffer) : Buffer :=
  {b with bytes := store b.bytes pos data, ranOut := b.ranOut || b.capacity<pos+data.length}

def pokes (stores : List Store) (b : Buffer) : Buffer :=
  stores.foldl (fun b w => b.poke w.pos w.data) b

end Buffer

namespace Writer

/-- `if (!first) return false; second`. -/
def andThen (first second : Writer) : Writer := fun b =>
  let r := first b
  if r.1 then second r.2 else (false, r.2)

/-- `for (…) { if (!writer) return false; } return true`. -/
def all : List Writer → Writer
  | [] => fun b => (true, b)
  | writer :: writers => andThen writer (all writers)

/-- `for (…) { writer; }`, the results dropped. -/
def each : List Writer → Buffer → Buffer
  | [], b => b
  | writer :: writers, b => each writers (writer b).2

end Writer

/-- `b'` is `b` with `n` bytes appended, unless the buffer ran out. The writer may also have gone back to bytes
from `lo` on. -/
structure Emits (lo n : ℕ) (b b' : Buffer) : Prop where
  capacity : b'.capacity = b.capacity
  room : b'.ranOut = false ↔ b.ranOut = false ∧ b.current+n ≤ b.capacity
  current : b'.ranOut = false → b'.current = b.current+n
  frame : b'.ranOut = false → ∀ a, a < lo ∨ b.current+n ≤ a → b'.bytes a = b.bytes a

def Sound (r : Bool×Buffer) : Prop := r.2.ranOut = false → r.1 = true

namespace Emits

variable {lo n k : ℕ} {b b' b'' : Buffer}

theorem refl : Emits lo 0 b b where
  capacity := rfl
  room := ⟨fun h => ⟨h, b.current_le⟩, fun h => h.1⟩
  current _ := rfl
  frame _ _ _ := rfl

theorem of_ranOut (hc : b'.capacity=b.capacity) (ho : b.ranOut=true) (ho' : b'.ranOut=true) : Emits lo n b b' := by
  refine ⟨hc, ?_, fun h => ?_, fun h => ?_⟩ <;> simp_all

section

variable (h : Emits lo n b b')
include h

theorem before (hr : b'.ranOut=false) : b.ranOut=false := (h.room.mp hr).1

theorem ranOut_of_ranOut (ho : b.ranOut=true) : b'.ranOut=true := by
  by_contra hroom
  simp [h.before (by simpa using hroom)] at ho

theorem trans (h' : Emits lo k b' b'') : Emits lo (n+k) b b'' := by
  refine ⟨h'.capacity.trans h.capacity, ⟨fun he => ?_, fun hf => ?_⟩, fun he => ?_, fun he a ha => ?_⟩
  · obtain ⟨hm, hk⟩ := h'.room.mp he
    rw [h.current hm, h.capacity] at hk
    exact ⟨h.before hm, by omega⟩
  · have hm := h.room.mpr ⟨hf.1, by omega⟩
    rw [h'.room, h.current hm, h.capacity]
    exact ⟨hm, by omega⟩
  · rw [h'.current he, h.current (h'.before he), Nat.add_assoc]
  · have hm := h'.before he
    have hc := h.current hm
    rw [h'.frame he a (by omega), h.frame hm a (by omega)]

theorem mono {lo' : ℕ} (hlo : lo'≤lo) : Emits lo' n b b' :=
  ⟨h.capacity, h.room, h.current, fun hr a ha => h.frame hr a (by omega)⟩

theorem mono_of_room {lo' : ℕ} (hlo : b.ranOut=false → lo'≤lo) : Emits lo' n b b' := by
  cases hr : b.ranOut with
  | true => exact of_ranOut h.capacity hr (h.ranOut_of_ranOut hr)
  | false => exact h.mono (hlo hr)

theorem append (hlo : lo≤b.current) (h' : Emits b'.current k b' b'') : Emits lo (n+k) b b'' :=
  h.trans (h'.mono_of_room fun hm => by rw [h.current hm]; omega)

theorem congr_amount (hn : n=k) : Emits lo k b b' := hn ▸ h

end

end Emits

section Operations

variable {lo : ℕ} {b : Buffer}

variable {data : List UInt8}

section

variable (hd : data.length≤Buffer.maxCopyCap)
include hd

theorem emits_write (hlo : b.ranOut=false → lo≤b.current)
    : Emits lo data.length b (Buffer.write data b).2 := by
  have hle := b.current_le
  by_cases hb : data.length > b.capacity-b.current
  · simp only [Buffer.write, hb, Buffer.refuse]
    exact ⟨rfl, ⟨by simp, fun h => by omega⟩, by simp, by simp⟩
  · have hc : ¬data.length > min Buffer.maxCopyCap (b.capacity-b.current) := by omega
    simp only [Buffer.write, hb, hc]
    refine ⟨rfl, ⟨fun h => ⟨h, by omega⟩, fun h => h.1⟩, fun _ => rfl, fun hr a ha => ?_⟩
    have := hlo hr
    exact store_of_outside (by omega)

theorem sound_write : Sound (Buffer.write data b) := by
  by_cases hb : data.length > b.capacity-b.current
  · simp [Sound, Buffer.write, hb, Buffer.refuse]
  · have hc : ¬data.length > min Buffer.maxCopyCap (b.capacity-b.current) := by omega
    simp [Sound, Buffer.write, hb, hc]

theorem bytes_write (hr : (Buffer.write data b).2.ranOut=false) :
    (Buffer.write data b).2.bytes=store b.bytes b.current data := by
  by_cases hb : data.length > b.capacity-b.current
  · simp [Buffer.write, hb, Buffer.refuse] at hr
  · have hc : ¬data.length > min Buffer.maxCopyCap (b.capacity-b.current) := by omega
    simp [Buffer.write, hb, hc]

end

theorem emits_advance (size : ℕ) : Emits lo size b (Buffer.advance size b).2 := by
  by_cases hb : b.current+size > b.capacity
  · simp only [Buffer.advance, hb, Buffer.refuse]
    exact ⟨rfl, ⟨by simp, fun h => by omega⟩, by simp, by simp⟩
  · simp only [Buffer.advance, hb]
    exact ⟨rfl, ⟨fun h => ⟨h, by omega⟩, fun h => h.1⟩, fun _ => rfl, fun _ _ _ => rfl⟩

variable {pos : ℕ}

@[simp] theorem bytes_poke : (b.poke pos data).bytes=store b.bytes pos data := rfl

theorem ranOut_poke : (b.poke pos data).ranOut=false ↔ b.ranOut=false ∧ pos+data.length≤b.capacity := by
  simp [Buffer.poke]

theorem emits_poke (h : b.ranOut=false → lo≤pos ∧ pos+data.length≤b.current) : Emits lo 0 b (b.poke pos data) := by
  have hle := b.current_le
  refine ⟨rfl, ?_, fun _ => rfl, fun hr1 a ha => ?_⟩
  · rw [ranOut_poke]
    exact ⟨fun hr => ⟨hr.1, hle⟩, fun hr => ⟨hr.1, (h hr.1).2.trans hle⟩⟩
  · have := h (ranOut_poke.mp hr1).1
    exact store_of_outside (by omega)

theorem pokes_ahead {size : ℕ} (stores : List Store)
    (hs : ∀ w∈stores, b.current≤w.pos ∧ w.pos+w.data.length≤b.current+size) :
    (b.pokes stores).current=b.current ∧ (b.pokes stores).capacity=b.capacity ∧
      (b.current+size≤b.capacity → (b.pokes stores).ranOut=b.ranOut) ∧
      ∀ a, a<b.current ∨ b.current+size≤a → (b.pokes stores).bytes a=b.bytes a := by
  induction stores generalizing b with
  | nil => exact ⟨rfl, rfl, fun _ => rfl, fun _ _ => rfl⟩
  | cons w stores ih =>
    rw [List.forall_mem_cons] at hs
    obtain ⟨hc1, hc, ho, hf⟩ := ih (b := b.poke w.pos w.data) hs.2
    refine ⟨hc1, hc, fun hf1 => (ho hf1).trans ?_, fun a ha => (hf a ha).trans ?_⟩
    · have hl : ¬b.capacity<w.pos+w.data.length := by omega
      simp [Buffer.poke, hl]
    · exact store_of_outside (by omega)

theorem emits_pokes_advance {size : ℕ} (stores : List Store)
    (hs : ∀ w∈stores, b.current≤w.pos ∧ w.pos+w.data.length≤b.current+size) :
    Emits b.current size b (Buffer.advance size (b.pokes stores)).2 := by
  obtain ⟨hc, hc1, ho, hf⟩ := pokes_ahead stores hs
  have ha1 : Emits b.current size (b.pokes stores) (Buffer.advance size (b.pokes stores)).2 := emits_advance size
  refine ⟨ha1.capacity.trans hc1, ?_, fun h => ?_, fun h a ha => ?_⟩
  · rw [ha1.room, hc, hc1]
    exact ⟨fun h => ⟨ho h.2 ▸ h.1, h.2⟩, fun h => ⟨(ho h.2).trans h.1, h.2⟩⟩
  · rw [ha1.current h, hc]
  · rw [ha1.frame h a (by rw [hc]; exact ha), hf a ha]

end Operations

section Sequences

variable {lo n k : ℕ} {b : Buffer} {first second : Writer}

theorem andThen_of_room (hs : Sound (first b)) (hr : (first.andThen second b).2.ranOut=false) :
    first.andThen second b=second (first b).2 := by
  unfold Writer.andThen at hr ⊢
  cases hok : (first b).1 with
  | true => simp [hok]
  | false =>
    simp only [hok] at hr
    simp [hs hr] at hok

theorem emits_andThen (hf : Emits lo n b (first b).2) (hs1 : Sound (first b))
    (hs : Emits lo k (first b).2 (second (first b).2).2) : Emits lo (n+k) b (first.andThen second b).2 := by
  unfold Writer.andThen
  cases hok : (first b).1 with
  | true => simpa [hok] using hf.trans hs
  | false =>
    have ho : (first b).2.ranOut=true := by
      by_contra h
      simp [hs1 (by simpa using h)] at hok
    simp only [hok]
    exact hf.trans (.of_ranOut rfl ho ho)

theorem sound_andThen (hs1 : Sound (first b)) (hs : Sound (second (first b).2)) : Sound (first.andThen second b) := by
  unfold Writer.andThen
  cases hok : (first b).1 with
  | true => simpa [hok] using hs
  | false =>
    intro h
    simp only [hok] at h
    simp [hs1 h] at hok

/-- A writer that appends the same number of bytes wherever it starts. -/
structure Appends (n : ℕ) (writer : Writer) : Prop where
  emits : ∀ b, Emits b.current n b (writer b).2
  sound : ∀ b, Sound (writer b)

theorem appends_write {data : List UInt8} (hd : data.length=n) (hn : n≤Buffer.maxCopyCap) :
    Appends n (Buffer.write data) := by
  subst hd
  exact ⟨fun _ => emits_write hn fun _ => le_rfl, fun _ => sound_write hn⟩

theorem Appends.andThen (hf : Appends n first) (hs : Appends k second) : Appends (n+k) (first.andThen second) where
  emits b := emits_andThen (hf.emits b) (hf.sound b) <|
    (hs.emits (first b).2).mono_of_room fun hm => by rw [(hf.emits b).current hm]; omega
  sound b := sound_andThen (hf.sound b) (hs.sound _)

theorem appends_all {ι : Type} {size : ι → ℕ} {writer : ι → Writer} (items : List ι)
    (h : ∀ i∈items, Appends (size i) (writer i)) : Appends (items.map size).sum (Writer.all (items.map writer)) := by
  induction items with
  | nil => exact ⟨fun _ => .refl, fun _ _ => rfl⟩
  | cons i items ih =>
    rw [List.forall_mem_cons] at h
    exact h.1.andThen (ih h.2)

theorem emits_each {ι : Type} {size : ι → ℕ} {writer : ι → Writer} (items : List ι)
    (h : ∀ i∈items, ∀ b, Emits b.current (size i) b (writer i b).2) (b : Buffer) :
    Emits b.current (items.map size).sum b (Writer.each (items.map writer) b) := by
  induction items generalizing b with
  | nil => exact .refl
  | cons i items ih =>
    rw [List.forall_mem_cons] at h
    exact (h.1 b).append le_rfl (ih h.2 (writer i b).2)

end Sequences

end Faultloggerd.CoreFile
