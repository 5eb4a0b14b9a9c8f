import Faultloggerd.Foundations.ByteStore

/-! # Transfers through the lite-dump pipe

`LoopWritePipe` and `LoopReadPipe` move a buffer in pieces, each piece by as many system calls as it takes. The system
answers every call with a count, `EINTR`, `EAGAIN` or another error, and a read also with the end of the pipe.
-/
namespace Faultloggerd.LiteDump.Transfer
open List Foundations.ByteStore

/-- An answer of the system; `count n` moves `n+1` bytes, or all that were asked for if these are fewer. -/
inductive Answer where
  | count (n : ℕ)
  | eintr
  | eagain
  | error

def maxTryTimes : ℕ := 1000

/-- The length of the next piece. -/
def pieceLen (length i : ℕ) : ℕ := if i+1024*1024 < length then 1024*1024 else length-i

structure Sending where
  i : ℕ
  /-- where `buf` points, counted from its start -/
  buf : ℕ
  totalWriteSize : ℕ
  tryTimes : ℕ
  sent : List UInt8

/-- The calls of `LoopWritePipe` for these answers: its result and what is on the pipe then. A call that waits for
further answers has no result. -/
def writeCalls (data : List UInt8) : List Answer → Sending → Option (Bool×List UInt8)
  | [], _ => none
  | .error :: _, s => some (false, s.sent)
  | .eintr :: answers, s =>
    if s.tryTimes > maxTryTimes then some (s.totalWriteSize == data.length, s.sent) else writeCalls data answers s
  | .eagain :: answers, s =>
    if s.tryTimes > maxTryTimes then some (s.totalWriteSize == data.length, s.sent)
    else writeCalls data answers {s with tryTimes := s.tryTimes+1}
  | .count n :: answers, s =>
    let writeSuccessSize := min (n+1) (pieceLen data.length s.i)
    let totalWriteSize := s.totalWriteSize+writeSuccessSize
    let sent := s.sent++(data.drop s.buf).take writeSuccessSize
    if s.i+writeSuccessSize < data.length then
      writeCalls data answers ⟨s.i+writeSuccessSize, s.buf+writeSuccessSize, totalWriteSize, 0, sent⟩
    else some (totalWriteSize == data.length, sent)

def loopWritePipe (data : List UInt8) (answers : List Answer) : Option (Bool×List UInt8) :=
  if 0 < data.length then writeCalls data answers ⟨0, 0, 0, 0, []⟩ else some (true, [])

structure Receiving where
  i : ℕ
  totalReadSize : ℕ
  tryTimes : ℕ
  buf : Bytes
  /-- how many bytes have been taken from the pipe -/
  taken : ℕ

/-- The calls of `LoopReadPipe`, where `none` is the end of the pipe: its result, the destination and how much was taken
from the pipe. -/
def readCalls (pipe : ℕ → UInt8) (length : ℕ) : List (Option Answer) → Receiving → Option (Bool×Bytes×ℕ)
  | [], _ => none
  | none :: _, s | some .error :: _, s => some (false, s.buf, s.taken)
  | some .eintr :: answers, s | some .eagain :: answers, s =>
    if s.tryTimes > maxTryTimes then some (s.totalReadSize == length, s.buf, s.taken)
    else readCalls pipe length answers {s with tryTimes := s.tryTimes+1}
  | some (.count n) :: answers, s =>
    let readSuccessSize := min (n+1) (pieceLen length s.i)
    let totalReadSize := s.totalReadSize+readSuccessSize
    let buf := store s.buf s.totalReadSize ((range readSuccessSize).map fun k => pipe (s.taken+k))
    let taken := s.taken+readSuccessSize
    if s.i+readSuccessSize < length then
      readCalls pipe length answers ⟨s.i+readSuccessSize, totalReadSize, 0, buf, taken⟩
    else some (totalReadSize == length, buf, taken)

def loopReadPipe (pipe : ℕ → UInt8) (length : ℕ) (answers : List (Option Answer)) (buf : Bytes) :
    Option (Bool×Bytes×ℕ) :=
  if 0 < length then readCalls pipe length answers ⟨0, 0, 0, buf, 0⟩ else some (true, buf, 0)

theorem pieceLen_le (length i : ℕ) : pieceLen length i≤length-i := by
  unfold pieceLen
  split_ifs <;> omega

theorem writeCalls_sent {data : List UInt8} {answers : List Answer} {s : Sending} {sent : List UInt8}
    (h : writeCalls data answers s=some (true, sent)) (hi : s.i<data.length) (hb : s.buf=s.i)
    (ht : s.totalWriteSize=s.i) (hs : s.sent=data.take s.i) : sent=data := by
  induction answers generalizing s with
  | nil => cases h
  | cons answer answers ih =>
    cases answer with
    | error => cases h
    | eintr | eagain =>
      rw [writeCalls] at h
      split_ifs at h
      · have := congrArg Prod.fst (Option.some.inj h)
        simp at this
        omega
      · exact ih h hi hb ht hs
    | count n =>
      have hp := pieceLen_le data.length s.i
      simp only [writeCalls, hb, ht, hs, ←take_add] at h
      split_ifs at h with hn
      · exact ih h hn rfl rfl rfl
      · obtain ⟨hl, rfl⟩ := Prod.mk.inj (Option.some.inj h)
        exact take_of_length_le (beq_iff_eq.mp hl).ge

theorem store_next {pipe : ℕ → UInt8} {buf : Bytes} {i : ℕ} (m : ℕ) (hs : ∀ k< i, buf k=pipe k) :
    ∀ k< i+m, store buf i ((range m).map fun k => pipe (i+k)) k=pipe k := by
  intro k hk
  unfold store
  grind

theorem readCalls_taken {pipe : ℕ → UInt8} {length : ℕ} {answers : List (Option Answer)} {s : Receiving} {buf : Bytes}
    {taken : ℕ} (h : readCalls pipe length answers s=some (true, buf, taken)) (hi : s.i<length)
    (hr : s.totalReadSize=s.i) (ht : s.taken=s.i) (hs : ∀ k<s.i, s.buf k=pipe k) :
    taken=length ∧ ∀ k<length, buf k=pipe k := by
  induction answers generalizing s with
  | nil => cases h
  | cons answer answers ih =>
    match answer with
    | none | some .error => cases h
    | some .eintr | some .eagain =>
      rw [readCalls] at h
      split_ifs at h
      · have := congrArg Prod.fst (Option.some.inj h)
        simp at this
        omega
      · exact ih h hi hr ht hs
    | some (.count n) =>
      simp only [readCalls, hr, ht] at h
      generalize min (n+1) (pieceLen length s.i)=m at h
      have hk := store_next m hs
      split_ifs at h with hn
      · exact ih h hn rfl rfl hk
      · simp only [Option.some.injEq, Prod.mk.injEq, beq_iff_eq] at h
        obtain ⟨hl, rfl, rfl⟩ := h
        exact ⟨hl, fun k h => hk k (hl ▸ h)⟩

/-- A transfer that reports success has moved exactly the buffer. -/
theorem transfers_exact :
    (∀ data answers sent, loopWritePipe data answers = some (true, sent) → sent = data) ∧
      ∀ pipe length answers buf buf' taken, loopReadPipe pipe length answers buf = some (true, buf', taken) →
        taken = length ∧ ∀ k < length, buf' k = pipe k := by
  refine ⟨fun data answers sent h => ?_, fun pipe length answers buf buf' taken h => ?_⟩
  · unfold loopWritePipe at h
    split_ifs at h with hl
    · exact writeCalls_sent h hl rfl rfl rfl
    · simp at h
      grind
  · unfold loopReadPipe at h
    split_ifs at h with hl
    · exact readCalls_taken h hl rfl rfl nofun
    · simp at h
      grind

theorem interrupted_transfer : loopWritePipe [1, 2, 3] [.count 0, .eagain, .eintr, .count 1] = some (true, [1, 2, 3]) ∧
    [(1 : UInt8), 2, 3] = [1, 2, 3] := ⟨rfl, transfers_exact.1 [1, 2, 3] [.count 0, .eagain, .eintr, .count 1] _ rfl⟩

end Faultloggerd.LiteDump.Transfer
