import Faultloggerd.DumpCatcher.PollLoop

/-! # Where the first part of the text ends

The reader knows the length of the first part when it has read the message, and cuts when the number of bytes read is
that length. So the cut is right when some read ends there, no byte behind it is read before the message, and the text
is all read when the result is.
-/
namespace Faultloggerd.DumpCatcher
open List DumpCatcherPipeData Foundations.EventRuns State

/-- The two parts have arrived apart. -/
structure Framed (d : Dump) (p : DumpCatcherPipeData) : Prop where
  first : p.mainThreadStackMsg = d.first
  more : p.bufMsg = d.more

/-- The loop ended because of the result message only with the text cut right. -/
def FramedAtEnd (d : Dump) (s : State) : Prop := ∀ result, s.point = .ended (some result) → Framed d s.data

def State.received (s : State) : ℕ := s.data.mainThreadStackMsg.length+s.data.bufMsg.length

def State.doneUnread (s : State) : Prop :=
  s.writer.doneSent = false ∨ ∃ msg ∈ s.resPipe, msg.code = .emainThreadDone

/-- A read of the buffer pipe does not reach over the end of the first part, nor behind it before the message is read.
-/
def KeepsToParts (d : Dump) (n : ℕ) (s : State) : Prop :=
  (s.doneUnread → s.received+s.readCount n≤d.first.length) ∧
    (s.received+s.readCount n≤d.first.length ∨ d.first.length≤ s.received)

def ReadsResultLast (s : State) : Prop :=
  ∀ msg rest, s.resPipe = msg::rest → msg.code ≠ .emainThreadDone → s.bufPipe = []

/-- The reads keep to the parts of the dump, and the result is read when all the text has been. -/
def InStep (d : Dump) (s : State) (e : Event) : Prop :=
  match e, s.point with
  | .handle n, .buf revents => revents.bufIn = true → KeepsToParts d n s
  | .handle _, .res revents => revents.resIn = true → ReadsResultLast s
  | _, _ => True

/-! ## What the reader has -/

def Dump.resultLeft (d : Dump) (resultSent : Bool) : List DumpResMessage := if resultSent then [d.result] else []

/-- How far the reader is: before the message, after it with the first part incomplete, and after the cut. -/
inductive Progress (d : Dump) (doneSent resultSent : Bool) (resPipe : List DumpResMessage) (p : DumpCatcherPipeData) :
    Prop
  | before (empty : p.mainThreadStackMsg=[]) (packet : p.isMainThreadStackPacket=false)
      (length : p.bufMsg.length≤d.first.length) (count : p.mainThreadStackCurLen=p.bufMsg.length)
      (pipe : resPipe=(if doneSent then [d.mainThreadDone] else [])++d.resultLeft resultSent)
  | partly (empty : p.mainThreadStackMsg=[]) (packet : p.isMainThreadStackPacket=true)
      (length : p.bufMsg.length<d.first.length) (count : p.mainThreadStackCurLen=p.bufMsg.length)
      (expect : p.mainThreadStackExpectLen=d.first.length) (sent : doneSent=true)
      (pipe : resPipe=d.resultLeft resultSent)
  | cut (first : p.mainThreadStackMsg=d.first) (packet : p.isMainThreadStackPacket=false) (sent : doneSent=true)
      (pipe : resPipe=d.resultLeft resultSent)

structure Going (d : Dump) (s : State) : Prop where
  text : s.data.mainThreadStackMsg++s.data.bufMsg++s.bufPipe++s.writer.firstLeft++s.writer.moreLeft = d.first++d.more
  done : s.writer.doneSent = true → s.writer.firstLeft = []
  result : s.writer.resultSent = true → s.writer.doneSent = true ∧ s.writer.moreLeft = []
  progress : Progress d s.writer.doneSent s.writer.resultSent s.resPipe s.data

def Inv (d : Dump) (s : State) : Prop := ((∀ result, s.point ≠ .ended result) → Going d s) ∧ FramedAtEnd d s

section Reading
variable {d : Dump} {doneSent resultSent : Bool} {resPipe : List DumpResMessage} {p : DumpCatcherPipeData}
  {bytes : List UInt8}

theorem text_doReadBuf (p : DumpCatcherPipeData) (bytes : List UInt8)
    (h : p.isMainThreadStackPacket=true → p.mainThreadStackMsg=[]) :
    (p.doReadBuf bytes).mainThreadStackMsg++(p.doReadBuf bytes).bufMsg=p.mainThreadStackMsg++p.bufMsg++bytes := by
  rw [doReadBuf]
  split_ifs with hf
  · change (p.bufMsg++bytes)++[]=_
    rw [h hf.1, append_nil, nil_append]
  · rw [append_assoc]

theorem Progress.packet_empty (h : Progress d doneSent resultSent resPipe p) (hp : p.isMainThreadStackPacket=true) :
    p.mainThreadStackMsg=[] := by
  cases h with
  | before empty _ _ _ _ | partly empty _ _ _ _ _ _ => exact empty
  | cut _ packet _ _ =>
    rw [packet] at hp
    cases hp

variable {rest : List UInt8}

theorem first_of_length (ht : p.bufMsg++bytes++rest=d.first++d.more)
    (hl : (p.bufMsg++bytes).length=d.first.length) : p.bufMsg++bytes=d.first := (append_inj ht hl).1

theorem doReadBuf_before (packet : p.isMainThreadStackPacket=false) : p.doReadBuf bytes={p with
      bufMsg := p.bufMsg++bytes
      mainThreadStackCurLen := (p.mainThreadStackCurLen+bytes.length) % 2^32} := by
  exact if_neg (by simp [packet])

theorem Progress.doReadBuf (h : Progress d doneSent resultSent resPipe p)
    (ht : p.mainThreadStackMsg++p.bufMsg++(bytes++rest)=d.first++d.more)
    (hu : (doneSent=false ∨ ∃ msg∈resPipe, msg.code=.emainThreadDone) →
      p.mainThreadStackMsg.length+p.bufMsg.length+bytes.length≤d.first.length)
    (hs1 : p.mainThreadStackMsg.length+p.bufMsg.length+bytes.length≤d.first.length ∨
      d.first.length≤p.mainThreadStackMsg.length+p.bufMsg.length) :
    Progress d doneSent resultSent resPipe (p.doReadBuf bytes) := by
  have hf1 := d.first_length
  cases h with
  | before empty packet length count pipe =>
    have hle : p.bufMsg.length+bytes.length≤d.first.length := by
      have hd : doneSent=false ∨ ∃ msg∈resPipe, msg.code=.emainThreadDone := by
        by_cases hs : doneSent=false
        · exact .inl hs
        · refine .inr ⟨d.mainThreadDone, ?_, rfl⟩
          rw [pipe, if_pos (by simpa using hs)]
          exact mem_append_left _ mem_cons_self
      have := hu hd
      omega
    rw [doReadBuf_before packet]
    refine .before empty packet (by rw [length_append]; exact hle) ?_ pipe
    rw [count, length_append, Nat.mod_eq_of_lt (by omega)]
  | partly empty packet length count expect sent pipe =>
    have hle : p.bufMsg.length+bytes.length≤d.first.length := by
      grind
    have hc : (p.mainThreadStackCurLen+bytes.length) % 2^32=p.bufMsg.length+bytes.length := by
      rw [count, Nat.mod_eq_of_lt (by omega)]
    rw [DumpCatcherPipeData.doReadBuf]
    rw [hc, expect]
    split_ifs with hf
    · refine .cut ?_ rfl sent pipe
      rw [empty, ←append_assoc] at ht
      exact first_of_length ht (by rw [length_append]; exact hf.2)
    · refine .partly empty packet ?_ ?_ rfl sent pipe
      · grind
      · rw [length_append]
  | cut first packet sent pipe =>
    rw [doReadBuf_before packet]
    exact .cut first packet sent pipe

variable {msg : DumpResMessage}

section

variable (h : Progress d doneSent resultSent resPipe p)
include h

variable {rest : List DumpResMessage}

theorem Progress.mainThreadDone {left : List UInt8} (hp : resPipe=msg::rest) (hc : msg.code=.emainThreadDone)
    (hr : resultSent=true → doneSent=true) (ht : p.mainThreadStackMsg++p.bufMsg++left=d.first++d.more) :
    Progress d doneSent resultSent rest (p.doReadRes msg).1 ∧
      (p.doReadRes msg).1.mainThreadStackMsg++(p.doReadRes msg).1.bufMsg=p.mainThreadStackMsg++p.bufMsg := by
  have hl : ∀ messages, messages=d.resultLeft resultSent → messages≠msg::rest := by
    rintro messages rfl hm
    rw [Dump.resultLeft] at hm
    split_ifs at hm
    cases hm
    exact d.result_code hc
  rw [doReadRes]
  dsimp only
  cases h with
  | before empty packet length count pipe =>
    have hs : doneSent=true := by
      by_contra hs
      have hn : resultSent=false := by grind
      rw [pipe, if_neg hs, Dump.resultLeft, if_neg (by simp [hn])] at hp
      cases hp
    rw [pipe, if_pos hs] at hp
    cases hp
    rw [count]
    split_ifs with hf
    · refine ⟨.cut ?_ rfl hs rfl, ?_⟩
      · rw [empty] at ht
        exact (append_inj ht hf).1
      · change p.bufMsg++[]=_
        rw [empty, append_nil, nil_append]
    · have hf : p.bufMsg.length≠d.first.length := hf
      exact ⟨.partly empty rfl (by grind) rfl rfl hs rfl, rfl⟩
  | partly empty packet length count expect sent pipe => exact absurd hp (hl resPipe pipe)
  | cut first packet sent pipe => exact absurd hp (hl resPipe pipe)

theorem Progress.result_sent (hp : resPipe=msg::rest) (hc : msg.code≠.emainThreadDone) : resultSent=true := by
  by_contra hn
  have hl : d.resultLeft resultSent=[] := if_neg hn
  cases h with
  | before empty packet length count pipe =>
    rw [pipe, hl] at hp
    split_ifs at hp
    · cases hp
      exact hc rfl
    · cases hp
  | partly empty packet length count expect sent pipe | cut first packet sent pipe =>
    rw [pipe, hl] at hp
    cases hp

theorem Progress.framed (hp : resPipe=msg::rest) (hc : msg.code≠.emainThreadDone)
    (hr1 : resultSent=true → doneSent=true) (ht : p.mainThreadStackMsg++p.bufMsg=d.first++d.more)
    : Framed d p := by
  cases h with
  | before empty packet length count pipe =>
    rw [pipe, Dump.resultLeft] at hp
    by_cases hs : doneSent=true
    · rw [if_pos hs] at hp
      cases hp
      exact absurd rfl hc
    · rw [if_neg hs, if_neg fun hr => hs (hr1 hr)] at hp
      cases hp
  | partly empty packet length count expect sent pipe =>
    grind
  | cut first packet sent pipe =>
    rw [first] at ht
    exact ⟨first, append_cancel_left ht⟩

end

end Reading

/-! ## Whole runs -/

section Steps
variable {d : Dump} {s : State}

theorem inv_of_going (h : Going d s) (hp : ∀ res, s.point≠.ended (some res)) : Inv d s :=
  ⟨fun _ => h, fun res hr => absurd hr (hp res)⟩

theorem Going.afterEvents (h : Going d s) (revents : Revents) : Inv d (s.afterEvents revents) := by
  rw [State.afterEvents]
  split_ifs <;> exact inv_of_going ⟨h.text, h.done, h.result, h.progress⟩ nofun

theorem Inv.writer {s' : State} (h : Inv d s) (hd : s'.data=s.data) (hp : s'.point=s.point)
    (hg : Going d s → Going d s') : Inv d s' := by
  refine ⟨fun hr1 => hg (h.1 (by rwa [hp] at hr1)), fun res hr => ?_⟩
  rw [hd]
  exact h.2 res (by rwa [hp] at hr)

theorem Going.write (h : Going d s) (n : ℕ) : Going d (s.write n) := by
  have ht := h.text
  rw [State.write]
  split_ifs with hd
  · refine ⟨?_, fun hs => ?_, h.result, h.progress⟩
    · rw [←ht]
      simp only [append_assoc, append_cancel_left_eq]
      rw [←append_assoc, take_append_drop]
    · rw [hd] at hs
      cases hs
  · have hf := h.done (by simpa using hd)
    refine ⟨?_, h.done, fun hs => ⟨(h.result hs).1, ?_⟩, h.progress⟩
    · rw [←ht, hf]
      simp only [append_assoc, nil_append]
      rw [take_append_drop]
    · rw [(h.result hs).2, drop_nil]

theorem Going.sendDone (h : Going d s) : Going d (s.sendDone d) := by
  rw [State.sendDone]
  split_ifs with hs
  · obtain ⟨hd, hf⟩ := hs
    have hr1 : s.writer.resultSent=false := by
      by_contra hr
      have := (h.result (by simpa using hr)).1
      rw [hd] at this
      cases this
    refine ⟨h.text, fun _ => hf, fun hr => ⟨rfl, (h.result hr).2⟩, ?_⟩
    cases h.progress with
    | before empty packet length count pipe =>
      refine .before empty packet length count ?_
      rw [pipe, hd, hr1]
      rfl
    | partly empty packet length count expect sent pipe | cut first packet sent pipe =>
      rw [hd] at sent
      cases sent
  · exact h

theorem Going.sendResult (h : Going d s) : Going d (s.sendResult d) := by
  rw [State.sendResult]
  split_ifs with hs
  · obtain ⟨hd, hm, hr⟩ := hs
    have hl : d.resultLeft s.writer.resultSent=[] := by rw [hr]; rfl
    refine ⟨h.text, h.done, fun _ => ⟨hd, hm⟩, ?_⟩
    cases h.progress with
    | before empty packet length count pipe =>
      refine .before empty packet length count ?_
      rw [pipe, hl, append_nil]
      rfl
    | partly empty packet length count expect sent pipe =>
      exact .partly empty packet length count expect sent (by rw [pipe, hl]; rfl)
    | cut first packet sent pipe => exact .cut first packet sent (by rw [pipe, hl]; rfl)
  · exact h

theorem Going.poll (h : Going d s) : Going d s.poll := by
  rw [State.poll]
  split
  · dsimp only
    split_ifs
    · exact h
    · exact ⟨h.text, h.done, h.result, h.progress⟩
  · exact h

theorem poll_running (hp : s.point=.polling) (res : Option PollRet) : s.poll.point≠.ended res := by
  rw [poll, hp]
  dsimp only
  split_ifs
  · rw [hp]
    nofun
  · nofun

theorem length_take_readCount (n : ℕ) (s : State) : (s.bufPipe.take (s.readCount n)).length=s.readCount n := by
  rw [length_take, readCount]
  omega

theorem Going.readBuf (h : Going d s) {n : ℕ} (revents : Revents) (hp : KeepsToParts d n s) : Going d {s with
      bPipeConnect := true
      data := s.data.doReadBuf (s.bufPipe.take (s.readCount n))
      bufPipe := s.bufPipe.drop (s.readCount n)
      point := .res revents} := by
  have hr : s.data.mainThreadStackMsg++s.data.bufMsg++(s.bufPipe.take (s.readCount n) ++
      (s.bufPipe.drop (s.readCount n)++s.writer.firstLeft++s.writer.moreLeft))=d.first++d.more := by
    rw [←append_assoc (s.bufPipe.take _), ←append_assoc (s.bufPipe.take _), ← h.text]
    simp
  rw [KeepsToParts, ←length_take_readCount n s] at hp
  refine ⟨?_, h.done, h.result, ?_⟩
  · rw [text_doReadBuf _ _ h.progress.packet_empty, ←hr]
    simp only [append_assoc]
  · exact h.progress.doReadBuf hr hp.1 hp.2

theorem Going.readRes (h : Going d s) {revents : Revents} {msg : DumpResMessage} {rest : List DumpResMessage}
    (hp : s.resPipe=msg::rest) (hl : ReadsResultLast s) : Inv d ( match s.data.doReadRes msg with
      | (data, some res) =>
        {s with bPipeConnect := true, data := data, resPipe := rest, point := .ended (some res)}
      | (data, none) => {s with bPipeConnect := true, data := data, resPipe := rest}.afterEvents revents) := by
  have ht := h.text
  have hr1 : s.writer.resultSent=true → s.writer.doneSent=true := fun hr => (h.result hr).1
  by_cases hc : msg.code=.emainThreadDone
  · rw [append_assoc, append_assoc] at ht
    obtain ⟨hp1, hk⟩ := h.progress.mainThreadDone hp hc hr1 ht
    have hn : s.data.doReadRes msg=((s.data.doReadRes msg).1, none) := by
      rw [doReadRes, if_pos hc]
    rw [hn]
    have hg : Going d {s with bPipeConnect := true, data := (s.data.doReadRes msg).1, resPipe := rest} := by
      refine ⟨?_, h.done, h.result, hp1⟩
      rw [hk]
      exact h.text
    exact hg.afterEvents revents
  · -- the res comes after all the text, and all of it is read
    have hs1 := h.progress.result_sent hp hc
    have ha : s.data.mainThreadStackMsg++s.data.bufMsg=d.first++d.more := by
      rw [hl msg rest hp hc, h.done (hr1 hs1), (h.result hs1).2] at ht
      simpa using ht
    have hs : ∃ res, s.data.doReadRes msg=(s.data, some res) := by
      rw [doReadRes, if_neg hc]
      exact ⟨_, rfl⟩
    obtain ⟨res, hs⟩ := hs
    rw [hs]
    exact ⟨fun hr2 => absurd rfl (hr2 _), fun _ _ => h.progress.framed hp hc hr1 ha⟩

theorem Going.handle (h : Going d s) {n : ℕ} (hc : InStep d s (.handle n))
    (hr : ∀ res, s.point≠.ended res) : Inv d (s.handle n) := by
  rw [State.handle]
  split
  case _ revents hpoint =>
    unfold InStep at hc
    rw [hpoint] at hc
    split_ifs with hin
    · exact inv_of_going (h.readBuf revents (hc hin)) nofun
    · exact inv_of_going ⟨h.text, h.done, h.result, h.progress⟩ nofun
    · exact inv_of_going ⟨h.text, h.done, h.result, h.progress⟩ nofun
  case _ revents hpoint =>
    unfold InStep at hc
    rw [hpoint] at hc
    split_ifs with hin
    · split
      · have hg : Going d {s with bPipeConnect := true} := ⟨h.text, h.done, h.result, h.progress⟩
        exact hg.afterEvents revents
      · rename_i msg rest hp
        exact h.readRes hp (hc hin)
    · exact inv_of_going ⟨h.text, h.done, h.result, h.progress⟩ nofun
    · exact h.afterEvents revents
  case _ hpoint => exact inv_of_going h fun res => hr _
  case _ hpoint => exact absurd hpoint (hr _)

end Steps

theorem inv_initial (d : Dump) : Inv d (.initial d) :=
  inv_of_going ⟨rfl, nofun, nofun, .before rfl rfl (Nat.zero_le _) rfl rfl⟩ nofun

theorem inv_step (d : Dump) (s : State) (e : Event) (h : Inv d s) (hc : InStep d s e) : Inv d (step d e s) := by
  cases e with
  | write n =>
    refine h.writer ?_ ?_ fun hg => hg.write n
    · rw [step, write]
      split_ifs <;> rfl
    · rw [step, write]
      split_ifs <;> rfl
  | sendDone =>
    refine h.writer ?_ ?_ Going.sendDone
    · rw [step, sendDone]
      split_ifs <;> rfl
    · rw [step, sendDone]
      split_ifs <;> rfl
  | sendResult =>
    refine h.writer ?_ ?_ Going.sendResult
    · rw [step, sendResult]
      split_ifs <;> rfl
    · rw [step, sendResult]
      split_ifs <;> rfl
  | closeBuf | closeRes =>
    rw [step]
    split_ifs
    · exact h.writer rfl rfl fun hg => ⟨hg.text, hg.done, hg.result, hg.progress⟩
    · exact h
  | poll =>
    by_cases hp1 : s.point=.polling
    · exact inv_of_going (h.1 (by rw [hp1]; nofun)).poll fun res => poll_running hp1 _
    · have hs : s.poll=s := by
        rw [poll]
        split
        · rename_i hp
          exact absurd hp hp1
        · rfl
      rw [step, hs]
      exact h
  | handle n =>
    by_cases he : ∃ res, s.point=.ended res
    · obtain ⟨res, he⟩ := he
      have hs : s.handle n=s := by rw [handle, he]
      rw [step, hs]
      exact h
    · have hr : ∀ res, s.point≠.ended res := fun res hp => he ⟨res, hp⟩
      exact (h.1 hr).handle hc hr
  | timeout =>
    rw [step]
    split_ifs
    · exact ⟨fun hr => absurd rfl (hr none), nofun⟩
    · exact h

/-- In every run whose reads keep to the parts, the loop ends with the text cut where its first part ends. -/
theorem framed_at_end (d : Dump) (events : List Event) (h : Every (step d) (InStep d) events (.initial d)) :
    FramedAtEnd d (run (step d) events (.initial d)) :=
  (run_invariant_of_every (Inv d) (inv_step d) (inv_initial d) h).2

/-! ## Two reads -/

def shortDump : Dump := ⟨[1, 2], [3], ⟨.esuccess, 3⟩, by decide, by decide⟩

def separateReads : List Event :=
  [.write 2, .poll, .handle 2, .handle 0, .sendDone, .poll, .handle 0, .handle 0, .write 1, .poll, .handle 1, .handle 0,
    .sendResult, .poll, .handle 0, .handle 0]

theorem separate_reads_framed : FramedAtEnd shortDump (run (step shortDump) separateReads (.initial shortDump)) ∧
    (run (step shortDump) separateReads (.initial shortDump)).point = .ended (some .ok) := by
  have hp : ∀ n s, s.received+s.readCount n≤ shortDump.first.length → KeepsToParts shortDump n s :=
    fun n s h => ⟨fun _ => h, .inl h⟩
  refine ⟨framed_at_end shortDump separateReads ?_, by decide⟩
  refine ⟨trivial, trivial, fun _ => hp _ _ (by decide), nofun, trivial, trivial, nofun, fun _ => ?_, trivial, trivial,
    fun _ => ⟨?_, .inr (by decide)⟩, nofun, trivial, trivial, nofun, fun _ => ?_, trivial⟩
  · rintro msg rest ⟨⟩ hc
    exact absurd rfl hc
  · rintro (hu | ⟨msg, hm, -⟩)
    · exact absurd hu (by decide)
    · exact absurd hm not_mem_nil
  · exact fun _ _ _ _ => rfl

/-- One read takes the bytes of both parts. -/
def coalescedRead : List Event :=
  [.write 2, .sendDone, .write 1, .sendResult, .poll, .handle 3, .handle 0, .poll, .handle 0, .handle 0]

theorem coalesced_read_uncut : ¬FramedAtEnd shortDump (run (step shortDump) coalescedRead (.initial shortDump)) := by
  intro h
  exact absurd (h .ok (by decide)).first (by decide)

/-! ## No byte is lost

The cut may come at the wrong place or not at all, but it never loses, repeats or moves a byte: there is one message
that asks for it, so the first part is saved over an empty one. -/

def State.unread (s : State) : ℕ := s.resPipe.countP (·.code = .emainThreadDone)

def DumpCatcherPipeData.asked (p : DumpCatcherPipeData) : ℕ :=
  if p.mainThreadStackMsg = [] ∧ p.isMainThreadStackPacket = false then 0 else 1

/-- The one message is not sent yet, in the pipe, or read. -/
structure Lossless (d : Dump) (s : State) : Prop where
  text : s.data.mainThreadStackMsg++s.data.bufMsg++s.bufPipe++s.writer.firstLeft++s.writer.moreLeft = d.first++d.more
  done : s.writer.doneSent = true → s.writer.firstLeft = []
  once : (!s.writer.doneSent).toNat+s.unread+s.data.asked ≤ 1
  empty : s.data.isMainThreadStackPacket = true → s.data.mainThreadStackMsg = []

variable {d : Dump} {s : State}

theorem Lossless.write (h : Lossless d s) (n : ℕ) : Lossless d (s.write n) := by
  have ht := h.text
  rw [State.write]
  split_ifs with hd
  · refine ⟨?_, fun hs => ?_, h.once, h.empty⟩
    · rw [←ht]
      simp only [append_assoc, append_cancel_left_eq]
      rw [←append_assoc, take_append_drop]
    · rw [hd] at hs
      cases hs
  · refine ⟨?_, h.done, h.once, h.empty⟩
    rw [←ht, h.done (by simpa using hd)]
    simp only [append_assoc, nil_append, take_append_drop]

theorem Lossless.sendDone (h : Lossless d s) : Lossless d (s.sendDone d) := by
  rw [State.sendDone]
  split_ifs with hs
  · refine ⟨h.text, fun _ => hs.2, ?_, h.empty⟩
    have ho := h.once
    simp only [unread, countP_append, hs.1] at ho ⊢
    simpa [Dump.mainThreadDone, Nat.add_comm] using ho
  · exact h

theorem Lossless.sendResult (h : Lossless d s) : Lossless d (s.sendResult d) := by
  rw [State.sendResult]
  split_ifs with hs
  · refine ⟨h.text, h.done, ?_, h.empty⟩
    have ho := h.once
    simp only [unread, countP_append] at ho ⊢
    simpa [d.result_code] using ho
  · exact h

theorem asked_le (p : DumpCatcherPipeData) : p.asked≤1 := by
  unfold asked
  split_ifs <;> omega

theorem asked_doReadBuf (p : DumpCatcherPipeData) (bytes : List UInt8) : (p.doReadBuf bytes).asked≤p.asked := by
  rw [doReadBuf]
  split_ifs with hf
  · simp only [asked, saveMainThreadStack]
    split_ifs <;> simp_all
  · exact Nat.le_refl _

section

variable (h : Lossless d s)
include h

theorem Lossless.readBuf (n : ℕ) (revents : Revents) : Lossless d {s with
      bPipeConnect := true
      data := s.data.doReadBuf (s.bufPipe.take n)
      bufPipe := s.bufPipe.drop n
      point := .res revents} := by
  refine ⟨?_, h.done, ?_, ?_⟩
  · dsimp only
    rw [text_doReadBuf _ _ h.empty, append_assoc _ (take n _), take_append_drop]
    exact h.text
  · have ho := h.once
    have ha := asked_doReadBuf s.data (s.bufPipe.take n)
    simp only [unread] at ho ⊢
    omega
  · intro hp
    dsimp only [doReadBuf] at hp ⊢
    split_ifs at hp ⊢ with hf
    · cases hp
    · exact h.empty hp

theorem Lossless.readRes {msg : DumpResMessage} {rest : List DumpResMessage}
    (hp : s.resPipe=msg::rest) (point : Point) : Lossless d {s with
      bPipeConnect := true, data := (s.data.doReadRes msg).1, resPipe := rest, point := point} := by
  have ho := h.once
  rw [unread, hp, countP_cons] at ho
  rw [doReadRes]
  split_ifs with hc
  · -- The message was in the pipe, so nothing was saved before.
    simp only [hc, decide_true, if_true] at ho
    have ha : s.data.asked=0 := by omega
    have hm : s.data.mainThreadStackMsg=[] := by
      by_contra hn
      simp [asked, hn] at ha
    have ht := h.text
    rw [hm] at ht
    have hu : ∀ p : DumpCatcherPipeData,
        (!s.writer.doneSent).toNat+rest.countP (·.code=.emainThreadDone)+p.asked≤1 := by
      intro p
      have hp := asked_le p
      omega
    dsimp only
    split_ifs with hl
    · exact ⟨by simpa [saveMainThreadStack] using ht, h.done, hu _, fun hq => by cases hq⟩
    · exact ⟨by simpa [hm] using ht, h.done, hu _, fun _ => hm⟩
  · refine ⟨h.text, h.done, ?_, h.empty⟩
    simp only [hc, decide_false, Bool.false_eq_true, if_false] at ho
    exact ho

theorem Lossless.afterEvents (revents : Revents) : Lossless d (s.afterEvents revents) := by
  rw [State.afterEvents]
  split_ifs <;> exact ⟨h.text, h.done, h.once, h.empty⟩

theorem Lossless.handle (n : ℕ) : Lossless d (s.handle n) := by
  rw [State.handle]
  split
  · split_ifs
    · exact h.readBuf _ _
    · exact ⟨h.text, h.done, h.once, h.empty⟩
    · exact ⟨h.text, h.done, h.once, h.empty⟩
  · split_ifs
    · split
      · have hb : Lossless d {s with bPipeConnect := true} := ⟨h.text, h.done, h.once, h.empty⟩
        exact hb.afterEvents _
      · rename_i msg rest hp
        split
        · rename_i data res hd
          have hr := h.readRes hp (.ended (some res))
          rwa [hd] at hr
        · rename_i data hd
          have hr := h.readRes hp s.point
          rw [hd] at hr
          exact hr.afterEvents _
    · exact ⟨h.text, h.done, h.once, h.empty⟩
    · exact h.afterEvents _
  · exact h
  · exact h

theorem Lossless.step (e : Event) : Lossless d (step d e s) := by
  cases e with
  | write n => exact h.write n
  | sendDone => exact h.sendDone
  | sendResult => exact h.sendResult
  | handle n => exact h.handle n
  | closeBuf | closeRes | timeout =>
    simp only [DumpCatcher.step]
    split_ifs
    · exact ⟨h.text, h.done, h.once, h.empty⟩
    · exact h
  | poll =>
    simp only [DumpCatcher.step, poll]
    split
    · split_ifs
      · exact h
      · exact ⟨h.text, h.done, h.once, h.empty⟩
    · exact h

end

theorem lossless_initial (d : Dump) : Lossless d (.initial d) where
  text := rfl
  done h := by cases h
  once := Nat.le_refl 1
  empty h := by cases h

/-- Whatever the interleaving, what was read, what is in the pipe and what is still to be written make up the dump. -/
theorem nothing_lost (d : Dump) (events : List Event) : let s := run (DumpCatcher.step d) events (.initial d)
    s.data.mainThreadStackMsg++s.data.bufMsg++s.bufPipe++s.writer.firstLeft++s.writer.moreLeft = d.first++d.more :=
  (run_invariant (Lossless d) (fun _ e h => h.step e) (lossless_initial d) events).text

end Faultloggerd.DumpCatcher
