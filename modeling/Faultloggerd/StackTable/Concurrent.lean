import Faultloggerd.StackTable.RoundTrip

/-! # Concurrent insertions

`PutPcsInTable` holds only a shared lock, so insertions interleave; the atomic action of one is a
compare-exchange on a slot. A call is a small machine (`PutState`) whose step is one such action.
Run alone it computes what `putPcs` computes (`run_alone`); a schedule interleaves any number of
them on one buffer, which may hold anything to begin with.

What an unfinished call knows about the buffer is stable under the steps of the others
(`Progress.mono`), so it holds in every interleaving (`schedule_progress`). Two successful calls
with the same index stored the same truncated pcs, and two calls with the same pcs get the same
index. The pcs have to be the same before truncation: the hash reads all 64 bits, and pcs that
differ above bit 38 are stored as equal nodes in different slots.
-/
namespace Faultloggerd.StackTable
open List Node Foundations Foundations.WriteOnce Function UniqueStackTable

inductive PutState where
  | probing (pc : BitVec 64) (prev times cur : ℕ) (rest : List (BitVec 64))
  | done (result : ℕ)
deriving DecidableEq

namespace PutState

def advance (t : UniqueStackTable) : List (BitVec 64) → ℕ → PutState
  | [], prev => done prev
  | pc :: rest, prev =>
    if pc = 0 then advance t rest prev
    else if t.hashModulus = 0 then done 0
    else
      match t.deconflictTimes % 2^8 with
      | 0 => done 0
      | times+1 => probing pc prev times (t.firstIdx pc prev) rest

def resume (t : UniqueStackTable) (rest : List (BitVec 64)) (idx : ℕ) : PutState :=
  if idx = 0 then done 0 else advance t rest idx

def step (t : UniqueStackTable) (slots : Slots) : PutState → Slots × PutState
  | done r => (slots, done r)
  | probing pc prev times cur rest =>
    let node := UniqueStackTable.nodeOf pc prev
    if slots cur = Node.zero then (Function.update slots cur node, resume t rest cur)
    else if slots cur = node then (slots, resume t rest cur)
    else if t.availableNodes = 0 then (slots, done 0)
    else
      match times with
      | 0 => (slots, done 0)
      | times+1 => (slots, probing pc prev times (t.nextIdx (times+1) cur) rest)

def start (t : UniqueStackTable) (pcs : List (BitVec 64)) : PutState := advance t pcs.reverse 0

end PutState

def alone (t : UniqueStackTable) (n : ℕ) (s : Slots×PutState) : Slots × PutState :=
  (fun s => s.2.step t s.1)^[n] s

section Schedule
variable {κ : Type} [DecidableEq κ]

structure Config (κ : Type) where
  slots : Slots
  calls : κ → PutState

def Config.step (t : UniqueStackTable) (c : Config κ) (k : κ) : Config κ where
  slots := ((c.calls k).step t c.slots).1
  calls := Function.update c.calls k ((c.calls k).step t c.slots).2

def Config.start (t : UniqueStackTable) (slots : Slots) (pcs : κ → List (BitVec 64)) : Config κ where
  slots := slots
  calls := fun k => PutState.start t (pcs k)

def Config.run (t : UniqueStackTable) (c : Config κ) (schedule : List κ) : Config κ :=
  schedule.foldl (Config.step t) c

end Schedule

variable {t : UniqueStackTable}

theorem alone_probe (t : UniqueStackTable) (pc : BitVec 64) (prev times cur : ℕ)
    (rest : List (BitVec 64)) (slots : Slots) : ∃ n, alone t n (slots, .probing pc prev times cur rest) =
      ((t.probeLoop (nodeOf pc prev) (times+1) cur slots).2,
        PutState.resume t rest (t.probeLoop (nodeOf pc prev) (times+1) cur slots).1) := by
  induction times generalizing cur with
  | zero =>
    refine ⟨1, ?_⟩
    simp only [alone, iterate_one, PutState.step, probeLoop]
    split_ifs <;> rfl
  | succ times ih =>
    obtain ⟨n, hn⟩ := ih (t.nextIdx (times+1) cur)
    rw [probeLoop]
    by_cases h0 : slots cur=zero
    · exact ⟨1, by simp [alone, PutState.step, if_pos h0]⟩
    by_cases hn' : slots cur=nodeOf pc prev
    · exact ⟨1, by simp [alone, PutState.step, if_neg h0, if_pos hn']⟩
    by_cases ha : t.availableNodes=0
    · exact ⟨1, by simp only [alone, iterate_one, PutState.step, if_neg h0, if_neg hn', if_pos ha]; rfl⟩
    · have hs : (PutState.probing pc prev (times+1) cur rest).step t slots =
          (slots, .probing pc prev times (t.nextIdx (times+1) cur) rest) := by
        simp [PutState.step, if_neg h0, if_neg hn', if_neg ha]
      refine ⟨n+1, ?_⟩
      rw [if_neg h0, if_neg hn', if_neg ha, alone, iterate_succ_apply]
      rw [hs]
      exact hn

/-- A call that is not interrupted ends as the sequential `putPcs` does. -/
theorem run_alone (t : UniqueStackTable) (pcs : List (BitVec 64)) (prev : ℕ) (slots : Slots) :
    ∃ n, alone t n (slots, PutState.advance t pcs prev) =
      ((t.putPcs pcs prev slots).2, .done ((t.putPcs pcs prev slots).1.getD 0)) := by
  induction pcs generalizing prev slots with
  | nil => exact ⟨0, rfl⟩
  | cons pc pcs ih =>
    rw [PutState.advance, putPcs]
    by_cases h0 : pc=0
    · rw [if_pos h0, if_pos h0]
      exact ih prev slots
    rw [if_neg h0, if_neg h0]
    by_cases hm : t.hashModulus=0
    · exact ⟨0, by simp [alone, putPcInSlot, hm]⟩
    rw [if_neg hm]
    unfold putPcInSlot
    rw [if_neg hm]
    cases ht : t.deconflictTimes % 2^8 with
    | zero => exact ⟨0, rfl⟩
    | succ times =>
      obtain ⟨n, hn⟩ := alone_probe t pc prev times (t.firstIdx pc prev) pcs slots
      generalize t.probeLoop (nodeOf pc prev) (times+1) (t.firstIdx pc prev)
        slots=r at hn ⊢
      by_cases hr : r.1=0
      · refine ⟨n, ?_⟩
        dsimp only
        rw [hn, PutState.resume, if_pos hr, if_pos hr]
        rfl
      · obtain ⟨n', hn'⟩ := ih r.1 r.2
        refine ⟨n'+n, ?_⟩
        dsimp only
        rw [alone, iterate_add_apply]
        change alone t n' (alone t n _)=_
        rw [hn, PutState.resume, if_neg hr, if_neg hr]
        exact hn'

/-- A call that is to store `pcs`: the callers of the current pc are placed and the slots it has
tried are taken by other nodes; a finished call with an index has placed everything. -/
def Progress (t : UniqueStackTable) (slots : Slots) (pcs : List (BitVec 64)) : PutState → Prop
  | .probing pc prev times cur rest => ∃ stored tried,
      entries pcs = (entries rest).reverse++pc::stored ∧ Placed t slots stored prev ∧
        t.probes pc prev = tried++t.probesFrom (times+1) cur ∧
        Passed Node.zero slots (UniqueStackTable.nodeOf pc prev) tried
  | .done r => r ≠ 0 → Placed t slots (entries pcs) r

variable {slots slots' : Slots} {pcs : List (BitVec 64)}

theorem Progress.mono (hl : ∀ pc∈entries pcs, LowBits pc) {s : PutState}
    (h : Progress t slots pcs s) (hs : Extends zero slots slots') : Progress t slots' pcs s := by
  cases s with
  | probing pc prev times cur rest =>
    obtain ⟨stored, tried, hs1, hp2, hp3, hp1⟩ := h
    refine ⟨stored, tried, hs1, hp2.mono (fun p hp => hl p ?_) hs, hp3, hp1.mono hs⟩
    rw [hs1]
    simp [hp]
  | done r => exact fun hr => (h hr).mono hl hs

theorem advance_progress {rest stored : List (BitVec 64)} {prev : ℕ}
    (hs : entries pcs=(entries rest).reverse++stored) (hp : Placed t slots stored prev) :
    Progress t slots pcs (PutState.advance t rest prev) := by
  induction rest with
  | nil =>
    intro _
    rw [hs]
    exact hp
  | cons pc rest ih =>
    rw [PutState.advance]
    by_cases h0 : pc=0
    · subst h0
      exact ih (by rwa [entries_cons_zero] at hs)
    rw [if_neg h0]
    by_cases hm : t.hashModulus=0
    · rw [if_pos hm]
      exact fun h => absurd rfl h
    rw [if_neg hm]
    cases ht : t.deconflictTimes % 2^8 with
    | zero => exact fun h => absurd rfl h
    | succ times =>
      rw [entries_cons_of_ne h0, reverse_cons, append_assoc] at hs
      refine ⟨stored, [], hs, hp, ?_, by simp [Passed]⟩
      rw [probes, ht, nil_append]

theorem resume_progress {pc : BitVec 64} {rest stored tried post : List _} {prev cur : ℕ}
    (hs : entries pcs=(entries rest).reverse++pc::stored) (hp : Placed t slots stored prev)
    (hp2 : t.probes pc prev=tried++cur::post) (hp1 : Passed zero slots (nodeOf pc prev) tried)
    (hs1 : slots cur=nodeOf pc prev) : Progress t slots pcs (PutState.resume t rest cur) := by
  rw [PutState.resume]
  split_ifs with h0
  · exact fun h => absurd rfl h
  · exact advance_progress hs ⟨h0, prev, hp, hs1, tried, post, hp2, hp1⟩

theorem step_progress (hl : ∀ pc∈entries pcs, LowBits pc) {s : PutState} (h : Progress t slots pcs s) :
    Extends zero slots (s.step t slots).1 ∧ Progress t (s.step t slots).1 pcs (s.step t slots).2 := by
  cases s with
  | done r => exact ⟨Extends.refl _, h⟩
  | probing pc prev times cur rest =>
    obtain ⟨stored, tried, hs, hp2, hp3, hp1⟩ := h
    have hs1 : ∀ p∈stored, LowBits p := fun p hp => hl p (by rw [hs]; simp [hp])
    simp only [PutState.step]
    by_cases h0 : slots cur=zero
    · -- the slot was empty and is now ours
      rw [if_pos h0]
      have he := extends_update (nodeOf pc prev) h0
      exact ⟨he, resume_progress hs (hp2.mono hs1 he) hp3 (hp1.mono he) (update_self _ _ _)⟩
    rw [if_neg h0]
    by_cases hn : slots cur=nodeOf pc prev
    · rw [if_pos hn]
      exact ⟨Extends.refl _, resume_progress hs hp2 hp3 hp1 hn⟩
    rw [if_neg hn]
    by_cases ha : t.availableNodes=0
    · rw [if_pos ha]
      exact ⟨Extends.refl _, fun hr => absurd rfl hr⟩
    rw [if_neg ha]
    cases times with
    | zero => exact ⟨Extends.refl _, fun hr => absurd rfl hr⟩
    | succ times =>
      refine ⟨Extends.refl _, stored, tried++[cur], hs, hp2, ?_, hp1.concat h0 hn⟩
      rw [hp3, append_assoc]
      rfl

theorem schedule_progress {κ : Type} [DecidableEq κ] (t : UniqueStackTable) (slots : Slots)
    (pcs : κ → List (BitVec 64)) (hl : ∀ k, ∀ pc∈entries (pcs k), LowBits pc) (sched : List κ) (k : κ) :
    let c := (Config.start t slots pcs).run t sched
    Progress t c.slots (pcs k) (c.calls k) := by
  have hi : ∀ (sched : List κ) (c : Config κ), (∀ k, Progress t c.slots (pcs k) (c.calls k)) →
      ∀ k, Progress t (c.run t sched).slots (pcs k) ((c.run t sched).calls k) := by
    intro sched
    induction sched with
    | nil => exact fun c h => h
    | cons j sched ih =>
      intro c h
      apply ih (c.step t j)
      intro k
      obtain ⟨he, ho⟩ := step_progress (hl j) (h j)
      by_cases hk : k=j
      · subst hk
        simpa only [Config.step, update_self] using ho
      · simp only [Config.step, update_of_ne hk]
        exact (h k).mono (hl k) he
  refine hi sched _ (fun k => ?_) k
  refine advance_progress ?_ (show Placed t slots [] 0 from rfl)
  rw [entries_reverse, reverse_reverse, append_nil]

theorem Chain.unique {n : ℕ} {l l' : List (BitVec 39)} {idx : ℕ} (h : Chain n slots l idx)
    (h' : Chain n slots l' idx) : l=l' := by
  induction l generalizing l' idx with
  | nil =>
    cases l' with
    | nil => rfl
    | cons pc' rest' => exact absurd h h'.1
  | cons pc rest ih =>
    cases l' with
    | nil => exact absurd h' h.1
    | cons pc' rest' =>
      obtain ⟨-, -, -, hpc, hr⟩ := h
      obtain ⟨-, -, -, hpc', hr'⟩ := h'
      rw [←hpc, ←hpc', ih hr hr']

theorem Placed.unique {l : List (BitVec 64)} {i j : ℕ} (h : Placed t slots l i) (h' : Placed t slots l j) : i=j := by
  induction l generalizing i j with
  | nil => exact Eq.trans h h'.symm
  | cons pc rest ih =>
    obtain ⟨-, prev, hp, hs⟩ := h
    obtain ⟨-, prev', hp', hs'⟩ := h'
    rw [ih hp hp'] at hs
    exact hs.unique hs'

/-- Two successful calls in any interleaving: equal indices mean equal truncated pcs, equal pcs mean
equal indices, so for pcs of at most 39 bits the index identifies the stack. -/
theorem putPcsInTable_index_unique {κ : Type} [DecidableEq κ] (t : UniqueStackTable)
    (hg : Geometry t) (slots : Slots) (pcs : κ → List (BitVec 64))
    (hlow : ∀ k, ∀ pc∈pcs k, pc≠0 → LowBits pc) (schedule : List κ) (k l : κ) (i j : ℕ)
    (hi : ((Config.start t slots pcs).run t schedule).calls k = .done i) (hi0 : i≠0)
    (hj : ((Config.start t slots pcs).run t schedule).calls l = .done j) (hj0 : j≠0) :
    (i=j → (entries (pcs k)).map (·.setWidth 39)=(entries (pcs l)).map (·.setWidth 39)) ∧
      (entries (pcs k)=entries (pcs l) → i=j) ∧ ((∀ pc∈pcs k++pcs l, pc.toNat<2^39) →
        (i=j ↔ (entries (pcs k)).map (·.setWidth 39)=(entries (pcs l)).map (·.setWidth 39))) := by
  have hlow' : ∀ k, ∀ pc∈entries (pcs k), LowBits pc := by
    intro k pc hm
    have hm' := mem_filter.mp hm
    exact hlow k pc hm'.1 (by simpa using hm'.2)
  have hk := schedule_progress t slots pcs hlow' schedule k
  have hl := schedule_progress t slots pcs hlow' schedule l
  dsimp only at hk hl
  rw [hi] at hk
  rw [hj] at hl
  have hs2 : i=j → (entries (pcs k)).map (·.setWidth 39)=(entries (pcs l)).map (·.setWidth 39) := by
    rintro rfl
    exact ((hk hi0).chain hg (hlow' k)).unique ((hl hj0).chain hg (hlow' l))
  have hi1 : entries (pcs k)=entries (pcs l) → i=j := by
    intro he
    have hk' := hk hi0
    rw [he] at hk'
    exact hk'.unique (hl hj0)
  refine ⟨hs2, hi1, fun hs1 => ⟨hs2, fun hm1 => hi1 ?_⟩⟩
  -- truncation loses nothing on these pcs
  have hb : ∀ k', (∀ pc∈pcs k', pc.toNat<2^39) →
      ((entries (pcs k')).map (·.setWidth 39)).map (·.setWidth 64)=entries (pcs k') := by
    intro k' hs
    rw [map_map]
    refine (map_congr_left fun pc hm => ?_).trans (map_id _)
    have hpc := hs pc (mem_filter.mp hm).1
    apply BitVec.eq_of_toNat_eq
    grind
  rw [←hb k fun pc hm => hs1 pc (by simp [hm]), ←hb l fun pc hm => hs1 pc (by simp [hm]), hm1]

def emptySlots : Slots := fun _ => Node.zero

def sharedPcs (k : Bool) : List (BitVec 64) := if k then [4, 8] else [4, 0, 8]

theorem putPcsInTable_index_shared : ((Config.start initialised emptySlots sharedPcs).run initialised
        [true, false, false, true]).calls true = .done 50 ∧
      ((Config.start initialised emptySlots sharedPcs).run initialised [true, false, false, true]).calls
        false = .done 50 ∧
      (entries [4, 8]).map (·.setWidth 39) = (entries [4, 0, 8]).map (·.setWidth 39) :=
  ⟨by decide +kernel, by decide +kernel,
    (putPcsInTable_index_unique initialised initialised_ready.geometry emptySlots sharedPcs
      (by simp [sharedPcs, LowBits]) [true, false, false, true] true false 50 50
      (by decide +kernel) (by decide) (by decide +kernel) (by decide)).1 rfl⟩

/-- Two pcs with the same low 39 bits get different indices. -/
theorem putPcsInTable_index_high_bits : (4#64).setWidth 39 = (0x8000000004#64).setWidth 39 ∧
      ((Config.start initialised emptySlots fun k : Bool =>
        if k then [4] else [0x8000000004]).run initialised [true, false]).calls true = .done 2 ∧
      ((Config.start initialised emptySlots fun k : Bool =>
        if k then [4] else [0x8000000004]).run initialised [true, false]).calls false = .done 10 := by
  decide +kernel

end Faultloggerd.StackTable
