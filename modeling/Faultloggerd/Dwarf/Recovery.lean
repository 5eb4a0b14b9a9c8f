import Faultloggerd.Dwarf.Instructions
import Faultloggerd.Foundations.InPlace

/-! # What `Apply` recovers

A rule denotes a value on the register file of the frame that is left, so all registers of the caller
would be read off that one file. `Apply` runs the rules in place instead: as a list of assignments, the
slots in order, then the stack pointer and the program counter (`recoveryPlan`).
-/
namespace Faultloggerd.Dwarf
open Foundations.InPlace List Option

variable {t : Target} (m : DfxMemory) (fuel : ℕ) (cfa : Word) (rs : RegLocState t)

/-- `none` where a rule denotes nothing: an undefined register, unreadable memory, no such register.
Without a rule a register keeps its value, but the stack pointer and the program counter do not. -/
def ruleValue (old : Regs) (i : Fin t.qutRegs.length) : Option Word :=
  match (rs.locs i).type with
  | .unused =>
    if t.qutReg i = t.regSp ∨ t.qutReg i = t.regPc then none else some (old (t.qutReg i))
  | .undefined => none
  | .valOffset => some (cfa+(rs.locs i).val)
  | .memOffset => m.read (cfa+(rs.locs i).val) 8
  | .register => regAt t old (rs.locs i).val.toNat
  | .memExpression => (eval t m old fuel cfa (rs.locs i).val).bind fun location => m.read location 8
  | .valExpression => eval t m old fuel cfa (rs.locs i).val

/-- `Apply` comes back, and each tracked register has the value of its rule on the old registers. -/
def Simultaneous (old : Regs) : Prop :=
  ∃ result, apply m fuel old rs = some result ∧
    ∀ i v, ruleValue m fuel cfa rs old i = some v → result.regs (t.qutReg i) = v

def slotAssignment (old : Regs) (i : Fin t.qutRegs.length) : Assignment ℕ Word where
  target := t.qutReg i
  effect := fun regs =>
    if (rs.locs i).type = .unused then some (regs (t.qutReg i))
    else (flush (t := t) m fuel regs cfa (rs.locs i) (regs (t.qutReg i))).map Prod.snd
  wanted :=
    if t.qutReg i = t.regSp ∨ t.qutReg i = t.regPc then none else ruleValue m fuel cfa rs old i

def wantedOf (old : Regs) (reg : ℕ) : Option Word :=
  (t.slotOf reg).bind (ruleValue m fuel cfa rs old)

def returnAddress (regs : Regs) : Word :=
  let ra := rs.returnAddressRegister.toNat
  if rs.returnAddressUndefined then 0
  else if t.regEh ≤ ra ∧ ra < t.regLast then regs ra
  else regs t.regPc

def recoveryPlan (old : Regs) : List (Assignment ℕ Word) :=
  (List.finRange t.qutRegs.length).map (slotAssignment m fuel cfa rs old) ++
    [⟨t.regSp, fun _ => some cfa, wantedOf m fuel cfa rs old t.regSp⟩,
      ⟨t.regPc, fun regs => some (returnAddress rs regs), wantedOf m fuel cfa rs old t.regPc⟩]

theorem flushSlot_eq (regs old : Regs) (i : Fin t.qutRegs.length) :
    flushSlot m fuel cfa rs regs i=((slotAssignment m fuel cfa rs old i).effect regs).map
      (Function.update regs (t.qutReg i)) := by
  simp only [flushSlot, slotAssignment]
  split_ifs
  · simp
  · rw [Option.map_map]
    rfl

variable (old : Regs)

theorem run_slots (is : List (Fin t.qutRegs.length)) (regs : Regs) :
    run (is.map (slotAssignment m fuel cfa rs old)) regs=is.foldlM (flushSlot m fuel cfa rs) regs := by
  induction is generalizing regs with
  | nil => rfl
  | cons i is ih =>
    simp only [map_cons, run, foldlM_cons, flushSlot_eq m fuel cfa rs regs old i, ih]
    cases (slotAssignment m fuel cfa rs old i).effect regs with
    | none | some v => rfl

theorem setReturnAddress_regs (regs : Regs) :
    (setReturnAddress rs regs).regs=Function.update regs t.regPc (returnAddress rs regs) := by
  by_cases hu : rs.returnAddressUndefined
  · simp [setReturnAddress, returnAddress, hu]
  by_cases hra : t.regEh≤ rs.returnAddressRegister.toNat ∧ rs.returnAddressRegister.toNat<t.regLast
  · cases hs : rs.returnAddressSame <;> simp [setReturnAddress, returnAddress, hu, hra, hs]
  · simp [setReturnAddress, returnAddress, hu, hra]

theorem apply_regs (hc : getCfa m fuel old rs=some (.ok cfa)) :
    (apply m fuel old rs).map ApplyResult.regs=run (recoveryPlan m fuel cfa rs old) old := by
  rw [recoveryPlan, run_append, run_slots, apply, hc]
  simp only [Option.bind_some]
  cases foldlM (flushSlot m fuel cfa rs) old (finRange t.qutRegs.length) with
  | none => rfl
  | some regs => simp [setReturnAddress_regs, run]

theorem mem_recoveryPlan (a : Assignment ℕ Word) : a∈recoveryPlan m fuel cfa rs old ↔
      (∃ i, slotAssignment m fuel cfa rs old i=a) ∨ a=⟨t.regSp, fun _ => some cfa, wantedOf m fuel cfa rs old t.regSp⟩ ∨
        a=⟨t.regPc, fun regs => some (returnAddress rs regs), wantedOf m fuel cfa rs old t.regPc⟩ := by
  simp [recoveryPlan]

theorem wanted_iff (regs : Regs) : (∀ a∈recoveryPlan m fuel cfa rs old, ∀ w, a.wanted=some w → regs a.target=w) ↔
      ∀ i v, ruleValue m fuel cfa rs old i=some v → regs (t.qutReg i)=v := by
  constructor
  · intro h i v hv
    have hw1 : wantedOf m fuel cfa rs old (t.qutReg i)=some v := by
      rw [wantedOf, (t.slotOf_eq_some_iff _ i).mpr rfl, bind_some, hv]
    by_cases hsp : t.qutReg i=t.regSp
    · have := h _ ((mem_recoveryPlan m fuel cfa rs old _).mpr (.inr (.inl rfl))) v (hsp ▸ hw1)
      rw [hsp, this]
    by_cases hpc : t.qutReg i=t.regPc
    · have := h _ ((mem_recoveryPlan m fuel cfa rs old _).mpr (.inr (.inr rfl))) v (hpc ▸ hw1)
      rw [hpc, this]
    · refine h _ ((mem_recoveryPlan m fuel cfa rs old _).mpr (.inl ⟨i, rfl⟩)) v ?_
      simp [slotAssignment, hsp, hpc, hv]
  · intro h a ha w hw
    have hs : ∀ reg, wantedOf m fuel cfa rs old reg=some w → regs reg=w := by
      intro reg hr
      obtain ⟨i, hi, hv⟩ := bind_eq_some_iff.mp hr
      rw [← (t.slotOf_eq_some_iff reg i).mp hi]
      exact h i w hv
    obtain ⟨i, rfl⟩ | rfl | rfl := (mem_recoveryPlan m fuel cfa rs old a).mp ha
    · simp only [slotAssignment] at hw ⊢
      split_ifs at hw
      exact h i w hw
    · exact hs t.regSp hw
    · exact hs t.regPc hw

theorem recoveryPlan_lastWanted : LastWanted (recoveryPlan m fuel cfa rs old) := by
  unfold LastWanted recoveryPlan
  rw [pairwise_append]
  refine ⟨?_, ?_, ?_⟩
  · rw [pairwise_map]
    refine (nodup_finRange _).imp fun {i j} hij _ heq => hij ?_
    exact (t.qutReg_injective heq).symm
  · simp only [pairwise_cons, mem_singleton, forall_eq, not_mem_nil, false_implies, implies_true, List.Pairwise.nil,
      and_true]
    exact fun _ => t.spNePc.symm
  · intro a ha b hb hw
    obtain ⟨i, -, rfl⟩ := mem_map.mp ha
    -- a slot that is asked for a value is neither the stack pointer nor the program counter
    have ho : ¬(t.qutReg i=t.regSp ∨ t.qutReg i=t.regPc) := by
      intro h
      simp only [slotAssignment, if_pos h, isSome_none, Bool.false_eq_true] at hw
    simp only [mem_cons, not_mem_nil, or_false] at hb
    obtain rfl | rfl := hb
    · exact fun h => ho (.inl h.symm)
    · exact fun h => ho (.inr h.symm)

def OffsetRules : Prop :=
  ∀ i, (rs.locs i).type ∈ [.unused, .undefined, .valOffset, .memOffset] ∧
    (t.qutReg i=t.regSp ∨ t.qutReg i=t.regPc → (rs.locs i).type = .unused)

instance : Decidable (OffsetRules rs) := Fintype.decidableForallFintype

theorem wantedOf_of_unused (reg : ℕ) (hr : reg=t.regSp ∨ reg=t.regPc) (h : OffsetRules rs)
    : wantedOf m fuel cfa rs old reg=none := by
  cases hs : t.slotOf reg with
  | none => simp [wantedOf, hs]
  | some i =>
    have hi : t.qutReg i=t.regSp ∨ t.qutReg i=t.regPc := by
      rwa [(t.slotOf_eq_some_iff reg i).mp hs]
    simp [wantedOf, hs, ruleValue, (h i).2 hi, hi]

theorem slotAssignment_local (regs : Regs) (i : Fin t.qutRegs.length) (h : OffsetRules rs)
    (hr : (slotAssignment m fuel cfa rs old i).wanted.isSome → regs (t.qutReg i)=old (t.qutReg i)) :
    ∃ v, (slotAssignment m fuel cfa rs old i).effect regs=some v ∧
      ∀ w, (slotAssignment m fuel cfa rs old i).wanted=some w → v=w := by
  by_cases hs : t.qutReg i=t.regSp ∨ t.qutReg i=t.regPc
  · simp [slotAssignment, hs, (h i).2 hs]
  have ht := (h i).1
  simp only [slotAssignment, ruleValue] at hr ⊢
  cases hl : (rs.locs i).type with
  | unused => simp_all
  | undefined | valOffset => simp [flush, hl]
  | memOffset =>
    simp only [flush, hl, map_some, reduceCtorEq, if_false, some.injEq, exists_eq_left', DfxMemory.read]
    intro w hw
    split_ifs at hw with hl1
    rw [overlay_of_length _ _ hl1]
    exact some.inj hw
  | register | memExpression | valExpression => simp [hl] at ht

theorem recoveryPlan_of_offsets (h : OffsetRules rs) : Undisturbed (recoveryPlan m fuel cfa rs old) old := by
  have hsp := wantedOf_of_unused m fuel cfa rs old t.regSp (.inl rfl) h
  have hpc := wantedOf_of_unused m fuel cfa rs old t.regPc (.inr rfl) h
  apply undisturbed_of_local _ old old _ (fun _ _ _ => rfl)
  · intro a ha regs hr
    obtain ⟨i, rfl⟩ | rfl | rfl := (mem_recoveryPlan m fuel cfa rs old a).mp ha
    · exact slotAssignment_local m fuel cfa rs old regs i h hr
    · exact ⟨cfa, rfl, by simp [hsp]⟩
    · exact ⟨returnAddress rs regs, rfl, by simp [hpc]⟩
  · unfold recoveryPlan
    rw [pairwise_append]
    refine ⟨?_, by simp [hpc], ?_⟩
    · rw [pairwise_map]
      exact (nodup_finRange _).imp fun {i j} hij _ heq => hij (t.qutReg_injective heq)
    · intro a _ b hb
      simp only [mem_cons, not_mem_nil, or_false] at hb
      obtain rfl | rfl := hb
      · simp [hsp]
      · simp [hpc]

def linkInFramePointer : RegLocState arm64 where
  cfaReg := 31
  cfaExprPtr := 16
  returnAddressRegister := 30
  locs := fun i =>
    if arm64.qutReg i = 29 then ⟨.memOffset, -16⟩
    else if arm64.qutReg i = 30 then ⟨.register, 29⟩
    else {}

def savedPair : RegLocState arm64 where
  cfaReg := 31
  cfaExprPtr := 16
  returnAddressRegister := 30
  locs := fun i =>
    if arm64.qutReg i = 29 then ⟨.memOffset, -16⟩
    else if arm64.qutReg i = 30 then ⟨.memOffset, -8⟩
    else {}

def sevens : DfxMemory := ⟨fun _ => some 7, false, 0, 0, 0⟩

def linkRegs : Regs := fun r => if r = 29 then 0x400 else if r = 31 then 0x1000 else 0

end Faultloggerd.Dwarf
