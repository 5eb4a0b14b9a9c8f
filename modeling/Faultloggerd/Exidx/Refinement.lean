import Faultloggerd.Exidx.Opcodes

/-! # The parser follows the machine

The count of a popped register is its distance from `vsp`, since both grow by every later move; at the end `vsp` is the
CFA and the distance is the offset of the rule.
-/
namespace Faultloggerd.Exidx
open Machine List ExidxEntryParser ExidxContext Nat Bool

def Machine.popped (s : Machine) : List ℕ := s.pops.map Prod.fst

def RegLocState.baseReg (rs : RegLocState) : ℕ := if rs.cfaReg = 0 then regSp else rs.cfaReg.toNat

structure Follows (regs : ℕ → Addr) (c : ExidxContext) (rs : RegLocState) (s : Machine) : Prop where
  vsp : s.vsp = regs rs.baseReg+c.vsp
  kept : ∀ reg, reg ∉ s.popped → s.regs reg = regs reg
  marked : ∀ reg, c.isTransformed reg = true ↔ reg ∈ s.popped ∧ 4 ≤ reg
  unmoved : ∀ i, c.isTransformed (qutRegs.get i) = false → c.regs i = 0
  distance : ∀ i addr, (qutRegs.get i, addr) ∈ s.pops → addr+c.regs i = s.vsp

theorem four_le_qutRegs (i : Fin qutRegs.length) : 4≤qutRegs.get i := by
  revert i
  decide

section Steps

variable {regs : ℕ → Addr} {c : ExidxContext} {rs : RegLocState} {s : Machine} {mem : Addr → Addr} {reg : ℕ}

section

variable (h : Follows regs c rs s)
include h

theorem Follows.isTransformed {i : Fin qutRegs.length} {addr : Addr}
    (hp : (qutRegs.get i, addr)∈s.pops) : c.isTransformed (qutRegs.get i)=true :=
  (h.marked _).mpr ⟨mem_map.mpr ⟨_, hp, rfl⟩, four_le_qutRegs i⟩

theorem Follows.advance (bytes : Addr) : Follows regs (c.addUpVsp bytes) rs (s.advance bytes) where
  vsp := by
    change s.vsp+bytes=regs rs.baseReg+(c.vsp+bytes)
    rw [h.vsp, BitVec.add_assoc]
  kept := h.kept
  marked := h.marked
  unmoved i hi := by
    change (if c.isTransformed _ then _ else c.regs i)=0
    rw [isTransformed_addUpVsp] at hi
    rw [hi]
    exact h.unmoved i hi
  distance i addr hp := by
    change addr+(if c.isTransformed _ then c.regs i+bytes else _)=s.vsp+bytes
    rw [if_pos (h.isTransformed hp), ←h.distance i addr hp, BitVec.add_assoc]

theorem Follows.pop_low (hl : reg<4) : Follows regs (c.addUpVsp 4) rs (s.pop mem reg) := by
  have hm := h.advance 4
  refine ⟨hm.vsp, fun r hr => ?_, fun r => ?_, hm.unmoved, fun i addr hp => ?_⟩
  · obtain ⟨hne, hr⟩ := not_or.mp (mem_cons.not.mp hr)
    exact (Function.update_of_ne hne _ _).trans (h.kept r hr)
  · rw [hm.marked r]
    change _ ↔ r∈reg::s.popped ∧ 4≤ r
    rw [mem_cons]
    refine ⟨fun hr => ⟨.inr hr.1, hr.2⟩, fun hr => ⟨hr.1.resolve_left (by omega), hr.2⟩⟩
  · obtain heq | hp := mem_cons.mp hp
    · have hf := four_le_qutRegs i
      have hr1 := congrArg Prod.fst heq
      omega
    · exact hm.distance i addr hp

theorem Follows.pop (hf : 4≤ reg) (hlt : reg<32) (hn : reg∉s.popped) :
    Follows regs (c.popReg reg) rs (s.pop mem reg) := by
  have hm : ∀ r, (c.popReg reg).isTransformed r=true ↔ r=reg ∨ c.isTransformed r=true := c.isTransformed_transform hlt
  have hr1 : ∀ i, (c.popReg reg).regs i =
      if (c.popReg reg).isTransformed (qutRegs.get i) then c.regs i+4 else c.regs i := fun _ => rfl
  refine ⟨?_, fun r hr => ?_, fun r => ?_, fun i hi => ?_, fun i addr hp => ?_⟩
  · change s.vsp+4=regs rs.baseReg+(c.vsp+4)
    rw [h.vsp, BitVec.add_assoc]
  · obtain ⟨hne, hr⟩ := not_or.mp (mem_cons.not.mp hr)
    exact (Function.update_of_ne hne _ _).trans (h.kept r hr)
  · rw [hm, h.marked r]
    change _ ↔ r∈reg::s.popped ∧ 4≤ r
    rw [mem_cons]
    constructor
    · rintro (rfl | hr)
      · exact ⟨.inl rfl, hf⟩
      · exact ⟨.inr hr.1, hr.2⟩
    · rintro ⟨rfl | hr, hr'⟩
      · exact .inl rfl
      · exact .inr ⟨hr, hr'⟩
  · have ho : c.isTransformed (qutRegs.get i)=false := by grind
    rw [hr1, hi]
    exact h.unmoved i ho
  · change addr+_=s.vsp+4
    obtain heq | hp := mem_cons.mp hp
    · obtain ⟨hr2, rfl⟩ := Prod.mk.inj heq
      -- the register that is popped now has not been moved before
      have ho : c.isTransformed (qutRegs.get i)=false := by
        rw [←not_eq_true, h.marked, hr2]
        exact fun hm1 => hn hm1.1
      rw [hr1, if_pos ((hm _).mpr (.inl hr2)), h.unmoved i ho]
      rfl
    · rw [hr1, if_pos ((hm _).mpr (.inr (h.isTransformed hp))), ←h.distance i addr hp, BitVec.add_assoc]

theorem Follows.popAll {list : List ℕ} (hr1 : ∀ r∈list, 4≤ r ∧ r<32) (hn1 : list.Nodup) (hn : ∀ r∈list, r∉s.popped) :
    Follows regs (list.foldl popReg c) rs (s.popAll mem list) := by
  induction list generalizing c s with
  | nil => exact h
  | cons reg list ih =>
    obtain ⟨hf, hlt⟩ := hr1 reg mem_cons_self
    obtain ⟨hr2, hl⟩ := nodup_cons.mp hn1
    refine ih (h.pop hf hlt (hn reg mem_cons_self)) (fun r hr => hr1 r (mem_cons_of_mem _ hr)) hl ?_
    intro r hr hm
    obtain rfl | hm := mem_cons.mp hm
    · exact hr2 hr
    · exact hn r (mem_cons_of_mem _ hr) hm

theorem Follows.popAll_low {list : List ℕ} (hl : ∀ r∈list, r<4) :
    Follows regs (list.foldl (fun c _ => c.addUpVsp 4) c) rs (s.popAll mem list) := by
  induction list generalizing c s with
  | nil => exact h
  | cons reg list ih => exact ih (h.pop_low (hl reg mem_cons_self)) fun r hr => hl r (mem_cons_of_mem _ hr)

theorem Follows.setVsp (hp : s.pops=[]) {n : BitVec 4} (hn : n=7 ∨ n=11) :
    Follows regs ((Opcode.setVsp n).onContext c) ((Opcode.setVsp n).onRules rs) {s with vsp := s.regs n.toNat} := by
  have hn1 : s.popped=[] := by rw [popped, hp, map_nil]
  have hb1 : c.transformedBits=0 := by
    apply BitVec.eq_of_getLsbD_eq
    intro reg _
    have hu : ¬c.isTransformed reg=true := by
      rw [h.marked reg, hn1]
      exact fun hm => not_mem_nil hm.1
    rw [not_eq_true] at hu
    rw [←c.isTransformed_eq reg, hu]
    exact BitVec.getLsbD_zero.symm
  have hc : (Opcode.setVsp n).onContext c={} := if_pos hb1
  have hb : ((Opcode.setVsp n).onRules rs).baseReg=n.toNat := by
    obtain rfl | rfl := hn <;> rfl
  rw [hc]
  refine ⟨?_, h.kept, fun reg => ?_, fun i _ => rfl, fun i addr hp1 => ?_⟩
  · rw [hb]
    change s.regs n.toNat=regs n.toNat+0#32
    rw [BitVec.add_zero, h.kept n.toNat (hn1 ▸ not_mem_nil)]
  · change _ ↔ reg∈s.popped ∧ 4≤ reg
    rw [hn1, isTransformed_eq]
    simp
  · rw [hp] at hp1
    exact absurd hp1 not_mem_nil

end

theorem popped_range {op : Opcode} (hop : ∀ regs, op≠.popLow regs) : ∀ r∈op.popped, 4≤ r ∧ r<32 := by
  cases op with
  | popLow regs => exact absurd rfl (hop regs)
  | popMask regs =>
    intro r hr
    obtain ⟨hf, hlt⟩ := mem_range'_1.mp (mem_filter.mp hr).1
    exact ⟨hf, by omega⟩
  | popRange lr n =>
    intro r hr
    obtain hr | hr := mem_append.mp hr
    · obtain ⟨hf, hlt⟩ := mem_range'_1.mp hr
      exact ⟨hf, by omega⟩
    · cases lr with
      | false => exact absurd hr not_mem_nil
      | true =>
        cases mem_singleton.mp hr
        decide
  | _ => exact fun r hr => absurd hr not_mem_nil

theorem popped_low (regs : BitVec 4) : ∀ r∈(Opcode.popLow regs).popped, r<4 :=
  fun _ hr => mem_range.mp (mem_filter.mp hr).1

theorem Follows.step {op : Opcode} (h : Follows regs c rs s) (hs : op.Supported) (hn : op.popped.Nodup)
    (hn1 : ∀ r∈op.popped, r∉s.popped) (ht : 13∉op.popped) (hs1 : ∀ n, op=.setVsp n → s.pops=[]) :
    Follows regs (op.onContext c) (op.onRules rs) (s.step mem op) := by
  have hk : (s.popAll mem op.popped).writeBack op.popped=s.popAll mem op.popped := if_neg ht
  cases op with
  | setVsp n => exact h.setVsp (hs1 n rfl) hs
  | popMask registers | popRange lr n =>
    rw [Machine.step, hk]
    exact h.popAll (popped_range nofun) hn hn1
  | popLow registers =>
    rw [Machine.step, hk]
    exact h.popAll_low (popped_low registers)
  | _ => exact h.advance _

end Steps

section Runs

variable {mem : Addr → Addr} {regs : ℕ → Addr}

theorem popped_popAll (list : List ℕ) (s : Machine) : (s.popAll mem list).popped=list.reverse++s.popped := by
  induction list generalizing s with
  | nil => rfl
  | cons reg list ih =>
    rw [reverse_cons, append_assoc]
    exact ih (s.pop mem reg)

theorem popped_step (s : Machine) (op : Opcode) : (s.step mem op).popped=op.popped.reverse++s.popped := by
  have hw : ∀ list (s : Machine), (s.writeBack list).popped=s.popped := by
    intro list s
    unfold writeBack
    split <;> rfl
  cases op with
  | popMask | popRange | popLow => exact (hw _ _).trans (popped_popAll _ s)
  | _ => rfl

variable (mem regs) in
theorem popped_run (ops : List Opcode) : (run mem ops regs).popped=(ops.flatMap Opcode.popped).reverse := by
  induction ops using reverseRecOn with
  | nil => rfl
  | append_singleton ops op ih =>
    rw [run, foldl_concat, popped_step, flatMap_append, reverse_append, flatMap_singleton]
    exact congrArg _ ih

/-- Nothing is popped before `vsp` is set from a register. -/
def FrameFirst (ops : List Opcode) : Prop :=
  ∀ before n after, ops = before ++ .setVsp n::after → before.flatMap Opcode.popped = []

/-- The sequences that the parser follows: nothing is popped twice, nor the stack pointer. -/
structure Regular (ops : List Opcode) : Prop where
  valid : ∀ op ∈ ops, op.Valid
  nodup : (ops.flatMap Opcode.popped).Nodup
  thirteen : 13 ∉ ops.flatMap Opcode.popped
  frameFirst : FrameFirst ops

theorem Regular.init {ops : List Opcode} {op : Opcode} (h : Regular (ops++[op])) : Regular ops where
  valid op hop := h.valid op (mem_append_left _ hop)
  nodup := by
    have hn := h.nodup
    rw [flatMap_append] at hn
    exact (nodup_append.mp hn).1
  thirteen hm := h.thirteen (mem_flatMap.mpr (by
    obtain ⟨op, hop, hr⟩ := mem_flatMap.mp hm
    exact ⟨op, mem_append_left _ hop, hr⟩))
  frameFirst before n after heq := h.frameFirst before n (after++[op]) (by rw [heq, append_assoc]; rfl)

variable (mem regs) in
theorem run_follows {ops : List Opcode} (h : Regular ops) (hs : ∀ op∈ops, op.Supported) :
    Follows regs (ops.foldl (fun c op => op.onContext c) {}) (ops.foldl (fun rs op => op.onRules rs) {})
      (run mem ops regs) := by
  induction ops using reverseRecOn with
  | nil =>
    refine ⟨(BitVec.add_zero _).symm, fun _ _ => rfl, fun reg => ?_, fun _ _ => rfl, fun _ _ hp1 => ?_⟩
    · rw [isTransformed_eq]
      simp [run, start, popped]
    · exact absurd hp1 not_mem_nil
  | append_singleton ops op ih =>
    have ho := ih h.init fun op hop => hs op (mem_append_left _ hop)
    have hl : op∈ops++[op] := mem_append_right _ mem_cons_self
    have hn1 := h.nodup
    rw [flatMap_append, flatMap_singleton, nodup_append] at hn1
    obtain ⟨-, hop, hd⟩ := hn1
    rw [foldl_concat, foldl_concat, run, foldl_concat]
    refine ho.step (hs op hl) hop (fun r hr hm => ?_) (fun hm => ?_) (fun n hn => ?_)
    · rw [popped_run, mem_reverse] at hm
      exact hd r hm r hr rfl
    · exact h.thirteen (mem_flatMap.mpr ⟨op, hl, hm⟩)
    · have hn2 := h.frameFirst ops n [] (by rw [hn])
      have hp := popped_run mem regs ops
      rw [hn2, reverse_nil, popped, map_eq_nil_iff] at hp
      exact hp

end Runs

namespace ExidxEntryParser

variable {p : ExidxEntryParser}

theorem evalLoop_of_decodesTo {rest : List Byte} {ctx : ExidxContext} {rsState : RegLocState}
    (h : p.DecodesTo rest ctx rsState) : ∃ p', p'.ops=rest ∧ p'.context=ctx ∧ p'.rsState=rsState ∧
      ∀ fuel, evalLoop (fuel+1) p=evalLoop fuel p' := by
  obtain ⟨p', hd, ho, hc, hrs⟩ := h
  refine ⟨p', ho, hc, hrs, fun fuel => ?_⟩
  rw [evalLoop, hd]

theorem evalLoop_finish (count : ℕ) (h : p.ops=replicate count Opcode.finish) :
    ∃ p', p'.context=p.context ∧ p'.rsState=p.rsState ∧ ∀ fuel, count<fuel → evalLoop fuel p=some p' := by
  induction count generalizing p with
  | zero =>
    refine ⟨p, rfl, rfl, fun fuel hf => ?_⟩
    obtain ⟨fuel, rfl⟩ := exists_eq_succ_of_ne_zero (ne_of_gt hf)
    have hd : p.decode=(false, p) := by
      rw [decode, withOperand, getOpCode, h]
      rfl
    rw [evalLoop, hd]
  | succ count ih =>
    obtain ⟨p1, ho, hc, hrs, hr⟩ := evalLoop_of_decodesTo (decode_finish h)
    obtain ⟨p', hc', hrs', hrun⟩ := ih ho
    refine ⟨p', hc'.trans hc, hrs'.trans hrs, fun fuel hf => ?_⟩
    obtain ⟨fuel, rfl⟩ := Nat.exists_eq_succ_of_ne_zero (Nat.ne_zero_of_lt hf)
    rw [hr, hrun fuel (lt_of_succ_lt_succ hf)]

theorem evalLoop_encoded {ops : List Opcode} (hv : ∀ op∈ops, op.Valid) (hs : ∀ op∈ops, op.Supported)
    (count : ℕ) (h : p.ops=ops.flatMap Opcode.encode++replicate count Opcode.finish) :
    ∃ p', p'.context=ops.foldl (fun c op => op.onContext c) p.context ∧
      p'.rsState=ops.foldl (fun rs op => op.onRules rs) p.rsState ∧
        ∀ fuel, ops.length+count<fuel → evalLoop fuel p=some p' := by
  induction ops generalizing p with
  | nil =>
    rw [length_nil, Nat.zero_add]
    exact evalLoop_finish count h
  | cons op ops ih =>
    rw [flatMap_cons, append_assoc] at h
    have hd := decode_encode (hv op mem_cons_self) (hs op mem_cons_self) _ _ h
    obtain ⟨p1, ho, hc, hrs, hr⟩ := evalLoop_of_decodesTo hd
    obtain ⟨p', hc', hrs', hrun⟩ := ih (fun op hop => hv op (mem_cons_of_mem _ hop))
      (fun op hop => hs op (mem_cons_of_mem _ hop)) ho
    rw [hc] at hc'
    rw [hrs] at hrs'
    refine ⟨p', hc', hrs', fun fuel hf => ?_⟩
    rw [length_cons] at hf
    obtain ⟨fuel, rfl⟩ := Nat.exists_eq_succ_of_ne_zero (Nat.ne_zero_of_lt hf)
    rw [hr, hrun fuel (by omega)]

end ExidxEntryParser

/-- The rules describe the machine: the CFA is its last `vsp`, and a tracked register has a rule if it was popped, which
gives the address it was popped from. -/
structure Describes (regs : ℕ → Addr) (s : Machine) (rs : RegLocState) : Prop where
  cfa : regs rs.cfaReg.toNat+rs.cfaRegOffset = s.vsp
  popped : ∀ i addr, (qutRegs.get i, addr) ∈ s.pops → (rs.locs i).type = .memOffset ∧ s.vsp+(rs.locs i).val = addr
  others : ∀ i, qutRegs.get i ∉ s.popped → rs.locs i = {}

theorem Follows.describes {regs : ℕ → Addr} {p : ExidxEntryParser} {s : Machine}
    (h : Follows regs p.context p.rsState s) (hf : p.rsState.locs=fun _ => {}) :
    Describes regs s p.flushInstr.rsState where
  cfa := by
    have ho : p.flushInstr.rsState.cfaRegOffset=p.context.vsp := by
      change (if p.context.vsp≠0 then p.context.vsp else 0)=p.context.vsp
      split
      · rfl
      · rename_i hz
        exact (not_not.mp hz).symm
    have hb : p.flushInstr.rsState.cfaReg.toNat=p.rsState.baseReg := by
      change (if p.rsState.cfaReg=0 then BitVec.ofNat 32 regSp else p.rsState.cfaReg).toNat=_
      rw [RegLocState.baseReg]
      split <;> rfl
    rw [ho, hb, h.vsp]
  popped i addr hp := by
    have hl : p.flushInstr.rsState.locs i=⟨.memOffset, -p.context.regs i⟩ := if_pos (h.isTransformed hp)
    rw [hl]
    refine ⟨rfl, ?_⟩
    rw [←h.distance i addr hp, ←BitVec.sub_eq_add_neg, BitVec.add_sub_cancel]
  others i hi := by
    have hu : ¬p.context.isTransformed (qutRegs.get i)=true := by
      rw [h.marked]
      exact fun hm => hi hm.1
    have hl : p.flushInstr.rsState.locs i=p.rsState.locs i := if_neg hu
    rw [hl, hf]

theorem locs_onRules (ops : List Opcode) (rs : RegLocState) :
    (ops.foldl (fun rs op => op.onRules rs) rs).locs=rs.locs := by
  induction ops generalizing rs with
  | nil => rfl
  | cons op ops ih =>
    rw [foldl_cons, ih]
    cases op <;> rfl

theorem length_le_encoded (ops : List Opcode) : ops.length≤(ops.flatMap Opcode.encode).length := by
  induction ops with
  | nil => exact le_refl _
  | cons op ops ih =>
    have hp : 0<op.encode.length := by cases op <;> exact succ_pos _
    grind

def program (ops : List Opcode) (extra : ℕ) : List Byte :=
  ops.flatMap Opcode.encode++List.replicate (extra+1) Opcode.finish

/-- On a regular sequence of supported opcodes the parser ends with rules that describe the machine. -/
theorem stepOps_describes (mem : Addr → Addr) (regs : ℕ → Addr) {ops : List Opcode} (h : Regular ops)
    (hsupported : ∀ op∈ops, op.Supported) (extra : ℕ) : ∃ p, (∀ fuel, (program ops extra).length<fuel →
        stepOps fuel {ops := program ops extra} = some p) ∧ Describes regs (Machine.run mem ops regs) p.rsState := by
  obtain ⟨p, hc, hrs, hrun⟩ := evalLoop_encoded (p := {ops := program ops extra}) h.valid hsupported (extra+1) rfl
  have hf := run_follows mem regs h hsupported
  rw [←hc, ←hrs] at hf
  refine ⟨p.flushInstr, fun fuel hf1 => ?_, hf.describes (by rw [hrs, locs_onRules])⟩
  have hl := length_le_encoded ops
  rw [program, length_append, length_replicate] at hf1
  exact congrArg (Option.map flushInstr) (hrun fuel (by omega))

def thumbFrame : List Opcode := [.setVsp 7, .addVsp 1, .popRange true 3]

theorem thumbFrame_regular : Regular thumbFrame where
  valid := by decide
  nodup := by decide
  thirteen := by decide
  frameFirst before n after heq := by
    match before with
    | [] => rfl
    | [op] => cases heq
    | [op, op'] => cases heq
    | op :: op' :: op'' :: before => cases before <;> cases heq

theorem thumbFrame_described : Regular thumbFrame ∧ (∀ op∈thumbFrame, op.Supported) ∧
    ∃ p, (∀ fuel, (program thumbFrame 0).length<fuel → stepOps fuel {ops := program thumbFrame 0} = some p) ∧
      Describes (fun reg => BitVec.ofNat 32 (0x100*reg))
        (Machine.run (fun _ => 0) thumbFrame fun reg => BitVec.ofNat 32 (0x100*reg)) p.rsState :=
  ⟨thumbFrame_regular, by decide,
    stepOps_describes (fun _ => 0) (fun reg => BitVec.ofNat 32 (0x100*reg)) thumbFrame_regular (by decide) 0⟩

/-- A frame on `r4`: the opcode ends the evaluation, and the rules are written down as they are. -/
def otherFrame : List Opcode := [.setVsp 4]

theorem otherFrame_not_described : Regular otherFrame ∧ ∃ p, stepOps 3 {ops := program otherFrame 0} = some p ∧
      ¬Describes (fun reg => BitVec.ofNat 32 (0x100*reg))
        (Machine.run (fun _ => 0) otherFrame fun reg => BitVec.ofNat 32 (0x100*reg)) p.rsState := by
  have hr : Regular otherFrame := by
    refine ⟨by decide, by decide, by decide, fun before n after heq => ?_⟩
    match before with
    | [] => rfl
    | op :: before => cases before <;> cases heq
  refine ⟨hr, _, rfl, fun h => ?_⟩
  exact absurd h.cfa (by decide)

end Faultloggerd.Exidx
