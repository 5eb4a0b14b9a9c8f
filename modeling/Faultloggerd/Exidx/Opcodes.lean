import Faultloggerd.Exidx.Parser

/-! # One opcode

What the parser makes of the bytes of an opcode: the decoder that the table has for it, and what the decoder does to the
context and to the rules.
-/
namespace Faultloggerd.Exidx
open Foundations.Leb128 List Opcode ExidxContext

theorem and_bit_ne_zero_iff {w : ℕ} (x : BitVec w) (k : ℕ) : x&&&(1 : BitVec w) <<< k≠0 ↔ x.getLsbD k=true := by
  change x &&& 1#w <<< k≠0 ↔ _
  rw [←BitVec.twoPow_eq, BitVec.and_twoPow]
  by_cases h : x.getLsbD k=true
  · rw [if_pos h]
    refine iff_of_true (fun hz => ?_) h
    have hb := congrArg (BitVec.getLsbD · k) hz
    have hk := BitVec.lt_of_getLsbD h
    simp [hk] at hb
  · rw [if_neg h]
    exact iff_of_false (fun hne => hne rfl) h

theorem mask_joined (regs : BitVec 12) : ((0b1000#4++regs.extractLsb' 8 4 : Byte)&&&0x0f).setWidth 16 <<< 8 |||
      (regs.setWidth 8).setWidth 16=regs.setWidth 16 := by
  have hh : ∀ high : BitVec 4, ((0b1000#4++high : Byte) &&& 0x0f).setWidth 16=high.setWidth 16 := by decide
  rw [hh]
  apply BitVec.eq_of_getLsbD_eq
  intro i hi
  have hl1 : 12≤ i → regs.getLsbD i=false := BitVec.getLsbD_of_ge regs i
  by_cases hl : i<8
  · simp [hl]
  · have hs : 8+(i-8)=i := by omega
    by_cases hm : i<12
    · have hf : i-8<4 := by omega
      simp [hl, hi, hs, hf]
    · have hf : ¬i-8<4 := by omega
      simp [hf, hl1 (by omega)]

namespace ExidxContext

variable (c : ExidxContext)

theorem isTransformed_eq (reg : ℕ) : c.isTransformed reg=c.transformedBits.getLsbD reg := by
  rw [Bool.eq_iff_iff]
  exact (decide_eq_true_iff).trans (and_bit_ne_zero_iff c.transformedBits reg)

theorem isTransformed_transform {reg : ℕ} (hr : reg<32) (r : ℕ) :
    (c.transform reg).isTransformed r=true ↔ r=reg ∨ c.isTransformed r=true := by
  rw [isTransformed_eq, isTransformed_eq]
  change (c.transformedBits ||| 1#32 <<< reg).getLsbD r=true ↔ _
  rw [←BitVec.twoPow_eq, BitVec.getLsbD_or, BitVec.getLsbD_twoPow, Bool.or_eq_true, or_comm, Bool.and_eq_true,
    decide_eq_true_iff, decide_eq_true_iff, and_iff_right hr, eq_comm]

@[simp]
theorem isTransformed_addUpVsp (imm : BitVec 32) (reg : ℕ) :
    (c.addUpVsp imm).isTransformed reg=c.isTransformed reg := rfl

theorem addUpVsp_addUpVsp (imm imm' : BitVec 32) : (c.addUpVsp imm).addUpVsp imm'=c.addUpVsp (imm+imm') := by
  rw [addUpVsp, addUpVsp, addUpVsp, mk.injEq]
  refine ⟨BitVec.add_assoc .., rfl, ?_⟩
  funext i
  change (if c.isTransformed _ then (if c.isTransformed _ then _ else _)+_ else if c.isTransformed _ then _ else _)=_
  split
  · rw [BitVec.add_assoc]
  · rfl

theorem addUpVsp_zero : c.addUpVsp 0=c := by
  obtain ⟨vsp, bits, regs⟩ := c
  rw [addUpVsp, mk.injEq]
  refine ⟨BitVec.add_zero vsp, rfl, ?_⟩
  funext i
  split
  · exact BitVec.add_zero _
  · rfl

theorem foldl_addUpVsp (regs : List ℕ) :
    regs.foldl (fun c _ => c.addUpVsp 4) c=c.addUpVsp (4*BitVec.ofNat 32 regs.length) := by
  induction regs generalizing c with
  | nil => exact (c.addUpVsp_zero).symm
  | cons reg regs ih =>
    rw [foldl_cons, ih, addUpVsp_addUpVsp, length_cons, BitVec.ofNat_add, BitVec.mul_add, BitVec.add_comm]
    rfl

end ExidxContext

namespace Opcode

def onContext (op : Opcode) (c : ExidxContext) : ExidxContext :=
  match op with
  | popMask _ | popRange _ _ => op.popped.foldl ExidxContext.popReg c
  | popLow _ => op.popped.foldl (fun c _ => c.addUpVsp 4) c
  | setVsp _ => if c.transformedBits = 0 then c.reset else c
  | _ => c.addUpVsp op.bytes

def onRules (op : Opcode) (rs : RegLocState) : RegLocState :=
  match op with
  | setVsp n => {rs with cfaReg := n.setWidth 32, cfaRegOffset := 0}
  | _ => rs

/-- The frame registers are the only ones that `vsp` is set from. -/
def Supported : Opcode → Prop
  | setVsp n => n = 7 ∨ n = 11
  | _ => True

instance : (op : Opcode) → Decidable op.Supported
  | setVsp _ => inferInstanceAs (Decidable (_ ∨ _))
  | addVsp _ | subVsp _ | popMask _ | popRange _ _ | popLow _ | addLarge _ | popFstmfdx _ _ | popFstmfdxFrom8 _
  | popWr _ _ | popWcgr _ | popVpush _ _ _ | popWrFrom10 _ | popVpushFrom8 _ => inferInstanceAs (Decidable True)

end Opcode

namespace ExidxEntryParser

def DecodesTo (p : ExidxEntryParser) (rest : List Byte) (context : ExidxContext) (rsState : RegLocState) : Prop :=
  ∃ p', p.decode = (true, p') ∧ p'.ops = rest ∧ p'.context = context ∧ p'.rsState = rsState

def Decodes (op : Opcode) : Prop :=
  ∀ (p : ExidxEntryParser) (rest : List Byte), p.ops = op.encode++rest →
    p.DecodesTo rest (op.onContext p.context) (op.onRules p.rsState)

variable {p : ExidxEntryParser} {rest : List Byte} {op second : Byte}

variable {f : ExidxEntryParser → Bool×ExidxEntryParser}

theorem withOperand_cons (h : p.ops=op::rest) : p.withOperand f=f {p with curOp := op, ops := rest} := by
  rw [withOperand, getOpCode, h]

variable {decoder : Decoder}

theorem decode_cons (h : p.ops=op::rest) (hd : decoderOf op=some decoder) :
    p.decode=decoder.decode {p with curOp := op, ops := rest} := by
  rw [decode, withOperand_cons h]
  rw [hd]

variable {imm : BitVec 32}

theorem decodesTo_addUpVsp (h : p.ops=op::rest) (hd : decoderOf op=some decoder)
    (hd1 : ∀ p : ExidxEntryParser, p.curOp=op → decoder.decode p=(true, p.addUpVsp imm)) :
    p.DecodesTo rest (p.context.addUpVsp imm) p.rsState := ⟨_, (decode_cons h hd).trans (hd1 _ rfl), rfl, rfl, rfl⟩

theorem decodesTo_addUpVsp_second (h : p.ops=op::second::rest) (hd : decoderOf op=some decoder)
    (hd1 : decoder.decode=withOperand f)
    (hf : ∀ p : ExidxEntryParser, p.curOp=second → f p=(true, p.addUpVsp imm)) :
    p.DecodesTo rest (p.context.addUpVsp imm) p.rsState := by
  have hr : p.decode=f {p with curOp := second, ops := rest} := by
    rw [decode_cons h hd, hd1, withOperand_cons rfl]
  exact ⟨_, hr.trans (hf _ rfl), rfl, rfl, rfl⟩

theorem addUpRegs_eq {mask : Byte} {extra : BitVec 32} (hi : ((op&&&mask).setWidth 32+1)*8+extra=imm)
    (p : ExidxEntryParser) (h : p.curOp=op) : p.addUpRegs mask extra=(true, p.addUpVsp imm) := by
  rw [addUpRegs, h, hi]

theorem decode_addVsp {x : BitVec 6} : Decodes (.addVsp x) := by
  intro p rest h
  have hd : ∀ x : BitVec 6, decoderOf (0b00#2++x)=some .code00xxxxxx := by decide
  have hi : ∀ x : BitVec 6, ((0b00#2++x : Byte) &&& 0x3f).setWidth 32 <<< 2+4=4*x.setWidth 32+4 := by decide
  refine decodesTo_addUpVsp h (hd x) fun p hc => ?_
  change p.decode00xxxxxx=_
  rw [decode00xxxxxx, hc, hi, bytes]

theorem decode_subVsp {x : BitVec 6} : Decodes (.subVsp x) := by
  intro p rest h
  have hd : ∀ x : BitVec 6, decoderOf (0b01#2++x)=some .code01xxxxxx := by decide
  have hi : ∀ x : BitVec 6, ((0b01#2++x : Byte) &&& 0x3f).setWidth 32 <<< 2+4=4*x.setWidth 32+4 := by decide
  refine decodesTo_addUpVsp h (hd x) fun p hc => ?_
  change p.decode01xxxxxx=_
  rw [decode01xxxxxx, hc, hi, bytes]

theorem count_append (first count : BitVec 4) : (first++count : Byte)&&&0x0f=0b0000#4++count := by
  revert first count
  decide

theorem count_bytes (extra : BitVec 32) (count : BitVec 4) :
    ((0b0000#4++count : Byte).setWidth 32+1)*8+extra=8*(count.setWidth 32+1)+extra := by
  have hc : (0b0000#4++count : Byte).setWidth 32=count.setWidth 32 := by
    revert count
    decide
  rw [hc, BitVec.mul_comm]

variable {first count : BitVec 4}

theorem decode_popFstmfdx : Decodes (.popFstmfdx first count) := by
  intro p rest h
  refine decodesTo_addUpVsp_second h (by decide : _=some .code10110011sssscccc) rfl (addUpRegs_eq ?_)
  rw [count_append, count_bytes, bytes]

theorem decode_popWr : Decodes (.popWr first count) := by
  intro p rest h
  refine decodesTo_addUpVsp_second h (by decide : _=some .code11000110sssscccc) rfl (addUpRegs_eq ?_)
  rw [count_append, count_bytes]
  exact BitVec.add_zero _

theorem decode_popVpush {low : Bool} : Decodes (.popVpush low first count) := by
  intro p rest h
  have hd : ∀ low, decoderOf (0b1100100#7++BitVec.ofBool low)=some .code1100100nsssscccc := by decide
  refine decodesTo_addUpVsp_second h (hd low) rfl (addUpRegs_eq ?_)
  rw [count_append, count_bytes]
  exact BitVec.add_zero _

variable {n : BitVec 3}

theorem decode_popFstmfdxFrom8 : Decodes (.popFstmfdxFrom8 n) := by
  intro p rest h
  have hd : ∀ n : BitVec 3, decoderOf (0b10111#5++n)=some .code10111nnn := by decide
  have hb : ∀ n : BitVec 3, (((0b10111#5++n : Byte) &&& 0x07).setWidth 32+1)*8+4 = 8*(n.setWidth 32+1)+4 := by decide
  exact decodesTo_addUpVsp h (hd n) (addUpRegs_eq (hb n))

theorem decode_popVpushFrom8 : Decodes (.popVpushFrom8 n) := by
  intro p rest h
  have hd : ∀ n : BitVec 3, decoderOf (0b11010#5++n)=some .code11010nnn := by decide
  have hb : ∀ n : BitVec 3, (((0b11010#5++n : Byte) &&& 0x0f).setWidth 32+1)*8+0 = 8*(n.setWidth 32+1) := by decide
  exact decodesTo_addUpVsp h (hd n) (addUpRegs_eq (hb n))

theorem decode_popWrFrom10 (hn : n.toNat<6) : Decodes (.popWrFrom10 n) := by
  intro p rest h
  have hd : ∀ n : BitVec 3, n.toNat<6 → decoderOf (0b11000#5++n)=some .code11000nnn := by decide
  have hb : ∀ n : BitVec 3, (((0b11000#5++n : Byte) &&& 0x0f).setWidth 32+1)*8+0 = 8*(n.setWidth 32+1) := by decide
  exact decodesTo_addUpVsp h (hd n hn) (addUpRegs_eq (hb n))

variable {operand : List Byte}

theorem ulebLoop_of_isLeb (rest : List Byte) (hl1 : IsLeb operand) (shift : ℕ) (val : BitVec 32)
    (hs : shift+7*operand.length<256) (hv : val.toNat<2^shift) (p : ExidxEntryParser) :
    ∃ last, p.ulebLoop (operand++rest) shift val =
      (some (val+BitVec.ofNat 32 (2^shift*unsignedValue operand)), {p with curOp := last, ops := rest}) := by
  have hg : ∀ b : Byte, (b &&& 0x7f).setWidth 32=BitVec.ofNat 32 (group b) := by decide
  have hm : ∀ b : Byte, b &&& 0x80≠0 ↔ 128≤b.toNat := by decide
  induction hl1 generalizing shift val p with
  | @last b hb =>
    have hc := collect_add hv b []
    rw [unsignedValue, Nat.mul_zero, BitVec.add_zero] at hc
    have hs1 : ¬b &&& 0x80≠0 := by
      grind
    refine ⟨b, ?_⟩
    rw [singleton_append, ulebLoop]
    rw [if_neg hs1, hg, ←hc]
    rfl
  | @more b bs hb hbs ih =>
    rw [length_cons] at hs
    obtain ⟨last, hl⟩ := ih (shift+7) (collect val shift b) (by omega) (collect_lt hv b)
      {p with curOp := b, ops := bs++rest}
    refine ⟨last, ?_⟩
    rw [cons_append, ulebLoop]
    rw [if_pos ((hm b).mpr hb), hg, Nat.mod_eq_of_lt (by omega)]
    exact hl.trans (by rw [collect_add hv])

theorem decode_addLarge (hl1 : IsLeb operand) (hl2 : operand.length≤4) : Decodes (.addLarge operand) := by
  intro p rest h
  have hd : decoderOf 0b10110010#8=some .code10110010uleb128 := by decide
  obtain ⟨last, hl⟩ := ulebLoop_of_isLeb rest hl1 0 0 (by omega) Nat.one_pos
    {p with curOp := 0b10110010#8, ops := operand++rest}
  have hr : p.decode=decode10110010uleb128 {p with curOp := 0b10110010#8, ops := operand++rest} := decode_cons h hd
  have hs : ∀ v : BitVec 32, v <<< 2=4*v := fun v => by
    rw [BitVec.shiftLeft_eq_mul_twoPow, BitVec.mul_comm]
    rfl
  rw [decode10110010uleb128] at hr
  rw [hl] at hr
  refine ⟨_, hr, rfl, ?_, rfl⟩
  rw [hs, Nat.pow_zero, Nat.one_mul]
  exact congrArg (fun v => p.context.addUpVsp (0x204+4*v)) (BitVec.zero_add _)

theorem addUpMask_eq {regs : Byte} {mask : BitVec 4} (hm : ∀ reg∈range 4,
    (regs&&&(1 : Byte) <<< reg≠0 ↔ mask.getLsbD reg=true)) (p : ExidxEntryParser) : p.addUpMask regs =
      {p with context := ((range 4).filter mask.getLsbD).foldl (fun c _ => c.addUpVsp 4) p.context} := by
  rw [addUpMask, foldl_filter]
  congr 1
  exact foldl_ext _ _ _ fun c reg hr => by simp only [hm reg hr]

theorem mask_bits (mask : BitVec 4) : ∀ reg∈range 4,
    ((0b0000#4++mask : Byte)&&&(1 : Byte) <<< reg≠0 ↔ mask.getLsbD reg=true) := by
  revert mask
  decide

theorem decode_popLow {regs : BitVec 4} (hne : regs≠0) : Decodes (.popLow regs) := by
  intro p rest h
  have hd : decoderOf 0b10110001#8=some .code101100010000iiii := by decide
  have hs : ∀ r : BitVec 4, r≠0 → ¬((0b0000#4++r : Byte)=0 ∨ (0b0000#4++r : Byte) &&& 0xf0≠0) := by decide
  have hl : ∀ r : BitVec 4, (0b0000#4++r : Byte) &&& 0x0f=0b0000#4++r := by decide
  have hr := decode_cons h hd
  change _=decode101100010000iiii _ at hr
  rw [decode101100010000iiii, withOperand_cons rfl, if_neg (hs regs hne), hl, addUpMask_eq (mask_bits regs)] at hr
  exact ⟨_, hr, rfl, rfl, rfl⟩

theorem decode_popWcgr {regs : BitVec 4} (hne : regs≠0) : Decodes (.popWcgr regs) := by
  intro p rest h
  have hd : decoderOf 0b11000111#8=some .code110001110000iiii := by decide
  have hs : ∀ r : BitVec 4, r≠0 → ¬((0b0000#4++r : Byte) &&& 0xf0≠0 ∨ (0b0000#4++r : Byte)=0) := by decide
  have hr := decode_cons h hd
  change _=decode110001110000iiii _ at hr
  rw [decode110001110000iiii, withOperand_cons rfl, if_neg (hs regs hne), addUpMask_eq (mask_bits regs)] at hr
  refine ⟨_, hr, rfl, ?_, rfl⟩
  exact p.context.foldl_addUpVsp _

theorem decode_popRange {lr : Bool} : Decodes (.popRange lr n) := by
  intro p rest h
  have hd : ∀ lr, ∀ n : BitVec 3, decoderOf (0b1010#4++BitVec.ofBool lr++n)=some .code1010nnnn := by decide
  have hc : ∀ lr, ∀ n : BitVec 3, ((0b1010#4++BitVec.ofBool lr++n : Byte) &&& 0x7).toNat=n.toNat := by decide
  have hlr : ∀ lr, ∀ n : BitVec 3, (0b1010#4++BitVec.ofBool lr++n : Byte) &&& 0x8≠0 ↔ lr=true := by decide
  have hr := decode_cons h (hd lr n)
  change _=decode1010nnnn _ at hr
  rw [decode1010nnnn] at hr
  rw [hc] at hr
  refine ⟨_, hr, rfl, ?_, rfl⟩
  dsimp only [onContext, popped]
  rw [foldl_append]
  cases lr with
  | false => rw [if_neg ((hlr false n).not.mpr Bool.false_ne_true)]; rfl
  | true => rw [if_pos ((hlr true n).mpr rfl)]; rfl

theorem decode_setVsp {n : BitVec 4} (hn : n=7 ∨ n=11) : Decodes (.setVsp n) := by
  intro p rest h
  have hd : ∀ n : BitVec 4, decoderOf (0b1001#4++n)=some .code1001nnnn := by decide
  have hb : ∀ n : BitVec 4, (n=7 ∨ n=11) → ¬((0b1001#4++n : Byte) &&& 0xf=13 ∨ (0b1001#4++n : Byte) &&& 0xf=15) ∧
        ((0b1001#4++n : Byte) &&& 0xf=7 ∨ (0b1001#4++n : Byte) &&& 0xf=11) := by decide
  have hr2 : ∀ n : BitVec 4, ((0b1001#4++n : Byte) &&& 0xf).setWidth 32=n.setWidth 32 := by decide
  obtain ⟨hr1, hf⟩ := hb n hn
  have hr := decode_cons h (hd n)
  change _=decode1001nnnn _ at hr
  rw [decode1001nnnn] at hr
  rw [if_neg hr1, if_pos hf, hr2] at hr
  exact ⟨_, hr, rfl, rfl, rfl⟩

theorem foldl_popIfSet (bit : ℕ → Prop) [DecidablePred bit] (regs : List ℕ) (p : ExidxEntryParser) :
    ∃ isPcSet, regs.foldl (fun (p : ExidxEntryParser) reg =>
      if bit reg then
        {p with context := p.context.popReg reg, isPcSet := if reg=regPc then true else p.isPcSet} else p) p =
        {p with context := (regs.filter fun reg => bit reg).foldl popReg p.context, isPcSet := isPcSet} := by
  induction regs generalizing p with
  | nil => exact ⟨p.isPcSet, rfl⟩
  | cons reg regs ih =>
    rw [foldl_cons]
    by_cases hb : bit reg
    · rw [if_pos hb, filter_cons, if_pos (decide_eq_true hb)]
      exact ih _
    · rw [if_neg hb, filter_cons, if_neg (by rwa [decide_eq_true_iff])]
      exact ih p

theorem mask_bit (regs : BitVec 12) {reg : ℕ} (hl : 4≤ reg) :
    (regs.setWidth 16 <<< 4).setWidth 32&&&(1 : BitVec 32) <<< reg≠0 ↔ regs.getLsbD (reg-4)=true := by
  rw [and_bit_ne_zero_iff, BitVec.getLsbD_setWidth, BitVec.getLsbD_shiftLeft]
  by_cases hh : reg<16
  · have hlt : reg<32 := by omega
    have hge : ¬reg<4 := by omega
    have hs : reg-4<16 := by omega
    simp [hh, hlt, hge, hs]
  · have hn : regs.getLsbD (reg-4)=false := BitVec.getLsbD_of_ge regs _ (by omega)
    simp [hn]

theorem filter_mask (regs : BitVec 12) : (range' 4 (regArmLast-4)).filter
        (fun reg => (regs.setWidth 16 <<< 4).setWidth 32&&&(1 : BitVec 32) <<< reg≠0) = (popMask regs).popped := by
  have hs : range' 4 (regArmLast-4)=range' 4 12++[16] := by decide
  have hb : ∀ reg∈range' 4 (regArmLast-4),
      decide ((regs.setWidth 16 <<< 4).setWidth 32 &&& (1 : BitVec 32) <<< reg≠0)=regs.getLsbD (reg-4) := by
    intro reg hr
    rw [Bool.eq_iff_iff, decide_eq_true_iff]
    exact mask_bit regs (mem_range'_1.mp hr).1
  rw [filter_congr hb, hs, popped]
  simp

theorem decode_popMask {regs : BitVec 12} (hne : regs≠0) : Decodes (.popMask regs) := by
  intro p rest h
  have hd : ∀ high : BitVec 4, decoderOf (0b1000#4++high)=some .code1000iiiiiiiiiiii := by decide
  have hw : regs.setWidth 16≠0 := by
    intro hz
    apply hne
    have hb := congrArg (BitVec.setWidth 12) hz
    rwa [BitVec.setWidth_setWidth_of_le _ (by decide)] at hb
  have hr : p.decode=decode1000iiiiiiiiiiii
      {p with curOp := 0b1000#4++regs.extractLsb' 8 4, ops := regs.setWidth 8::rest} := decode_cons h (hd _)
  rw [decode1000iiiiiiiiiiii] at hr
  dsimp only at hr
  rw [withOperand_cons rfl, mask_joined, if_neg hw] at hr
  obtain ⟨isPcSet, hf⟩ := foldl_popIfSet
    (fun reg => (regs.setWidth 16 <<< 4).setWidth 32 &&& (1 : BitVec 32) <<< reg≠0)
    (range' 4 (regArmLast-4)) {p with curOp := regs.setWidth 8, ops := rest}
  rw [hf, filter_mask] at hr
  exact ⟨_, hr, rfl, rfl, rfl⟩

theorem decode_encode {op : Opcode} (hv : op.Valid) (hs : op.Supported) : Decodes op := by
  cases op with
  | addVsp x => exact decode_addVsp
  | subVsp x => exact decode_subVsp
  | popMask regs => exact decode_popMask hv
  | setVsp n => exact decode_setVsp hs
  | popRange lr n => exact decode_popRange
  | popLow regs => exact decode_popLow hv
  | addLarge operand => exact decode_addLarge hv.1 hv.2
  | popFstmfdx first count => exact decode_popFstmfdx
  | popFstmfdxFrom8 n => exact decode_popFstmfdxFrom8
  | popWr first count => exact decode_popWr
  | popWcgr regs => exact decode_popWcgr hv
  | popVpush low first count => exact decode_popVpush
  | popWrFrom10 n => exact decode_popWrFrom10 hv
  | popVpushFrom8 n => exact decode_popVpushFrom8

theorem decode_finish (h : p.ops=finish::rest) : p.DecodesTo rest p.context p.rsState := by
  have hd : decoderOf finish=some .code10110000 := by decide
  exact ⟨_, decode_cons h hd, rfl, rfl, rfl⟩

end ExidxEntryParser

end Faultloggerd.Exidx
