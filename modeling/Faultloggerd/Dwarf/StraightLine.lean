import Faultloggerd.Dwarf.Leb128
import Faultloggerd.Dwarf.StackMachine

/-! # Straight-line expressions

The interpreter against the stack machine. They agree except for comparisons of operands of different signs, the
quotient that is out of range, and `DW_OP_deref_size` of a size that is not a power of two.
-/
namespace Faultloggerd.Dwarf.StackMachine
open List BitVec Option Binary OpState Operation Unary Nat

/-! ## Words as numbers -/

section Words

variable (x y : Word)

theorem ofInt_toInt_add : BitVec.ofInt 64 (x.toInt+y.toInt)=x+y := by
  rw [ofInt_add, ofInt_toInt, ofInt_toInt]

theorem ofInt_toInt_sub : BitVec.ofInt 64 (x.toInt-y.toInt)=x-y := by
  apply eq_of_toInt_eq
  rw [toInt_ofInt, toInt_sub]

theorem ofInt_toInt_mul : BitVec.ofInt 64 (x.toInt*y.toInt)=x*y := by
  rw [ofInt_mul, ofInt_toInt, ofInt_toInt]

theorem ofInt_toInt_neg : BitVec.ofInt 64 (-x.toInt)=-x := by
  apply eq_of_toInt_eq
  rw [toInt_ofInt, toInt_neg]

theorem ofInt_toInt_tdiv : BitVec.ofInt 64 (x.toInt.tdiv y.toInt)=x.sdiv y := by
  apply eq_of_toInt_eq
  rw [toInt_ofInt, toInt_sdiv]

theorem ofNat_toNat_mod : BitVec.ofNat 64 (x.toNat % y.toNat)=x % y := by
  rw [←toNat_umod, ofNat_toNat, setWidth_eq]

theorem ofNat_complement : BitVec.ofNat 64 (2^64-1-x.toNat)= ~~~x := by
  apply eq_of_toNat_eq
  rw [toNat_not, toNat_ofNat, mod_eq_of_lt (by omega)]

theorem ofNat_natAbs : BitVec.ofNat 64 x.toInt.natAbs=if x.toInt<0 then -x else x := by
  by_cases hn : x.toInt<0
  · rw [if_pos hn, ←ofInt_toInt_neg, ←ofInt_natCast, Int.ofNat_natAbs_of_nonpos (by omega)]
  · rw [if_neg hn, ←ofInt_natCast, Int.natAbs_of_nonneg (by omega), ofInt_toInt]

theorem ofNat_mul_pow (k : ℕ) : BitVec.ofNat 64 (x.toNat*2^k)=x <<< k := by
  apply eq_of_toNat_eq
  rw [toNat_ofNat, toNat_shiftLeft, Nat.shiftLeft_eq]

theorem ofNat_div_pow (k : ℕ) : BitVec.ofNat 64 (x.toNat/2^k)=x >>> k := by
  rw [←shiftRight_eq_div_pow, ←toNat_ushiftRight, ofNat_toNat, setWidth_eq]

theorem ofInt_div_pow (k : ℕ) : BitVec.ofInt 64 (x.toInt/2^k)=x.sshiftRight k := by
  rw [BitVec.sshiftRight, Int.shiftRight_eq_div_pow]
  simp

variable {x y}

theorem toInt_le_iff_of_msb (h : x.msb=y.msb) : x.toInt≤y.toInt ↔ x.toNat≤y.toNat := by
  rw [toInt_eq_msb_cond, toInt_eq_msb_cond, h]
  split <;> omega

theorem order_of_msb (hx : x.msb=true) (hy : y.msb=false) : y.toNat<x.toNat ∧ x.toInt<y.toInt := by
  have hxt := toInt_eq_msb_cond x
  have hyt := toInt_eq_msb_cond y
  have hxn := msb_eq_decide x
  have hyn := msb_eq_decide y
  rw [hx] at hxt hxn
  rw [hy] at hyt hyn
  simp only [if_true, Bool.false_eq_true, if_false] at hxt hyt
  have hxn := of_decide_eq_true hxn.symm
  have hyn := of_decide_eq_false hyn.symm
  omega

end Words

theorem boolWord_inj {a b : Bool} : boolWord a=boolWord b ↔ a=b := by
  cases a <;> cases b <;> decide

/-! ## Wider reads -/

theorem read_wider_iff {m : DfxMemory} {addr value : Word} {size width : ℕ} (hle : size≤width) (hw : width≤8)
    (h : m.read addr size=some value) : m.read addr width=some value ↔
      m.readBytes addr width=m.readBytes addr size++List.replicate (width-size) 0 := by
  unfold DfxMemory.read at h ⊢
  dsimp only at h ⊢
  split at h
  · cases h
    have hl : (m.readBytes addr size++List.replicate (width-size) 0).length=width := by
      grind
    constructor
    · intro hr
      split at hr
      · rename_i hf
        apply ofBytes_injective (hf.trans hl.symm) (by omega)
        rw [ofBytes_append_zeros]
        exact some.inj hr
      · cases hr
    · intro hb
      rw [hb, if_pos hl, ofBytes_append_zeros]
  · cases h

/-! ## Operators -/

def Binary.interpret : Binary → List Word → Option (List Word)
  | .and, stack => some (opAnd stack)
  | .div, stack => opDiv stack
  | .minus, stack => some (opMinus stack)
  | .mod, stack => some (opMod stack)
  | .mul, stack => some (opMul stack)
  | .or, stack => some (opOr stack)
  | .plus, stack => some (opPlus stack)
  | .shl, stack => opShl stack
  | .shr, stack => opShr stack
  | .shra, stack => opShra stack
  | .xor, stack => some (opXor stack)
  | .eq, stack => some (opEq stack)
  | .ge, stack => some (opGe stack)
  | .gt, stack => some (opGt stack)
  | .le, stack => some (opLe stack)
  | .lt, stack => some (opLt stack)
  | .ne, stack => some (opNe stack)

def Unary.interpret : Unary → List Word → List Word
  | .abs => opAbs
  | .neg => opNeg
  | .not => opNot

section Operators

variable {t : Target} {m : DfxMemory} {regs : Regs} {x top value : Word} {stack res : List Word}

theorem interpret_cons (op : Unary) (x : Word) (stack : List Word) : op.interpret (x::stack)=op.value x::stack := by
  cases op with
  | abs => rw [Unary.value, ofNat_natAbs]; rfl
  | neg => rw [Unary.value, ofInt_toInt_neg]; rfl
  | not => rw [Unary.value, ofNat_complement]; rfl

theorem onShift_cons {f : Word → ℕ → Word} (h : top.toNat<64) :
    onShift f (top::x::stack)=some (f x top.toNat::stack) := by
  rw [onShift, if_pos h]

theorem Binary.interpret_of_agrees {op : Binary} (hv : op.value x top=some value)
    (h : Agrees m (.binary op) (top::x::stack)) : op.interpret (top::x::stack)=some (value::stack) := by
  have hle := @toInt_le_iff_of_msb
  cases op with
  | and | or | xor => cases hv; rfl
  | plus => cases hv; rw [ofInt_toInt_add]; rfl
  | minus => cases hv; rw [ofInt_toInt_sub]; rfl
  | mul => cases hv; rw [ofInt_toInt_mul]; rfl
  | div =>
    simp only [Binary.value] at hv
    split at hv
    · cases hv
    · rename_i ht
      cases hv
      rw [ofInt_toInt_tdiv, Binary.interpret, opDiv, if_neg ht, if_neg h]
  | mod =>
    simp only [Binary.value] at hv
    split at hv
    · cases hv
    · rename_i ht
      cases hv
      rw [ofNat_toNat_mod, Binary.interpret, opMod, onTwo, if_neg ht]
  | shl | shr | shra =>
    simp only [Binary.value] at hv
    split at hv
    · rename_i ht
      cases hv
      simp only [ofNat_mul_pow, ofNat_div_pow, ofInt_div_pow]
      exact onShift_cons ht
    · cases hv
  | eq => cases hv; simp only [toInt_inj]; rfl
  | ne => cases hv; simp only [ne_eq, toInt_inj]; rfl
  | ge => cases hv; simp only [hle h.symm]; rfl
  | gt => cases hv; simp only [←Int.not_le, hle h, Nat.not_le]; rfl
  | le => cases hv; simp only [hle h]; rfl
  | lt => cases hv; simp only [←Int.not_le, hle h.symm, Nat.not_le]; rfl

theorem order_of_msb_ne (h : x.msb≠top.msb) :
    (x.toNat≤top.toNat ↔ ¬x.toInt≤top.toInt) ∧ (top.toNat≤x.toNat ↔ ¬top.toInt≤x.toInt) := by
  cases hx : x.msb with
  | true =>
    have hlt := order_of_msb hx (by simpa [hx] using h)
    omega
  | false =>
    have hlt := order_of_msb (x := top) (y := x) (by simpa [hx] using h) hx
    omega

theorem boolWord_decide_ne {p q : Prop} [Decidable p] [Decidable q] (h : p ↔ ¬q) :
    boolWord (decide p)≠boolWord (decide q) := by
  intro heq
  have := boolWord_inj.mp heq
  by_cases hq : q <;> simp_all

theorem Binary.interpret_of_not_agrees {op : Binary} (hv : op.value x top=some value)
    (h : ¬Agrees m (.binary op) (top::x::stack)) (hr : op.interpret (top::x::stack)=some res) : res≠value::stack := by
  intro hs
  subst hs
  cases op with
  | ge | gt | le | lt =>
    cases hv
    refine boolWord_decide_ne ?_ (cons.inj (some.inj hr)).1
    have ho := order_of_msb_ne h
    omega
  | div =>
    simp only [Binary.value] at hv
    split at hv
    · cases hv
    · rename_i ht
      have hr1 : x=intMin 64 ∧ top = -1 := by simpa [Agrees] using h
      rw [Binary.interpret, opDiv, if_neg ht, if_pos hr1] at hr
      cases hr
  | _ => exact h trivial

end Operators

/-! ## One operation -/

section Operation

variable {m : DfxMemory} {op : Operation} {dw : DwOp} {addr next : Word}
  {stack res : List Word}

variable {n : ℕ} {value : Word}

theorem register_eq_some (h : register t regs n=some value) :
    (t.qutIdx ((BitVec.ofNat 32 n).setWidth 16)).isSome ∧ n<t.regLast ∧ (BitVec.ofNat 32 n).toNat=n ∧
      value=regs n := by
  unfold register at h
  split at h
  · rename_i hs
    cases h
    obtain ⟨i, hi⟩ := isSome_iff_exists.mp hs
    have hr := (t.slotOf_eq_some_iff n i).mp hi
    have hlt := t.bounded _ (get_mem t.qutRegs i)
    have hs1 := t.small
    change t.qutReg i<t.regLast at hlt
    rw [hr] at hlt
    refine ⟨?_, hlt, ?_, rfl⟩
    · have hn : ((BitVec.ofNat 32 n).setWidth 16).toNat=n := by
        grind
      rw [Target.qutIdx, hn]
      exact hs
    · grind
  · cases h

variable {s : OpState}

theorem pushReg_of_register (h : register t regs n=some value) :
    pushReg t regs (BitVec.ofNat 32 n) s=some (s.push value) := by
  obtain ⟨ht, hlt, hn, rfl⟩ := register_eq_some h
  rw [pushReg, if_pos ht, regAt, hn, if_pos hlt]
  rfl

theorem pushBReg_of_register (h : register t regs n=some value) : pushBReg t m regs (BitVec.ofNat 32 n) s =
      some ⟨(m.readSleb128 s.addr).2, ((m.readSleb128 s.addr).1+value)::s.stack⟩ := by
  obtain ⟨ht, hlt, hn, rfl⟩ := register_eq_some h
  rw [pushBReg, if_pos ht]
  rw [regAt, hn, if_pos hlt]
  rfl

theorem exec_unary {op : Unary} (h : (unary op).exec t m regs stack=some res) : op.interpret stack=res := by
  cases stack with
  | nil => cases h
  | cons x stack =>
    rw [interpret_cons]
    exact some.inj h

theorem exec_binary {op : Binary} (h : (binary op).exec t m regs stack=some res) :
    ∃ top x rest value, stack=top::x::rest ∧ op.value x top=some value ∧ res=value::rest := by
  match stack with
  | [] | [_] => cases h
  | top :: x :: rest =>
    obtain ⟨value, hv, hr⟩ := map_eq_some_iff.mp h
    exact ⟨top, x, rest, value, rfl, hv, hr.symm⟩

theorem onStackOption_of_agrees {op : Binary} (he : (binary op).exec t m regs stack=some res)
    (ha : Agrees m (.binary op) stack) : (op.interpret stack).map (mk addr)=some ⟨addr, res⟩ := by
  obtain ⟨top, x, rest, value, rfl, hv, rfl⟩ := exec_binary he
  rw [interpret_of_agrees hv ha]
  rfl

theorem onStackOption_of_not_agrees {op : Binary} (he : (binary op).exec t m regs stack=some res)
    (ha : ¬Agrees m (.binary op) stack) (hs : (op.interpret stack).map (mk addr)=some s)
    : s.addr=addr ∧ s.stack≠res := by
  obtain ⟨top, x, rest, value, rfl, hv, rfl⟩ := exec_binary he
  obtain ⟨interpreted, hi, rfl⟩ := map_eq_some_iff.mp hs
  exact ⟨rfl, interpret_of_not_agrees hv ha hi⟩

theorem derefWidth_cases {size : ℕ} (hl : 1≤ size) (hh : size≤8) :
    ∃ width, derefWidth size=some width ∧ size≤width ∧ width≤8 := by
  match size with
  | 1 | 2 | 3 | 4 | 5 | 6 | 7 | 8 => exact ⟨_, rfl, by decide, by decide⟩

theorem exec_derefSize {size : ℕ} (h : (derefSize size).exec t m regs stack=some res) :
    ∃ a rest value width, stack=a::rest ∧ res=value::rest ∧ m.read a size=some value ∧
      derefWidth size=some width ∧ size≤width ∧ width≤8 := by
  cases stack with
  | nil => cases h
  | cons a rest =>
    change (if 1≤ size ∧ size≤8 then (m.read a size).map (· :: rest) else none)=some res at h
    split at h
    · rename_i hs
      obtain ⟨value, hr1, hr⟩ := map_eq_some_iff.mp h
      obtain ⟨width, hw, hle, hb⟩ := derefWidth_cases hs.1 hs.2
      exact ⟨a, rest, value, width, rfl, hr.symm, hr1, hw, hle, hb⟩
    · cases h

theorem execOp_of_agrees (h : operands m dw addr=some (op, next)) (he : op.exec t m regs stack=some res)
    (ha : Agrees m op stack) : execOp t m regs dw ⟨addr, stack⟩=some ⟨next, res⟩ := by
  cases dw with
  | addr | const size isSigned =>
    obtain ⟨⟨value, behind⟩, hr1, heq⟩ := map_eq_some_iff.mp h
    cases heq
    cases he
    simp only [execOp, hr1]
    rfl
  | constu | consts | lit n | nop =>
    cases h
    cases he
    rfl
  | deref =>
    cases h
    cases stack with
    | nil => cases he
    | cons a rest =>
      obtain ⟨value, hr1, rfl⟩ := map_eq_some_iff.mp he
      simp only [execOp, opDeref, hr1]
      rfl
  | dup | drop =>
    cases h
    cases stack with
    | nil => cases he
    | cons x rest =>
      cases he
      rfl
  | «over» | swap =>
    cases h
    match stack with
    | [] | [_] => cases he
    | _ :: _ :: _ =>
      cases he
      rfl
  | rot =>
    cases h
    match stack with
    | [] | [_] | [_, _] => cases he
    | _ :: _ :: _ :: _ =>
      cases he
      rfl
  | pick =>
    obtain ⟨⟨index, behind⟩, hr1, heq⟩ := map_eq_some_iff.mp h
    cases heq
    obtain ⟨value, hi1, rfl⟩ := map_eq_some_iff.mp he
    simp [execOp, hr1, opPick, hi1]
  | abs | neg | not =>
    cases h
    have hi := exec_unary he
    exact congrArg (fun stack => some (mk addr stack)) hi
  | and | div | minus | mod | mul | or | plus | shl | shr | shra | xor | eq | ge | gt | le | lt | ne =>
    cases h
    exact onStackOption_of_agrees he ha
  | plusUconst =>
    cases h
    cases stack with
    | nil => cases he
    | cons x rest =>
      cases he
      rw [ofInt_toInt_add]
      rfl
  | reg n | regx =>
    cases h
    obtain ⟨value, hr, rfl⟩ := map_eq_some_iff.mp he
    exact pushReg_of_register (s := ⟨_, stack⟩) hr
  | breg n =>
    cases h
    obtain ⟨value, hr, rfl⟩ := map_eq_some_iff.mp he
    rw [ofInt_toInt_add, BitVec.add_comm]
    exact pushBReg_of_register hr
  | bregx =>
    cases h
    obtain ⟨value, hr, rfl⟩ := map_eq_some_iff.mp he
    rw [ofInt_toInt_add, BitVec.add_comm]
    have hp := pushBReg_of_register (m := m) (s := ⟨(m.readUleb128 addr).2, stack⟩) hr
    exact hp
  | derefSize =>
    obtain ⟨⟨size, behind⟩, hr1, heq⟩ := map_eq_some_iff.mp h
    cases heq
    obtain ⟨a, rest, value, width, rfl, rfl, hv, hw, hle, hb⟩ := exec_derefSize he
    have hw1 := (read_wider_iff hle hb hv).mpr (ha width hw)
    simp only [execOp, opDerefSize, hr1, bind_some, hw, hw1]
    rfl
  | skip | bra => cases h

theorem execOp_of_not_agrees (h : operands m dw addr=some (op, next)) (he : op.exec t m regs stack=some res)
    (ha : ¬Agrees m op stack) (hs : execOp t m regs dw ⟨addr, stack⟩=some s)
    : s.addr=next ∧ s.stack≠res := by
  cases dw with
  | ge | gt | le | lt | div =>
    cases h
    exact onStackOption_of_not_agrees he ha hs
  | derefSize =>
    obtain ⟨⟨size, behind⟩, hr, heq⟩ := map_eq_some_iff.mp h
    cases heq
    obtain ⟨a, rest, value, width, rfl, rfl, hv, hw, hle, hb⟩ := exec_derefSize he
    simp only [execOp, opDerefSize, hr, bind_some, hw] at hs
    obtain ⟨wide, hw1, rfl⟩ := map_eq_some_iff.mp hs
    refine ⟨rfl, fun hs1 => ha fun other ho => ?_⟩
    obtain rfl : width=other := some.inj (hw.symm.trans ho)
    apply (read_wider_iff hle hb hv).mp
    rw [hw1, (cons.inj hs1).1]
  | addr | const size isSigned | pick =>
    obtain ⟨⟨value, behind⟩, hr, heq⟩ := map_eq_some_iff.mp h
    cases heq
    exact absurd trivial ha
  | skip | bra => cases h
  | _ =>
    cases h
    exact absurd trivial ha

end Operation

/-! ## Addresses -/

section Addresses

variable {m : DfxMemory} {addr next : Word}

theorem readOperand_next {size : ℕ} {value : Word} (hp : 0<size)
    (h : readOperand m addr size=some (value, next)) : addr.toNat<next.toNat := by
  obtain ⟨read, hr, heq⟩ := map_eq_some_iff.mp h
  cases heq
  rw [DfxMemory.toNat_add_of_read (Nat.ne_of_gt hp) hr]
  omega

theorem const_size_pos {opcode size : ℕ} {isSigned : Bool}
    (h : DwOp.ofOpcode opcode=some (.const size isSigned)) : 0<size := by
  unfold DwOp.ofOpcode at h
  split_ifs at h
  · cases h
  · cases h
  · cases h
  · split at h <;> cases h <;> decide

theorem operands_next {dw : DwOp} {op : Operation} (hs : ∀ size isSigned, dw=.const size isSigned → 0<size)
    (h : operands m dw addr=some (op, next)) : addr.toNat≤next.toNat := by
  cases dw with
  | addr | const size isSigned | pick | derefSize =>
    obtain ⟨⟨value, behind⟩, hr, heq⟩ := map_eq_some_iff.mp h
    cases heq
    exact Nat.le_of_lt (readOperand_next (by first | decide | exact hs _ _ rfl) hr)
  | constu | plusUconst | regx =>
    cases h
    exact m.le_readUleb128 addr
  | consts | breg n =>
    cases h
    exact m.le_readSleb128 addr
  | bregx =>
    cases h
    exact Nat.le_trans (m.le_readUleb128 addr) (m.le_readSleb128 _)
  | skip | bra => cases h
  | _ =>
    cases h
    exact Nat.le_refl _

theorem fetch_cases {op : Operation} (t : Target) (regs : Regs) (h : fetch m addr=some (op, next)) :
    ∃ dw behind, operands m dw behind=some (op, next) ∧ addr.toNat<next.toNat ∧
      ∀ stack, decode t m regs ⟨addr, stack⟩=(execOp t m regs dw ⟨behind, stack⟩).map (true, ·) := by
  obtain ⟨⟨opcode, behind⟩, hr, h⟩ := bind_eq_some_iff.mp h
  obtain ⟨dw, hdw, h⟩ := bind_eq_some_iff.mp h
  split at h
  · cases h
  · have hs : ∀ size isSigned, dw=.const size isSigned → 0<size :=
      fun _ _ hc => const_size_pos (hdw.trans (congrArg some hc))
    refine ⟨dw, behind, h, ?_, fun stack => ?_⟩
    · exact Nat.lt_of_lt_of_le (readOperand_next (by decide) hr) (operands_next hs h)
    · rw [decode, hr]
      dsimp only [bind_some]
      rw [hdw]

theorem encodes_next {ops : List Operation} {stop : Word} (h : Encodes m addr ops stop) : addr.toNat≤ stop.toNat := by
  induction ops generalizing addr with
  | nil => exact Nat.le_of_eq (congrArg BitVec.toNat h)
  | cons op ops ih =>
    obtain ⟨next, hf, hr⟩ := h
    obtain ⟨dw, behind, -, hlt, -⟩ := fetch_cases arm64 (fun _ => 0) hf
    exact Nat.le_trans (Nat.le_of_lt hlt) (ih hr)

end Addresses

/-! ## Expressions -/

section Expressions

variable (t : Target) (m : DfxMemory) (regs : Regs)

/-- The interpreter leaves the stack that the machine leaves, whenever it is given enough steps. -/
def Follows (ops : List Operation) (addr : Word) (stack : List Word) : Prop :=
  ∀ stop fuel, Encodes m addr ops stop → ops.length ≤ fuel →
    (evalLoop t m regs stop fuel ⟨addr, stack⟩).map OpState.stack = machine t m regs ops stack

/-- Each operation agrees on the stack it finds. -/
def AllAgree : List Operation → List Word → Prop
  | [], _ => True
  | op :: ops, stack => Agrees m op stack ∧ ∀ rest, op.exec t m regs stack = some rest → AllAgree ops rest

variable {t m regs} {op : Operation} {ops : List Operation} {addr next stop : Word} {stack rest res : List Word}

theorem evalLoop_cons (hf : fetch m addr=some (op, next)) (hr : Encodes m next ops stop)
    (he : op.exec t m regs stack=some rest) (ha : Agrees m op stack) (fuel : ℕ) :
    evalLoop t m regs stop (fuel+1) ⟨addr, stack⟩=evalLoop t m regs stop fuel ⟨next, rest⟩ := by
  obtain ⟨dw, behind, ho, hlt, hd⟩ := fetch_cases t regs hf
  have hs := encodes_next hr
  rw [evalLoop, if_pos (Nat.lt_of_lt_of_le hlt hs), hd, execOp_of_agrees ho he ha]
  rfl

theorem follows_of_allAgree (hm : machine t m regs ops stack=some res) (h : AllAgree t m regs ops stack) :
    Follows t m regs ops addr stack := by
  intro stop fuel he hf1
  induction ops generalizing addr stack fuel with
  | nil =>
    obtain rfl : addr=stop := he
    have hd : evalLoop t m regs addr fuel ⟨addr, stack⟩=some ⟨addr, stack⟩ := by
      cases fuel <;> simp [evalLoop]
    rw [hd]
    rfl
  | cons op ops ih =>
    obtain ⟨next, hf, hr⟩ := he
    obtain ⟨rest, he1, hm⟩ := bind_eq_some_iff.mp hm
    obtain ⟨fuel, rfl⟩ : ∃ more, fuel=more+1 := ⟨fuel-1, by rw [length_cons] at hf1; omega⟩
    rw [evalLoop_cons hf hr he1 h.1, machine, he1]
    exact ih hm (h.2 rest he1) fuel hr (by grind)

theorem agrees_of_follows (hf : fetch m addr=some (op, next)) (he : op.exec t m regs stack=some rest)
    (h : Follows t m regs [op] addr stack) : Agrees m op stack := by
  by_contra hn
  obtain ⟨dw, behind, ho, hlt, hd⟩ := fetch_cases t regs hf
  have hs := h next 1 ⟨next, hf, rfl⟩ (Nat.le_refl _)
  rw [evalLoop, if_pos hlt, hd, machine, he] at hs
  cases hs1 : execOp t m regs dw ⟨behind, stack⟩ with
  | none =>
    rw [hs1] at hs
    cases hs
  | some s =>
    obtain ⟨ha, hs2⟩ := execOp_of_not_agrees ho he hn hs1
    rw [hs1] at hs
    have hd1 : evalLoop t m regs next 0 s=some s := by simp [evalLoop, ha]
    change (evalLoop t m regs next 0 s).map OpState.stack=some rest at hs
    rw [hd1] at hs
    exact hs2 (some.inj hs)

theorem allAgree_of_follows (he1 : Encodes m addr ops stop) (hm : machine t m regs ops stack=some res)
    (h : ∀ k, Follows t m regs (ops.take k) addr stack) : AllAgree t m regs ops stack := by
  induction ops generalizing addr stack with
  | nil => trivial
  | cons op ops ih =>
    obtain ⟨next, hf, hr⟩ := he1
    obtain ⟨rest, he, hm⟩ := bind_eq_some_iff.mp hm
    have ha : Agrees m op stack := agrees_of_follows hf he (h 1)
    refine ⟨ha, fun after ha1 => ?_⟩
    obtain rfl : rest=after := some.inj (he.symm.trans ha1)
    refine ih hr hm fun k mid fuel hm1 hf1 => ?_
    have hl := h (k+1) mid (fuel+1) ⟨next, hf, hm1⟩ (by simpa using hf1)
    rw [evalLoop_cons hf hm1 he ha, take_succ_cons, machine, he] at hl
    exact hl

theorem machine_take (hm : machine t m regs ops stack=some res) (k : ℕ) :
    ∃ middle, machine t m regs (ops.take k) stack=some middle := by
  induction k generalizing ops stack with
  | zero => exact ⟨stack, rfl⟩
  | succ k ih =>
    cases ops with
    | nil => exact ⟨stack, rfl⟩
    | cons op ops =>
      obtain ⟨rest, he, hm⟩ := bind_eq_some_iff.mp hm
      obtain ⟨middle, hm1⟩ := ih hm
      exact ⟨middle, by rw [take_succ_cons, machine, he]; exact hm1⟩

theorem AllAgree.take (h : AllAgree t m regs ops stack) (k : ℕ) : AllAgree t m regs (ops.take k) stack := by
  induction k generalizing ops stack with
  | zero => trivial
  | succ k ih =>
    cases ops with
    | nil => trivial
    | cons op ops => exact ⟨h.1, fun rest he => ih (h.2 rest he)⟩

end Expressions

/-- On an expression that means something, the interpreter follows the machine through every operator exactly where each
of them meets the condition. -/
theorem follows_iff_allAgree (t : Target) (m : DfxMemory) (regs : Regs) (ops : List Operation) (addr stop : Word)
    (stack result : List Word) (hencodes : Encodes m addr ops stop)
    (hmachine : machine t m regs ops stack=some result) :
    (∀ k, Follows t m regs (ops.take k) addr stack) ↔ AllAgree t m regs ops stack := by
  refine ⟨allAgree_of_follows hencodes hmachine, fun h k => ?_⟩
  obtain ⟨middle, hm⟩ := machine_take hmachine k
  exact follows_of_allAgree hm (h.take k)

def minusOneThen (opcode : Byte) : DfxMemory :=
  DfxMemory.ofImage 0x1000 [0x09, 0xff, opcode]

theorem follows_iff_allAgree_plus : Encodes (minusOneThen 0x22) 0x1000 [.push (-1), .binary .plus] 0x1003 ∧
      machine arm64 (minusOneThen 0x22) (fun _ => 0) [.push (-1), .binary .plus] [5] = some [4] ∧
      ((∀ k, Follows arm64 (minusOneThen 0x22) (fun _ => 0) (List.take k [.push (-1), .binary .plus]) 0x1000 [5]) ↔
        AllAgree arm64 (minusOneThen 0x22) (fun _ => 0) [.push (-1), .binary .plus] [5]) := by
  have he : Encodes (minusOneThen 0x22) 0x1000 [.push (-1), .binary .plus] 0x1003 :=
    ⟨0x1002, by decide +kernel, 0x1003, by decide +kernel, rfl⟩
  refine ⟨he, (and_iff_left_of_imp (follows_iff_allAgree _ _ _ _ _ _ _ _ he)).mpr ?_⟩
  decide +kernel

/-- `5 < -1` is false, and the interpreter says that it is true. -/
theorem lt_compares_unsigned : Encodes (minusOneThen 0x2d) 0x1000 [.push (-1), .binary .lt] 0x1003 ∧
      machine arm64 (minusOneThen 0x2d) (fun _ => 0) [.push (-1), .binary .lt] [5] = some [0] ∧
      (evalLoop arm64 (minusOneThen 0x2d) (fun _ => 0) 0x1003 2 ⟨0x1000, [5]⟩).map stack = some [1] ∧
      ¬Follows arm64 (minusOneThen 0x2d) (fun _ => 0) [.push (-1), .binary .lt] 0x1000 [5] := by
  have he : Encodes (minusOneThen 0x2d) 0x1000 [.push (-1), .binary .lt] 0x1003 :=
    ⟨0x1002, by decide +kernel, 0x1003, by decide +kernel, rfl⟩
  refine ⟨he, by decide +kernel, by decide +kernel, fun h => ?_⟩
  have hs := h 0x1003 2 he (Nat.le_refl _)
  exact absurd hs (by decide)

end Faultloggerd.Dwarf.StackMachine
