import Mathlib.Logic.Relation
import Faultloggerd.Dwarf.ExpressionPointer

/-! # Evaluations that come to an end

`Eval` has no limit on its rounds. Every operation other than a branch moves the expression pointer up, so an evaluation
goes on for ever only if it branches back again and again.
-/
namespace Faultloggerd.Dwarf
open Relation Option Nat

section Rounds

variable (t : Target) (m : DfxMemory) (regs : Regs) (stop : Word)

/-- A round after which the loop goes on. Where a value cannot be read or computed the stack may hold any. -/
structure EvalRound (s s' : OpState) : Prop where
  inside : s.addr.toNat < stop.toNat
  pointer : decodePtr t m s = some s'.addr
  agrees : ∀ out, decode t m regs s = some out → out = (true, s')

/-- The evaluation ends, whatever values its operations work with. -/
inductive Returns : OpState → Prop where
  | ended {s : OpState} (h : stop.toNat≤ s.addr.toNat) : Returns s
  | next {s : OpState} (hread : (decodePtr t m s).isSome) (hall : ∀ s', EvalRound t m regs stop s s' → Returns s') :
    Returns s

/-- The loop comes to no opcode and to no offset of a branch that cannot be read. -/
def OpcodesReadable (start : OpState) : Prop :=
  ∀ s, ReflTransGen (EvalRound t m regs stop) start s → s.addr.toNat < stop.toNat → (decodePtr t m s).isSome

/-- A run of the evaluation loop without an end. -/
structure Endless (run : ℕ → OpState) (start : OpState) : Prop where
  start : run 0 = start
  round : ∀ n, EvalRound t m regs stop (run n) (run (n+1))

def opAt (s : OpState) : Option DwOp := (m.read s.addr 1).bind fun opcode => DwOp.ofOpcode opcode.toNat

/-- A branch that does not lead forward. -/
def BranchesBack (s s' : OpState) : Prop :=
  (opAt m s=some .skip ∨ opAt m s=some .bra) ∧ s'.addr.toNat ≤ s.addr.toNat

end Rounds

section Pointer

variable {t : Target} {m : DfxMemory} {regs : Regs} {stop : Word} {s s' : OpState}

theorem le_baseOffsetPtr (reg : BitVec 32) (addr : Word) : addr.toNat≤(baseOffsetPtr t m reg addr).toNat := by
  unfold baseOffsetPtr
  split
  · exact m.le_readSleb128 addr
  · exact Nat.le_refl _

theorem le_operandPtr {op : DwOp} {ptr : Word} (h : operandPtr t m op s=some ptr) (hs : op≠.skip)
    (hb : op≠.bra) : s.addr.toNat≤ptr.toNat := by
  cases op with
  | skip => exact absurd rfl hs
  | bra => exact absurd rfl hb
  | addr | const | pick =>
    cases h
    exact m.le_readInto s.addr _ 0
  | constu | regx =>
    cases h
    exact m.le_readUleb128 s.addr
  | consts =>
    cases h
    exact m.le_readSleb128 s.addr
  | plusUconst =>
    cases h
    split
    · exact Nat.le_refl _
    · exact m.le_readUleb128 s.addr
  | derefSize =>
    cases h
    split
    · exact Nat.le_refl _
    · exact m.le_readInto s.addr 1 0
  | breg n =>
    cases h
    exact le_baseOffsetPtr _ _
  | bregx =>
    cases h
    exact Nat.le_trans (m.le_readUleb128 s.addr) (le_baseOffsetPtr _ _)
  | _ =>
    cases h
    exact Nat.le_refl _

theorem EvalRound.forward_or_back (h : EvalRound t m regs stop s s') :
    s.addr.toNat<s'.addr.toNat ∨ BranchesBack m s s' := by
  obtain ⟨⟨opcode, next⟩, ho, hp⟩ := bind_eq_some_iff.mp h.pointer
  obtain ⟨hr, rfl⟩ := readOperand_eq_some_iff.mp ho
  have hn : (s.addr+1#64).toNat=s.addr.toNat+1 := DfxMemory.toNat_succ_of_read hr
  have hop : opAt m s=DwOp.ofOpcode opcode.toNat := by rw [opAt, hr, bind_some]
  dsimp only at hp
  cases hk : DwOp.ofOpcode opcode.toNat with
  | none =>
    rw [hk] at hp
    have ha := congrArg BitVec.toNat (some.inj hp)
    omega
  | some op =>
    rw [hk] at hp hop
    by_cases hb1 : s'.addr.toNat≤ s.addr.toNat
    · refine .inr ⟨?_, hb1⟩
      by_contra hb
      have hle := le_operandPtr hp (fun heq => hb (.inl (heq ▸ hop))) (fun heq => hb (.inr (heq ▸ hop)))
      grind
    · omega

end Pointer

section Runs

variable {t : Target} {m : DfxMemory} {regs : Regs} {stop : Word} {start : OpState}

theorem Endless.branches_back {run : ℕ → OpState} (h : Endless t m regs stop run start) (n : ℕ) :
    ∃ k≥n, BranchesBack m (run k) (run (k+1)) := by
  by_contra hn
  have hc : ∀ j, j≤(run (n+j)).addr.toNat := by
    intro j
    induction j with
    | zero => exact zero_le _
    | succ j ih =>
      obtain hf | hb := (h.round (n+j)).forward_or_back
      · grind
      · exact absurd ⟨n+j, Nat.le_add_right .., hb⟩ hn
  have hi := (h.round (n+stop.toNat)).inside
  have hl := hc stop.toNat
  omega

theorem Returns.not_endless (h : Returns t m regs stop start) (run : ℕ → OpState) :
    ¬Endless t m regs stop run start := by
  induction h generalizing run with
  | @ended s he =>
    intro hrun
    have hi := (hrun.round 0).inside
    rw [hrun.start] at hi
    omega
  | @next s hr ha ih =>
    intro hrun
    have hf := hrun.round 0
    rw [hrun.start] at hf
    exact ih (run 1) hf (fun n => run (n+1)) ⟨rfl, fun n => hrun.round (n+1)⟩

theorem exists_round_of_not_returns {s : OpState} (hr1 : s.addr.toNat<stop.toNat → (decodePtr t m s).isSome)
    (h : ¬Returns t m regs stop s) : ∃ s', EvalRound t m regs stop s s' ∧ ¬Returns t m regs stop s' := by
  by_contra hnone
  by_cases hi : s.addr.toNat<stop.toNat
  · refine h (.next (hr1 hi) fun s' hr => ?_)
    by_contra hs'
    exact hnone ⟨s', hr, hs'⟩
  · exact h (.ended (Nat.le_of_not_lt hi))

theorem exists_endless (hr2 : OpcodesReadable t m regs stop start) (h : ¬Returns t m regs stop start) :
    ∃ run, Endless t m regs stop run start := by
  have hs1 : ∀ s : {s // ReflTransGen (EvalRound t m regs stop) start s ∧ ¬Returns t m regs stop s},
      ∃ s' : {s // ReflTransGen (EvalRound t m regs stop) start s ∧ ¬Returns t m regs stop s},
        EvalRound t m regs stop s.1 s'.1 := by
    rintro ⟨s, hr, hs⟩
    obtain ⟨s', hr1, hs'⟩ := exists_round_of_not_returns (hr2 s hr) hs
    exact ⟨⟨s', hr.tail hr1, hs'⟩, hr1⟩
  choose next hn using hs1
  let run := fun n => (Nat.rec ⟨start, .refl, h⟩ (fun _ s => next s) n :
    {s // ReflTransGen (EvalRound t m regs stop) start s ∧ ¬Returns t m regs stop s})
  exact ⟨fun n => (run n).1, rfl, fun n => hn (run n)⟩

theorem returns_iff_branches_end (hr : OpcodesReadable t m regs stop start) : Returns t m regs stop start ↔
      ∀ run, Endless t m regs stop run start → ∃ n, ∀ k≥n, ¬BranchesBack m (run k) (run (k+1)) := by
  constructor
  · intro h run hrun
    exact absurd hrun (h.not_endless run)
  · intro hf
    by_contra h
    obtain ⟨run, hrun⟩ := exists_endless hr h
    obtain ⟨n, hn⟩ := hf run hrun
    obtain ⟨k, hk, hb⟩ := hrun.branches_back n
    exact hn k hk hb

def evalStart (m : DfxMemory) (initStackValue startPtr : Word) : OpState :=
  ⟨(m.readUleb128 startPtr).2, [initStackValue]⟩

def evalStop (m : DfxMemory) (startPtr : Word) : Word := (m.readUleb128 startPtr).2+(m.readUleb128 startPtr).1

variable (t m regs stop start) in
/-- Every value that the evaluation comes to use can be read and computed. -/
def ValuesDefined : Prop :=
  ∀ s, ReflTransGen (EvalRound t m regs stop) start s → s.addr.toNat < stop.toNat → (decode t m regs s).isSome

theorem Returns.evalLoop (h : Returns t m regs stop start) (hd1 : ValuesDefined t m regs stop start) :
    ∃ fuel r, evalLoop t m regs stop fuel start=some r := by
  induction h with
  | @ended s he => exact ⟨0, s, if_neg (Nat.not_lt.mpr he)⟩
  | @next s hr2 ha ih =>
    by_cases hi : s.addr.toNat<stop.toNat
    · obtain ⟨⟨more, s'⟩, hd⟩ := isSome_iff_exists.mp (hd1 s .refl hi)
      cases more with
      | false =>
        refine ⟨1, s', ?_⟩
        rw [Dwarf.evalLoop, if_pos hi, hd]
        rfl
      | true =>
        have hr : EvalRound t m regs stop s s' :=
          ⟨hi, decodePtr_of_decode hd, fun out ho => some.inj (ho.symm.trans hd)⟩
        obtain ⟨fuel, r, hrun⟩ := ih s' hr fun s'' hr1 => hd1 s'' (.head hr hr1)
        refine ⟨fuel+1, r, ?_⟩
        rw [Dwarf.evalLoop, if_pos hi, hd]
        exact hrun
    · exact ⟨0, s, if_neg hi⟩

theorem returns_of_evalLoop {fuel : ℕ} {r : OpState} (h : evalLoop t m regs stop fuel start=some r) :
    Returns t m regs stop start := by
  induction fuel generalizing start with
  | zero =>
    rw [evalLoop, ite_none_left_eq_some] at h
    exact .ended (Nat.le_of_not_lt h.1)
  | succ fuel ih =>
    rw [evalLoop] at h
    by_cases hi : start.addr.toNat<stop.toNat
    · rw [if_pos hi] at h
      obtain ⟨⟨more, s'⟩, hd, hr1⟩ := bind_eq_some_iff.mp h
      refine .next (by rw [decodePtr_of_decode hd]; rfl) fun s'' hr => ?_
      cases hr.agrees _ hd
      exact ih hr1
    · exact .ended (Nat.le_of_not_lt hi)

/-- As long as opcodes and branch offsets can be read: the evaluation returns exactly when no run of it branches back
for ever; every unending run does so infinitely often; and where all values are defined, returning is what `eval` does.
-/
theorem eval_returns_iff (initStackValue startPtr : Word)
    (hread : OpcodesReadable t m regs (evalStop m startPtr) (evalStart m initStackValue startPtr)) :
    (Returns t m regs (evalStop m startPtr) (evalStart m initStackValue startPtr) ↔
      ∀ run, Endless t m regs (evalStop m startPtr) run (evalStart m initStackValue startPtr) →
        ∃ n, ∀ k ≥ n, ¬BranchesBack m (run k) (run (k + 1))) ∧
      (∀ run, Endless t m regs (evalStop m startPtr) run (evalStart m initStackValue startPtr) →
        ∀ n, ∃ k ≥ n, BranchesBack m (run k) (run (k + 1))) ∧
      (ValuesDefined t m regs (evalStop m startPtr) (evalStart m initStackValue startPtr) →
        (Returns t m regs (evalStop m startPtr) (evalStart m initStackValue startPtr) ↔
          ∃ fuel v, eval t m regs fuel initStackValue startPtr = some v)) := by
  refine ⟨returns_iff_branches_end hread, fun _ hrun => hrun.branches_back, fun hd => ⟨fun h => ?_, ?_⟩⟩
  · obtain ⟨fuel, r, hrun⟩ := h.evalLoop hd
    refine ⟨fuel, r.stack.headD 0, ?_⟩
    change (evalLoop t m regs (evalStop m startPtr) fuel (evalStart m initStackValue startPtr)).map _=_
    rw [hrun]
    rfl
  · rintro ⟨fuel, v, he⟩
    obtain ⟨r, hrun, -⟩ := map_eq_some_iff.mp he
    exact returns_of_evalLoop hrun

end Runs

/-- `DW_OP_skip -3` leads to itself. -/
def backSkip : DfxMemory := .ofImage 0x1000 [0x03, 0x2f, 0xfd, 0xff]

theorem backSkip_decode (stack : List Word) :
    decode arm64 backSkip (fun _ => 0) ⟨0x1001, stack⟩=some (true, ⟨0x1001, stack⟩) := by
  have hr : readOperand backSkip 0x1001 1=some (0x2f, 0x1002) := by decide
  rw [decode, hr]
  dsimp only [execOp, opSkip]
  rfl

theorem backSkip_never_returns :
    ¬Returns arm64 backSkip (fun _ => 0) (evalStop backSkip 0x1000) (evalStart backSkip 0 0x1000) ∧
      ∀ fuel, eval arm64 backSkip (fun _ => 0) fuel 0 0x1000 = none := by
  have hs : evalStart backSkip 0 0x1000=⟨0x1001, [0]⟩ := by decide
  have hs1 : evalStop backSkip 0x1000=0x1004 := by decide
  constructor
  · intro h
    have hr : EvalRound arm64 backSkip (fun _ => 0) 0x1004 ⟨0x1001, [0]⟩ ⟨0x1001, [0]⟩ :=
      ⟨by decide, decodePtr_of_decode (backSkip_decode [0]),
        fun out ho => some.inj (ho.symm.trans (backSkip_decode [0]))⟩
    exact h.not_endless (fun _ => ⟨0x1001, [0]⟩) ⟨rfl, fun _ => hr⟩
  · intro fuel
    have hl : evalLoop arm64 backSkip (fun _ => 0) 0x1004 fuel ⟨0x1001, [0]⟩=none := by
      induction fuel with
      | zero => exact if_pos (by decide)
      | succ fuel ih => exact ih
    change (evalLoop arm64 backSkip (fun _ => 0) (evalStop backSkip 0x1000) fuel
      (evalStart backSkip 0 0x1000)).map _=none
    rw [hs, hs1, hl]
    rfl

/-- Counts the start value down to zero: `DW_OP_lit1, DW_OP_minus, DW_OP_dup, DW_OP_bra -6`. -/
def countdown : DfxMemory := .ofImage 0x1000 [0x06, 0x31, 0x1c, 0x12, 0x28, 0xfa, 0xff]

def countdownStates : List OpState :=
  [⟨0x1001, [2]⟩, ⟨0x1002, [1, 2]⟩, ⟨0x1003, [1]⟩, ⟨0x1004, [1, 1]⟩, ⟨0x1001, [1]⟩, ⟨0x1002, [1, 1]⟩, ⟨0x1003, [0]⟩,
    ⟨0x1004, [0, 0]⟩, ⟨0x1007, [0]⟩]

theorem countdown_decode : ∀ s ∈ countdownStates, s.addr.toNat < (0x1007 : Word).toNat →
    ∃ s' ∈ countdownStates, decode arm64 countdown (fun _ => 0) s = some (true, s') := by
  decide +kernel

theorem countdown_reaches {s : OpState}
    (h : ReflTransGen (EvalRound arm64 countdown (fun _ => 0) 0x1007) ⟨0x1001, [2]⟩ s) : s ∈ countdownStates := by
  induction h with
  | refl => decide
  | @tail s s' _ hr ih =>
    obtain ⟨next, hn, hd⟩ := countdown_decode s ih hr.inside
    cases hr.agrees _ hd
    exact hn

/-- The branch back is taken once; the second time the value is zero and the evaluation ends. -/
theorem countdown_returns :
    OpcodesReadable arm64 countdown (fun _ => 0) (evalStop countdown 0x1000) (evalStart countdown 2 0x1000) ∧
      Returns arm64 countdown (fun _ => 0) (evalStop countdown 0x1000) (evalStart countdown 2 0x1000) ∧
      BranchesBack countdown ⟨0x1004, [1, 1]⟩ ⟨0x1001, [1]⟩ := by
  have hstart : evalStart countdown 2 0x1000 = ⟨0x1001, [2]⟩ := by decide
  have hstop : evalStop countdown 0x1000 = 0x1007 := by decide
  have hv : ValuesDefined arm64 countdown (fun _ => 0) 0x1007 ⟨0x1001, [2]⟩ := by
    intro s hs hi
    obtain ⟨s', -, hd⟩ := countdown_decode s (countdown_reaches hs) hi
    rw [hd]
    rfl
  have hread : OpcodesReadable arm64 countdown (fun _ => 0) 0x1007 ⟨0x1001, [2]⟩ := by
    intro s hs hi
    obtain ⟨s', -, hd⟩ := countdown_decode s (countdown_reaches hs) hi
    rw [decodePtr_of_decode hd]
    rfl
  have hr := (eval_returns_iff 2 0x1000 (by rwa [hstart, hstop])).2.2 (by rwa [hstart, hstop])
  exact ⟨by rwa [hstart, hstop], hr.mpr ⟨9, 0, by decide +kernel⟩, .inr (by decide), by decide⟩

end Faultloggerd.Dwarf
