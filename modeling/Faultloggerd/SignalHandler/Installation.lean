import Faultloggerd.SignalHandler.Dispatch

/-! # Installing the handlers and handing signals back (`dfx_signal_handler.c`)

`DFX_InstallSignalHandler` goes through two lists of signals. Most of them get a special handler of the signal chain;
four get a plain action, and `InstallSigActionHandler` saves the action that was there. After a crash the saved action
is put back and the signal is raised again; a dump signal keeps its handler.

The signal chain library is not part of the repository, so what it does to the dispositions is a parameter.
-/
namespace Faultloggerd.SignalHandler
open Function List Foundations.EventRuns

def sigill : ℕ := 4
def sigtrap : ℕ := 5
def sigabrt : ℕ := 6
def sigbus : ℕ := 7
def sigfpe : ℕ := 8
def sigkill : ℕ := 9
def sigsegv : ℕ := 11
def sigstkflt : ℕ := 16
def sigstop : ℕ := 19
def sigsys : ℕ := 31
def nsig : ℕ := 64

def saSiginfo : ℕ := 4
def saOnstack : ℕ := 0x08000000
def saRestart : ℕ := 0x10000000

inductive Action where
  /-- `SIG_DFL`, the null pointer. -/
  | sigDfl
  | sigIgn
  | dfxSigActionHandler
  | other (address : ℕ)
deriving DecidableEq

structure Sigaction where
  sigaction : Action
  mask : ℕ
  flags : ℕ
deriving DecidableEq

def Sigaction.zero : Sigaction := ⟨.sigDfl, 0, 0⟩

def Sigaction.dfx : Sigaction := ⟨.dfxSigActionHandler, 2^64-1, saRestart ||| saSiginfo ||| saOnstack⟩

structure Process where
  hasInit : Bool
  dispositions : ℕ → Sigaction
  oldSigactionList : ℕ → Sigaction

namespace Process

def start (dispositions : ℕ → Sigaction) : Process := ⟨false, dispositions, fun _ => .zero⟩

/-- The system call refuses numbers out of range and the two signals nobody can catch. -/
def SigactionAllowed (signo : ℕ) : Prop := 1 ≤ signo ∧ signo ≤ nsig ∧ signo ≠ sigkill ∧ signo ≠ sigstop

instance (signo : ℕ) : Decidable (SigactionAllowed signo) := inferInstanceAs (Decidable (_ ∧ _))

def setAction (signo : ℕ) (action : Sigaction) (s : Process) : Process :=
  {s with dispositions := Function.update s.dispositions signo action}

def installSigActionHandler (signo : ℕ) (s : Process) : Process :=
  let cleared := {s with oldSigactionList := fun _ => Sigaction.zero}
  if SigactionAllowed signo then
    { cleared.setAction signo .dfx with
      oldSigactionList := Function.update cleared.oldSigactionList signo (s.dispositions signo)}
  else cleared

def signalDefault (signo : ℕ) (s : Process) : Process :=
  if SigactionAllowed signo then s.setAction signo ⟨.sigDfl, 0, saRestart⟩ else s

def resetAndRethrowSignalIfNeed (signo : ℕ) (s : Process) : Process :=
  if isDumpSignal signo then s
  else if (s.oldSigactionList signo).sigaction = .sigDfl then s.signalDefault signo
  else if SigactionAllowed signo then s.setAction signo (s.oldSigactionList signo)
  else s.signalDefault signo

end Process

structure Sigchain where
  addSpecialSignalHandler : ℕ → (ℕ → Sigaction) → ℕ → Sigaction
  addSpecialHandlerAtLast : ℕ → (ℕ → Sigaction) → ℕ → Sigaction

inductive InstallStep where
  | sigAction (signo : ℕ)
  | special (signo : ℕ)
  | specialAtLast (signo : ℕ)
deriving DecidableEq

def sigchainDumpSignalList : List ℕ := [sigdump, sigleakStack]

def sigchainCrashSignalList : List ℕ := [sigill, sigabrt, sigbus, sigfpe, sigsegv, sigstkflt, sigsys, sigtrap]

def installSteps : List InstallStep :=
  (sigchainDumpSignalList.map fun signo =>
      if signo=sigleakStack then InstallStep.sigAction signo else InstallStep.special signo) ++
    sigchainCrashSignalList.flatMap fun signo =>
      (if signo=sigill ∨ signo=sigsys then [InstallStep.sigAction signo] else [InstallStep.specialAtLast signo]) ++
        if signo = sigsegv then [InstallStep.sigAction signo] else []

variable (chain : Sigchain) (table : ℕ → Sigaction)

def install : InstallStep → Process → Process
  | .sigAction signo, s => s.installSigActionHandler signo
  | .special signo, s => {s with dispositions := chain.addSpecialSignalHandler signo s.dispositions}
  | .specialAtLast signo, s => {s with dispositions := chain.addSpecialHandlerAtLast signo s.dispositions}

def dfxInstallSignalHandler (s : Process) : Process :=
  if s.hasInit then s else {run (install chain) installSteps s with hasInit := true}

def installed (steps : List InstallStep) : Process := run (install chain) steps (.start table)

/-- The saved entry of every plainly installed signal is its previous action, installing it leaves the other entries
alone, and the reset gives the signal its previous action back. -/
def PreviousRestored : Prop :=
  ∀ before signo after, installSteps = before ++ .sigAction signo::after →
    let final := dfxInstallSignalHandler chain (.start table)
    final.oldSigactionList signo = (installed chain table before).dispositions signo ∧
      (∀ u, u≠signo → (installed chain table (before++[InstallStep.sigAction signo])).oldSigactionList u =
        (installed chain table before).oldSigactionList u) ∧
      (final.resetAndRethrowSignalIfNeed signo).dispositions signo = (installed chain table before).dispositions signo

/-- The previous action is saved, and given back on a crash, but left alone for a dump signal. -/
structure Saved (signo : ℕ) (previous : Sigaction) (s : Process) : Prop where
  entry : s.oldSigactionList signo = previous
  /-- As long as the entry is there, a crash signal gets its handler back, and its whole action when it had one. -/
  reset : ∀ later : Process, later.oldSigactionList signo = previous → isDumpSignal signo = false →
    ((later.resetAndRethrowSignalIfNeed signo).dispositions signo).sigaction = previous.sigaction ∧
      (previous.sigaction ≠ .sigDfl → (later.resetAndRethrowSignalIfNeed signo).dispositions signo=previous)
  kept : isDumpSignal signo = true → ∀ later : Process, later.resetAndRethrowSignalIfNeed signo = later

def InstallStep.signo : InstallStep → ℕ
  | .sigAction signo | .special signo | .specialAtLast signo => signo

theorem allowed_of_mem_installSteps : ∀ i∈installSteps, Process.SigactionAllowed i.signo := by decide

section Reset
variable {signo : ℕ} {prev : Sigaction} {s : Process}

theorem setAction_self (action : Sigaction) : (s.setAction signo action).dispositions signo=action := update_self ..

theorem reset_default (hd : isDumpSignal signo=false) (ha : Process.SigactionAllowed signo)
    (hn : (s.oldSigactionList signo).sigaction=.sigDfl) :
    (s.resetAndRethrowSignalIfNeed signo).dispositions signo=⟨.sigDfl, 0, saRestart⟩ := by
  rw [Process.resetAndRethrowSignalIfNeed, if_neg (by simp [hd]), if_pos hn, Process.signalDefault,
    if_pos ha, setAction_self]

theorem reset_saved (hd : isDumpSignal signo=false) (ha : Process.SigactionAllowed signo)
    (hn : (s.oldSigactionList signo).sigaction≠.sigDfl) :
    (s.resetAndRethrowSignalIfNeed signo).dispositions signo=s.oldSigactionList signo := by
  rw [Process.resetAndRethrowSignalIfNeed, if_neg (by simp [hd]), if_neg hn, if_pos ha, setAction_self]

theorem saved_of_entry (ha : Process.SigactionAllowed signo) (he : s.oldSigactionList signo=prev) :
    Saved signo prev s where
  entry := he
  reset later hl hd := by
    by_cases hn : prev.sigaction=.sigDfl
    · rw [reset_default hd ha (by rw [hl, hn])]
      exact ⟨hn.symm, fun hne => absurd hn hne⟩
    · rw [reset_saved hd ha (by rwa [hl]), hl]
      exact ⟨rfl, fun _ => rfl⟩
  kept hd later := by rw [Process.resetAndRethrowSignalIfNeed, if_pos hd]

theorem installSigActionHandler_entry (ha : Process.SigactionAllowed signo) :
    (s.installSigActionHandler signo).oldSigactionList signo=s.dispositions signo := by
  rw [Process.installSigActionHandler, if_pos ha]
  exact update_self ..

theorem installSigActionHandler_dispositions {u : ℕ} (hu : u≠signo) :
    (s.installSigActionHandler signo).dispositions u=s.dispositions u := by
  rw [Process.installSigActionHandler]
  split_ifs
  · exact update_of_ne hu ..
  · rfl

end Reset

theorem run_oldSigactionList {steps : List InstallStep} (hs : ∀ u, .sigAction u∉steps) (s : Process) :
    (run (install chain) steps s).oldSigactionList=s.oldSigactionList := by
  induction steps generalizing s with
  | nil => rfl
  | cons i steps ih =>
    rw [run_cons, ih fun u hu => hs u (mem_cons_of_mem i hu)]
    cases i with
    | sigAction u => exact absurd mem_cons_self (hs u)
    | special u | specialAtLast u => rfl

/-- A plainly installed signal, right after its installation and, if it is the last one, after all of them. -/
theorem previous_saved (before : List InstallStep) (signo : ℕ) (after : List InstallStep)
    (h : installSteps=before ++ .sigAction signo::after) :
    Saved signo ((installed chain table before).dispositions signo)
        (installed chain table (before++[InstallStep.sigAction signo])) ∧
      (∀ u, u≠signo → (installed chain table (before++[InstallStep.sigAction signo])).dispositions u =
        (installed chain table before).dispositions u) ∧
      ((∀ u, .sigAction u ∉ after) → Saved signo ((installed chain table before).dispositions signo)
        (dfxInstallSignalHandler chain (.start table))) := by
  have ha : Process.SigactionAllowed signo := allowed_of_mem_installSteps (.sigAction signo) (by rw [h]; simp)
  have hn : installed chain table (before++[InstallStep.sigAction signo]) =
      (installed chain table before).installSigActionHandler signo := by
    rw [installed, run_append]
    rfl
  have he : (installed chain table (before++[InstallStep.sigAction signo])).oldSigactionList signo =
      (installed chain table before).dispositions signo := by
    rw [hn, installSigActionHandler_entry ha]
  refine ⟨saved_of_entry ha he, fun u hu => ?_, fun hl => saved_of_entry ha ?_⟩
  · rw [hn, installSigActionHandler_dispositions hu]
  · have hf : (dfxInstallSignalHandler chain (.start table)).oldSigactionList =
        (run (install chain) after
          (installed chain table (before++[InstallStep.sigAction signo]))).oldSigactionList := by
      rw [installed, ←run_append, append_assoc, singleton_append, ←h]
      rfl
    rw [hf, run_oldSigactionList chain hl, he]

/-- A chain that puts its own handler in place, and an application that handles every signal itself. -/
def sampleChain : Sigchain where
  addSpecialSignalHandler signo d := Function.update d signo ⟨.other 1, 0, saSiginfo⟩
  addSpecialHandlerAtLast signo d := Function.update d signo ⟨.other 1, 0, saSiginfo⟩

def appAction : Sigaction := ⟨.other 7, 0, saSiginfo⟩

def beforeSigsys : List InstallStep :=
  [.special sigdump, .sigAction sigleakStack, .sigAction sigill, .specialAtLast sigabrt, .specialAtLast sigbus,
    .specialAtLast sigfpe, .specialAtLast sigsegv, .sigAction sigsegv, .specialAtLast sigstkflt]

theorem sigsys_saved : Saved sigsys appAction (dfxInstallSignalHandler sampleChain (.start fun _ => appAction)) :=
  (previous_saved sampleChain (fun _ => appAction) beforeSigsys sigsys [.specialAtLast sigtrap] (by decide)).2.2
    (by simp)

/-- The leak signal keeps the handler it was given. -/
theorem leak_signal_not_restored : ¬PreviousRestored sampleChain fun _ => appAction := by
  intro h
  have hl := (h [.special sigdump] sigleakStack (installSteps.drop 2) (by decide)).2.2
  exact absurd hl (by decide)

end Faultloggerd.SignalHandler
