import Faultloggerd.Foundations.EventRuns

/-! # The flags of the offline parser (`dfx_offline_parser.cpp`)

Every `DfxOfflineParser` caches two process-wide flags when it is constructed and writes them back when it is destroyed.
Only the oldest of the living parsers has cached the flags of before; the others have cached what a constructor sets.
-/
namespace Faultloggerd.Unwinder.OfflineParser
open List Foundations.EventRuns

structure UnwinderConfig where
  enableMiniDebugInfo : Bool
  enableLoadSymbolLazily : Bool

def parsing : UnwinderConfig := ⟨false, true⟩

/-- The flags, and what the living parsers have cached, the oldest first. -/
structure Process where
  config : UnwinderConfig
  cached : List UnwinderConfig

inductive Event where
  | construct
  | destroy (parser : ℕ)

def step : Event → Process → Process
  | .construct, s => ⟨parsing, s.cached++[s.config]⟩
  | .destroy i, s =>
    match s.cached[i]? with
    | none => s
    | some config => ⟨config, s.cached.eraseIdx i⟩

/-- While a parser lives the flags are those for parsing, otherwise the `initial` ones. -/
def Restores (initial : UnwinderConfig) (s : Process) : Prop :=
  s.config = if s.cached = [] then initial else parsing

/-- The oldest parser is not destroyed while another one lives, unless it writes back what they want. -/
def OldestLast (initial : UnwinderConfig) (s : Process) : Event → Prop
  | .construct => True
  | .destroy i => i = 0 → initial = parsing ∨ s.cached.length ≤ 1

def living (initial : UnwinderConfig) : ℕ → Process
  | 0 => ⟨initial, []⟩
  | n+1 => ⟨parsing, initial :: replicate n parsing⟩

variable {initial : UnwinderConfig}

theorem restores_living (n : ℕ) : Restores initial (living initial n) := by
  cases n <;> simp [Restores, living]

theorem step_construct (n : ℕ) : step .construct (living initial n)=living initial (n+1) := by
  cases n with
  | zero => rfl
  | succ n => simp [step, living, replicate_succ']

theorem oldestLast_of_restores {n : ℕ} {e : Event} (h : Restores initial (step e (living initial n))) :
    OldestLast initial (living initial n) e := by
  match e, n with
  | .construct, _ => trivial
  | .destroy (_+1), _ => exact nofun
  | .destroy 0, 0 | .destroy 0, 1 => simp [OldestLast, living]
  | .destroy 0, _+2 => exact fun _ => .inl (by simpa [Restores, step, living] using h)

theorem step_living (n : ℕ) (e : Event) (h : OldestLast initial (living initial n) e) :
    ∃ m, step e (living initial n)=living initial m := by
  match e, n with
  | .construct, n => exact ⟨n+1, step_construct n⟩
  | .destroy _, 0 => exact ⟨0, rfl⟩
  | .destroy 0, 1 => exact ⟨0, rfl⟩
  | .destroy 0, n+2 =>
    obtain rfl | hl := h rfl
    · exact ⟨n+1, rfl⟩
    · simp [living] at hl
  | .destroy (i+1), n+1 =>
    by_cases hi : i<n
    · obtain ⟨n, rfl⟩ := Nat.exists_eq_succ_of_ne_zero (Nat.ne_zero_of_lt hi)
      exact ⟨n+1, by simp [step, living, eraseIdx_replicate, hi]⟩
    · exact ⟨n+1, by simp [step, living, hi]⟩

/-- The flags are right after every event of a run exactly when the oldest parser is never destroyed before the others.
-/
theorem parsers_restore_configuration (initial : UnwinderConfig) (events : List Event) :
    Every step (fun s e => Restores initial (step e s)) events ⟨initial, []⟩ ↔
      Every step (OldestLast initial) events ⟨initial, []⟩ := by
  apply every_congr (fun s => ∃ n, s=living initial n) _ ⟨0, rfl⟩
  · rintro _ e ⟨n, rfl⟩
    refine ⟨oldestLast_of_restores, fun h => ?_⟩
    obtain ⟨m, hm⟩ := step_living n e h
    rw [hm]
    exact restores_living m
  · rintro _ e ⟨n, rfl⟩ h
    exact step_living n e (oldestLast_of_restores h)

/-- The parser that was made first goes first; when both are gone, the flags are still set. -/
theorem overlapping_parsers_leave_flags : ¬Restores ⟨true, false⟩
      (run step [.construct, .construct, .destroy 0] ⟨⟨true, false⟩, []⟩) ∧
    ¬Restores ⟨true, false⟩ (run step [.construct, .construct, .destroy 0, .destroy 0] ⟨⟨true, false⟩, []⟩) := by
  simp [Restores, step, parsing]

end Faultloggerd.Unwinder.OfflineParser
