import Faultloggerd.Formatter.ThreadStack

/-! # A JSON stack formatted in a child process

`DfxJsonFormatter::FormatJsonStack` lets a child parse the symbols. The child sends the JSON, a marker and the text
through a pipe, and the parent splits what it receives at the marker; without it the parent formats the stack itself.
-/
namespace Faultloggerd.Formatter
open List Foundations.StdString

def connectionStack : List Char := ", out stack string:".toList

def maxThreadCount : ℕ := 10000

/-- What became of the child: whether it was forked, how many bytes of its text reached the parent, and whether it
exited with 0 in time. -/
structure Fork where
  forked : Bool
  received : ℕ
  exited : Bool

section

variable {Parser : Type} (tools : Tools Parser) (threads : List Json) (fork : Fork)

/-- `StackJsonFormatter::FormatJsonStack`: the JSON and the text. -/
def formatThreads (onlyParseBuildId : Bool) : Except Failure (List Char × List Char) :=
  if threads.length > maxThreadCount then .error .refused
  else ((threads.mapM (formatJsonThreadStack tools onlyParseBuildId)).run'
    (tools.dfxOfflineParser onlyParseBuildId)).map
    fun formatted => (tools.write (formatted.map Prod.fst), formatted.flatMap Prod.snd)

/-- What the child sends; one that throws is aborted before it sends anything. -/
def parseSymbolTask : List Char :=
  match formatThreads tools threads false with
  | .ok (outStackJson, outStackStr) => outStackJson ++ connectionStack ++ outStackStr
  | .error .refused => connectionStack
  | .error .thrown => []

def executeTaskByFork (text : List Char) : Option (List Char) :=
  if fork.forked ∧ fork.exited ∧ text.take fork.received ≠ [] then some (text.take fork.received) else none

/-- What the parent takes from the child. -/
def transported : Option (List Char×List Char) :=
  (executeTaskByFork fork (parseSymbolTask tools threads)).bind fun text =>
    (search connectionStack text).map fun pos => (text.take pos, text.drop (pos+connectionStack.length))

/-- `DfxJsonFormatter::FormatJsonStack` for threads with a positive dump result whose symbols are to be parsed. -/
def formatJsonStack : Except Failure (List Char × List Char) :=
  match transported tools threads fork with
  | some out => .ok out
  | none => formatThreads tools threads true

/-- What is returned with true comes from a run that returned true, in the child or in the parent. -/
def Faithful : Prop := ∀ out, formatJsonStack tools threads fork = .ok out →
  fork.forked ∧ formatThreads tools threads false = .ok out ∨
    transported tools threads fork = none ∧ formatThreads tools threads true = .ok out

theorem faithful_iff_transported : Faithful tools threads fork ↔
    ∀ out, transported tools threads fork=some out → formatThreads tools threads false = .ok out := by
  unfold Faithful formatJsonStack
  cases ht : transported tools threads fork with
  | none => simp +contextual
  | some out =>
    have hf : fork.forked = true := by
      by_contra hf
      simp [transported, executeTaskByFork, hf] at ht
    simp [hf]

/-- The marker has a comma at its start only, so that one that starts in the JSON ends in it. -/
theorem search_marker_iff (json text : List Char) : search connectionStack (json++connectionStack++text) =
    some json.length ↔ ¬connectionStack <:+: json := by
  rw [append_assoc, search_eq_some_iff (by decide), drop_left]
  constructor
  · rintro ⟨-, h⟩ ⟨u, v, rfl⟩
    refine h u.length ?_ ?_
    · have : connectionStack.length=19 := rfl
      simp
      omega
    · simp
  · intro h
    refine ⟨prefix_append _ _, fun i hi hp => ?_⟩
    rw [drop_append_of_le_length (by omega)] at hp
    by_cases hl : connectionStack.length≤(json.drop i).length
    · exact h ((prefix_of_prefix_length_le hp (prefix_append _ _) hl).isInfix.trans (drop_suffix _ _).isInfix)
    · have hc : ∀ d<connectionStack.length, 1≤d → connectionStack[d]?≠some ',' := by decide
      apply hc (json.drop i).length (by omega)
      · rw [length_drop]
        omega
      · obtain ⟨t, ht⟩ := hp
        have hd := congrArg (·[(json.drop i).length]?) ht
        rw [getElem?_append_left (by omega), getElem?_append_right (Nat.le_refl _), Nat.sub_self] at hd
        rw [hd]
        rfl

variable {fork} in
theorem transported_eq (hf : fork.forked) (he : fork.exited) {received : List Char}
    (hr : (parseSymbolTask tools threads).take fork.received=received) : transported tools threads fork =
      (search connectionStack received).map fun pos =>
        (received.take pos, received.drop (pos+connectionStack.length)) := by
  rw [transported, executeTaskByFork, hr]
  by_cases hn : received=[]
  · rw [hn, if_neg (by simp), search, if_neg (by decide)]
    rfl
  · rw [if_pos ⟨hf, he, hn⟩]
    rfl

/-- Exactly when what is returned is what the formatter produced: the parent takes nothing from the child, or the child
succeeded, all of its text has arrived and the JSON does not hold the marker. -/
theorem faithful_iff : Faithful tools threads fork ↔ ¬fork.forked ∨ ¬fork.exited ∨
    ¬connectionStack <:+: (parseSymbolTask tools threads).take fork.received ∨
      ∃ out, formatThreads tools threads false = .ok out ∧ ¬connectionStack <:+: out.1 ∧
        (parseSymbolTask tools threads).length ≤ fork.received := by
  rw [faithful_iff_transported]
  by_cases hf : fork.forked
  swap
  · simp [transported, executeTaskByFork, hf]
  by_cases he : fork.exited
  swap
  · simp [transported, executeTaskByFork, he]
  generalize hr : (parseSymbolTask tools threads).take fork.received=received
  rw [transported_eq tools threads hf he hr, ←search_isSome_iff (by decide)]
  cases hs : search connectionStack received with
  | none => simp
  | some pos =>
    have hc := eq_of_search (by decide) hs
    simp only [hf, he, not_true, false_or, Option.isSome_some, Option.map_some, Option.some.injEq, forall_eq']
    constructor
    · intro h
      refine ⟨_, h, ?_, ?_⟩
      · rw [←search_marker_iff _ (received.drop (pos+connectionStack.length)), ←hc, hs]
        have hp := ((search_eq_some_iff (by decide)).mp hs).1.length_le
        have hl : 0<connectionStack.length := by decide
        rw [length_drop] at hp
        rw [length_take, Nat.min_eq_left (by omega)]
      · have ht : (parseSymbolTask tools threads).length=received.length := by
          rw [parseSymbolTask, h]
          exact congrArg length hc.symm
        rw [ht, ←hr]
        exact length_take_le ..
    · rintro ⟨⟨json, text⟩, h, hm, hl⟩
      rw [take_of_length_le hl, parseSymbolTask, h] at hr
      subst hr
      rw [(search_marker_iff json text).mpr hm, Option.some.injEq] at hs
      subst hs
      simp [h]

end

/-- Tools whose parser finds nothing, and what the writer makes of `markedThread`. -/
def markedTools : Tools Unit :=
  ⟨fun _ => (), fun frame parser => ((false, frame), parser), fun _ => 0,
    fun _ => "[\x7b\"thread_name\":\", out stack string:\",\"tid\":5\x7d]\n".toList⟩

def markedThread : Json := .object [("thread_name", .string connectionStack), ("tid", .int 5)]

/-- A child that is refused is reported as a success with empty texts; a JSON that holds the marker is cut there. -/
theorem transport_unfaithful : ¬Faithful markedTools (replicate 10001 .null) ⟨true, 19, true⟩ ∧
    ¬Faithful markedTools [markedThread] ⟨true, 100, true⟩ := by
  constructor
  · have hr : ∀ build, formatThreads markedTools (replicate 10001 .null) build = .error .refused := by
      intro build
      rw [formatThreads, length_replicate]
      rfl
    have ht : transported markedTools (replicate 10001 .null) ⟨true, 19, true⟩ = some ([], []) := by
      rw [transported, parseSymbolTask, hr]
      rfl
    rw [faithful_iff_transported]
    intro h
    have hf := h _ ht
    rw [hr] at hf
    cases hf
  · have hf : formatThreads markedTools [markedThread] false = .ok (markedTools.write [], []) := rfl
    rw [faithful_iff_transported]
    intro h
    rw [hf] at h
    have ht : transported markedTools [markedThread] ⟨true, 100, true⟩ =
        some ("[\x7b\"thread_name\":\"".toList, "\",\"tid\":5\x7d]\n, out stack string:".toList) := by
      rw [transported, parseSymbolTask, hf]
      rfl
    have hc := congrArg (fun out => out.toOption.map fun out => out.1.length) (h _ ht)
    exact absurd hc (by decide)

end Faultloggerd.Formatter
