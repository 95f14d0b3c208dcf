import Lumio.Proxy.ChatTools

/-!
# The usage of a response

The token counters of an upstream answer, in the fields of three providers, and what a response reports of them. A sum of
counters is of 64-bit numbers; `none` is a sum that does not fit.
-/

namespace Lumio.Proxy

namespace Value

def pointer (first second : String) (value : Value) : Option Value := (value.get first).bind (·.get second)

def counter (key : String) (value : Value) : Option Nat := (value.get key).bind asU64

def ofNat (n : Nat) : Value := number (toString n).toList (some n)

def ofFields (fields : List (String × Option Value)) : Value :=
  object (fields.filterMap fun field => field.2.map fun value => (field.1, value))

end Value

/-- A number that may not be there, or not be a number. -/
def tokens (value : Option Value) : Nat := (value.bind Value.asU64).getD 0

def checkedAdd (a b : Nat) : Option Nat := if a + b < 2 ^ 64 then some (a + b) else none

theorem checkedAdd_eq_some {a b c : Nat} : checkedAdd a b = some c ↔ a + b < 2 ^ 64 ∧ a + b = c := by
  unfold checkedAdd
  split
  · rename_i h
    rw [Option.some.injEq]
    exact ⟨fun heq => ⟨h, heq⟩, fun hsum => hsum.2⟩
  · rename_i h
    exact ⟨nofun, fun hsum => absurd hsum.1 h⟩

/-- What is read from a usage, once the fields of one provider have overridden those of another. -/
structure UsageCounters where
  inputTokens : Nat
  inputTokensIncludeCache : Bool
  outputTokens : Nat
  cachedTokens : Nat
  cacheCreation : Nat
  cacheCreation5m : Nat
  cacheCreation1h : Nat

section Reading

variable (usage : Value)

def hasClaudeCacheFields : Bool :=
  (usage.get "cache_read_input_tokens").isSome || (usage.get "cache_creation_input_tokens").isSome ||
    (usage.get "cache_creation_5m_input_tokens").isSome || (usage.get "cache_creation_1h_input_tokens").isSome

def inputField : Option Value :=
  usage.get "prompt_tokens" <|> usage.get "input_tokens" <|> usage.get "promptTokenCount"

def outputField : Option Value :=
  usage.get "completion_tokens" <|> usage.get "output_tokens" <|> usage.get "candidatesTokenCount"

def cachedField : Option Value :=
  usage.pointer "prompt_tokens_details" "cached_tokens" <|> usage.pointer "input_tokens_details" "cached_tokens" <|>
    usage.get "cachedContentTokenCount"

/-- Whether anything is said of the cache in the fields of OpenAI or Gemini. -/
def hasCacheDetails : Bool :=
  decide (0 < tokens (cachedField usage)) || (usage.pointer "prompt_tokens_details" "cached_tokens").isSome ||
    (usage.pointer "input_tokens_details" "cached_tokens").isSome

/-- The counters as the fields of OpenAI give them. -/
def firstCounters : UsageCounters where
  inputTokens := tokens (inputField usage)
  inputTokensIncludeCache := (usage.get "prompt_tokens").isSome
  outputTokens := tokens (outputField usage)
  cachedTokens := tokens (cachedField usage)
  cacheCreation := tokens (usage.get "cache_creation_input_tokens")
  cacheCreation5m := tokens (usage.get "cache_creation_5m_input_tokens")
  cacheCreation1h := tokens (usage.get "cache_creation_1h_input_tokens")

/-- The fields of Claude. -/
def overrideInput (counters : UsageCounters) : UsageCounters :=
  match usage.counter "input_tokens" with
  | some value => { counters with inputTokens := value, inputTokensIncludeCache := false }
  | none => counters

def overrideCached (counters : UsageCounters) : UsageCounters :=
  match usage.counter "cache_read_input_tokens" with
  | some cacheRead => { counters with cachedTokens := cacheRead }
  | none => counters

/-- The fields of Gemini. -/
def overridePrompt (counters : UsageCounters) : UsageCounters :=
  match usage.counter "promptTokenCount" with
  | some promptTokens =>
    let cachedTokens := (usage.counter "cachedContentTokenCount").getD 0
    { counters with cachedTokens, inputTokens := promptTokens - cachedTokens, inputTokensIncludeCache := false }
  | none => counters

def usageCounters : UsageCounters := overridePrompt usage (overrideCached usage (overrideInput usage (firstCounters usage)))

end Reading

namespace UsageCounters

variable (counters : UsageCounters)

def effectiveCacheCreationTokens : Option Nat :=
  if 0 < counters.cacheCreation then some counters.cacheCreation
  else checkedAdd counters.cacheCreation5m counters.cacheCreation1h

def usageInputTokens : Option Nat :=
  if counters.inputTokensIncludeCache then do
    let cacheCreation ← counters.effectiveCacheCreationTokens
    let cache ← checkedAdd counters.cachedTokens cacheCreation
    some (counters.inputTokens - cache)
  else some counters.inputTokens

/-- The total is added up anew if the upstream one may leave the cache out. -/
def shouldRecalculateTotal (usage : Value) : Option Bool :=
  if (usage.get "total_tokens").isNone || decide (0 < counters.cachedTokens) then some true
  else do
    let cacheCreation ← counters.effectiveCacheCreationTokens
    some (decide (0 < cacheCreation) || (usage.get "promptTokenCount").isSome)

def recalculatedTotal (inputTokens : Nat) : Option Nat := do
  let output ← checkedAdd inputTokens counters.outputTokens
  let cached ← checkedAdd output counters.cachedTokens
  let cacheCreation ← counters.effectiveCacheCreationTokens
  checkedAdd cached cacheCreation

def totalTokens (usage : Value) (inputTokens : Nat) : Option Nat := do
  let recalculate ← counters.shouldRecalculateTotal usage
  if recalculate then counters.recalculatedTotal inputTokens
  else do
    let sum ← checkedAdd inputTokens counters.outputTokens
    some ((usage.counter "total_tokens").getD sum)

def cacheTtl : Option Value :=
  match decide (0 < counters.cacheCreation5m), decide (0 < counters.cacheCreation1h) with
  | true, true => some (.ofStr "mixed")
  | true, false => some (.ofStr "5m")
  | false, true => some (.ofStr "1h")
  | false, false => none

/-- The cached tokens are told apart, unless the fields of Claude do that. -/
def cachedDetails (usage : Value) : Option Value :=
  if !hasClaudeCacheFields usage && hasCacheDetails usage && decide (0 < counters.cachedTokens) then
    some (.object [("cached_tokens", .ofNat counters.cachedTokens)])
  else none

end UsageCounters

def defaultResponsesUsage : Value :=
  .object [("input_tokens", .ofNat 0), ("output_tokens", .ofNat 0), ("total_tokens", .ofNat 0)]

def usageFields (usage : Value) (counters : UsageCounters) (inputTokens totalTokens : Nat) :
    List (String × Option Value) :=
  [("input_tokens", some (.ofNat inputTokens)), ("output_tokens", some (.ofNat counters.outputTokens)),
    ("total_tokens", some (.ofNat totalTokens)), ("input_tokens_details", counters.cachedDetails usage),
    ("output_tokens_details", usage.get "completion_tokens_details"),
    ("cache_read_input_tokens", usage.get "cache_read_input_tokens"),
    ("cache_creation_input_tokens", usage.get "cache_creation_input_tokens"),
    ("cache_creation_5m_input_tokens", usage.get "cache_creation_5m_input_tokens"),
    ("cache_creation_1h_input_tokens", usage.get "cache_creation_1h_input_tokens"),
    ("cache_ttl", counters.cacheTtl)]

def chatUsageToResponsesUsage (usage : Option Value) : Option Value :=
  match usage.filter (·.isObject) with
  | none => some defaultResponsesUsage
  | some usage => do
    let counters := usageCounters usage
    let inputTokens ← counters.usageInputTokens
    let totalTokens ← counters.totalTokens usage inputTokens
    some (.ofFields (usageFields usage counters inputTokens totalTokens))

/-! ## What the upstream counts -/

/-- The prompt of a provider that counts the cache in it: of Gemini, or else of OpenAI if Claude's field is not there. -/
def inclusivePrompt (usage : Value) : Option Nat :=
  match usage.counter "promptTokenCount" with
  | some prompt => some prompt
  | none => if (usage.counter "input_tokens").isSome then none else usage.counter "prompt_tokens"

def upstreamCompletion (usage : Value) : Nat := tokens (outputField usage)

def upstreamCached (usage : Value) : Nat :=
  if (usage.counter "promptTokenCount").isSome then (usage.counter "cachedContentTokenCount").getD 0
  else (usage.counter "cache_read_input_tokens").getD (tokens (cachedField usage))

/-- The tokens that were written to the cache, as one counter or by lifetime. -/
def upstreamCreation (usage : Value) : Nat :=
  if 0 < tokens (usage.get "cache_creation_input_tokens") then tokens (usage.get "cache_creation_input_tokens")
  else tokens (usage.get "cache_creation_5m_input_tokens") + tokens (usage.get "cache_creation_1h_input_tokens")

/-- The prompt and the cache, with what the prompt counts of the cache taken once. -/
def upstreamInput (usage : Value) : Nat :=
  match usage.counter "promptTokenCount" with
  | some prompt => max prompt (upstreamCached usage) + upstreamCreation usage
  | none =>
    match usage.counter "input_tokens" with
    | some prompt => prompt + upstreamCached usage + upstreamCreation usage
    | none => max (tokens (usage.get "prompt_tokens")) (upstreamCached usage + upstreamCreation usage)

/-! ## What is reported -/

def reportedCached (result : Value) : Nat :=
  match result.get "cache_read_input_tokens" with
  | some cacheRead => tokens (some cacheRead)
  | none => tokens (result.pointer "input_tokens_details" "cached_tokens")

/-- No sum overflows, and where the prompt counts the cache the reported parts add up to it. -/
def Conserves (usage : Value) : Prop :=
  ∃ result, chatUsageToResponsesUsage (some usage) = some result ∧
    ∀ prompt, inclusivePrompt usage = some prompt → upstreamCached usage + upstreamCreation usage ≤ prompt →
      tokens (result.get "input_tokens") + reportedCached result + upstreamCreation result = prompt ∧
        tokens (result.get "total_tokens") = prompt + upstreamCompletion usage

/-- The cached tokens that are told apart: those of Claude's field, and else all if Claude's other fields are not there. -/
def shownCached (usage : Value) : Nat :=
  match usage.get "cache_read_input_tokens" with
  | some cacheRead => tokens (some cacheRead)
  | none => if hasClaudeCacheFields usage then 0 else upstreamCached usage

/-- The upstream total is taken as it is. -/
def copiesTotal (usage : Value) : Bool :=
  (usage.get "total_tokens").isSome && decide (upstreamCached usage + upstreamCreation usage = 0) &&
    (usage.get "promptTokenCount").isNone

/-- What a usage has to be for its tokens to be conserved. -/
structure SoundUsage (usage : Value) : Prop where
  fits : upstreamInput usage + upstreamCompletion usage < 2 ^ 64
  adds : ∀ prompt, inclusivePrompt usage = some prompt → upstreamCached usage + upstreamCreation usage ≤ prompt →
    shownCached usage = upstreamCached usage ∧
      ((usage.counter "promptTokenCount").isSome = true → upstreamCreation usage = 0) ∧
      (copiesTotal usage = true → ∀ total, usage.counter "total_tokens" = some total →
        total = prompt + upstreamCompletion usage)

/-! ## The counters that are used -/

/-- The prompt without what it counts of the cache. -/
def netInput (usage : Value) : Nat :=
  match usage.counter "promptTokenCount" with
  | some prompt => prompt - upstreamCached usage
  | none =>
    match usage.counter "input_tokens" with
    | some prompt => prompt
    | none => tokens (usage.get "prompt_tokens") - (upstreamCached usage + upstreamCreation usage)

section Counters

variable (usage : Value)

theorem tokens_get (key : String) : tokens (usage.get key) = (usage.counter key).getD 0 := rfl

theorem cachedTokens_eq : (usageCounters usage).cachedTokens = upstreamCached usage := by
  unfold usageCounters overridePrompt upstreamCached
  cases usage.counter "promptTokenCount" with
  | some prompt => rfl
  | none =>
    unfold overrideCached
    cases usage.counter "cache_read_input_tokens" with
    | some cacheRead => rfl
    | none =>
      unfold overrideInput
      cases usage.counter "input_tokens" <;> rfl

theorem outputTokens_eq : (usageCounters usage).outputTokens = upstreamCompletion usage := by
  unfold usageCounters overridePrompt overrideCached overrideInput
  cases usage.counter "promptTokenCount" <;> cases usage.counter "cache_read_input_tokens" <;>
    cases usage.counter "input_tokens" <;> rfl

theorem creation_eq : (usageCounters usage).cacheCreation = tokens (usage.get "cache_creation_input_tokens") ∧
    (usageCounters usage).cacheCreation5m = tokens (usage.get "cache_creation_5m_input_tokens") ∧
      (usageCounters usage).cacheCreation1h = tokens (usage.get "cache_creation_1h_input_tokens") := by
  unfold usageCounters overridePrompt overrideCached overrideInput
  cases usage.counter "promptTokenCount" <;> cases usage.counter "cache_read_input_tokens" <;>
    cases usage.counter "input_tokens" <;> exact ⟨rfl, rfl, rfl⟩

theorem input_cases :
    (usageCounters usage).inputTokensIncludeCache = false ∧ (usageCounters usage).inputTokens = netInput usage ∨
      (usageCounters usage).inputTokensIncludeCache = true ∧ usage.counter "promptTokenCount" = none ∧
        usage.counter "input_tokens" = none ∧
          (usageCounters usage).inputTokens = tokens (usage.get "prompt_tokens") := by
  unfold usageCounters overridePrompt netInput upstreamCached
  cases hprompt : usage.counter "promptTokenCount" with
  | some prompt => exact .inl ⟨rfl, rfl⟩
  | none =>
    have hcached : ∀ counters : UsageCounters,
        (overrideCached usage counters).inputTokensIncludeCache = counters.inputTokensIncludeCache ∧
          (overrideCached usage counters).inputTokens = counters.inputTokens := by
      intro counters
      unfold overrideCached
      split <;> exact ⟨rfl, rfl⟩
    simp only [hcached]
    unfold overrideInput
    cases hinput : usage.counter "input_tokens" with
    | some prompt => exact .inl ⟨rfl, rfl⟩
    | none =>
      simp only [firstCounters, inputField]
      cases hopenai : usage.get "prompt_tokens" with
      | some prompt => exact .inr ⟨rfl, trivial, trivial, rfl⟩
      | none =>
        left
        refine ⟨rfl, ?_⟩
        -- neither of the other fields holds a counter
        show tokens (usage.get "input_tokens" <|> usage.get "promptTokenCount") = 0 - _
        rw [Nat.zero_sub]
        cases hclaude : usage.get "input_tokens" with
        | some value =>
          rw [Value.counter, hclaude] at hinput
          show (value.asU64).getD 0 = 0
          rw [show value.asU64 = none from hinput]
          rfl
        | none =>
          show ((usage.get "promptTokenCount").bind Value.asU64).getD 0 = 0
          rw [show (usage.get "promptTokenCount").bind Value.asU64 = none from hprompt]
          rfl

theorem effective_cases :
    (usageCounters usage).effectiveCacheCreationTokens = some (upstreamCreation usage) ∨
      (usageCounters usage).effectiveCacheCreationTokens = none ∧ 2 ^ 64 ≤ upstreamCreation usage := by
  obtain ⟨hone, hshort, hlong⟩ := creation_eq usage
  unfold UsageCounters.effectiveCacheCreationTokens upstreamCreation checkedAdd
  rw [hone, hshort, hlong]
  split
  · exact .inl rfl
  · split
    · exact .inl rfl
    · rename_i hlarge
      exact .inr ⟨rfl, Nat.not_lt.mp hlarge⟩

theorem upstreamInput_eq : netInput usage + upstreamCached usage + upstreamCreation usage = upstreamInput usage := by
  unfold netInput upstreamInput
  cases usage.counter "promptTokenCount" with
  | some prompt =>
    simp only
    omega
  | none =>
    cases usage.counter "input_tokens" with
    | some prompt => rfl
    | none =>
      simp only
      omega

theorem usageInputTokens_cases : (usageCounters usage).usageInputTokens = some (netInput usage) ∨
    (usageCounters usage).usageInputTokens = none ∧ 2 ^ 64 ≤ upstreamInput usage := by
  have hsum := upstreamInput_eq usage
  unfold UsageCounters.usageInputTokens
  rcases input_cases usage with ⟨hinclude, hinput⟩ | ⟨hinclude, hgemini, hclaude, hinput⟩
  · rw [hinclude, if_neg Bool.false_ne_true, hinput]
    exact .inl rfl
  · have hnet : netInput usage =
        tokens (usage.get "prompt_tokens") - (upstreamCached usage + upstreamCreation usage) := by
      simp only [netInput, hgemini, hclaude]
    rw [if_pos hinclude, hinput, cachedTokens_eq]
    rcases effective_cases usage with heffective | ⟨heffective, hlarge⟩
    · rw [heffective]
      by_cases hfits : upstreamCached usage + upstreamCreation usage < 2 ^ 64
      · left
        simp only [Option.bind_eq_bind, Option.bind_some, checkedAdd, if_pos hfits, hnet]
      · right
        simp only [Option.bind_eq_bind, Option.bind_some, checkedAdd, if_neg hfits, Option.bind_none]
        exact ⟨trivial, by omega⟩
    · rw [heffective]
      exact .inr ⟨rfl, by omega⟩

theorem shouldRecalculateTotal_eq {recalculate : Bool}
    (h : (usageCounters usage).shouldRecalculateTotal usage = some recalculate) :
    recalculate = !copiesTotal usage := by
  unfold UsageCounters.shouldRecalculateTotal at h
  rw [cachedTokens_eq] at h
  unfold copiesTotal
  split at h
  · rename_i hshort
    cases h
    rw [Bool.or_eq_true, decide_eq_true_eq] at hshort
    rcases hshort with hnone | hcached
    · simp [Option.isNone_iff_eq_none.mp hnone]
    · simp [Nat.pos_iff_ne_zero.mp hcached]
  · rename_i hlong
    rw [Bool.or_eq_true, decide_eq_true_eq, not_or] at hlong
    rcases effective_cases usage with heffective | ⟨heffective, -⟩
    · rw [heffective] at h
      cases h
      obtain ⟨htotal, hcached⟩ := hlong
      have hzero : upstreamCached usage = 0 := by omega
      cases hcount : usage.get "promptTokenCount" <;> cases hupstream : usage.get "total_tokens" <;>
        simp_all [Nat.pos_iff_ne_zero]
    · rw [heffective] at h
      cases h

def netTotal (usage : Value) : Nat :=
  if copiesTotal usage then (usage.counter "total_tokens").getD (upstreamInput usage + upstreamCompletion usage)
  else upstreamInput usage + upstreamCompletion usage

theorem totalTokens_cases : (usageCounters usage).totalTokens usage (netInput usage) = some (netTotal usage) ∧
      upstreamInput usage + upstreamCompletion usage < 2 ^ 64 ∨
    (usageCounters usage).totalTokens usage (netInput usage) = none ∧
      2 ^ 64 ≤ upstreamInput usage + upstreamCompletion usage := by
  have hsum := upstreamInput_eq usage
  unfold UsageCounters.totalTokens
  cases hshould : (usageCounters usage).shouldRecalculateTotal usage with
  | none =>
    right
    refine ⟨rfl, ?_⟩
    rcases effective_cases usage with heffective | ⟨-, hlarge⟩
    · unfold UsageCounters.shouldRecalculateTotal at hshould
      rw [heffective] at hshould
      split at hshould <;> cases hshould
    · omega
  | some recalculate =>
    have hcopies := shouldRecalculateTotal_eq usage hshould
    simp only [Option.bind_eq_bind, Option.bind_some]
    cases recalculate with
    | true =>
      have hnot : copiesTotal usage = false := by simpa using hcopies.symm
      simp only [if_true, UsageCounters.recalculatedTotal, outputTokens_eq, cachedTokens_eq, netTotal, hnot,
        Bool.false_eq_true, if_false]
      rcases effective_cases usage with heffective | ⟨heffective, hlarge⟩
      · rw [heffective]
        by_cases hfits : upstreamInput usage + upstreamCompletion usage < 2 ^ 64
        · left
          simp only [checkedAdd, Option.bind_eq_bind]
          rw [if_pos (by omega), Option.bind_some, if_pos (by omega), Option.bind_some, Option.bind_some,
            if_pos (by omega)]
          refine ⟨?_, hfits⟩
          congr 1
          omega
        · right
          refine ⟨?_, Nat.not_lt.mp hfits⟩
          cases hresult : checkedAdd (netInput usage) (upstreamCompletion usage) with
          | none => rfl
          | some output =>
            obtain ⟨-, rfl⟩ := checkedAdd_eq_some.mp hresult
            cases hcached : checkedAdd (netInput usage + upstreamCompletion usage) (upstreamCached usage) with
            | none => simp only [Option.bind_eq_bind, Option.bind_some, hcached, Option.bind_none]
            | some cached =>
              obtain ⟨-, rfl⟩ := checkedAdd_eq_some.mp hcached
              simp only [Option.bind_eq_bind, Option.bind_some, hcached]
              exact if_neg (by omega)
      · right
        rw [heffective]
        refine ⟨?_, by omega⟩
        cases checkedAdd (netInput usage) (upstreamCompletion usage) with
        | none => rfl
        | some output =>
          simp only [Option.bind_eq_bind, Option.bind_some, Option.bind_none]
          cases checkedAdd output (upstreamCached usage) <;> rfl
    | false =>
      have hcopied : copiesTotal usage = true := by simpa using hcopies.symm
      have hzero : upstreamCached usage + upstreamCreation usage = 0 := by
        unfold copiesTotal at hcopied
        simp only [Bool.and_eq_true, decide_eq_true_eq] at hcopied
        exact hcopied.1.2
      simp only [Bool.false_eq_true, if_false, outputTokens_eq, netTotal, hcopied, if_true, checkedAdd]
      by_cases hfits : upstreamInput usage + upstreamCompletion usage < 2 ^ 64
      · left
        rw [if_pos (by omega), Option.bind_some]
        refine ⟨?_, hfits⟩
        congr 2
        omega
      · right
        rw [if_neg (by omega)]
        exact ⟨rfl, Nat.not_lt.mp hfits⟩

theorem chatUsageToResponsesUsage_cases (hobject : usage.isObject = true) :
    chatUsageToResponsesUsage (some usage) = some (.ofFields (usageFields usage (usageCounters usage) (netInput usage)
        (netTotal usage))) ∧ upstreamInput usage + upstreamCompletion usage < 2 ^ 64 ∨
      chatUsageToResponsesUsage (some usage) = none ∧ 2 ^ 64 ≤ upstreamInput usage + upstreamCompletion usage := by
  unfold chatUsageToResponsesUsage
  rw [Option.filter_some_pos hobject]
  simp only
  rcases usageInputTokens_cases usage with hinput | ⟨hinput, hlarge⟩
  · rw [hinput]
    simp only [Option.bind_eq_bind, Option.bind_some]
    rcases totalTokens_cases usage with ⟨htotal, hfits⟩ | ⟨htotal, hlarge⟩
    · rw [htotal]
      exact .inl ⟨rfl, hfits⟩
    · rw [htotal]
      exact .inr ⟨rfl, hlarge⟩
  · rw [hinput]
    exact .inr ⟨rfl, by omega⟩

end Counters

/-! ## What a response says -/

section Fields

theorem get_ofFields_cons_self (key : String) (value : Option Value) (fields : List (String × Option Value))
    (hnone : fields.all (fun field => field.1 ≠ key) = true) :
    (Value.ofFields ((key, value) :: fields)).get key = value := by
  have hrest : ((fields.filterMap fun field => field.2.map fun value => (field.1, value)).find? (·.1 = key)) = none := by
    rw [List.find?_eq_none]
    intro member hmember
    obtain ⟨field, hfield, hvalue⟩ := List.mem_filterMap.mp hmember
    obtain ⟨found, -, rfl⟩ := Option.map_eq_some_iff.mp hvalue
    have hne := List.all_eq_true.mp hnone field hfield
    simpa using hne
  unfold Value.ofFields Value.get
  cases value with
  | none =>
    simp only [List.filterMap_cons, Option.map_none, hrest]
  | some value => simp

theorem get_ofFields_cons_ne {key other : String} (h : other ≠ key) (value : Option Value)
    (fields : List (String × Option Value)) :
    (Value.ofFields ((other, value) :: fields)).get key = (Value.ofFields fields).get key := by
  unfold Value.ofFields Value.get
  cases value with
  | none => simp only [List.filterMap_cons, Option.map_none]
  | some value => simp [h]

variable (usage : Value) (counters : UsageCounters) (inputTokens totalTokens : Nat)

theorem get_usageFields : let result := Value.ofFields (usageFields usage counters inputTokens totalTokens)
    result.get "input_tokens" = some (.ofNat inputTokens) ∧ result.get "total_tokens" = some (.ofNat totalTokens) ∧
      result.get "input_tokens_details" = counters.cachedDetails usage ∧
      result.get "cache_read_input_tokens" = usage.get "cache_read_input_tokens" ∧
      result.get "cache_creation_input_tokens" = usage.get "cache_creation_input_tokens" ∧
      result.get "cache_creation_5m_input_tokens" = usage.get "cache_creation_5m_input_tokens" ∧
      result.get "cache_creation_1h_input_tokens" = usage.get "cache_creation_1h_input_tokens" := by
  intro result
  unfold result usageFields
  refine ⟨get_ofFields_cons_self _ _ _ (by simp), ?_, ?_, ?_, ?_, ?_, ?_⟩
  · iterate 2 rw [get_ofFields_cons_ne (by decide)]
    exact get_ofFields_cons_self _ _ _ (by simp)
  · iterate 3 rw [get_ofFields_cons_ne (by decide)]
    exact get_ofFields_cons_self _ _ _ (by simp)
  · iterate 5 rw [get_ofFields_cons_ne (by decide)]
    exact get_ofFields_cons_self _ _ _ (by simp)
  · iterate 6 rw [get_ofFields_cons_ne (by decide)]
    exact get_ofFields_cons_self _ _ _ (by simp)
  · iterate 7 rw [get_ofFields_cons_ne (by decide)]
    exact get_ofFields_cons_self _ _ _ (by simp)
  · iterate 8 rw [get_ofFields_cons_ne (by decide)]
    exact get_ofFields_cons_self _ _ _ (by simp)

theorem upstreamCreation_usageFields :
    upstreamCreation (.ofFields (usageFields usage counters inputTokens totalTokens)) = upstreamCreation usage := by
  obtain ⟨-, -, -, -, hone, hshort, hlong⟩ :=
    get_usageFields usage counters inputTokens totalTokens
  unfold upstreamCreation
  rw [hone, hshort, hlong]

theorem hasCacheDetails_of_pos {usage : Value} (hclaude : hasClaudeCacheFields usage = false) (hpos : 0 < upstreamCached usage) :
    hasCacheDetails usage = true := by
  have hread : usage.counter "cache_read_input_tokens" = none := by
    simp only [hasClaudeCacheFields, Bool.or_eq_false_iff, Option.isSome_eq_false_iff, Option.isNone_iff_eq_none] at hclaude
    rw [Value.counter, hclaude.1.1.1]
    rfl
  unfold hasCacheDetails
  simp only [Bool.or_eq_true, decide_eq_true_eq]
  unfold upstreamCached at hpos
  rw [hread] at hpos
  split at hpos
  · unfold cachedField
    cases hopenai : usage.pointer "prompt_tokens_details" "cached_tokens" with
    | some value => exact .inl (.inr rfl)
    | none =>
      cases hresponses : usage.pointer "input_tokens_details" "cached_tokens" with
      | some value => exact .inr rfl
      | none => exact .inl (.inl hpos)
  · exact .inl (.inl hpos)

theorem reportedCached_usageFields {usage : Value} {counters : UsageCounters} (hcached : counters.cachedTokens = upstreamCached usage) :
    reportedCached (.ofFields (usageFields usage counters inputTokens totalTokens)) = shownCached usage := by
  obtain ⟨-, -, hdetails, hread, -⟩ := get_usageFields usage counters inputTokens totalTokens
  unfold reportedCached shownCached
  rw [hread]
  cases usage.get "cache_read_input_tokens" with
  | some cacheRead => rfl
  | none =>
    simp only [Value.pointer, hdetails, UsageCounters.cachedDetails, hcached]
    cases hclaude : hasClaudeCacheFields usage with
    | true => rfl
    | false =>
      rcases Nat.eq_zero_or_pos (upstreamCached usage) with hzero | hpos
      · simp [hzero, tokens]
      · simp [hasCacheDetails_of_pos hclaude hpos, hpos, tokens, Value.get, Value.ofNat, Value.asU64]

end Fields

theorem tokens_ofNat (n : Nat) : tokens (some (.ofNat n)) = n := rfl

theorem counter_of_not_object {usage : Value} (h : usage.isObject = false) (key : String) : usage.get key = none := by
  cases usage with
  | object members => cases h
  | null => rfl
  | bool value => rfl
  | number text u64 => rfl
  | string text => rfl
  | array items => rfl

/-- A prompt that counts the cache is told apart exactly if the cache is shown and is not counted twice. -/
theorem parts_eq_iff {usage : Value} {prompt : Nat} (hprompt : inclusivePrompt usage = some prompt)
    (hle : upstreamCached usage + upstreamCreation usage ≤ prompt) :
    (netInput usage + shownCached usage + upstreamCreation usage = prompt ∧
      netTotal usage = prompt + upstreamCompletion usage) ↔
    shownCached usage = upstreamCached usage ∧
      ((usage.counter "promptTokenCount").isSome = true → upstreamCreation usage = 0) ∧
      (copiesTotal usage = true → ∀ total, usage.counter "total_tokens" = some total →
        total = prompt + upstreamCompletion usage) := by
  have hsum := upstreamInput_eq usage
  unfold inclusivePrompt at hprompt
  unfold netTotal
  cases hgemini : usage.counter "promptTokenCount" with
  | some count =>
    rw [hgemini] at hprompt
    cases hprompt
    have hnet : netInput usage = prompt - upstreamCached usage := by
      simp only [netInput, hgemini]
    have hcopies : copiesTotal usage = false := by
      have hsome : (usage.get "promptTokenCount").isNone = false := by
        cases hget : usage.get "promptTokenCount" with
        | none => rw [Value.counter, hget] at hgemini; cases hgemini
        | some value => rfl
      simp only [copiesTotal, hsome, Bool.and_false]
    rw [hcopies]
    simp only [Bool.false_eq_true, if_false, Option.isSome_some, forall_const, false_implies, and_true]
    omega
  | none =>
    rw [hgemini] at hprompt
    simp only at hprompt
    split at hprompt
    · cases hprompt
    · rename_i hclaude
      rw [Option.not_isSome_iff_eq_none] at hclaude
      have hnet : netInput usage = prompt - (upstreamCached usage + upstreamCreation usage) := by
        simp only [netInput, hgemini, hclaude, tokens_get, hprompt, Option.getD_some]
      simp only [Option.isSome_none, Bool.false_eq_true, false_implies, true_and]
      cases hcopies : copiesTotal usage with
      | false =>
        simp only [Bool.false_eq_true, if_false, false_implies, and_true]
        omega
      | true =>
        simp only [if_true, forall_const]
        cases htotal : usage.counter "total_tokens" with
        | none =>
          simp only [Option.getD_none, reduceCtorEq, false_implies, implies_true, and_true]
          omega
        | some total =>
          simp only [Option.getD_some, Option.some.injEq, forall_eq']
          omega

/-- The tokens of a usage are conserved if and only if they fit in 64 bits and, where the prompt counts the cache, the
cached tokens are shown, none are written to a cache of Gemini, and a total that is copied is the sum. -/
theorem conserves_iff (usage : Value) : Conserves usage ↔ SoundUsage usage := by
  cases hobject : usage.isObject with
  | false =>
    have hget := counter_of_not_object hobject
    have hnone : inclusivePrompt usage = none := by
      simp only [inclusivePrompt, Value.counter, hget, Option.bind_none, Option.isSome_none, Bool.false_eq_true, if_false]
    have hresult : chatUsageToResponsesUsage (some usage) = some defaultResponsesUsage := by
      unfold chatUsageToResponsesUsage
      rw [Option.filter_some_neg hobject]
    have hfits : upstreamInput usage + upstreamCompletion usage < 2 ^ 64 := by
      simp [upstreamInput, upstreamCompletion, upstreamCached, upstreamCreation, outputField, cachedField, tokens,
        Value.counter, Value.pointer, hget]
    constructor
    · intro _
      exact ⟨hfits, fun prompt hprompt => absurd (hnone.symm.trans hprompt) nofun⟩
    · intro _
      exact ⟨_, hresult, fun prompt hprompt => absurd (hnone.symm.trans hprompt) nofun⟩
  | true =>
    obtain ⟨hinput, htotal, -⟩ := get_usageFields usage (usageCounters usage) (netInput usage) (netTotal usage)
    rcases chatUsageToResponsesUsage_cases usage hobject with ⟨hresult, hfits⟩ | ⟨hresult, hlarge⟩
    · constructor
      · rintro ⟨result, hconverted, hconserved⟩
        rw [hresult] at hconverted
        cases hconverted
        refine ⟨hfits, fun prompt hprompt hle => (parts_eq_iff hprompt hle).mp ?_⟩
        have hparts := hconserved prompt hprompt hle
        rwa [hinput, htotal, tokens_ofNat, tokens_ofNat, reportedCached_usageFields _ _ (cachedTokens_eq usage),
          upstreamCreation_usageFields] at hparts
      · intro hsound
        refine ⟨_, hresult, fun prompt hprompt hle => ?_⟩
        rw [hinput, htotal, tokens_ofNat, tokens_ofNat, reportedCached_usageFields _ _ (cachedTokens_eq usage),
          upstreamCreation_usageFields]
        exact (parts_eq_iff hprompt hle).mpr (hsound.adds prompt hprompt hle)
    · constructor
      · rintro ⟨result, hconverted, -⟩
        rw [hresult] at hconverted
        cases hconverted
      · intro hsound
        exact absurd hsound.fits (Nat.not_lt.mpr hlarge)

/-- An upstream that counts its cache in the prompt, and names what it wrote in the field of Claude. -/
abbrev mixedUsage : Value := .object [("prompt_tokens", .ofNat 100), ("completion_tokens", .ofNat 5),
  ("prompt_tokens_details", .object [("cached_tokens", .ofNat 30)]), ("cache_creation_input_tokens", .ofNat 20)]

/-- The thirty tokens that were read from the cache are reported nowhere. -/
theorem mixedUsage_not_conserved : ¬ Conserves mixedUsage := by
  rintro ⟨result, hresult, hconserved⟩
  have hreported : (chatUsageToResponsesUsage (some mixedUsage)).map
      (fun result => tokens (result.get "input_tokens") + reportedCached result + upstreamCreation result) =
        some 70 := by decide +kernel
  rw [hresult, Option.map_some, Option.some.injEq] at hreported
  obtain ⟨hparts, -⟩ := hconserved 100 (by decide +kernel) (by decide +kernel)
  omega

end Lumio.Proxy
