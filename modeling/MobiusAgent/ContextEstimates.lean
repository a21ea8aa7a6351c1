import Mathlib.Algebra.BigOperators.Ring.Finset
import Mathlib.Algebra.Order.BigOperators.Group.List
import Mathlib.Algebra.Order.Ring.Abs
import Mathlib.Data.Prod.Lex
import MobiusAgent.CheckedNumbers
import MobiusAgent.ProportionalShares
import MobiusAgent.ResponsesWire
import MobiusAgent.SessionForks

/-!
# Where the input tokens of a request go

`agent/context_estimate.rs`: each part of a request is estimated while it is
built, and `breakdown` scales the estimates to the total that the provider
reports. The estimate of a text divides floating-point numbers and is a
parameter, and so is the length that a serializer writes. A `breakdown` with a
result overflows nowhere; `breakdown_partitions` says that it has one.
-/

namespace MobiusAgent.ContextEstimates

open JsonValue ProtocolEvents CheckedNumbers ProportionalShares
open ContextItems (itemType)
open ResponsesWire (ToolDefinition)
open SessionForks (internalMessageKind contextCompactedMarker attachmentContextMarker)

/-- The largest value of a `usize`. -/
def usizeMax : Nat := 2 ^ 64 - 1

/-- The largest value of a `u32`. -/
def u32Max : Nat := 2 ^ 32 - 1

/-- The largest value of a `u128`. -/
def u128Max : Nat := 2 ^ 128 - 1

/-- What a part of the input of a request holds. -/
inductive ContextPartKind where
  /-- The prompt and the instruction files. -/
  | instructions
  /-- The index of skills and extensions. -/
  | skills
  /-- What capabilities say about themselves. -/
  | capabilities
  | tools
  | messages
  | toolCalls
  | toolResults
  /-- Memory, tasks and the state of hooks. -/
  | memory
  | reasoning
  /-- Tools that are listed and not in the context. -/
  | deferredTools
  deriving DecidableEq

def kinds : List ContextPartKind :=
  [.instructions, .skills, .capabilities, .tools, .messages, .toolCalls, .toolResults, .memory,
    .reasoning, .deferredTools]

theorem mem_kinds (kind : ContextPartKind) : kind ∈ kinds := by cases kind <;> decide

def isCounted (kind : ContextPartKind) : Bool := kind != .deferredTools

/-- The arrays of an estimate, each cell under its kind. -/
structure ContextEstimate where
  tokens : ContextPartKind → Nat
  items : ContextPartKind → Nat

/-- What the estimator finds. -/
structure TokenEstimate where
  tokens : Nat → Nat
  itemTokens : Json → Nat

namespace ContextEstimate

/-- `ContextEstimate::default`. -/
def empty : ContextEstimate := ⟨fun _ => 0, fun _ => 0⟩

def add (estimate : ContextEstimate) (kind : ContextPartKind) (tokens : Nat) : ContextEstimate where
  tokens := fun other => if other = kind then min (estimate.tokens kind + tokens) usizeMax
    else estimate.tokens other
  items := fun other => if other = kind then min (estimate.items kind + 1) u32Max
    else estimate.items other

end ContextEstimate

def inputKind (item : Json) : ContextPartKind :=
  match internalMessageKind item with
  | some kind =>
    if kind = attachmentContextMarker ∨ kind = contextCompactedMarker then .messages else .memory
  | none =>
    match itemType item with
    | some "function_call" => .toolCalls
    | some "function_call_output" => .toolResults
    | some "reasoning" => .reasoning
    | _ => .messages

section Estimating

variable (text : TokenEstimate) (serializedLen : ToolDefinition → Except Error Nat)

def promptKind (owner : String) : ContextPartKind :=
  if owner = "instructions" then .instructions
  else if owner = "extensions" then .skills
  else .capabilities

def prompt (sizes : List (String × Nat)) : ContextEstimate :=
  sizes.foldl (fun estimate size => estimate.add (promptKind size.1) (text.tokens size.2)) .empty

def addInput (estimate : ContextEstimate) (items : List Json) : ContextEstimate :=
  items.foldl (fun estimate item =>
    if itemType item = some "tool_load" then estimate
    else estimate.add (inputKind item) (text.itemTokens item)) estimate

/-- The loop of `add_tools`: a schema that cannot be written ends it. -/
def addSchemas (estimate : ContextEstimate) :
    List (ToolDefinition × ContextPartKind) → ContextEstimate × Except Error Unit
  | [] => (estimate, .ok ())
  | (tool, kind) :: rest =>
    match serializedLen tool with
    | .error error => (estimate, .error error)
    | .ok bytes => addSchemas (estimate.add kind (text.tokens bytes)) rest

def addTools (estimate : ContextEstimate) (direct deferred : List ToolDefinition)
    (materialized : List String) : ContextEstimate × Except Error Unit :=
  addSchemas text serializedLen estimate
    (direct.map (fun tool => (tool, .tools)) ++ deferred.map fun tool =>
      (tool, if tool.name ∈ materialized then .tools else .deferredTools))

/-- One call that changes an estimate. -/
inductive Call where
  | add (kind : ContextPartKind) (tokens : Nat)
  | addInput (items : List Json)
  | addTools (direct deferred : List ToolDefinition) (materialized : List String)

def perform (estimate : ContextEstimate) : Call → ContextEstimate
  | .add kind tokens => estimate.add kind tokens
  | .addInput items => addInput text estimate items
  | .addTools direct deferred materialized =>
    (addTools text serializedLen estimate direct deferred materialized).1

end Estimating

structure ContextPart where
  kind : ContextPartKind
  tokens : Int
  items : Nat
  deriving DecidableEq

structure ContextBreakdown where
  parts : List ContextPart
  /-- The tokens kept free for a compaction. -/
  compactionBuffer : Int
  deriving DecidableEq

/-- `i64::try_from`, with the largest value where it fails. -/
def toI64 (value : Nat) : Int := if (value : Int) ≤ i64Max then value else i64Max

/-- `i64::checked_sub`. -/
def checkedSubInt (first second : Int) : Option Int :=
  if i64Min ≤ first - second ∧ first - second ≤ i64Max then some (first - second) else none

/-- One part before the rest is given away. A quotient by 0 is 0 in both languages here. -/
def scaledPart (estimate : ContextEstimate) (inputTokens : Int) (counted : Nat)
    (kind : ContextPartKind) : Option ContextPart :=
  if kind = .deferredTools then
    some ⟨kind, toI64 (estimate.tokens kind), estimate.items kind⟩
  else do
    let product ← fitting u128Max (estimate.tokens kind * inputTokens.toNat)
    some ⟨kind, toI64 (product / counted), estimate.items kind⟩

def sortKey (part : ContextPart) : Bool ×ₗ Intᵒᵈ :=
  toLex (part.kind == .deferredTools, OrderDual.toDual part.tokens)

def countedParts (parts : List ContextPart) : List ContextPart :=
  parts.filter fun part => isCounted part.kind

/-- The first counted part takes what was not allocated. -/
def giveRest (inputTokens allocated : Int) : List ContextPart → Option (List ContextPart)
  | [] => some []
  | part :: later =>
    if isCounted part.kind then do
      let rest ← checkedSubInt inputTokens allocated
      let tokens ← checkedAddInt part.tokens rest
      some ({ part with tokens } :: later)
    else (giveRest inputTokens allocated later).map (part :: ·)

def breakdown (estimate : ContextEstimate) (inputTokens compactionBuffer : Int) :
    Option ContextBreakdown := do
  let inputTokens := max inputTokens 0
  let counted ← sumFitting u128Max 0 ((kinds.filter isCounted).map estimate.tokens)
  let parts ← (kinds.filter fun kind => 0 < estimate.tokens kind).mapM
    (scaledPart estimate inputTokens counted)
  let parts := parts.mergeSort fun first second => decide (sortKey first ≤ sortKey second)
  let allocated ← ((countedParts parts).map (·.tokens)).foldlM checkedAddInt 0
  let parts ← giveRest inputTokens allocated parts
  some ⟨parts, max compactionBuffer 0⟩

section Saturation

/-- Every total fits its type. -/
def Fits (estimate : ContextEstimate) : Prop := ∀ kind, estimate.tokens kind ≤ usizeMax

variable {estimate : ContextEstimate} {text : TokenEstimate}
  {serializedLen : ToolDefinition → Except Error Nat}

theorem Fits.empty : Fits .empty := fun _ => Nat.zero_le _

theorem Fits.add (h : Fits estimate) (kind : ContextPartKind) (tokens : Nat) :
    Fits (estimate.add kind tokens) := by
  intro other
  unfold ContextEstimate.add
  dsimp only
  by_cases hkind : other = kind
  · rw [if_pos hkind]
    exact Nat.min_le_right _ _
  · rw [if_neg hkind]
    exact h other

theorem Fits.prompt (sizes : List (String × Nat)) : Fits (prompt text sizes) :=
  List.foldlRecOn sizes _ Fits.empty fun _ h _ _ => h.add _ _

theorem Fits.addInput (h : Fits estimate) (items : List Json) :
    Fits (addInput text estimate items) := by
  refine List.foldlRecOn items _ h fun estimate h item _ => ?_
  by_cases hload : itemType item = some "tool_load"
  · rw [if_pos hload]
    exact h
  · rw [if_neg hload]
    exact h.add _ _

theorem Fits.addSchemas (h : Fits estimate) (schemas : List (ToolDefinition × ContextPartKind)) :
    Fits (addSchemas text serializedLen estimate schemas).1 := by
  induction schemas generalizing estimate with
  | nil => exact h
  | cons schema rest ih =>
    obtain ⟨tool, kind⟩ := schema
    rw [ContextEstimates.addSchemas]
    cases serializedLen tool with
    | error error => exact h
    | ok bytes => exact ih (h.add kind (text.tokens bytes))

theorem Fits.perform (h : Fits estimate) (call : Call) :
    Fits (perform text serializedLen estimate call) := by
  cases call with
  | add kind tokens => exact h.add kind tokens
  | addInput items => exact h.addInput items
  | addTools direct deferred materialized => exact h.addSchemas _

theorem Fits.run (h : Fits estimate) (calls : List Call) :
    Fits (calls.foldl (ContextEstimates.perform text serializedLen) estimate) :=
  List.foldlRecOn calls _ h fun _ h call _ => h.perform call

end Saturation

section Scaling

variable {estimate : ContextEstimate} {inputTokens : Int}

/-- All tokens that count. -/
def countedTotal (estimate : ContextEstimate) : Nat :=
  ((kinds.filter isCounted).map estimate.tokens).sum

/-- The part of one kind before the rest is given away, in exact numbers. -/
def scaled (estimate : ContextEstimate) (inputTokens : Int) (kind : ContextPartKind) :
    ContextPart where
  kind := kind
  tokens := if kind = .deferredTools then min (estimate.tokens kind : Int) i64Max
    else share inputTokens.toNat (countedTotal estimate) (estimate.tokens kind)
  items := estimate.items kind

def shown (estimate : ContextEstimate) : List ContextPartKind :=
  kinds.filter fun kind => 0 < estimate.tokens kind

theorem tokens_le_counted {kind : ContextPartKind} (h : isCounted kind = true) :
    estimate.tokens kind ≤ countedTotal estimate := by
  have hkind : kind ∈ kinds.filter isCounted := List.mem_filter.mpr ⟨mem_kinds kind, h⟩
  exact List.le_sum_of_mem (List.mem_map_of_mem hkind)

theorem counted_fits (h : Fits estimate) :
    sumFitting u128Max 0 ((kinds.filter isCounted).map estimate.tokens) =
      some (countedTotal estimate) := by
  have hbound : ((kinds.filter isCounted).map estimate.tokens).sum ≤ 9 * usizeMax := by
    refine List.sum_le_card_nsmul _ usizeMax fun value hvalue => ?_
    obtain ⟨kind, _, rfl⟩ := List.mem_map.mp hvalue
    exact h kind
  have hlimit : 9 * usizeMax ≤ u128Max := by decide
  rw [sumFitting_of_le (by omega), Nat.zero_add]
  rfl

theorem toI64_eq (value : Nat) : toI64 value = min (value : Int) i64Max := by
  unfold toI64
  split <;> omega

theorem share_le_input {kind : ContextPartKind} (h : isCounted kind = true)
    (hinput : 0 ≤ inputTokens) :
    (share inputTokens.toNat (countedTotal estimate) (estimate.tokens kind) : Int) ≤
      inputTokens := by
  have hle := @share_le inputTokens.toNat _ _ (@tokens_le_counted estimate kind h)
  omega

theorem scaledPart_eq (h : Fits estimate) (hinput : 0 ≤ inputTokens)
    (hmax : inputTokens ≤ i64Max) (kind : ContextPartKind) :
    scaledPart estimate inputTokens (countedTotal estimate) kind =
      some (scaled estimate inputTokens kind) := by
  unfold scaledPart scaled
  by_cases hkind : kind = .deferredTools
  · rw [if_pos hkind, if_pos hkind, toI64_eq]
  · have hcounted : isCounted kind = true := by simp [isCounted, hkind]
    have hquotient := @share_le_input estimate inputTokens kind hcounted hinput
    have hnumber : inputTokens.toNat ≤ i64Max.toNat := Int.toNat_le_toNat hmax
    have hproduct : estimate.tokens kind * inputTokens.toNat ≤ u128Max :=
      Nat.le_trans (Nat.mul_le_mul (h kind) hnumber) (by decide)
    rw [if_neg hkind, if_neg hkind, fitting_of_le hproduct, Option.bind_eq_bind, Option.bind_some,
      toI64_eq]
    unfold share at hquotient ⊢
    rw [min_eq_left (le_trans hquotient hmax)]

theorem foldlM_add {values : List Int} {sum : Int} (hvalues : ∀ value ∈ values, 0 ≤ value)
    (hsum : 0 ≤ sum) (h : sum + values.sum ≤ i64Max) :
    values.foldlM checkedAddInt sum = some (sum + values.sum) := by
  induction values generalizing sum with
  | nil => simp
  | cons value rest ih =>
    have hvalue : 0 ≤ value := hvalues value List.mem_cons_self
    have hlater : ∀ later ∈ rest, 0 ≤ later := fun later hlater =>
      hvalues later (List.mem_cons_of_mem _ hlater)
    have hrest : 0 ≤ rest.sum := List.sum_nonneg hlater
    have hadd : checkedAddInt sum value = some (sum + value) := by
      unfold checkedAddInt
      rw [List.sum_cons] at h
      have hmin : i64Min ≤ 0 := by decide
      exact if_pos ⟨by omega, by omega⟩
    rw [List.sum_cons, ← Int.add_assoc] at h ⊢
    rw [List.foldlM_cons, hadd, Option.bind_eq_bind, Option.bind_some]
    exact ih hlater (by omega) h

end Scaling

section Partition

variable {estimate : ContextEstimate} {inputTokens : Int} {parts : List ContextPart}

/-- Larger parts come first, and the deferred tools come last. -/
def Before (first second : ContextPart) : Prop :=
  isCounted first.kind = true ∧ (isCounted second.kind = true → second.tokens ≤ first.tokens)

/-- What a breakdown owes its estimate and the reported total. -/
structure Partitions (estimate : ContextEstimate) (inputTokens : Int) (parts : List ContextPart) :
    Prop where
  kinds : (parts.map (·.kind)).Perm (shown estimate)
  items : ∀ part ∈ parts, part.items = estimate.items part.kind
  nonneg : ∀ part ∈ parts, 0 ≤ part.tokens
  deferred : ∀ part ∈ parts, isCounted part.kind = false →
    part.tokens = min (estimate.tokens part.kind : Int) i64Max
  sum : countedTotal estimate ≠ 0 → ((countedParts parts).map (·.tokens)).sum = inputTokens
  /-- A counted part is near its exact share `tokens * inputTokens / countedTotal`. -/
  near : ∀ part ∈ countedParts parts,
    |part.tokens * countedTotal estimate - estimate.tokens part.kind * inputTokens| <
      (countedParts parts).length * countedTotal estimate
  ordered : parts.Pairwise Before

/-- The tokens of the counted kinds that are shown. -/
def weights (estimate : ContextEstimate) : List Nat :=
  ((shown estimate).filter isCounted).map estimate.tokens

theorem sum_shown (list : List ContextPartKind) :
    ((list.filter fun kind => 0 < estimate.tokens kind).map estimate.tokens).sum =
      (list.map estimate.tokens).sum := by
  induction list with
  | nil => rfl
  | cons kind rest ih =>
    by_cases hkind : 0 < estimate.tokens kind
    · rw [List.filter_cons_of_pos (by simpa using hkind), List.map_cons, List.map_cons,
        List.sum_cons, List.sum_cons, ih]
    · have hzero : estimate.tokens kind = 0 := Nat.eq_zero_of_not_pos hkind
      rw [List.filter_cons_of_neg (by simpa using hkind), List.map_cons, List.sum_cons, hzero,
        Nat.zero_add, ih]

theorem weights_sum (estimate : ContextEstimate) :
    (weights estimate).sum = countedTotal estimate := by
  unfold weights shown countedTotal
  rw [List.filter_comm]
  exact sum_shown _

/-- The parts before the rest is given away, in any order. -/
def Scaled (estimate : ContextEstimate) (inputTokens : Int) (parts : List ContextPart) : Prop :=
  parts.Perm ((shown estimate).map (scaled estimate inputTokens))

theorem mem_scaled (hparts : Scaled estimate inputTokens parts) {part : ContextPart}
    (h : part ∈ parts) :
    part = scaled estimate inputTokens part.kind ∧ 0 < estimate.tokens part.kind := by
  obtain ⟨kind, hkind, rfl⟩ := List.mem_map.mp (hparts.mem_iff.mp h)
  exact ⟨rfl, of_decide_eq_true (List.mem_filter.mp hkind).2⟩

theorem counted_shares (hparts : Scaled estimate inputTokens parts) :
    ((countedParts parts).map (·.tokens)).Perm
      (((weights estimate).map (share inputTokens.toNat (countedTotal estimate))).map
        fun tokens : Nat => (tokens : Int)) := by
  refine ((hparts.filter _).map _).trans (List.Perm.of_eq ?_)
  unfold weights
  rw [List.filter_map, List.map_map, List.map_map, List.map_map]
  refine List.map_congr_left fun kind hkind => ?_
  have hcounted : isCounted kind = true := (List.mem_filter.mp hkind).2
  have hother : kind ≠ .deferredTools := by simpa [isCounted] using hcounted
  unfold scaled
  dsimp only [Function.comp_apply]
  rw [if_neg hother]

theorem before_of_key {first second : ContextPart} (hne : first.kind ≠ second.kind)
    (h : sortKey first ≤ sortKey second) : Before first second := by
  rw [sortKey, sortKey, Prod.Lex.toLex_le_toLex] at h
  dsimp only at h
  unfold Before isCounted
  rcases h with hlt | ⟨hsame, htokens⟩
  · obtain ⟨hfirst, hsecond⟩ := Bool.lt_iff.mp hlt
    refine ⟨by rw [bne, hfirst]; rfl, fun hcounted => ?_⟩
    rw [bne, hsecond] at hcounted
    cases hcounted
  · refine ⟨?_, fun _ => htokens⟩
    by_contra hdeferred
    have hfirst : first.kind = .deferredTools := by simpa using hdeferred
    rw [hfirst] at hsame hne
    have hsecond : second.kind = .deferredTools := by simpa using hsame.symm
    exact hne hsecond.symm

theorem sorted_before :
    (((shown estimate).map (scaled estimate inputTokens)).mergeSort fun first second =>
      decide (sortKey first ≤ sortKey second)).Pairwise Before := by
  have hkinds : kinds.Nodup := by decide
  have hdistinct : ((shown estimate).map (scaled estimate inputTokens)).Pairwise
      fun first second => first.kind ≠ second.kind := List.pairwise_map.mpr (hkinds.filter _)
  have hsorted := @List.pairwise_mergeSort ContextPart
    (fun first second => decide (sortKey first ≤ sortKey second))
    (fun first second third hfirst hsecond => decide_eq_true
      (le_trans (of_decide_eq_true hfirst) (of_decide_eq_true hsecond)))
    (fun first second => by
      simp only [Bool.or_eq_true, decide_eq_true_eq]
      exact le_total (sortKey first) (sortKey second))
    ((shown estimate).map (scaled estimate inputTokens))
  have hboth := (hdistinct.perm (List.mergeSort_perm _ _).symm Ne.symm).and hsorted
  exact hboth.imp fun {_ _} h => before_of_key h.1 (of_decide_eq_true h.2)

theorem near_of_rest {total whole weight number : Nat} {rest : Int} (hwhole : 0 < whole)
    (hrest : 0 ≤ rest) (hnumber : rest < number) :
    |((share total whole weight : Int) + rest) * whole - weight * total| < number * whole := by
  have hlow : (share total whole weight : Int) * whole ≤ weight * total := by
    exact_mod_cast @share_mul_le total whole weight
  have hhigh : (weight : Int) * total < (share total whole weight + 1) * whole := by
    exact_mod_cast @lt_share_mul total whole hwhole weight
  have hpositive : (0 : Int) < whole := by exact_mod_cast hwhole
  have hkept : 0 ≤ rest * whole := Int.mul_nonneg hrest (Int.le_of_lt hpositive)
  have hless : rest * whole < number * whole := Int.mul_lt_mul_of_pos_right hnumber hpositive
  have hone : (1 : Int) * whole ≤ number * whole :=
    Int.mul_le_mul_of_nonneg_right (by omega) (Int.le_of_lt hpositive)
  rw [Int.add_mul] at hhigh ⊢
  rw [abs_lt]
  omega

theorem allocated_bounds (hparts : Scaled estimate inputTokens parts)
    (hinput : 0 ≤ inputTokens) (hsome : 0 < countedTotal estimate) :
    ((countedParts parts).map (·.tokens)).sum ≤ inputTokens ∧
      inputTokens < ((countedParts parts).map (·.tokens)).sum + (countedParts parts).length := by
  have hshares := counted_shares hparts
  rw [← weights_sum] at hsome hshares
  have hle := @sum_shares_le inputTokens.toNat _ hsome
  have hlt := @lt_sum_shares inputTokens.toNat _ hsome
  have hlength : (countedParts parts).length = (weights estimate).length := by
    simpa using hshares.length_eq
  rw [hshares.sum_eq, ← Nat.cast_list_sum, hlength]
  omega

theorem scaled_facts (hparts : Scaled estimate inputTokens parts)
    {part : ContextPart} (h : part ∈ parts) :
    part.items = estimate.items part.kind ∧ 0 ≤ part.tokens ∧
      (isCounted part.kind = false →
        part.tokens = min (estimate.tokens part.kind : Int) i64Max) ∧
      (isCounted part.kind = true → part.tokens =
        share inputTokens.toNat (countedTotal estimate) (estimate.tokens part.kind)) := by
  obtain ⟨kind, _, rfl⟩ := List.mem_map.mp (hparts.mem_iff.mp h)
  have hmax : 0 ≤ i64Max := by decide
  unfold scaled isCounted
  dsimp only
  by_cases hkind : kind = .deferredTools
  · rw [if_pos hkind]
    exact ⟨rfl, le_min (by omega) hmax, fun _ => rfl, fun hcounted => by simp [hkind] at hcounted⟩
  · rw [if_neg hkind]
    exact ⟨rfl, by omega, fun hdeferred => by simp [hkind] at hdeferred, fun _ => rfl⟩

theorem scaled_kinds (hparts : Scaled estimate inputTokens parts) :
    (parts.map (·.kind)).Perm (shown estimate) := by
  have hkinds := hparts.map (·.kind)
  rw [List.map_map] at hkinds
  exact hkinds.trans (List.Perm.of_eq (List.map_id _))

theorem near_exact (hparts : Scaled estimate inputTokens parts)
    (hinput : 0 ≤ inputTokens) {part : ContextPart} (h : part ∈ parts)
    (hcounted : isCounted part.kind = true) {more : Int} {number : Nat} (hmore : 0 ≤ more)
    (hless : more < number) :
    |(part.tokens + more) * countedTotal estimate - estimate.tokens part.kind * inputTokens| <
      number * countedTotal estimate := by
  have hsome : 0 < countedTotal estimate :=
    Nat.lt_of_lt_of_le (mem_scaled hparts h).2 (tokens_le_counted hcounted)
  have hnear := @near_of_rest inputTokens.toNat _ (estimate.tokens part.kind) _ more hsome hmore
    hless
  rw [Int.toNat_of_nonneg hinput] at hnear
  rw [(scaled_facts hparts h).2.2.2 hcounted]
  exact hnear

/-- Parts are settled when the first one has what the others leave. -/
theorem partitions_counted {part : ContextPart} {later : List ContextPart} {rest : Int}
    (hparts : Scaled estimate inputTokens (part :: later))
    (hsorted : (part :: later).Pairwise Before) (hinput : 0 ≤ inputTokens)
    (hcounted : isCounted part.kind = true) (hnonneg : 0 ≤ rest)
    (hless : rest < (part :: countedParts later).length)
    (hsum : part.tokens + rest + ((countedParts later).map (·.tokens)).sum = inputTokens) :
    Partitions estimate inputTokens ({ part with tokens := part.tokens + rest } :: later) := by
  have hsettled : countedParts ({ part with tokens := part.tokens + rest } :: later) =
      { part with tokens := part.tokens + rest } :: countedParts later :=
    List.filter_cons_of_pos hcounted
  have hpart : part ∈ part :: later := List.mem_cons_self
  have hlater : ∀ other ∈ later, other ∈ part :: later := fun _ => List.mem_cons_of_mem _
  rw [List.length_cons] at hless
  constructor
  case kinds =>
    have hkinds := scaled_kinds hparts
    rw [List.map_cons] at hkinds ⊢
    exact hkinds
  case items =>
    intro other hother
    rcases List.mem_cons.mp hother with rfl | hother
    · exact (scaled_facts hparts hpart).1
    · exact (scaled_facts hparts (hlater other hother)).1
  case nonneg =>
    intro other hother
    rcases List.mem_cons.mp hother with rfl | hother
    · exact Int.add_nonneg (scaled_facts hparts hpart).2.1 hnonneg
    · exact (scaled_facts hparts (hlater other hother)).2.1
  case deferred =>
    intro other hother hdeferred
    rcases List.mem_cons.mp hother with rfl | hother
    · rw [hcounted] at hdeferred
      cases hdeferred
    · exact (scaled_facts hparts (hlater other hother)).2.2.1 hdeferred
  case sum =>
    intro _
    rw [hsettled]
    exact hsum
  case near =>
    intro other hother
    rw [hsettled, List.length_cons] at *
    rcases List.mem_cons.mp hother with rfl | hother
    · exact near_exact hparts hinput hpart hcounted hnonneg hless
    · obtain ⟨hmem, hkind⟩ := List.mem_filter.mp hother
      have hnear := @near_exact _ _ _ hparts hinput other (hlater other hmem) hkind 0
        ((countedParts later).length + 1) (Int.le_refl _) (by omega)
      rw [Int.add_zero] at hnear
      exact hnear
  case ordered =>
    rw [List.pairwise_cons] at hsorted ⊢
    refine ⟨fun other hother => ⟨hcounted, fun hkind => ?_⟩, hsorted.2⟩
    have hlarger := (hsorted.1 other hother).2 hkind
    exact Int.le_trans hlarger (Int.le_add_of_nonneg_right hnonneg)

theorem partitions_deferred (hparts : Scaled estimate inputTokens parts)
    (hsorted : parts.Pairwise Before) (hnone : countedParts parts = []) :
    Partitions estimate inputTokens parts := by
  constructor
  case kinds => exact scaled_kinds hparts
  case items => exact fun part h => (scaled_facts hparts h).1
  case nonneg => exact fun part h => (scaled_facts hparts h).2.1
  case deferred => exact fun part h => (scaled_facts hparts h).2.2.1
  case sum =>
    intro hsome
    have hshares := counted_shares hparts
    rw [hnone, List.map_nil, List.nil_perm, List.map_eq_nil_iff, List.map_eq_nil_iff] at hshares
    rw [← weights_sum, hshares] at hsome
    exact absurd rfl hsome
  case near =>
    intro part h
    rw [hnone] at h
    cases h
  case ordered => exact hsorted

theorem counted_pos (hparts : Scaled estimate inputTokens parts)
    {part : ContextPart} (h : part ∈ countedParts parts) : 0 < countedTotal estimate := by
  obtain ⟨hmem, hcounted⟩ := List.mem_filter.mp h
  exact Nat.lt_of_lt_of_le (mem_scaled hparts hmem).2 (tokens_le_counted hcounted)

theorem counted_nonneg (hparts : Scaled estimate inputTokens parts) :
    ∀ tokens ∈ (countedParts parts).map (·.tokens), 0 ≤ tokens := by
  intro tokens htokens
  obtain ⟨part, hpart, rfl⟩ := List.mem_map.mp htokens
  exact (scaled_facts hparts (List.mem_filter.mp hpart).1).2.1

theorem allocated_eq (hparts : Scaled estimate inputTokens parts)
    (hinput : 0 ≤ inputTokens) (hmax : inputTokens ≤ i64Max) :
    ((countedParts parts).map (·.tokens)).foldlM checkedAddInt 0 =
      some ((countedParts parts).map (·.tokens)).sum := by
  have hle : ((countedParts parts).map (·.tokens)).sum ≤ inputTokens := by
    cases hcounted : countedParts parts with
    | nil => exact hinput
    | cons part later =>
      have hpart : part ∈ countedParts parts := by
        rw [hcounted]
        exact List.mem_cons_self
      have hbounds := allocated_bounds hparts hinput (counted_pos hparts hpart)
      rw [hcounted] at hbounds
      exact hbounds.1
  have hsum := foldlM_add (counted_nonneg hparts) (Int.le_refl 0) (by omega)
  rw [Int.zero_add] at hsum
  exact hsum

/-- The rest is given away without an overflow, and the parts are settled. -/
theorem giveRest_partitions (hparts : Scaled estimate inputTokens parts)
    (hsorted : parts.Pairwise Before) (hinput : 0 ≤ inputTokens) (hmax : inputTokens ≤ i64Max) :
    ∃ settled, giveRest inputTokens ((countedParts parts).map (·.tokens)).sum parts = some settled ∧
      Partitions estimate inputTokens settled := by
  cases parts with
  | nil => exact ⟨[], rfl, partitions_deferred hparts hsorted rfl⟩
  | cons part later =>
    by_cases hcounted : isCounted part.kind = true
    · have hfirst : countedParts (part :: later) = part :: countedParts later :=
        List.filter_cons_of_pos hcounted
      have hpart : part ∈ countedParts (part :: later) := by
        rw [hfirst]
        exact List.mem_cons_self
      obtain ⟨hle, hlt⟩ := allocated_bounds hparts hinput (counted_pos hparts hpart)
      have hnonneg := counted_nonneg hparts
      rw [hfirst, List.map_cons, List.forall_mem_cons] at hnonneg
      have hothers := List.sum_nonneg hnonneg.2
      have hmin : i64Min ≤ 0 := by decide
      rw [hfirst, List.map_cons, List.sum_cons] at hle hlt ⊢
      unfold giveRest checkedSubInt checkedAddInt
      rw [if_pos hcounted, if_pos ⟨by omega, by omega⟩, Option.bind_eq_bind, Option.bind_some,
        if_pos ⟨by omega, by omega⟩]
      refine ⟨_, rfl, ?_⟩
      exact partitions_counted hparts hsorted hinput hcounted (by omega) (by omega) (by omega)
    · have hnone : later = [] := by
        cases later with
        | nil => rfl
        | cons other rest =>
          exact absurd ((List.pairwise_cons.mp hsorted).1 other List.mem_cons_self).1 hcounted
      rw [hnone] at hparts hsorted ⊢
      refine ⟨[part], ?_, partitions_deferred hparts hsorted (List.filter_cons_of_neg hcounted)⟩
      unfold giveRest
      rw [if_neg hcounted]
      rfl

end Partition

/-- Whatever is added to an estimate and whatever total is reported, the breakdown overflows
nowhere, its conversions are exact and its parts add up. -/
theorem breakdown_partitions (text : TokenEstimate)
    (serializedLen : ToolDefinition → Except Error Nat) (sizes : List (String × Nat))
    (calls : List Call) {inputTokens : Int} (hmax : inputTokens ≤ i64Max) (compactionBuffer : Int) :
    let estimate := calls.foldl (perform text serializedLen) (prompt text sizes)
    ∃ result, breakdown estimate inputTokens compactionBuffer = some result ∧
      Partitions estimate (max inputTokens 0) result.parts ∧
      result.compactionBuffer = max compactionBuffer 0 ∧
      ∀ kind, isCounted kind = true →
        (estimate.tokens kind * (max inputTokens 0).toNat / countedTotal estimate : Nat) ≤
          i64Max := by
  intro estimate
  have hfits : Fits estimate := Fits.run (Fits.prompt sizes) calls
  have hinput : 0 ≤ max inputTokens 0 := le_max_right _ _
  have hlimit : max inputTokens 0 ≤ i64Max := max_le hmax (by decide)
  have hmapped : (shown estimate).mapM
      (scaledPart estimate (max inputTokens 0) (countedTotal estimate)) =
      some ((shown estimate).map (scaled estimate (max inputTokens 0))) := by
    have hscaled : scaledPart estimate (max inputTokens 0) (countedTotal estimate) =
        fun kind => pure (scaled estimate (max inputTokens 0) kind) :=
      funext (scaledPart_eq hfits hinput hlimit)
    rw [hscaled, List.mapM_pure]
    rfl
  have hparts := List.mergeSort_perm ((shown estimate).map (scaled estimate (max inputTokens 0)))
    fun first second => decide (sortKey first ≤ sortKey second)
  obtain ⟨settled, hsettled, hpartitions⟩ :=
    giveRest_partitions hparts sorted_before hinput hlimit
  refine ⟨⟨settled, max compactionBuffer 0⟩, ?_, hpartitions, rfl, fun kind hcounted =>
    Int.le_trans (share_le_input hcounted hinput) hlimit⟩
  unfold shown at hmapped
  unfold breakdown
  simp only [counted_fits hfits, hmapped, Option.bind_eq_bind, Option.bind_some]
  have hallocated := allocated_eq hparts hinput hlimit
  unfold shown at hallocated hsettled
  rw [hallocated, Option.bind_some, hsettled]
  rfl

/-- Three saturated kinds and saturated deferred tools share the largest total. -/
theorem breakdown_partitions_saturated :
    (9223372036854775807 : Int) ≤ i64Max ∧
    ∃ result, breakdown ([.add .instructions usizeMax, .add .messages usizeMax,
        .add .toolResults usizeMax, .add .deferredTools usizeMax].foldl
          (perform ⟨fun bytes => bytes / 4, fun _ => 1⟩ fun _ => .ok 4)
          (prompt ⟨fun bytes => bytes / 4, fun _ => 1⟩ [])) 9223372036854775807 30000 =
        some result ∧
      ((countedParts result.parts).map (·.tokens)).sum = 9223372036854775807 := by
  refine ⟨by decide, ?_⟩
  obtain ⟨result, hresult, hpartitions, -⟩ := breakdown_partitions
    ⟨fun bytes => bytes / 4, fun _ => 1⟩ (fun _ => .ok 4) [] [.add .instructions usizeMax,
      .add .messages usizeMax, .add .toolResults usizeMax, .add .deferredTools usizeMax]
    (show (9223372036854775807 : Int) ≤ i64Max by decide) 30000
  exact ⟨result, hresult, hpartitions.sum (by decide)⟩

end MobiusAgent.ContextEstimates
