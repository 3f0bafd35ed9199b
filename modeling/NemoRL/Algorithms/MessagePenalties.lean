import Mathlib
import NemoRL.Data.Multimodal
import NemoRL.Lib.Except
import NemoRL.Lib.Strided

/-!
# Penalties for messages

Generated messages of the assistant may be flagged: they have an invalid tool call, or malformed
thinking. The advantages of their tokens are to be replaced by a configured value. Where a message
lies in its row is found by adding up the lengths of the messages.

Advantages may be views of a smaller storage. They are cloned before the first of them is changed,
and the values are changed in place.

Printing is left out. Advantages are numbers of an ordered group.

## Main definitions

* `LogMessage` — a message, with the entries that are flattened.
* `applyMessageLevelAdvantagePenalties` — the penalties of a batch.
* `valueAt` — what becomes of one advantage.

## Main results

* `read_penalties` — every advantage behind the penalties.
-/

namespace NemoRL.Algorithms.MessagePenalties

open Lib Data.Multimodal

variable {D K F : Type}

/-! ## Messages -/

/-- A value of a message that is no tensor. -/
inductive Entry
  | text (s : String)
  | flag (b : Bool)
  deriving DecidableEq, Repr

/-- A message of a log. Only generated messages have log-probabilities. -/
structure LogMessage (D K : Type) where
  role : String
  dtype : D
  device : String
  tokenIds : List K
  generationLogprobs : Option (MessageTensor D K) := none
  isInvalidToolCall : Option Bool := none
  hasMalformedThinking : Option Bool := none
  others : Data.Multimodal.Message D K Entry := []

namespace LogMessage
variable (m : LogMessage D K)

/-- The entries of a message. -/
def entries : Data.Multimodal.Message D K Entry :=
  [("role", .other "str" (.text m.role)),
    ("token_ids", .tensor ⟨m.dtype, m.device, Tensor.vector m.tokenIds⟩)] ++
  (m.generationLogprobs.map fun t => ("generation_logprobs", .tensor t)).toList ++
  (m.isInvalidToolCall.map fun b => ("is_invalid_tool_call", .other "bool" (.flag b))).toList ++
  (m.hasMalformedThinking.map fun b =>
    ("has_malformed_thinking", .other "bool" (.flag b))).toList ++ m.others

/-- Whether the assistant generated the message. -/
def isAssistant : Bool := decide (m.role = "assistant") && m.generationLogprobs.isSome

/-- The configured value, for a generated message with an invalid tool call. -/
def isInvalid (invalidNegAdv : Option F) : Option F :=
  if m.isAssistant && m.isInvalidToolCall.getD false then invalidNegAdv else none

/-- The configured value, for a generated message with malformed thinking. -/
def isMalformedThinking (malformedNegAdv : Option F) : Option F :=
  if m.isAssistant && m.hasMalformedThinking.getD false then malformedNegAdv else none

end LogMessage

/-! ## The loop -/

/-- The storages, the view of the advantages, and what was counted. -/
structure PenaltyState (F : Type) where
  heap : List (List F)
  advantages : View
  materializedAdvantages : Bool := false
  numInvalidToolCalls : ℕ := 0
  numMalformedThinking : ℕ := 0
  numAssistantMessages : ℕ := 0

/-- Clone the advantages, unless they already are. -/
def PenaltyState.materialize (st : PenaltyState F) : PenaltyState F :=
  if st.materializedAdvantages then st
  else { st with
    heap := (st.advantages.clone st.heap).2
    advantages := (st.advantages.clone st.heap).1
    materializedAdvantages := true }

section Code
variable [Add F] [LinearOrder F]

/-- Add a value to a span of advantages, and clamp what is larger than the value. -/
def addClamp (i start stop : ℕ) (negAdv : F) (st : PenaltyState F) :
    Except PyError (PenaltyState F) :=
  if i < st.advantages.rows then
    let added := st.advantages.modifySpan st.heap i start stop (· + negAdv)
    .ok { st with heap := st.advantages.modifySpan added i start stop (min · negAdv) }
  else .error ⟨.indexError,
    s!"index {i} is out of bounds for dimension 0 with size {st.advantages.rows}"⟩

/-- Add and clamp if there is a value. -/
def penalize (i start stop : ℕ) (negAdv : Option F) (st : PenaltyState F) :
    Except PyError (PenaltyState F) :=
  match negAdv with
  | none => .ok st
  | some negAdv => addClamp i start stop negAdv st

/-- The penalties of a message, whose tokens start at an offset. -/
def penalizeMessage (invalidNegAdv malformedNegAdv : Option F) (i : ℕ)
    (acc : PenaltyState F × ℕ) (m : LogMessage D K) : Except PyError (PenaltyState F × ℕ) := do
  let tokenOffset := acc.2
  let msgLen := m.tokenIds.length
  let isInvalid := m.isInvalid invalidNegAdv
  let isMalformedThinking := m.isMalformedThinking malformedNegAdv
  let st := { acc.1 with
    numAssistantMessages := acc.1.numAssistantMessages + m.isAssistant.toNat
    numInvalidToolCalls := acc.1.numInvalidToolCalls + isInvalid.isSome.toNat
    numMalformedThinking := acc.1.numMalformedThinking + isMalformedThinking.isSome.toNat }
  let st := if isInvalid.isSome || isMalformedThinking.isSome then st.materialize else st
  let st ← penalize i tokenOffset (tokenOffset + msgLen) isInvalid st
  let st ← penalize i tokenOffset (tokenOffset + msgLen) isMalformedThinking st
  return (st, tokenOffset + msgLen)

/-- The penalties of a row. -/
def penalizeLog (invalidNegAdv malformedNegAdv : Option F) (st : PenaltyState F)
    (p : List (LogMessage D K) × ℕ) : Except PyError (PenaltyState F) := do
  let acc ← p.1.foldlM (penalizeMessage invalidNegAdv malformedNegAdv p.2) (st, 0)
  return acc.1

/-- What is reported of a batch. -/
structure PenaltyMetrics where
  invalidToolCallRate : ℚ
  malformedThinkingRate : ℚ
  numInvalidToolCalls : ℕ
  numMalformedThinking : ℕ
  numAssistantMessages : ℕ
  deriving DecidableEq

/-- The metrics of what was counted. -/
def PenaltyState.metrics (st : PenaltyState F) : PenaltyMetrics where
  invalidToolCallRate := st.numInvalidToolCalls / (max st.numAssistantMessages 1 : ℕ)
  malformedThinkingRate := st.numMalformedThinking / (max st.numAssistantMessages 1 : ℕ)
  numInvalidToolCalls := st.numInvalidToolCalls
  numMalformedThinking := st.numMalformedThinking
  numAssistantMessages := st.numAssistantMessages

/-- A batch behind its penalties. There are no metrics if no penalty is configured. -/
structure Penalized (F : Type) where
  heap : List (List F)
  advantages : View
  metrics : Option PenaltyMetrics

/-- Apply the penalties to the advantages of a batch. -/
def applyMessageLevelAdvantagePenalties (heap : List (List F)) (advantages : View)
    (messageLogs : List (List (LogMessage D K)))
    (invalidToolCallAdvantage malformedThinkingAdvantage : Option F) :
    Except PyError (Penalized F) :=
  if invalidToolCallAdvantage.isNone && malformedThinkingAdvantage.isNone then
    .ok ⟨heap, advantages, none⟩
  else do
    let st ← messageLogs.zipIdx.foldlM
      (penalizeLog invalidToolCallAdvantage malformedThinkingAdvantage)
      { heap := heap, advantages := advantages }
    return ⟨st.heap, st.advantages, some st.metrics⟩

/-! ## What becomes of an advantage -/

/-- An advantage behind one penalty. -/
def penalized (negAdv : Option F) (x : F) : F :=
  match negAdv with
  | none => x
  | some negAdv => min (x + negAdv) negAdv

/-- An advantage behind the penalties of a message. -/
def applied (invalidNegAdv malformedNegAdv : Option F) (m : LogMessage D K) (x : F) : F :=
  penalized (m.isMalformedThinking malformedNegAdv) (penalized (m.isInvalid invalidNegAdv) x)

/-- The advantage at a position of a row behind the penalties of its log. -/
def valueAt (invalidNegAdv malformedNegAdv : Option F) :
    List (LogMessage D K) → ℕ → F → F
  | [], _, x => x
  | m :: log, p, x =>
    if p < m.tokenIds.length then applied invalidNegAdv malformedNegAdv m x
    else valueAt invalidNegAdv malformedNegAdv log (p - m.tokenIds.length) x

end Code

/-! ## The storages -/

/-- The storages that were there are as they were. Advantages that are materialized have a storage
of their own, and others are as they were. -/
structure Cloned (heap₀ : List (List F)) (view₀ : View) (st : PenaltyState F) : Prop where
  rows : st.advantages.rows = view₀.rows
  cols : st.advantages.cols = view₀.cols
  kept : ∀ k < heap₀.length, st.heap[k]? = heap₀[k]?
  own : st.materializedAdvantages = true →
    st.advantages.Dense st.heap ∧ heap₀.length ≤ st.advantages.storage
  shared : st.materializedAdvantages = false → st.advantages = view₀ ∧ st.heap = heap₀

section Spec
variable {heap₀ : List (List F)} {view₀ : View} {st : PenaltyState F}

theorem Cloned.materialize (h : Cloned heap₀ view₀ st) (hvalid : view₀.Valid heap₀) :
    Cloned heap₀ view₀ st.materialize ∧ st.materialize.materializedAdvantages = true ∧
      ∀ i p, st.materialize.advantages.read st.materialize.heap i p =
        st.advantages.read st.heap i p := by
  unfold PenaltyState.materialize
  cases hst : st.materializedAdvantages with
  | true => exact ⟨h, hst, fun _ _ => rfl⟩
  | false =>
    obtain ⟨hview, hheap⟩ := h.shared hst
    rw [hview, hheap]
    refine ⟨⟨rfl, rfl, ?_, ?_, ?_⟩, rfl, fun i p => View.read_clone hvalid i p⟩
    · intro k hk
      exact View.getElem?_clone hk
    · intro _
      exact ⟨View.dense_clone hvalid, le_rfl⟩
    · intro hfalse
      cases hfalse

variable [Add F] [LinearOrder F]

/-- A penalty changes its span in the storage of the clone. -/
theorem penalize_spec (h : Cloned heap₀ view₀ st) {negAdv : Option F}
    (hst : negAdv.isSome → st.materializedAdvantages = true) {i : ℕ} (hi : i < view₀.rows)
    (start stop : ℕ) :
    ∃ st', penalize i start stop negAdv st = .ok st' ∧ Cloned heap₀ view₀ st' ∧
      st'.materializedAdvantages = st.materializedAdvantages ∧
      ∀ i' p', st'.advantages.read st'.heap i' p' =
        if i' = i ∧ start ≤ p' ∧ p' < stop then
          (st.advantages.read st.heap i' p').map (penalized negAdv)
        else st.advantages.read st.heap i' p' := by
  cases negAdv with
  | none =>
    refine ⟨st, rfl, h, rfl, fun i' p' => ?_⟩
    have hid : (penalized none : F → F) = id := rfl
    rw [hid, Option.map_id, id, ite_self]
  | some negAdv =>
    obtain ⟨hdense, hfresh⟩ := h.own (hst rfl)
    have hrow : i < st.advantages.rows := h.rows.symm ▸ hi
    set added := st.advantages.modifySpan st.heap i start stop (· + negAdv) with hadded
    have hdense' : st.advantages.Dense added := hdense.modifySpan i start stop _
    refine ⟨_, if_pos hrow, ⟨h.rows, h.cols, ?_, ?_, ?_⟩, rfl, ?_⟩
    · intro k hk
      have hne : k ≠ st.advantages.storage := by omega
      rw [View.getElem?_modifySpan hne, View.getElem?_modifySpan hne]
      exact h.kept k hk
    · intro _
      exact ⟨hdense'.modifySpan i start stop _, hfresh⟩
    · intro hfalse
      rw [hst rfl] at hfalse
      cases hfalse
    · intro i' p'
      rw [View.read_modifySpan hdense', View.read_modifySpan hdense]
      split
      · rw [Option.map_map]
        rfl
      · rfl

/-- The penalties of a message change the advantages of its tokens. -/
theorem penalizeMessage_spec (h : Cloned heap₀ view₀ st) (hvalid : view₀.Valid heap₀)
    (invalidNegAdv malformedNegAdv : Option F) {i : ℕ} (hi : i < view₀.rows) (offset : ℕ)
    (m : LogMessage D K) :
    ∃ st', penalizeMessage invalidNegAdv malformedNegAdv i (st, offset) m =
        .ok (st', offset + m.tokenIds.length) ∧ Cloned heap₀ view₀ st' ∧
      ∀ i' p', st'.advantages.read st'.heap i' p' =
        if i' = i ∧ offset ≤ p' ∧ p' < offset + m.tokenIds.length then
          (st.advantages.read st.heap i' p').map (applied invalidNegAdv malformedNegAdv m)
        else st.advantages.read st.heap i' p' := by
  set invalid := m.isInvalid invalidNegAdv with hinvalid
  set malformed := m.isMalformedThinking malformedNegAdv with hmalformed
  -- counting does not touch the storages
  set counted : PenaltyState F := { st with
    numAssistantMessages := st.numAssistantMessages + m.isAssistant.toNat
    numInvalidToolCalls := st.numInvalidToolCalls + invalid.isSome.toNat
    numMalformedThinking := st.numMalformedThinking + malformed.isSome.toNat } with hcounted
  have hcloned : Cloned heap₀ view₀ counted := ⟨h.rows, h.cols, h.kept, h.own, h.shared⟩
  obtain ⟨st₁, hst₁, hcloned₁, hmaterialized₁, hread₁⟩ : ∃ st₁,
      (if invalid.isSome || malformed.isSome then counted.materialize else counted) = st₁ ∧
      Cloned heap₀ view₀ st₁ ∧
      (invalid.isSome || malformed.isSome → st₁.materializedAdvantages = true) ∧
      ∀ i p, st₁.advantages.read st₁.heap i p = st.advantages.read st.heap i p := by
    cases hflagged : invalid.isSome || malformed.isSome with
    | false => exact ⟨counted, rfl, hcloned, by simp, fun _ _ => rfl⟩
    | true =>
      obtain ⟨hmat, htrue, hread⟩ := hcloned.materialize hvalid
      exact ⟨_, rfl, hmat, fun _ => htrue, hread⟩
  have howned₁ : invalid.isSome → st₁.materializedAdvantages = true :=
    fun hsome => hmaterialized₁ (by simp [hsome])
  obtain ⟨st₂, hst₂, hcloned₂, hmaterialized₂, hread₂⟩ :=
    penalize_spec hcloned₁ howned₁ hi offset (offset + m.tokenIds.length)
  have howned₂ : malformed.isSome → st₂.materializedAdvantages = true :=
    fun hsome => hmaterialized₂ ▸ hmaterialized₁ (by simp [hsome])
  obtain ⟨st₃, hst₃, hcloned₃, -, hread₃⟩ :=
    penalize_spec hcloned₂ howned₂ hi offset (offset + m.tokenIds.length)
  refine ⟨st₃, ?_, hcloned₃, fun i' p' => ?_⟩
  · simp only [penalizeMessage, ← hinvalid, ← hmalformed, ← hcounted, hst₁, hst₂, hst₃, bind,
      Except.bind, pure, Except.pure]
  · rw [hread₃, hread₂, hread₁]
    split
    · rw [Option.map_map]
      rfl
    · rfl

/-- The penalties of a log change the advantages of its row. -/
theorem penalizeMessages_spec (hvalid : view₀.Valid heap₀)
    (invalidNegAdv malformedNegAdv : Option F) {i : ℕ} (hi : i < view₀.rows)
    (log : List (LogMessage D K)) (h : Cloned heap₀ view₀ st) (offset : ℕ) :
    ∃ acc, log.foldlM (penalizeMessage invalidNegAdv malformedNegAdv i) (st, offset) = .ok acc ∧
      Cloned heap₀ view₀ acc.1 ∧
      ∀ i' p', acc.1.advantages.read acc.1.heap i' p' =
        if i' = i ∧ offset ≤ p' then (st.advantages.read st.heap i' p').map
          (valueAt invalidNegAdv malformedNegAdv log (p' - offset))
        else st.advantages.read st.heap i' p' := by
  induction log generalizing st offset with
  | nil =>
    refine ⟨(st, offset), rfl, h, fun i' p' => ?_⟩
    have hid : valueAt invalidNegAdv malformedNegAdv ([] : List (LogMessage D K)) (p' - offset) =
        id := rfl
    rw [hid, Option.map_id, id, ite_self]
  | cons m log ih =>
    obtain ⟨st₁, hst₁, hcloned₁, hread₁⟩ :=
      penalizeMessage_spec h hvalid invalidNegAdv malformedNegAdv hi offset m
    obtain ⟨acc, hacc, hcloned, hread⟩ := ih hcloned₁ (offset + m.tokenIds.length)
    refine ⟨acc, ?_, hcloned, fun i' p' => ?_⟩
    · rw [List.foldlM_cons, hst₁]
      exact hacc
    · rw [hread, hread₁]
      by_cases hrow : i' = i ∧ offset ≤ p'
      · have hsub : p' - offset - m.tokenIds.length = p' - (offset + m.tokenIds.length) := by omega
        by_cases hspan : p' < offset + m.tokenIds.length
        · have hlater : ¬ (i' = i ∧ offset + m.tokenIds.length ≤ p') := by omega
          have hthis : i' = i ∧ offset ≤ p' ∧ p' < offset + m.tokenIds.length := by omega
          have hvalue : valueAt invalidNegAdv malformedNegAdv (m :: log) (p' - offset) =
              applied invalidNegAdv malformedNegAdv m := by
            funext x
            rw [valueAt, if_pos (by omega)]
          simp only [if_neg hlater, if_pos hthis, if_pos hrow, hvalue]
        · have hlater : i' = i ∧ offset + m.tokenIds.length ≤ p' := by omega
          have hthis : ¬ (i' = i ∧ offset ≤ p' ∧ p' < offset + m.tokenIds.length) := by omega
          have hvalue : valueAt invalidNegAdv malformedNegAdv (m :: log) (p' - offset) =
              valueAt invalidNegAdv malformedNegAdv log
                (p' - (offset + m.tokenIds.length)) := by
            funext x
            rw [valueAt, if_neg (by omega), hsub]
          simp only [if_pos hlater, if_neg hthis, if_pos hrow, hvalue]
      · have hlater : ¬ (i' = i ∧ offset + m.tokenIds.length ≤ p') := by omega
        have hthis : ¬ (i' = i ∧ offset ≤ p' ∧ p' < offset + m.tokenIds.length) := by omega
        simp only [if_neg hlater, if_neg hthis, if_neg hrow]

/-- The value at a position of a batch. -/
def batchValueAt (invalidNegAdv malformedNegAdv : Option F) (logs : List (List (LogMessage D K)))
    (i p : ℕ) (x : F) : F :=
  match logs[i]? with
  | none => x
  | some log => valueAt invalidNegAdv malformedNegAdv log p x

/-- The penalties of the rows from some row on. -/
theorem penalizeLogs_spec (hvalid : view₀.Valid heap₀)
    (invalidNegAdv malformedNegAdv : Option F) (logs : List (List (LogMessage D K)))
    (first : ℕ) (hrows : first + logs.length ≤ view₀.rows) (h : Cloned heap₀ view₀ st) :
    ∃ st', (logs.zipIdx first).foldlM (penalizeLog invalidNegAdv malformedNegAdv) st = .ok st' ∧
      Cloned heap₀ view₀ st' ∧
      ∀ i p, st'.advantages.read st'.heap i p =
        if first ≤ i then (st.advantages.read st.heap i p).map
          (batchValueAt invalidNegAdv malformedNegAdv logs (i - first) p)
        else st.advantages.read st.heap i p := by
  induction logs generalizing st first with
  | nil =>
    refine ⟨st, rfl, h, fun i p => ?_⟩
    have hid : batchValueAt invalidNegAdv malformedNegAdv ([] : List (List (LogMessage D K)))
        (i - first) p = id := rfl
    rw [hid, Option.map_id, id, ite_self]
  | cons log logs ih =>
    rw [List.length_cons] at hrows
    obtain ⟨acc, hacc, hcloned₁, hread₁⟩ := penalizeMessages_spec hvalid invalidNegAdv
      malformedNegAdv (i := first) (by omega) log h 0
    obtain ⟨st', hst', hcloned, hread⟩ := ih (first + 1) (by omega) hcloned₁
    have hlog : penalizeLog invalidNegAdv malformedNegAdv st (log, first) = .ok acc.1 :=
      bind_eq_ok.mpr ⟨acc, hacc, rfl⟩
    refine ⟨st', ?_, hcloned, fun i p => ?_⟩
    · rw [List.zipIdx_cons, List.foldlM_cons, hlog]
      exact hst'
    · rw [hread, hread₁]
      rcases lt_trichotomy i first with hlt | rfl | hgt
      · rw [if_neg (by omega), if_neg (by omega), if_neg (by omega)]
      · have hvalue : batchValueAt invalidNegAdv malformedNegAdv (log :: logs) (i - i) p =
            valueAt invalidNegAdv malformedNegAdv log (p - 0) := by
          rw [Nat.sub_self]
          rfl
        rw [if_neg (by omega), if_pos ⟨rfl, Nat.zero_le p⟩, if_pos le_rfl, hvalue]
      · have hvalue : batchValueAt invalidNegAdv malformedNegAdv (log :: logs) (i - first) p =
            batchValueAt invalidNegAdv malformedNegAdv logs (i - (first + 1)) p := by
          obtain ⟨k, hk⟩ : ∃ k, i - first = k + 1 := ⟨i - first - 1, by omega⟩
          have hk' : i - (first + 1) = k := by omega
          rw [hk, hk']
          rfl
        rw [if_pos (by omega), if_neg (by omega), if_pos (by omega), hvalue]

theorem valueAt_none (log : List (LogMessage D K)) (p : ℕ) (x : F) :
    valueAt none none log p x = x := by
  induction log generalizing p with
  | nil => rfl
  | cons m log ih =>
    rw [valueAt, ih]
    have hsame : applied none none m x = x := by
      simp [applied, LogMessage.isInvalid, LogMessage.isMalformedThinking, penalized]
    rw [hsame, ite_self]

/-- Without penalties no advantage changes. -/
theorem batchValueAt_none (logs : List (List (LogMessage D K))) (i p : ℕ) (x : F) :
    batchValueAt none none logs i p x = x := by
  unfold batchValueAt
  cases logs[i]? with
  | none => rfl
  | some log => exact valueAt_none log p x

/-- Every advantage behind the penalties of its message. The storages that were there are as they
were. -/
theorem read_penalties {heap : List (List F)} {advantages : View} (hvalid : advantages.Valid heap)
    {logs : List (List (LogMessage D K))} (hrows : logs.length ≤ advantages.rows)
    (invalidNegAdv malformedNegAdv : Option F) :
    ∃ out, applyMessageLevelAdvantagePenalties heap advantages logs invalidNegAdv
        malformedNegAdv = .ok out ∧
      out.advantages.rows = advantages.rows ∧ out.advantages.cols = advantages.cols ∧
      (∀ k < heap.length, out.heap[k]? = heap[k]?) ∧
      ∀ i p, out.advantages.read out.heap i p = (advantages.read heap i p).map
        (batchValueAt invalidNegAdv malformedNegAdv logs i p) := by
  unfold applyMessageLevelAdvantagePenalties
  split
  case isTrue hnone =>
    simp only [Bool.and_eq_true, Option.isNone_iff_eq_none] at hnone
    obtain ⟨rfl, rfl⟩ := hnone
    refine ⟨_, rfl, rfl, rfl, fun _ _ => rfl, fun i p => ?_⟩
    have hid : batchValueAt none none logs i p = (id : F → F) := by
      funext x
      exact batchValueAt_none logs i p x
    rw [hid, Option.map_id, id]
  case isFalse =>
    have hinit : Cloned heap advantages (⟨heap, advantages, false, 0, 0, 0⟩ : PenaltyState F) :=
      ⟨rfl, rfl, fun _ _ => rfl, by simp, fun _ => ⟨rfl, rfl⟩⟩
    obtain ⟨st, hst, hcloned, hread⟩ := penalizeLogs_spec hvalid invalidNegAdv malformedNegAdv logs
      0 (by omega) hinit
    refine ⟨_, bind_eq_ok.mpr ⟨st, hst, rfl⟩, hcloned.rows, hcloned.cols, hcloned.kept,
      fun i p => ?_⟩
    rw [hread, if_pos (Nat.zero_le i), Nat.sub_zero]

end Spec

end NemoRL.Algorithms.MessagePenalties
