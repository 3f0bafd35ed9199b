import Mathlib
import NemoRL.Algorithms.MessagePenalties
import NemoRL.Data.FlatRows

/-!
# The spans of flagged messages

The advantages of a flagged message are documented to be overwritten by the configured value. The
value is added instead, and the sum is clamped. An advantage that was negative ends below the
value, and so does every advantage of a message with both flags. Other advantages are never
touched, and neither is any storage that was there before.

## Main definitions

* `Fills` — a position of a flattened row has a token of a message.
* `OverwritesFlagged` — what is documented.

## Main results

* `overwritesFlagged_iff` — the batches that are penalized as documented.
-/

namespace NemoRL.Algorithms.MessagePenalties

open Lib Data.Multimodal

variable {D K F : Type}

/-! ## Positions of a row -/

/-- The tokens of a log. -/
def tokensOf (log : List (LogMessage D K)) : List K := log.flatMap LogMessage.tokenIds

/-- A position of the row of a log has a token of a message of the log. -/
def Fills (row : Tensor K) (log : List (LogMessage D K)) (p : ℕ) (m : LogMessage D K) : Prop :=
  ∃ before after q, log = before ++ m :: after ∧ q < m.tokenIds.length ∧
    p = (tokensOf before).length + q ∧ row.data[p]? = m.tokenIds[q]?

/-- The configured values that apply to a message. -/
def LogMessage.penalties (m : LogMessage D K) (invalidNegAdv malformedNegAdv : Option F) :
    List F :=
  (m.isInvalid invalidNegAdv).toList ++ (m.isMalformedThinking malformedNegAdv).toList

/-- The tokens among the entries of a message. -/
def tokenItems (entries : Data.Multimodal.Message D K Entry) : List K :=
  match entries.lookup "token_ids" with
  | some (.tensor t) => t.value.data
  | _ => []

theorem hasVectors_entries (log : List (LogMessage D K)) :
    HasVectors "token_ids" tokenItems (log.map LogMessage.entries) := by
  intro e he
  obtain ⟨m, -, rfl⟩ := List.mem_map.mp he
  exact ⟨m.dtype, m.device, rfl⟩

/-- The rows of the flattened tokens of a batch. -/
theorem rows_of_tokens [DecidableEq D] [ToString D] [Zero K] {promote : D → D → D}
    {padValueDict : Option (List (String × K))} {div : ℕ} {logs : List (List (LogMessage D K))}
    {cols : List (String × FlatColumn D K Entry)} {lens : List ℕ} {s : StackedTensor D K}
    (h : batchedMessageLogToFlatMessage promote padValueDict div
      (logs.map fun log => log.map LogMessage.entries) = .ok (cols, lens))
    (hcol : cols.lookup "token_ids" = some (.stacked s)) :
    ∃ maxLen padValue, s.value.rows = logs.map fun log =>
      (Tensor.vector (tokensOf log)).padTo maxLen padValue := by
  have hitems : ∀ log ∈ logs.map fun log => log.map LogMessage.entries,
      HasVectors "token_ids" tokenItems log := by
    intro log hlog
    obtain ⟨log, -, rfl⟩ := List.mem_map.mp hlog
    exact hasVectors_entries log
  obtain ⟨maxLen, padValue, hrows⟩ := rows_of_vectors h hcol hitems
  refine ⟨maxLen, padValue, hrows.trans ?_⟩
  rw [List.map_map]
  refine List.map_congr_left fun log _ => ?_
  simp only [Function.comp_apply, List.flatMap_map, tokensOf]
  rfl

section Row
variable {row : Tensor K} {log : List (LogMessage D K)} {maxLen : ℕ} {padValue : K}

theorem data_padTo (hrow : row = (Tensor.vector (tokensOf log)).padTo maxLen padValue) :
    row.data = tokensOf log ++
      List.replicate ((maxLen - (tokensOf log).length) * [].prod) padValue := by
  rw [hrow]
  rfl

/-- A position within the tokens has a token of some message. -/
theorem fills_of_split (hrow : row = (Tensor.vector (tokensOf log)).padTo maxLen padValue)
    {before after : List (LogMessage D K)} {m : LogMessage D K} {q : ℕ}
    (hlog : log = before ++ m :: after) (hq : q < m.tokenIds.length) :
    Fills row log ((tokensOf before).length + q) m := by
  refine ⟨before, after, q, hlog, hq, rfl, ?_⟩
  have htokens : tokensOf log = tokensOf before ++ (m.tokenIds ++ tokensOf after) := by
    rw [hlog, tokensOf, List.flatMap_append, List.flatMap_cons]
    rfl
  rw [data_padTo hrow, htokens, List.append_assoc, List.getElem?_append_right (by omega),
    Nat.add_sub_cancel_left, List.append_assoc, List.getElem?_append_left hq]

/-- A position with a token lies in the flattened tensor. -/
theorem Fills.lt_width {p : ℕ} {m : LogMessage D K} (h : Fills row log p m) {t : Rect K}
    (ht : row ∈ t.rows) (hrow : row = (Tensor.vector (tokensOf log)).padTo maxLen padValue) :
    p < t.width := by
  obtain ⟨before, after, q, -, hq, -, hdata⟩ := h
  rw [List.getElem?_eq_getElem hq] at hdata
  have hp : p < row.data.length := (List.getElem?_eq_some_iff.mp hdata).1
  have hshape : row.shape = [max maxLen (tokensOf log).length] := by
    rw [hrow]
    exact Tensor.shape_padTo rfl maxLen padValue
  rw [row.length_data, hshape, List.prod_singleton] at hp
  rwa [Rect.width, ← t.shape_rows row ht, hshape]

end Row

/-! ## The values -/

section Values
variable [AddCommGroup F] [LinearOrder F] {invalidNegAdv malformedNegAdv : Option F}
  {m : LogMessage D K}

/-- The advantage of a token of a message. -/
theorem valueAt_of_split {before after : List (LogMessage D K)} {q : ℕ}
    (hq : q < m.tokenIds.length) (x : F) :
    valueAt invalidNegAdv malformedNegAdv (before ++ m :: after) ((tokensOf before).length + q) x =
      applied invalidNegAdv malformedNegAdv m x := by
  induction before with
  | nil =>
    have hfirst : (tokensOf ([] : List (LogMessage D K))).length + q = q := by simp [tokensOf]
    rw [List.nil_append, valueAt, hfirst, if_pos hq]
  | cons b before ih =>
    have hlen : (tokensOf (b :: before)).length = b.tokenIds.length + (tokensOf before).length := by
      rw [tokensOf, List.flatMap_cons, List.length_append]
      rfl
    rw [List.cons_append, valueAt, if_neg (by omega), hlen, Nat.add_assoc,
      Nat.add_sub_cancel_left, ih]

/-- A position is one of a token of a message, or behind all tokens. -/
theorem exists_split (log : List (LogMessage D K)) (p : ℕ) :
    (∃ before m after q, log = before ++ m :: after ∧ q < m.tokenIds.length ∧
      p = (tokensOf before).length + q) ∨ (tokensOf log).length ≤ p := by
  induction log generalizing p with
  | nil => exact .inr (Nat.zero_le p)
  | cons m log ih =>
    have hlen : ∀ l : List (LogMessage D K),
        (tokensOf (m :: l)).length = m.tokenIds.length + (tokensOf l).length := by
      intro l
      rw [tokensOf, List.flatMap_cons, List.length_append]
      rfl
    by_cases hp : p < m.tokenIds.length
    · exact .inl ⟨[], m, log, p, rfl, hp, by simp [tokensOf]⟩
    · rcases ih (p - m.tokenIds.length) with ⟨before, m', after, q, rfl, hq, hpos⟩ | hend
      · refine .inl ⟨m :: before, m', after, q, rfl, hq, ?_⟩
        rw [hlen]
        omega
      · refine .inr ?_
        rw [hlen]
        omega

theorem valueAt_of_le {log : List (LogMessage D K)} {p : ℕ} (hp : (tokensOf log).length ≤ p)
    (x : F) : valueAt invalidNegAdv malformedNegAdv log p x = x := by
  induction log generalizing p with
  | nil => rfl
  | cons m log ih =>
    rw [tokensOf, List.flatMap_cons, List.length_append, ← tokensOf] at hp
    rw [valueAt, if_neg (by omega), ih (by omega)]

theorem applied_of_not_flagged (h : m.penalties invalidNegAdv malformedNegAdv = []) (x : F) :
    applied invalidNegAdv malformedNegAdv m x = x := by
  obtain ⟨hinvalid, hmalformed⟩ := List.append_eq_nil_iff.mp h
  rw [Option.toList_eq_nil_iff] at hinvalid hmalformed
  rw [applied, hinvalid, hmalformed]
  rfl

variable [IsOrderedAddMonoid F]

theorem penalized_eq_iff {negAdv x : F} : penalized (some negAdv) x = negAdv ↔ 0 ≤ x := by
  rw [penalized, min_eq_right_iff, le_add_iff_nonneg_left]

/-- A flagged advantage becomes a configured value exactly when a single penalty applies to it and
it was not negative. -/
theorem applied_mem_iff (hinvalid : ∀ v, invalidNegAdv = some v → v < 0)
    (hmalformed : ∀ v, malformedNegAdv = some v → v < 0)
    (hflagged : m.penalties invalidNegAdv malformedNegAdv ≠ []) (x : F) :
    applied invalidNegAdv malformedNegAdv m x ∈ m.penalties invalidNegAdv malformedNegAdv ↔
      (m.penalties invalidNegAdv malformedNegAdv).length = 1 ∧ 0 ≤ x := by
  have hneg : ∀ v, m.isInvalid invalidNegAdv = some v → v < 0 := by
    intro v hv
    unfold LogMessage.isInvalid at hv
    split at hv
    · exact hinvalid v hv
    · cases hv
  have hneg' : ∀ v, m.isMalformedThinking malformedNegAdv = some v → v < 0 := by
    intro v hv
    unfold LogMessage.isMalformedThinking at hv
    split at hv
    · exact hmalformed v hv
    · cases hv
  rw [LogMessage.penalties] at hflagged ⊢
  rw [applied]
  cases h : m.isInvalid invalidNegAdv with
  | none =>
    cases h' : m.isMalformedThinking malformedNegAdv with
    | none => simp [h, h'] at hflagged
    | some v' => simp [penalized_eq_iff, show penalized none x = x from rfl]
  | some v =>
    cases h' : m.isMalformedThinking malformedNegAdv with
    | none => simp [penalized_eq_iff, show ∀ y : F, penalized none y = y from fun _ => rfl]
    | some v' =>
      -- with both penalties the value lies below each of them
      have hv := hneg v h
      have hv' := hneg' v' h'
      have hle : penalized (some v) x ≤ v := min_le_right _ _
      have hlt : penalized (some v) x + v' < v' := by
        simpa using add_lt_add_of_lt_of_le (hle.trans_lt hv) (le_refl v')
      have hlt' : penalized (some v) x + v' < v := by
        simpa using add_lt_add_of_le_of_lt hle hv'
      have hboth : penalized (some v') (penalized (some v) x) = penalized (some v) x + v' :=
        min_eq_left hlt.le
      simp [hboth, hlt.ne, hlt'.ne]

end Values

/-! ## What is documented -/

/-- The advantages of flagged messages are configured values, and all other ones are as they were.
The storages that were there are as they were, so a tensor that shares one of them is. -/
structure OverwritesFlagged (heap : List (List F)) (advantages : View)
    (logs : List (List (LogMessage D K))) (invalidNegAdv malformedNegAdv : Option F)
    (rows : List (Tensor K)) (out : Penalized F) : Prop where
  shape : out.advantages.rows = advantages.rows ∧ out.advantages.cols = advantages.cols
  flagged : ∀ (i : ℕ) (log : List (LogMessage D K)) (row : Tensor K) (p : ℕ)
    (m : LogMessage D K), logs[i]? = some log → rows[i]? = some row → Fills row log p m →
    m.penalties invalidNegAdv malformedNegAdv ≠ [] →
    ∃ v ∈ m.penalties invalidNegAdv malformedNegAdv,
      out.advantages.read out.heap i p = some v
  others : ∀ (i p : ℕ), (∀ (log : List (LogMessage D K)) (row : Tensor K) (m : LogMessage D K),
    logs[i]? = some log → rows[i]? = some row → Fills row log p m →
    m.penalties invalidNegAdv malformedNegAdv = []) →
    out.advantages.read out.heap i p = advantages.read heap i p
  kept : ∀ k < heap.length, out.heap[k]? = heap[k]?

section Main
variable [DecidableEq D] [ToString D] [Zero K] [AddCommGroup F] [LinearOrder F]
  [IsOrderedAddMonoid F]

/-- A batch is penalized as documented exactly when no token of a flagged message had a negative
advantage or is subject to both penalties. -/
theorem overwritesFlagged_iff (heap : List (List F)) (advantages : View)
    (hvalid : advantages.Valid heap) (logs : List (List (LogMessage D K)))
    (invalidNegAdv malformedNegAdv : Option F)
    (hinvalid : ∀ v, invalidNegAdv = some v → v < 0)
    (hmalformed : ∀ v, malformedNegAdv = some v → v < 0)
    (promote : D → D → D) (padValueDict : Option (List (String × K))) (div : ℕ)
    (cols : List (String × FlatColumn D K Entry)) (lens : List ℕ) (s : StackedTensor D K)
    (hflat : batchedMessageLogToFlatMessage promote padValueDict div
      (logs.map fun log => log.map LogMessage.entries) = .ok (cols, lens))
    (hcol : cols.lookup "token_ids" = some (.stacked s))
    (hrows : advantages.rows = s.value.rows.length) (hcols : advantages.cols = s.value.width) :
    (∃ out, applyMessageLevelAdvantagePenalties heap advantages logs invalidNegAdv
        malformedNegAdv = .ok out ∧
      OverwritesFlagged heap advantages logs invalidNegAdv malformedNegAdv s.value.rows out) ↔
      ∀ (i : ℕ) (log : List (LogMessage D K)) (row : Tensor K) (p : ℕ) (m : LogMessage D K)
        (x : F), logs[i]? = some log → s.value.rows[i]? = some row → Fills row log p m →
        m.penalties invalidNegAdv malformedNegAdv ≠ [] → advantages.read heap i p = some x →
        (m.penalties invalidNegAdv malformedNegAdv).length = 1 ∧ 0 ≤ x := by
  obtain ⟨maxLen, padValue, hs⟩ := rows_of_tokens hflat hcol
  have hlen : s.value.rows.length = logs.length := by rw [hs, List.length_map]
  have hrow : ∀ (i : ℕ) (log : List (LogMessage D K)), logs[i]? = some log →
      s.value.rows[i]? = some ((Tensor.vector (tokensOf log)).padTo maxLen padValue) := by
    intro i log hlog
    rw [hs, List.getElem?_map, hlog]
    rfl
  have hle : logs.length ≤ advantages.rows := by omega
  obtain ⟨out, hout, houtRows, houtCols, hkept, hread⟩ :=
    read_penalties hvalid hle invalidNegAdv malformedNegAdv
  -- the advantage of a token behind its penalties
  have hvalue : ∀ (i : ℕ) (log : List (LogMessage D K)) (row : Tensor K) (p : ℕ)
      (m : LogMessage D K), logs[i]? = some log → s.value.rows[i]? = some row →
      Fills row log p m → out.advantages.read out.heap i p =
        (advantages.read heap i p).map (applied invalidNegAdv malformedNegAdv m) := by
    rintro i log row p m hlog hrow ⟨before, after, q, rfl, hq, rfl, -⟩
    rw [hread]
    refine congrArg (Option.map · _) ?_
    funext x
    rw [batchValueAt, hlog]
    exact valueAt_of_split hq x
  constructor
  · rintro ⟨out', hout', hdone⟩ i log row p m x hlog hrow hfills hflagged hx
    obtain rfl := Except.ok.inj (hout.symm.trans hout')
    obtain ⟨v, hv, hreadv⟩ := hdone.flagged i log row p m hlog hrow hfills hflagged
    rw [hvalue i log row p m hlog hrow hfills, hx, Option.map_some, Option.some.injEq] at hreadv
    subst hreadv
    exact (applied_mem_iff hinvalid hmalformed hflagged x).mp hv
  · intro h
    refine ⟨out, hout, ⟨houtRows, houtCols⟩, ?_, ?_, hkept⟩
    · intro i log row p m hlog hrow' hfills hflagged
      have hi : i < advantages.rows := hrows ▸ (List.getElem?_eq_some_iff.mp hrow').1
      have hp : p < advantages.cols := by
        rw [hcols]
        have hpadded := Option.some.inj (hrow'.symm.trans (hrow i log hlog))
        exact hfills.lt_width (List.mem_of_getElem? hrow') hpadded
      obtain ⟨x, hx⟩ := Option.isSome_iff_exists.mp (hvalid.read_isSome i hi p hp)
      refine ⟨applied invalidNegAdv malformedNegAdv m x, ?_, ?_⟩
      · exact (applied_mem_iff hinvalid hmalformed hflagged x).mpr
          (h i log row p m x hlog hrow' hfills hflagged hx)
      · rw [hvalue i log row p m hlog hrow' hfills, hx, Option.map_some]
    · intro i p hothers
      have hsame : batchValueAt invalidNegAdv malformedNegAdv logs i p = id := by
        funext x
        rw [batchValueAt]
        cases hlog : logs[i]? with
        | none => rfl
        | some log =>
          rcases exists_split log p with ⟨before, m, after, q, hsplit, hq, rfl⟩ | hend
          · have hfills : Fills ((Tensor.vector (tokensOf log)).padTo maxLen padValue) log
                ((tokensOf before).length + q) m := fills_of_split rfl hsplit hq
            have hnone := hothers log _ m hlog (hrow i log hlog) hfills
            exact (hsplit ▸ valueAt_of_split hq x).trans (applied_of_not_flagged hnone x)
          · exact valueAt_of_le hend x
      rw [hread, hsame, Option.map_id, id]

end Main

/-! ## A flagged message -/

/-- A prompt of one token. -/
def prompt : LogMessage String ℕ where
  role := "user"
  dtype := "int64"
  device := "cpu"
  tokenIds := [1]

/-- A generated message of two tokens with an invalid tool call. -/
def invalidToolCall : LogMessage String ℕ where
  role := "assistant"
  dtype := "int64"
  device := "cpu"
  tokenIds := [2, 3]
  generationLogprobs := some ⟨"float32", "cpu", Tensor.vector [0, 0]⟩
  isInvalidToolCall := some true

/-- The flattened tokens. -/
def flatTokens : StackedTensor String ℕ :=
  ⟨"int64", "cpu", ⟨[3], [Tensor.vector [1, 2, 3]], by decide⟩⟩

/-- The flattened log-probabilities. -/
def flatLogprobs : StackedTensor String ℕ :=
  ⟨"float32", "cpu", ⟨[3], [Tensor.vector [0, 0, 0]], by decide⟩⟩

/-- The flattened messages. -/
def flatColumns : List (String × FlatColumn String ℕ Entry) :=
  [("role", .values [some (.values [.other "str" (.text "user"),
      .other "str" (.text "assistant")])]),
    ("token_ids", .stacked flatTokens),
    ("generation_logprobs", .stacked flatLogprobs),
    ("is_invalid_tool_call", .values [some (.values [.other "bool" (.flag true)])])]

/-- One advantage for all tokens of a sample. -/
def expanded : View := ⟨0, 0, 1, 3, 1, 0⟩

theorem read_expanded {a x : ℤ} {i p : ℕ} (h : expanded.read [[a]] i p = some x) : x = a := by
  unfold View.read at h
  split at h
  · have hmem : x ∈ [a] := List.mem_of_getElem? h
    simpa using hmem
  · cases h

/-- An advantage that is not negative is overwritten. -/
theorem overwritesFlagged_iff_expanded :
    ∃ out, applyMessageLevelAdvantagePenalties [[2]] expanded [[prompt, invalidToolCall]]
        (some (-5)) none = .ok out ∧
      OverwritesFlagged [[(2 : ℤ)]] expanded [[prompt, invalidToolCall]] (some (-5)) none
        flatTokens.value.rows out := by
  refine (overwritesFlagged_iff [[2]] expanded ⟨by decide, by decide⟩ [[prompt, invalidToolCall]]
    (some (-5)) none (by simp) (by simp) (fun d _ => d) none 1 flatColumns [3] flatTokens rfl rfl
    rfl rfl).mpr ?_
  rintro i log row p m x hlog - ⟨before, after, q, rfl, -⟩ hflagged hx
  obtain rfl := read_expanded hx
  have hmem : m ∈ [prompt, invalidToolCall] := by
    have hlogs := List.mem_of_getElem? hlog
    rw [← List.mem_singleton.mp hlogs]
    simp
  rcases List.mem_pair.mp hmem with rfl | rfl
  · exact absurd rfl hflagged
  · exact ⟨rfl, by decide⟩

/-- A negative advantage ends below the configured value. -/
theorem negative_advantage_not_overwritten :
    ¬ ∃ out, applyMessageLevelAdvantagePenalties [[-1]] expanded [[prompt, invalidToolCall]]
        (some (-5)) none = .ok out ∧
      OverwritesFlagged [[(-1 : ℤ)]] expanded [[prompt, invalidToolCall]] (some (-5)) none
        flatTokens.value.rows out := by
  rintro ⟨out, hout, hdone⟩
  have hrun : applyMessageLevelAdvantagePenalties [[(-1 : ℤ)]] expanded
      [[prompt, invalidToolCall]] (some (-5)) none =
      .ok ⟨[[-1], [-1, -6, -6]], ⟨1, 0, 1, 3, 3, 1⟩,
        some ⟨1 / (max 1 1 : ℕ), 0 / (max 1 1 : ℕ), 1, 0, 1⟩⟩ := rfl
  obtain rfl := Except.ok.inj (hrun.symm.trans hout)
  have hfills : Fills (Tensor.vector [1, 2, 3]) [prompt, invalidToolCall] 1 invalidToolCall :=
    ⟨[prompt], [], 0, rfl, by decide, rfl, rfl⟩
  obtain ⟨v, hv, hread⟩ := hdone.flagged 0 _ _ 1 _ rfl rfl hfills (by decide)
  have hv : v = -5 := List.mem_singleton.mp hv
  have hlow : v = -6 := (Option.some.inj hread).symm
  omega

end NemoRL.Algorithms.MessagePenalties
