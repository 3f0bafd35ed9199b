import Mathlib.Algebra.Ring.Nat
import NemoRL.Data.MessageLog

/-!
# Message logs come back from the data plane

A message is found again by the numbers of tokens of the messages in front of it. Its tokens are
at this offset since every message has tokens. Log probabilities are concatenated over the
messages that have them, so they are at the offset of the tokens when the messages in front have
one for each token as well. A message without tokens comes back without tensors.

## Main definitions

* `Flattens` — message logs with roles and tokens whose tensors can be stacked.
* `Restores` — a message came back.

## Main results

* `reconstructDecomposed_spec` — the messages of all logs come back in order.
-/

namespace NemoRL.Data

open Lib

variable {D K : Type}

/-! ## Slices of concatenations -/

/-- A part of a concatenation is found by the lengths of the parts in front of it. -/
theorem slice_flatMap {α β : Type} (f : α → List β) (l : List α) (pad : List β) {t : ℕ} {a : α}
    (ht : l[t]? = some a) :
    slice (l.flatMap f ++ pad) ((l.take t).map fun x => (f x).length).sum
      (((l.take t).map fun x => (f x).length).sum + (f a).length) = f a := by
  have hsplit : l = l.take t ++ a :: l.drop (t + 1) := by
    obtain ⟨hlt, rfl⟩ := List.getElem?_eq_some_iff.mp ht
    rw [List.getElem_cons_drop, List.take_append_drop]
  have hlength : ((l.take t).map fun x => (f x).length).sum = ((l.take t).flatMap f).length := by
    rw [List.length_flatMap]
  have hflat : l.flatMap f ++ pad =
      (l.take t).flatMap f ++ (f a ++ ((l.drop (t + 1)).flatMap f ++ pad)) := by
    conv_lhs => rw [hsplit]
    simp [List.flatMap_append]
  rw [hlength, hflat, slice, Nat.add_sub_cancel_left, List.drop_left, List.take_left]

theorem lookup_map_keys {κ β : Type} [DecidableEq κ] (f : κ → β) (l : List κ) (k : κ) :
    (l.map fun k => (k, f k)).lookup k = if k ∈ l then some (f k) else none := by
  induction l with
  | nil => rfl
  | cons k' l ih =>
    rw [List.map_cons, lookup_cons, ih]
    by_cases h : k = k'
    · simp [h]
    · simp [h]

/-! ## Flattening -/

section Flat
variable {promote : D → D → D}

/-- The elements of a tensor. -/
def MessageValue.items : MessageValue D K → List K
  | text _ => []
  | tensor t => t.items

/-- A tensor of a type on a device. -/
def MessageValue.HasType (dtype : D) (device : String) (v : MessageValue D K) : Prop :=
  v = .tensor ⟨dtype, device, v.items⟩

/-- The values of a key are all texts, or all tensors of one type on one device. -/
def UniformKey (logs : List (List (Message D K))) (key : String) : Prop :=
  (∀ log ∈ logs, ∀ m ∈ log, ∀ v, m.lookup key = some v → ∃ s, v = .text s) ∨
    ∃ dtype device, ∀ log ∈ logs, ∀ m ∈ log, ∀ v, m.lookup key = some v → v.HasType dtype device

/-- The values of a key in a message log. -/
def valuesOf (key : String) (log : List (Message D K)) : List (MessageValue D K) :=
  log.filterMap fun msg => msg.lookup key

/-- What flattening makes of uniform values. -/
def flatValue : List (MessageValue D K) → FlatValue D K
  | .tensor first :: rest =>
    .tensor ⟨first.dtype, first.device, first.items ++ rest.flatMap MessageValue.items⟩
  | vs => .values vs

theorem catTensors_eq (hpromote : ∀ d, promote d d = d) (first : MessageTensor D K)
    {rest : List (MessageValue D K)} (h : ∀ v ∈ rest, v.HasType first.dtype first.device) :
    catTensors promote first rest =
      .ok ⟨first.dtype, first.device, first.items ++ rest.flatMap MessageValue.items⟩ := by
  induction rest generalizing first with
  | nil => simp [catTensors, pure, Except.pure]
  | cons v rest ih =>
    obtain ⟨hv, hrest⟩ := List.forall_mem_cons.mp h
    have hstep : catTensors promote first (v :: rest) =
        catTensors promote ⟨first.dtype, first.device, first.items ++ v.items⟩ rest := by
      rw [hv]
      simp only [catTensors, List.foldlM_cons, if_true, hpromote, bind, Except.bind, pure,
        Except.pure]
      rfl
    rw [hstep, ih ⟨first.dtype, first.device, first.items ++ v.items⟩ hrest, List.flatMap_cons,
      List.append_assoc]

theorem concatValues_eq (hpromote : ∀ d, promote d d = d) {vs : List (MessageValue D K)}
    (h : (∀ v ∈ vs, ∃ s, v = .text s) ∨ ∃ dtype device, ∀ v ∈ vs, v.HasType dtype device) :
    concatValues promote vs = .ok (flatValue vs) := by
  cases vs with
  | nil => rfl
  | cons v vs =>
    cases v with
    | text s => rfl
    | tensor first =>
      have hrest : ∀ v ∈ vs, v.HasType first.dtype first.device := by
        rcases h with htext | ⟨dtype, device, htype⟩
        · obtain ⟨s, hs⟩ := htext _ List.mem_cons_self
          cases hs
        · obtain ⟨hfirst, hrest⟩ := List.forall_mem_cons.mp htype
          have heq := MessageValue.tensor.inj hfirst
          rw [heq]
          exact hrest
      rw [concatValues, catTensors_eq hpromote first hrest]
      rfl

/-- The keys of a message log. -/
def keysOf (log : List (Message D K)) : List String :=
  (log.flatMap fun msg => msg.map Prod.fst).dedup

theorem lookup_isSome {m : Message D K} {key : String} :
    key ∈ m.map Prod.fst ↔ ∃ v, m.lookup key = some v := by
  constructor
  · exact exists_lookup
  · rintro ⟨v, hv⟩
    exact List.mem_map_of_mem (mem_of_lookup hv)

theorem mem_keysOf {log : List (Message D K)} {key : String} :
    key ∈ keysOf log ↔ valuesOf key log ≠ [] := by
  rw [keysOf, List.mem_dedup, List.mem_flatMap, valuesOf, ne_eq, List.filterMap_eq_nil_iff]
  push Not
  refine exists_congr fun m => and_congr_right fun _ => ?_
  rw [lookup_isSome, Option.ne_none_iff_exists']

/-- The flat message of a log of uniform keys. -/
def flatMessage (log : List (Message D K)) : List (String × FlatValue D K) :=
  (keysOf log).map fun key => (key, flatValue (valuesOf key log))

theorem messageLogToFlatMessages_eq (hpromote : ∀ d, promote d d = d)
    {logs : List (List (Message D K))} (huniform : ∀ key, UniformKey logs key)
    {log : List (Message D K)} (hlog : log ∈ logs) :
    messageLogToFlatMessages promote log = .ok (flatMessage log) := by
  apply mapM_of_forall
  intro key _
  have hvalues : ∀ v ∈ valuesOf key log, ∃ m ∈ log, m.lookup key = some v := by
    intro v hv
    exact List.mem_filterMap.mp hv
  have hconcat : concatValues promote (valuesOf key log) = .ok (flatValue (valuesOf key log)) := by
    apply concatValues_eq hpromote
    rcases huniform key with htext | ⟨dtype, device, htype⟩
    · left
      intro v hv
      obtain ⟨m, hm, hlookup⟩ := hvalues v hv
      exact htext log hlog m hm v hlookup
    · right
      refine ⟨dtype, device, fun v hv => ?_⟩
      obtain ⟨m, hm, hlookup⟩ := hvalues v hv
      exact htype log hlog m hm v hlookup
  change (concatValues promote (valuesOf key log)).bind _ = _
  rw [hconcat]
  rfl

theorem keys_flatMessage (log : List (Message D K)) :
    (flatMessage log).map Prod.fst = keysOf log := by
  simp [flatMessage, Function.comp_def]

theorem lookup_flatMessage (log : List (Message D K)) (key : String) :
    (flatMessage log).lookup key =
      if valuesOf key log ≠ [] then some (flatValue (valuesOf key log)) else none := by
  rw [flatMessage, lookup_map_keys (fun key => flatValue (valuesOf key log))]
  simp only [mem_keysOf]

end Flat

/-! ## Stacking -/

section Stack
variable [DecidableEq D] [ToString D]

/-- The elements of a tensor of a log, if there is one. -/
def flatItems : Option (FlatValue D K) → List K
  | some (.tensor t) => t.items
  | _ => []

/-- What stacking makes of values. -/
theorem stackColumn_tensor (maxLen : ℕ) (padValue : K) (first : MessageTensor D K)
    {rest : List (Option (FlatValue D K))}
    (h : ∀ v ∈ rest, v = none ∨ ∃ items, v = some (.tensor ⟨first.dtype, first.device, items⟩)) :
    stackColumn maxLen padValue (some (.tensor first) :: rest) =
      .ok (.stacked ⟨first.dtype, first.device, (some (.tensor first) :: rest).map fun v =>
        padTensor (flatItems v) maxLen padValue⟩) := by
  have hfilled : ∀ v ∈ some (.tensor first) :: rest,
      filledValue first v = .ok ⟨first.dtype, first.device, flatItems v⟩ := by
    intro v hv
    rcases List.mem_cons.mp hv with rfl | hv
    · rfl
    · rcases h v hv with rfl | ⟨items, rfl⟩
      · rfl
      · rfl
  have hmap := mapM_of_forall hfilled
  rw [stackColumn]
  simp only [hmap, bind, Except.bind]
  rw [if_neg (by simp), if_neg (by simp)]
  simp [List.map_map, Function.comp_def, pure, Except.pure]

theorem stackColumn_values (maxLen : ℕ) (padValue : K) {values : List (Option (FlatValue D K))}
    (h : ∀ t, values.head? ≠ some (some (.tensor t))) :
    stackColumn maxLen padValue values = .ok (.values values) := by
  match values with
  | [] => rfl
  | none :: _ => rfl
  | some (.values _) :: _ => rfl
  | some (.tensor t) :: _ => exact absurd rfl (h t)

/-- The column of a key. -/
def columnOf (key : String) (logs : List (List (Message D K))) : List (Option (FlatValue D K)) :=
  logs.map fun log => (flatMessage log).lookup key

omit [DecidableEq D] [ToString D] in
theorem lookup_flatMessage_typed {key : String} {dtype : D} {device : String}
    {log : List (Message D K)}
    (htype : ∀ m ∈ log, ∀ v, m.lookup key = some v → v.HasType dtype device) :
    (flatMessage log).lookup key =
      if valuesOf key log ≠ [] then
        some (.tensor ⟨dtype, device, (valuesOf key log).flatMap MessageValue.items⟩)
      else none := by
  rw [lookup_flatMessage]
  have hvalues : ∀ v ∈ valuesOf key log, v.HasType dtype device := by
    intro v hv
    obtain ⟨m, hm, hlookup⟩ := List.mem_filterMap.mp hv
    exact htype m hm v hlookup
  cases hvs : valuesOf key log with
  | nil => rfl
  | cons v vs =>
    rw [hvs] at hvalues
    rw [if_pos (List.cons_ne_nil v vs), if_pos (List.cons_ne_nil v vs),
      hvalues v List.mem_cons_self]
    rfl

/-- Tensors of one type are stacked when the first log has one. -/
theorem stackColumn_typed (maxLen : ℕ) (padValue : K) {key : String} {dtype : D} {device : String}
    {first : List (Message D K)} {rest : List (List (Message D K))}
    (htype : ∀ log ∈ first :: rest, ∀ m ∈ log, ∀ v, m.lookup key = some v →
      v.HasType dtype device) (hfirst : valuesOf key first ≠ []) :
    stackColumn maxLen padValue (columnOf key (first :: rest)) =
      .ok (.stacked ⟨dtype, device, (first :: rest).map fun log =>
        padTensor ((valuesOf key log).flatMap MessageValue.items) maxLen padValue⟩) := by
  have hitems : ∀ log ∈ first :: rest, flatItems ((flatMessage log).lookup key) =
      (valuesOf key log).flatMap MessageValue.items := by
    intro log hlog
    rw [lookup_flatMessage_typed (htype log hlog)]
    split_ifs with hvalues
    · rfl
    · rw [not_not.mp hvalues]
      rfl
  have hcolumn : columnOf key (first :: rest) =
      some (.tensor ⟨dtype, device, (valuesOf key first).flatMap MessageValue.items⟩) ::
        columnOf key rest := by
    rw [columnOf, List.map_cons, lookup_flatMessage_typed (htype first List.mem_cons_self),
      if_pos hfirst]
    rfl
  have hrest : ∀ v ∈ columnOf key rest,
      v = none ∨ ∃ items, v = some (.tensor ⟨dtype, device, items⟩) := by
    intro v hv
    obtain ⟨log, hlog, rfl⟩ := List.mem_map.mp hv
    rw [lookup_flatMessage_typed (htype log (List.mem_cons_of_mem first hlog))]
    split_ifs
    · exact .inr ⟨_, rfl⟩
    · exact .inl rfl
  have hrows : (columnOf key (first :: rest)).map
      (fun v => padTensor (flatItems v) maxLen padValue) = (first :: rest).map fun log =>
        padTensor ((valuesOf key log).flatMap MessageValue.items) maxLen padValue := by
    rw [columnOf, List.map_map]
    apply List.map_congr_left
    intro log hlog
    rw [Function.comp_apply, hitems log hlog]
  rw [← hrows, hcolumn, stackColumn_tensor maxLen padValue _ hrest]

/-- The column of every key is stacked or kept. -/
theorem exists_stackColumn {logs : List (List (Message D K))} {key : String}
    (huniform : UniformKey logs key) (maxLen : ℕ) (padValue : K) :
    ∃ column, stackColumn maxLen padValue (columnOf key logs) = .ok column := by
  cases logs with
  | nil => exact ⟨_, rfl⟩
  | cons first rest =>
    rcases huniform with htext | ⟨dtype, device, htype⟩
    · refine ⟨_, stackColumn_values maxLen padValue fun t ht => ?_⟩
      rw [columnOf, List.map_cons, List.head?_cons, Option.some.injEq, lookup_flatMessage] at ht
      cases hvalues : valuesOf key first with
      | nil => simp [hvalues] at ht
      | cons v vs =>
        have hv : v ∈ valuesOf key first := by
          rw [hvalues]
          exact List.mem_cons_self
        obtain ⟨m, hm, hlookup⟩ := List.mem_filterMap.mp hv
        obtain ⟨s, rfl⟩ := htext first List.mem_cons_self m hm v hlookup
        simp [hvalues, flatValue] at ht
    · by_cases hfirst : valuesOf key first = []
      · refine ⟨_, stackColumn_values maxLen padValue fun t ht => ?_⟩
        rw [columnOf, List.map_cons, List.head?_cons, Option.some.injEq, lookup_flatMessage,
          if_neg (not_not.mpr hfirst)] at ht
        cases ht
      · exact ⟨_, stackColumn_typed maxLen padValue htype hfirst⟩

/-- The columns of a batch with a tensor. A key without a column is in no log. -/
theorem exists_columns [Zero K] {promote : D → D → D} (hpromote : ∀ d, promote d d = d)
    (padValueDict : Option (List (String × K))) {makeSequenceLengthDivisibleBy : ℕ}
    (hdiv : 0 < makeSequenceLengthDivisibleBy) {logs : List (List (Message D K))}
    (huniform : ∀ key, UniformKey logs key)
    (htensor : ∃ log ∈ logs, ∃ key t, (flatMessage log).lookup key = some (.tensor t)) :
    ∃ columns lengths maxLen, batchedMessageLogToFlatMessage promote padValueDict
        makeSequenceLengthDivisibleBy logs = .ok (columns, lengths) ∧
      ∀ key, (columns.lookup key = none ∧ ∀ log ∈ logs, valuesOf key log = []) ∨
        ∃ column padValue, columns.lookup key = some column ∧
          stackColumn maxLen padValue (columnOf key logs) = .ok column ∧
          ∃ log ∈ logs, valuesOf key log ≠ [] := by
  obtain ⟨log, hlog, key, t, ht⟩ := htensor
  have hempty : logs.isEmpty = false := List.isEmpty_eq_false_iff.mpr (List.ne_nil_of_mem hlog)
  have hflat : logs.mapM (messageLogToFlatMessages promote) = .ok (logs.map flatMessage) :=
    mapM_of_forall fun log hlog => messageLogToFlatMessages_eq hpromote huniform hlog
  have hany : ((logs.map flatMessage).any fun seq => seq.any fun p => p.2.isTensor) = true := by
    rw [List.any_map, List.any_eq_true]
    exact ⟨log, hlog, List.any_eq_true.mpr ⟨_, mem_of_lookup ht, rfl⟩⟩
  have hkeys : ∀ key, key ∈ ((logs.map flatMessage).flatMap fun seq => seq.map Prod.fst).dedup ↔
      ∃ log ∈ logs, valuesOf key log ≠ [] := by
    intro key
    rw [List.mem_dedup, List.flatMap_map, List.mem_flatMap]
    refine exists_congr fun log => and_congr_right fun _ => ?_
    rw [← mem_keysOf, keys_flatMessage]
  obtain ⟨maxLen, hmaxLen⟩ : ∃ maxLen,
      paddedMaxLen (logs.map flatMessage) makeSequenceLengthDivisibleBy = .ok maxLen := by
    rw [paddedMaxLen, if_neg hdiv.ne']
    split_ifs
    · exact ⟨_, rfl⟩
    · exact ⟨_, rfl⟩
  have hcolumn : ∀ key q, flatColumn padValueDict maxLen (logs.map flatMessage) key = .ok q ↔
      ∃ column, stackColumn maxLen (((padValueDict.getD []).lookup key).getD 0)
        (columnOf key logs) = .ok column ∧ q = (key, column) := by
    intro key q
    rw [flatColumn, List.map_map]
    exact bind_eq_ok.trans (exists_congr fun column => and_congr_right fun _ =>
      ⟨fun heq => (Except.ok.inj heq).symm, fun heq => congrArg _ heq.symm⟩)
  obtain ⟨columns, hcolumns⟩ := exists_mapM
    (f := flatColumn padValueDict maxLen (logs.map flatMessage))
    (l := ((logs.map flatMessage).flatMap fun seq => seq.map Prod.fst).dedup) fun key _ => by
      obtain ⟨column, hstack⟩ := exists_stackColumn (huniform key) maxLen
        (((padValueDict.getD []).lookup key).getD 0)
      exact ⟨_, (hcolumn key _).mpr ⟨column, hstack, rfl⟩⟩
  refine ⟨columns, (logs.map flatMessage).map seqLen, maxLen, ?_, fun key => ?_⟩
  · rw [batchedMessageLogToFlatMessage, hempty, hflat]
    simp only [bind, Except.bind, pure, Except.pure, Bool.false_eq_true, if_false, hmaxLen, hany,
      not_true_eq_false, hcolumns]
  · by_cases hkey : key ∈ ((logs.map flatMessage).flatMap fun seq => seq.map Prod.fst).dedup
    · right
      obtain ⟨column, hlookup, hq⟩ := lookup_of_mapM_keys (fun key q hq => by
        obtain ⟨_, -, rfl⟩ := (hcolumn key q).mp hq
        rfl) hcolumns hkey
      obtain ⟨column', hstack, heq⟩ := (hcolumn key _).mp hq
      obtain ⟨-, rfl⟩ := Prod.mk.inj heq
      exact ⟨column, _, hlookup, hstack, (hkeys key).mp hkey⟩
    · left
      refine ⟨?_, fun log hlog => ?_⟩
      · rw [Option.eq_none_iff_forall_ne_some]
        intro column hlookup
        obtain ⟨key', hmem, hq⟩ := mem_of_mapM hcolumns (mem_of_lookup hlookup)
        obtain ⟨_, -, heq⟩ := (hcolumn key' _).mp hq
        obtain ⟨rfl, -⟩ := Prod.mk.inj heq
        exact hkey hmem
      · by_contra hvalues
        exact hkey ((hkeys key).mpr ⟨log, hlog, hvalues⟩)

end Stack

/-! ## Messages that came back -/

/-- A message came back: its role, its content, and its tokens if it has some. -/
structure Restores (m turn : Message D K) : Prop where
  role : turn.lookup "role" = m.lookup "role"
  content : turn.lookup "content" = some m.content
  tokens : m.numTokens ≠ 0 → turn.lookup "token_ids" = m.lookup "token_ids"
  noTokens : m.numTokens = 0 → turn.lookup "token_ids" = none

/-- The number of log probabilities of a message. -/
def Message.numLogprobs (m : Message D K) : ℕ :=
  ((m.lookup "generation_logprobs").map (·.length)).getD 0

/-- Message logs whose messages have roles and tokens, and whose keys have texts only or tensors
of one type only. The first log has a message, and log probabilities if any log has some. -/
structure Flattens (logs : List (List (Message D K))) : Prop where
  role : ∀ log ∈ logs, ∀ m ∈ log, ∃ role, m.lookup "role" = some role
  tokens : ∀ log ∈ logs, ∀ m ∈ log, ∃ t, m.lookup "token_ids" = some (.tensor t)
  logprobs : ∀ log ∈ logs, ∀ m ∈ log, ∀ v, m.lookup "generation_logprobs" = some v →
    ∃ t, v = .tensor t
  uniform : ∀ key, UniformKey logs key
  first : ∃ first ∈ logs.head?, first ≠ [] ∧
    ((∃ log ∈ logs, valuesOf "generation_logprobs" log ≠ []) →
      valuesOf "generation_logprobs" first ≠ [])

section Back
variable {logs : List (List (Message D K))} {key : String}

/-- The role of a message that has one. -/
def Message.roleD (m : Message D K) : MessageValue D K := (m.lookup "role").getD (.text "")

/-- The elements of a tensor of a message. -/
def Message.itemsOf (key : String) (m : Message D K) : List K :=
  ((m.lookup key).map MessageValue.items).getD []

theorem flatMap_valuesOf (key : String) (log : List (Message D K)) :
    (valuesOf key log).flatMap MessageValue.items = log.flatMap (Message.itemsOf key) := by
  induction log with
  | nil => rfl
  | cons m log ih =>
    rw [valuesOf, List.filterMap_cons, List.flatMap_cons, ← ih]
    cases hlookup : m.lookup key with
    | none => simp [Message.itemsOf, hlookup, valuesOf]
    | some v => simp [Message.itemsOf, hlookup, valuesOf]

theorem decomposeMessageLog_eq [DecidableEq D] [DecidableEq K]
    (hrole : ∀ log ∈ logs, ∀ m ∈ log, ∃ role, m.lookup "role" = some role) :
    ∃ decomposed, decomposeMessageLog logs = .ok decomposed ∧
      decomposed.turnRoles = logs.map (fun log => log.map Message.roleD) ∧
      decomposed.turnContents = logs.map (fun log => log.map Message.content) ∧
      decomposed.turnLengths = logs.map fun log => log.map Message.numTokens ++
        List.replicate ((logs.map List.length).foldr max 0 - log.length) 0 := by
  have hroles : logs.mapM (fun ml => ml.mapM Message.role) =
      .ok (logs.map fun log => log.map Message.roleD) := by
    apply mapM_of_forall
    intro log hlog
    apply mapM_of_forall
    intro m hm
    obtain ⟨role, hlookup⟩ := hrole log hlog m hm
    rw [Message.role, Message.roleD, hlookup]
    rfl
  rw [decomposeMessageLog]
  simp only [hroles, bind, Except.bind, pure, Except.pure]
  exact ⟨_, rfl, rfl, rfl, by simp [Function.comp_def]⟩

section Turns
variable [DecidableEq D] [DecidableEq K] {inputIds : StackedTensor D K}
  {generationLogprobs : Option (FlatColumn D K)} {i : ℕ}

variable (inputIds generationLogprobs i) in
/-- The messages are those that are built one by one at the offsets of their tokens. -/
theorem exists_reconstructTurns (offset : ℕ) (log : List (Message D K)) (pad : List ℕ)
    (hturn : ∀ offset, ∀ m ∈ log, ∃ turn, reconstructTurn inputIds generationLogprobs i offset
      m.roleD m.content m.numTokens = .ok turn) :
    ∃ turns, reconstructTurns inputIds generationLogprobs i offset (log.map Message.roleD)
        (log.map Message.content) (log.map Message.numTokens ++ pad) = .ok turns ∧
      turns.length = log.length ∧ ∀ t m, log[t]? = some m → ∃ turn, turns[t]? = some turn ∧
        reconstructTurn inputIds generationLogprobs i
          (offset + ((log.take t).map Message.numTokens).sum) m.roleD m.content m.numTokens =
            .ok turn := by
  induction log generalizing offset with
  | nil => exact ⟨[], rfl, rfl, fun t m ht => by simp at ht⟩
  | cons m log ih =>
    obtain ⟨hm, hlog⟩ : (∀ offset, ∃ turn, reconstructTurn inputIds generationLogprobs i offset
        m.roleD m.content m.numTokens = .ok turn) ∧ ∀ offset, ∀ m ∈ log, ∃ turn,
          reconstructTurn inputIds generationLogprobs i offset m.roleD m.content m.numTokens =
            .ok turn :=
      ⟨fun offset => hturn offset m List.mem_cons_self,
        fun offset m' hm' => hturn offset m' (List.mem_cons_of_mem m hm')⟩
    obtain ⟨turn, hfirst⟩ := hm offset
    obtain ⟨turns, hturns, hlength, hget⟩ := ih (offset + m.numTokens) hlog
    refine ⟨turn :: turns, ?_, by rw [List.length_cons, List.length_cons, hlength], ?_⟩
    · simp only [List.map_cons, List.cons_append, reconstructTurns, hfirst, hturns, bind,
        Except.bind, pure, Except.pure]
    · intro t m' ht
      cases t with
      | zero =>
        obtain rfl : m = m' := Option.some.inj ht
        exact ⟨turn, rfl, by simpa using hfirst⟩
      | succ t =>
        obtain ⟨turn', hturn', hrest⟩ := hget t m' ht
        refine ⟨turn', hturn', ?_⟩
        rwa [List.take_succ_cons, List.map_cons, List.sum_cons, ← Nat.add_assoc]

/-- A message is built from the rows of its log. -/
theorem exists_reconstructTurn {row : List K} (hrow : inputIds.rows[i]? = some row)
    (hlogprobs : generationLogprobs = none ∨
      ∃ t lrow, generationLogprobs = some (.stacked t) ∧ t.rows[i]? = some lrow)
    (offset : ℕ) (role content : MessageValue D K) (length : ℕ) :
    ∃ turn, reconstructTurn inputIds generationLogprobs i offset role content length = .ok turn ∧
      turn.lookup "role" = some role ∧ turn.lookup "content" = some content ∧
      turn.lookup "token_ids" = (if length = 0 then none else
        some (.tensor ⟨inputIds.dtype, inputIds.device, slice row offset (offset + length)⟩)) ∧
      ∀ t lrow, generationLogprobs = some (.stacked t) → t.rows[i]? = some lrow → length ≠ 0 →
        role = .text "assistant" → turn.lookup "generation_logprobs" =
          some (.tensor ⟨t.dtype, t.device, slice lrow offset (offset + length)⟩) := by
  by_cases hlength : length = 0
  · subst hlength
    refine ⟨[("role", role), ("content", content)], ?_, rfl, rfl, rfl, fun _ _ _ _ hne => ?_⟩
    · simp [reconstructTurn, pure, Except.pure]
    · exact absurd rfl hne
  · have htokens : sliceRow inputIds i offset length =
        .ok (.tensor ⟨inputIds.dtype, inputIds.device, slice row offset (offset + length)⟩) := by
      rw [sliceRow, hrow]
    rw [if_neg hlength]
    by_cases hrole : role = .text "assistant"
    · rcases hlogprobs with rfl | ⟨t, lrow, rfl, hlrow⟩
      · have hturn : reconstructTurn inputIds none i offset role content length =
            .ok [("role", role), ("content", content), ("token_ids", .tensor ⟨inputIds.dtype,
              inputIds.device, slice row offset (offset + length)⟩)] := by
          simp only [reconstructTurn, if_neg hlength, htokens, if_pos hrole, bind, Except.bind,
            pure, Except.pure]
          rfl
        exact ⟨_, hturn, rfl, rfl, rfl, fun t lrow ht => by cases ht⟩
      · have hslice : sliceRow t i offset length =
            .ok (.tensor ⟨t.dtype, t.device, slice lrow offset (offset + length)⟩) := by
          rw [sliceRow, hlrow]
        have hturn : reconstructTurn inputIds (some (.stacked t)) i offset role content length =
            .ok [("role", role), ("content", content), ("token_ids", .tensor ⟨inputIds.dtype,
              inputIds.device, slice row offset (offset + length)⟩), ("generation_logprobs",
              .tensor ⟨t.dtype, t.device, slice lrow offset (offset + length)⟩)] := by
          simp only [reconstructTurn, if_neg hlength, htokens, if_pos hrole, hslice, bind,
            Except.bind, pure, Except.pure]
          rfl
        refine ⟨_, hturn, rfl, rfl, rfl, fun t' lrow' ht' hlrow' _ _ => ?_⟩
        cases ht'
        obtain rfl := Option.some.inj (hlrow.symm.trans hlrow')
        rfl
    · have hturn : reconstructTurn inputIds generationLogprobs i offset role content length =
          .ok [("role", role), ("content", content), ("token_ids", .tensor ⟨inputIds.dtype,
            inputIds.device, slice row offset (offset + length)⟩)] := by
        simp only [reconstructTurn, if_neg hlength, htokens, if_neg hrole, bind, Except.bind,
          pure, Except.pure]
        rfl
      exact ⟨_, hturn, rfl, rfl, rfl, fun _ _ _ _ _ hassistant => absurd hassistant hrole⟩

/-- The messages of a log come back from rows that hold their tokens one after another. Log
probabilities come back where they are as long as the tokens. -/
theorem restores_log {log : List (Message D K)} (pad : List K) (turnPad : List ℕ)
    (hrow : inputIds.rows[i]? = some (log.flatMap (Message.itemsOf "token_ids") ++ pad))
    (hrole : ∀ m ∈ log, ∃ role, m.lookup "role" = some role)
    (htokens : ∀ m ∈ log, ∃ items,
      m.lookup "token_ids" = some (.tensor ⟨inputIds.dtype, inputIds.device, items⟩))
    (hlogprobs : (generationLogprobs = none ∧ ∀ m ∈ log, m.lookup "generation_logprobs" = none) ∨
      ∃ t lpad, generationLogprobs = some (.stacked t) ∧
        t.rows[i]? = some (log.flatMap (Message.itemsOf "generation_logprobs") ++ lpad) ∧
        ∀ m ∈ log, ∀ v, m.lookup "generation_logprobs" = some v → v.HasType t.dtype t.device) :
    ∃ turns, reconstructTurns inputIds generationLogprobs i 0 (log.map Message.roleD)
        (log.map Message.content) (log.map Message.numTokens ++ turnPad) = .ok turns ∧
      turns.length = log.length ∧ ∀ t m, log[t]? = some m → ∃ turn, turns[t]? = some turn ∧
        Restores m turn ∧ (m.lookup "role" = some (.text "assistant") → m.numTokens ≠ 0 →
          (∀ m' ∈ log.take (t + 1), m'.numLogprobs = m'.numTokens) →
            turn.lookup "generation_logprobs" = m.lookup "generation_logprobs") := by
  have hrows : generationLogprobs = none ∨
      ∃ t lrow, generationLogprobs = some (.stacked t) ∧ t.rows[i]? = some lrow := by
    rcases hlogprobs with ⟨hnone, -⟩ | ⟨t, lpad, ht, hlrow, -⟩
    · exact .inl hnone
    · exact .inr ⟨t, _, ht, hlrow⟩
  obtain ⟨turns, hturns, hlength, hget⟩ := exists_reconstructTurns inputIds generationLogprobs
    i 0 log turnPad fun offset m _ => by
      obtain ⟨turn, hturn, -⟩ := exists_reconstructTurn hrow hrows offset m.roleD m.content
        m.numTokens
      exact ⟨turn, hturn⟩
  refine ⟨turns, hturns, hlength, fun t m ht => ?_⟩
  have hm : m ∈ log := List.mem_of_getElem? ht
  obtain ⟨turn, hturn, hbuilt⟩ := hget t m ht
  obtain ⟨turn', hbuilt', hturnRole, hcontent, htokenIds, hturnLogprobs⟩ :=
    exists_reconstructTurn hrow hrows (0 + ((log.take t).map Message.numTokens).sum) m.roleD
      m.content m.numTokens
  obtain rfl := Except.ok.inj (hbuilt.symm.trans hbuilt')
  have hnumTokens : ∀ m ∈ log, m.numTokens = (Message.itemsOf "token_ids" m).length := by
    intro m hm
    obtain ⟨items, hitems⟩ := htokens m hm
    simp [Message.numTokens, Message.itemsOf, hitems, MessageValue.length, MessageValue.items]
  have hslice : slice (log.flatMap (Message.itemsOf "token_ids") ++ pad)
      (0 + ((log.take t).map Message.numTokens).sum)
      (0 + ((log.take t).map Message.numTokens).sum + m.numTokens) =
        Message.itemsOf "token_ids" m := by
    rw [Nat.zero_add, hnumTokens m hm,
      List.map_congr_left fun m hm => hnumTokens m (List.mem_of_mem_take hm)]
    exact slice_flatMap _ log pad ht
  refine ⟨turn, hturn, ⟨?_, hcontent, ?_, fun hzero => ?_⟩, fun hassistant hsome haligned => ?_⟩
  · obtain ⟨role, hlookup⟩ := hrole m hm
    rw [hturnRole, hlookup, Message.roleD, hlookup, Option.getD_some]
  · intro hsome
    obtain ⟨items, hitems⟩ := htokens m hm
    rw [htokenIds, if_neg hsome, hslice, hitems, Message.itemsOf, hitems]
    rfl
  · rw [htokenIds, if_pos hzero]
  · have hmem : m ∈ log.take (t + 1) :=
      List.mem_of_getElem? ((List.getElem?_take_of_lt t.lt_succ_self).trans ht)
    have hnum := haligned m hmem
    cases hlookup : m.lookup "generation_logprobs" with
    | none =>
      rw [Message.numLogprobs, hlookup] at hnum
      exact absurd hnum.symm hsome
    | some v =>
      rcases hlogprobs with ⟨-, hnone⟩ | ⟨tensor, lpad, htensor, hlrow, htype⟩
      · rw [hnone m hm] at hlookup
        cases hlookup
      · have hnumLogprobs : ∀ m ∈ log,
            m.numLogprobs = (Message.itemsOf "generation_logprobs" m).length := by
          intro m hm
          cases hlookup : m.lookup "generation_logprobs" with
          | none => simp [Message.numLogprobs, Message.itemsOf, hlookup]
          | some v =>
            have hv := htype m hm v hlookup
            rw [Message.numLogprobs, Message.itemsOf, hlookup, hv]
            rfl
        have hlslice : slice (log.flatMap (Message.itemsOf "generation_logprobs") ++ lpad)
            (0 + ((log.take t).map Message.numTokens).sum)
            (0 + ((log.take t).map Message.numTokens).sum + m.numTokens) =
              Message.itemsOf "generation_logprobs" m := by
          have hoffset : (log.take t).map Message.numTokens =
              (log.take t).map fun m => (Message.itemsOf "generation_logprobs" m).length := by
            apply List.map_congr_left
            intro m' hm'
            rw [← haligned m' (List.take_subset_take_left log t.le_succ hm'),
              hnumLogprobs m' (List.mem_of_mem_take hm')]
          rw [Nat.zero_add, hoffset, ← hnum, hnumLogprobs m hm]
          exact slice_flatMap _ log lpad ht
        have hrole : m.roleD = .text "assistant" := by rw [Message.roleD, hassistant]; rfl
        rw [hturnLogprobs tensor _ htensor hlrow hsome hrole, hlslice, Message.itemsOf, hlookup]
        exact congrArg some (htype m hm v hlookup).symm

variable [ToString D] [Zero K]

omit [DecidableEq K] in
/-- The columns that hold the tensors of the messages. -/
theorem Flattens.exists_columns (h : Flattens logs) {promote : D → D → D}
    (hpromote : ∀ d, promote d d = d) (padValueDict : Option (List (String × K)))
    {makeSequenceLengthDivisibleBy : ℕ} (hdiv : 0 < makeSequenceLengthDivisibleBy) :
    ∃ columns lengths, batchedMessageLogToFlatMessage promote padValueDict
        makeSequenceLengthDivisibleBy logs = .ok (columns, lengths) ∧
      (∃ t : StackedTensor D K, ∃ pad : List (Message D K) → List K,
        columns.lookup "token_ids" = some (.stacked t) ∧
        t.rows = logs.map (fun log => log.flatMap (Message.itemsOf "token_ids") ++ pad log) ∧
        ∀ log ∈ logs, ∀ m ∈ log, ∀ v, m.lookup "token_ids" = some v → v.HasType t.dtype t.device) ∧
      ((columns.lookup "generation_logprobs" = none ∧
          ∀ log ∈ logs, ∀ m ∈ log, m.lookup "generation_logprobs" = none) ∨
        ∃ t : StackedTensor D K, ∃ pad : List (Message D K) → List K,
          columns.lookup "generation_logprobs" = some (.stacked t) ∧
          t.rows = logs.map (fun log =>
            log.flatMap (Message.itemsOf "generation_logprobs") ++ pad log) ∧
          ∀ log ∈ logs, ∀ m ∈ log, ∀ v, m.lookup "generation_logprobs" = some v →
            v.HasType t.dtype t.device) := by
  obtain ⟨first, hfirst, hne, hlogprobs⟩ := h.first
  obtain ⟨rest, rfl⟩ := List.head?_eq_some_iff.mp hfirst
  -- a key of tensors that the first log has
  have htyped : ∀ {key : String}, (∀ log ∈ first :: rest, ∀ m ∈ log, ∀ v, m.lookup key = some v →
      ∃ t, v = .tensor t) → valuesOf key first ≠ [] → ∃ dtype device, ∀ log ∈ first :: rest,
        ∀ m ∈ log, ∀ v, m.lookup key = some v → v.HasType dtype device := by
    intro key htensors hvalues
    rcases h.uniform key with htext | htype
    · obtain ⟨v, hv⟩ := List.exists_mem_of_ne_nil _ hvalues
      obtain ⟨m, hm, hlookup⟩ := List.mem_filterMap.mp hv
      obtain ⟨s, hs⟩ := htext first List.mem_cons_self m hm v hlookup
      obtain ⟨t, ht⟩ := htensors first List.mem_cons_self m hm v hlookup
      rw [hs] at ht
      cases ht
    · exact htype
  have hstacked : ∀ {key : String} {column : FlatColumn D K} {maxLen : ℕ} {padValue : K},
      (∀ log ∈ first :: rest, ∀ m ∈ log, ∀ v, m.lookup key = some v → ∃ t, v = .tensor t) →
      valuesOf key first ≠ [] →
      stackColumn maxLen padValue (columnOf key (first :: rest)) = .ok column →
      ∃ t : StackedTensor D K, ∃ pad : List (Message D K) → List K, column = .stacked t ∧
        t.rows = (first :: rest).map (fun log => log.flatMap (Message.itemsOf key) ++ pad log) ∧
        ∀ log ∈ first :: rest, ∀ m ∈ log, ∀ v, m.lookup key = some v →
          v.HasType t.dtype t.device := by
    intro key column maxLen padValue htensors hvalues hstack
    obtain ⟨dtype, device, htype⟩ := htyped htensors hvalues
    rw [stackColumn_typed maxLen padValue htype hvalues] at hstack
    refine ⟨_, fun log => List.replicate
      (maxLen - (log.flatMap (Message.itemsOf key)).length) padValue,
      (Except.ok.inj hstack).symm, ?_, htype⟩
    exact List.map_congr_left fun log _ => by rw [padTensor, flatMap_valuesOf]
  have htokens : ∀ log ∈ first :: rest, ∀ m ∈ log, ∀ v, m.lookup "token_ids" = some v →
      ∃ t, v = .tensor t := by
    intro log hlog m hm v hlookup
    obtain ⟨t, ht⟩ := h.tokens log hlog m hm
    exact ⟨t, Option.some.inj (hlookup.symm.trans ht)⟩
  have hfirstTokens : valuesOf "token_ids" first ≠ [] := by
    obtain ⟨m, hm⟩ := List.exists_mem_of_ne_nil _ hne
    obtain ⟨t, ht⟩ := h.tokens first List.mem_cons_self m hm
    exact List.ne_nil_of_mem (List.mem_filterMap.mpr ⟨m, hm, ht⟩)
  obtain ⟨dtype, device, htype⟩ := htyped htokens hfirstTokens
  have htensor : ∃ log ∈ first :: rest, ∃ key t,
      (flatMessage log).lookup key = some (.tensor t) := by
    have hlookup := lookup_flatMessage_typed (htype first List.mem_cons_self)
    rw [if_pos hfirstTokens] at hlookup
    exact ⟨first, List.mem_cons_self, "token_ids", _, hlookup⟩
  obtain ⟨columns, lengths, maxLen, hbatched, hcolumns⟩ := Data.exists_columns hpromote
    padValueDict hdiv h.uniform htensor
  refine ⟨columns, lengths, hbatched, ?_, ?_⟩
  · rcases hcolumns "token_ids" with ⟨-, hnil⟩ | ⟨column, padValue, hlookup, hstack, -⟩
    · exact absurd (hnil first List.mem_cons_self) hfirstTokens
    · obtain ⟨t, pad, rfl, hrows⟩ := hstacked htokens hfirstTokens hstack
      exact ⟨t, pad, hlookup, hrows⟩
  · rcases hcolumns "generation_logprobs" with
      ⟨hnone, hnil⟩ | ⟨column, padValue, hlookup, hstack, hsome⟩
    · refine .inl ⟨hnone, fun log hlog m hm => ?_⟩
      exact List.filterMap_eq_nil_iff.mp (hnil log hlog) m hm
    · obtain ⟨t, pad, rfl, hrows⟩ := hstacked h.logprobs (hlogprobs hsome) hstack
      exact .inr ⟨t, pad, hlookup, hrows⟩

/-- A message with a log probability for each token. -/
def exampleMessage (role : String) (tokenIds logprobs : List ℕ) : Message String ℕ :=
  [("role", .text role), ("content", .text "text"),
    ("token_ids", .tensor ⟨"int64", "cpu", tokenIds⟩),
    ("generation_logprobs", .tensor ⟨"float32", "cpu", logprobs⟩)]

omit [DecidableEq D] [DecidableEq K] [ToString D] [Zero K] in
theorem lookup_exampleMessage (role : String) (tokenIds logprobs : List ℕ) (key : String) :
    (exampleMessage role tokenIds logprobs).lookup key =
      if key = "role" then some (.text role)
      else if key = "content" then some (.text "text")
      else if key = "token_ids" then some (.tensor ⟨"int64", "cpu", tokenIds⟩)
      else if key = "generation_logprobs" then some (.tensor ⟨"float32", "cpu", logprobs⟩)
      else none := by
  simp only [exampleMessage, lookup_cons, List.lookup_nil]

end Turns
end Back

end NemoRL.Data
