import NemoRL.DataPlane.NoOpRuns

/-!
# What the in-memory data plane returns

A put goes through its samples and fields in order and stops at the first tensor that is missing.
What it wrote before stays. So a sample and a field hold the last tensor that any put wrote for them
since the sample was cleared and since the partition was begun, whether the put returned or raised,
and a get returns these tensors.

## Main definitions

* `attempts` — what a put writes for its samples and fields, in order.
* `lastWritten` — the tensor last written for a sample and a field.

## Main results

* `read_eq_lastWritten` — the store holds what was last written.
* `getSamples_lastWritten` — a get returns what was last written.
* `putSamples_contents` — a put that returns does to the rows what `noOpClient` does.
-/

namespace NemoRL.DataPlane

open Lib

variable {α : Type} {intOf : String → Except PyError ℕ}

/-! ## What a put writes -/

/-- What a put writes for its samples and fields, in order. -/
def attempts (samples : List (String × ℕ)) (fields : TensorDict α) :
    List (String × String × Option (Tensor α)) :=
  samples.flatMap fun q => fields.map fun field => (q.1, field.1, field.2.rows[q.2]?)

/-- The tensor last written for a sample and a field, when writing stops at the first tensor that is
missing. -/
def lastWrite (sid f : String) : List (String × String × Option (Tensor α)) → Option (Tensor α)
  | [] => none
  | (_, _, none) :: _ => none
  | (sid', f', some val) :: ws =>
    (lastWrite sid f ws).or (if sid' = sid ∧ f' = f then some val else none)

theorem lastWrite_append {sid f : String} {ws ws' : List (String × String × Option (Tensor α))} :
    lastWrite sid f (ws ++ ws') =
      if ∀ w ∈ ws, w.2.2.isSome then (lastWrite sid f ws').or (lastWrite sid f ws)
      else lastWrite sid f ws := by
  induction ws with
  | nil => simp [lastWrite]
  | cons w ws ih =>
    obtain ⟨sid', f', - | val⟩ := w
    · simp [lastWrite]
    · rw [List.cons_append, lastWrite, ih, lastWrite]
      by_cases hall : ∀ w ∈ ws, w.2.2.isSome
      · have hcons : ∀ w ∈ (sid', f', some val) :: ws, w.2.2.isSome :=
          List.forall_mem_cons.mpr ⟨rfl, hall⟩
        rw [if_pos hall, if_pos hcons, Option.or_assoc]
      · have hcons : ¬∀ w ∈ (sid', f', some val) :: ws, w.2.2.isSome :=
          fun h => hall (List.forall_mem_cons.mp h).2
        rw [if_neg hall, if_neg hcons]

/-- Nothing is written for another sample. -/
theorem lastWrite_fields_other {sid sid' f : String} (h : sid ≠ sid') (i : ℕ)
    (fields : TensorDict α) :
    lastWrite sid f (fields.map fun field => (sid', field.1, field.2.rows[i]?)) = none := by
  induction fields with
  | nil => rfl
  | cons field fields ih =>
    rw [List.map_cons]
    cases field.2.rows[i]? with
    | none => rfl
    | some val => simp [lastWrite, ih, Ne.symm h]

namespace NoOpStore

/-- Writing the fields of a sample. -/
theorem lookup_writeFields (i : ℕ) (sid : String) (fields : TensorDict α)
    (row : List (String × Tensor α)) :
    ((writeFields i fields row).1 = none ↔
      ∀ w ∈ fields.map fun field => (sid, field.1, field.2.rows[i]?), w.2.2.isSome) ∧
    ∀ f, (writeFields i fields row).2.lookup f =
      (lastWrite sid f (fields.map fun field => (sid, field.1, field.2.rows[i]?))).or
        (row.lookup f) := by
  induction fields generalizing row with
  | nil => simp [writeFields, lastWrite]
  | cons field fields ih =>
    obtain ⟨fname, leaf⟩ := field
    rw [writeFields, List.map_cons]
    cases hval : leaf.rows[i]? with
    | none => simp [lastWrite]
    | some val =>
      obtain ⟨hnone, hlookup⟩ := ih (dictSet row fname val)
      refine ⟨?_, fun f => ?_⟩
      · simpa using hnone
      · dsimp only
        rw [hlookup, lastWrite, lookup_dictSet]
        by_cases hf : fname = f
        · simp [hf]
        · simp [hf, Ne.symm hf]

/-- Writing samples. -/
theorem readRow_writeSamples (fields : TensorDict α) (samples : List (String × ℕ))
    (rows : Partition α) (sid f : String) :
    readRow (writeSamples fields samples rows).2 sid f =
      (lastWrite sid f (attempts samples fields)).or (readRow rows sid f) := by
  induction samples generalizing rows with
  | nil => simp [writeSamples, attempts, lastWrite]
  | cons q samples ih =>
    obtain ⟨sid', i⟩ := q
    obtain ⟨hnone, hlookup⟩ := lookup_writeFields i sid' fields ((rows.lookup sid').getD [])
    have hwrite : readRow (dictSet rows sid' (writeFields i fields
        ((rows.lookup sid').getD [])).2) sid f =
        (lastWrite sid f (fields.map fun field => (sid', field.1, field.2.rows[i]?))).or
          (readRow rows sid f) := by
      rw [readRow, lookup_dictSet]
      by_cases hsid : sid = sid'
      · subst hsid
        rw [if_pos rfl, Option.bind_some, hlookup, readRow]
        cases rows.lookup sid <;> simp
      · rw [if_neg hsid, lastWrite_fields_other hsid, readRow, Option.none_or]
    rw [writeSamples, attempts, List.flatMap_cons, lastWrite_append, ← attempts]
    cases hfields : (writeFields i fields ((rows.lookup sid').getD [])).1 with
    | some e =>
      rw [if_neg fun h => by simp [hnone.mpr h] at hfields]
      simpa [hfields] using hwrite
    | none =>
      rw [if_pos (hnone.mp hfields)]
      dsimp only
      rw [ih, hwrite, Option.or_assoc]

end NoOpStore

/-! ## What the store holds -/

/-- What an operation does to the tensor that is held for a sample and a field. -/
def heldAfter (partitionId sid f : String) (s : NoOpStore α) (held : Option (Tensor α)) :
    StoreOp α → Option (Tensor α)
  | .register pid _ => if pid = partitionId then none else held
  | .claim .. => held
  | .put sampleIds pid fields _ =>
    if pid = partitionId ∧ (s.partitions.lookup pid).isSome then
      (lastWrite sid f (attempts sampleIds.zipIdx (fields.getD []))).or held
    else held
  | .clear sampleIds pid =>
    if pid = partitionId then
      match sampleIds with
      | none => none
      | some ids => if sid ∈ ids then none else held
    else held
  | .close => if s.closed then held else none

/-- The tensor last written for a sample and a field in a partition, unless the sample was cleared
or the partition was begun anew since. -/
def lastWritten (partitionId sid f : String) : List (NoOpStore α × StoreOp α) → Option (Tensor α)
  | [] => none
  | (s, op) :: tr => heldAfter partitionId sid f s (lastWritten partitionId sid f tr) op

namespace NoOpStore

/-- What the store holds for a sample and a field. -/
def read (s : NoOpStore α) (partitionId sid f : String) : Option (Tensor α) :=
  (s.partitions.lookup partitionId).bind fun rec' => readRow rec'.rows sid f

theorem read_dictSet {s : NoOpStore α} {pid : String} {rec' : PartitionState α} {closed : Bool}
    (partitionId sid f : String) :
    (NoOpStore.mk (dictSet s.partitions pid rec') closed).read partitionId sid f =
      if pid = partitionId then readRow rec'.rows sid f else s.read partitionId sid f := by
  rw [read, lookup_dictSet]
  by_cases hp : pid = partitionId
  · rw [if_pos hp.symm, if_pos hp, Option.bind_some]
  · rw [if_neg (Ne.symm hp), if_neg hp, read]

theorem read_of_lookup {s : NoOpStore α} {pid : String} {rec' : PartitionState α}
    (h : s.partitions.lookup pid = some rec') (sid f : String) :
    s.read pid sid f = readRow rec'.rows sid f := by
  rw [read, h, Option.bind_some]

/-- A claim does not change what is held. -/
theorem read_claimMeta (s : NoOpStore α) (pid task : String) (requiredFields : List String)
    (batchSize : ℤ) (partitionId sid f : String) :
    (s.claimMeta intOf pid task requiredFields batchSize).2.read partitionId sid f =
      s.read partitionId sid f := by
  unfold claimMeta
  cases hrec : s.partitions.lookup pid with
  | none => rfl
  | some rec' =>
    cases hconsumed : rec'.consumed.lookup task with
    | none => simp only [hconsumed]
    | some consumed =>
      cases hready : claimRows intOf rec'.tags consumed requiredFields batchSize rec'.rows 0 with
      | error e => simp only [hconsumed, hready]
      | ok ready =>
        simp only [hconsumed, hready]
        rw [read_dictSet]
        by_cases hp : pid = partitionId
        · subst hp
          rw [if_pos rfl, read_of_lookup hrec]
        · rw [if_neg hp]

/-- A put writes its samples and fields, whether it returns or raises. -/
theorem read_putSamples (s : NoOpStore α) (ids : List String) (pid : String)
    (fields : Option (TensorDict α)) (tags : Option (List Tag)) (partitionId sid f : String) :
    (s.putSamples ids pid fields tags).2.read partitionId sid f =
      if pid = partitionId ∧ (s.partitions.lookup pid).isSome then
        (lastWrite sid f (attempts ids.zipIdx (fields.getD []))).or (s.read partitionId sid f)
      else s.read partitionId sid f := by
  unfold putSamples
  cases hrec : s.partitions.lookup pid with
  | none => simp
  | some rec' =>
    have hrows : readRow (writeSamples (fields.getD [])
        (if fields.isSome then ids.zipIdx else []) rec'.rows).2 sid f =
        (lastWrite sid f (attempts ids.zipIdx (fields.getD []))).or (s.read pid sid f) := by
      rw [readRow_writeSamples, read_of_lookup hrec]
      cases fields with
      | none =>
        have hnone : attempts ids.zipIdx ([] : TensorDict α) = [] :=
          List.flatMap_eq_nil_iff.mpr fun _ _ => rfl
        rw [Option.getD_none, hnone, lastWrite, Option.none_or]
        rfl
      | some fields => rfl
    dsimp only
    split
    · rw [read_dictSet, hrows]
      by_cases hp : pid = partitionId
      · simp [hp]
      · simp [hp]
    · rw [read_dictSet, hrows]
      by_cases hp : pid = partitionId
      · simp [hp]
      · simp [hp]

/-- Clearing removes what is held for the samples. -/
theorem read_clearSamples (s : NoOpStore α) (ids : Option (List String)) (pid : String)
    (partitionId sid f : String) :
    (s.clearSamples ids pid).read partitionId sid f =
      if pid = partitionId ∧ ∀ l ∈ ids, sid ∈ l then none else s.read partitionId sid f := by
  unfold clearSamples
  cases hrec : s.partitions.lookup pid with
  | none =>
    by_cases hp : pid = partitionId
    · subst hp
      simp [read, hrec]
    · simp [hp]
  | some rec' =>
    cases ids with
    | none =>
      dsimp only
      rw [read, lookup_popAll]
      by_cases hp : partitionId = pid
      · simp [hp]
      · simp [hp, Ne.symm hp, read]
    | some ids =>
      dsimp only
      rw [read_dictSet]
      by_cases hp : pid = partitionId
      · subst hp
        rw [if_pos rfl, readRow, lookup_popAll, read_of_lookup hrec, readRow]
        by_cases hsid : sid ∈ ids
        · simp [hsid]
        · simp [hsid]
      · simp [hp]

/-- What an operation does to what is held. -/
theorem read_run (s : NoOpStore α) (op : StoreOp α) (partitionId sid f : String) :
    (s.run intOf op).read partitionId sid f =
      heldAfter partitionId sid f s (s.read partitionId sid f) op := by
  cases op with
  | register pid tasks =>
    rw [run, registerPartition, heldAfter, read_dictSet]
    rfl
  | claim pid task requiredFields batchSize => exact read_claimMeta ..
  | put ids pid fields tags => exact read_putSamples ..
  | clear ids pid =>
    rw [run, read_clearSamples]
    by_cases hp : pid = partitionId
    · cases ids with
      | none => simp [heldAfter, hp]
      | some ids => simp [heldAfter, hp]
    · cases ids with
      | none => simp [heldAfter, hp]
      | some ids => simp [heldAfter, hp]
  | close =>
    rw [run, close, heldAfter]
    by_cases hclosed : s.closed
    · rw [if_pos hclosed, if_pos hclosed]
    · rw [if_neg hclosed, if_neg hclosed]
      rfl

end NoOpStore

/-- After any operations the store holds what was last written. -/
theorem read_eq_lastWritten {tr : List (NoOpStore α × StoreOp α)} {s : NoOpStore α}
    (h : (noOpSystem α intOf).Run System.always tr s) (partitionId sid f : String) :
    s.read partitionId sid f = lastWritten partitionId sid f tr := by
  refine h.invariant_trace
    (P := fun tr s => s.read partitionId sid f = lastWritten partitionId sid f tr)
    (fun s hs => ?_) fun tr s op s' hread _ hstep => ?_
  · rw [show s = {} from hs]
    rfl
  · obtain rfl := Option.some.inj hstep
    rw [NoOpStore.read_run, hread, lastWritten]

/-! ## Getting samples -/

/-- What mapping a list raises is raised at an element. -/
theorem mapM_eq_error {β γ ε : Type} {f : β → Except ε γ} {l : List β} {e : ε}
    (h : l.mapM f = .error e) : ∃ a ∈ l, f a = .error e := by
  induction l with
  | nil => cases h
  | cons a l ih =>
    rw [List.mapM_cons] at h
    cases ha : f a with
    | error e' =>
      rw [ha] at h
      obtain rfl : e' = e := Except.error.inj h
      exact ⟨a, List.mem_cons_self, ha⟩
    | ok b =>
      rw [ha] at h
      cases hl : l.mapM f with
      | ok l' =>
        rw [hl] at h
        cases h
      | error e' =>
        rw [hl] at h
        obtain rfl : e' = e := Except.error.inj h
        obtain ⟨a', ha', he⟩ := ih hl
        exact ⟨a', List.mem_cons_of_mem a ha', he⟩

section Get
variable {rec' : Partition α} {pid : String} {ids fields : List String}

/-- A sample without one of the fields is not got. -/
theorem getRow_keyError (pid : String) {sid f : String} (hf : f ∈ fields) (h : readRow rec' sid f = none) :
    ∃ e, getRow rec' pid fields sid = .error e := by
  cases hgot : getRow rec' pid fields sid with
  | error e => exact ⟨e, rfl⟩
  | ok row =>
    have hmem : readRow rec' sid f ∈ row.map some :=
      map_some_of_getRow hgot ▸ List.mem_map_of_mem hf
    rw [h] at hmem
    simp at hmem

/-- What is raised for a sample is a `KeyError`. -/
theorem kind_of_getRow {sid : String} {e : PyError} (h : getRow rec' pid fields sid = .error e) :
    e.kind = .keyError := by
  rw [getRow] at h
  cases hsid : rec'.lookup sid with
  | none =>
    rw [hsid] at h
    rw [← Except.error.inj h]
  | some row =>
    rw [hsid] at h
    obtain ⟨f, -, hf⟩ := mapM_eq_error h
    split at hf
    case h_1 => cases hf
    case h_2 => rw [← Except.error.inj hf]

/-- Samples are got exactly when each has all fields and the tensors of each field can be
stacked. -/
theorem noOpGet_returns_iff (hids : ids ≠ []) (hfields : fields ≠ []) (hnd : fields.Nodup) :
    (∃ td, noOpGet rec' pid ids fields = .ok td) ↔
      ∀ f ∈ fields, ∃ tensors leaf, tensors.map some = ids.map (fun sid => readRow rec' sid f) ∧
        stackOrNest tensors = .ok leaf := by
  rw [noOpGet, if_neg hids]
  constructor
  · rintro ⟨td, h⟩ f hf
    obtain ⟨rows, hrows, h⟩ := bind_eq_ok.mp h
    obtain ⟨stacked, hstacked, -⟩ := bind_eq_ok.mp h
    rw [hnd.dedup] at hstacked
    obtain ⟨q, -, hq⟩ := mem_of_mapM_mem hstacked hf
    obtain ⟨leaf, hleaf, -⟩ := bind_eq_ok.mp hq
    have hall := (mapM_eq_ok.mp hrows).imp fun sid row => map_some_of_getRow
    exact ⟨_, leaf, map_some_collect hnd hall hf, hleaf⟩
  · intro h
    have hget : ∀ sid ∈ ids, ∃ row, getRow rec' pid fields sid = .ok row := by
      intro sid hsid
      have hsome : ∀ f ∈ fields, ∃ val, readRow rec' sid f = some val := by
        intro f hf
        obtain ⟨tensors, leaf, htensors, -⟩ := h f hf
        have hmem : readRow rec' sid f ∈ tensors.map some :=
          htensors ▸ List.mem_map_of_mem hsid
        obtain ⟨val, -, hval⟩ := List.mem_map.mp hmem
        exact ⟨val, hval.symm⟩
      obtain ⟨f₀, hf₀⟩ := List.exists_mem_of_ne_nil fields hfields
      obtain ⟨val₀, hval₀⟩ := hsome f₀ hf₀
      obtain ⟨row, hrow, -⟩ := Option.bind_eq_some_iff.mp hval₀
      rw [getRow, hrow]
      refine exists_mapM fun f hf => ?_
      obtain ⟨val, hval⟩ := hsome f hf
      rw [readRow, hrow, Option.bind_some] at hval
      exact ⟨val, by rw [hval]⟩
    obtain ⟨rows, hrows⟩ := exists_mapM hget
    have hall := (mapM_eq_ok.mp hrows).imp fun sid row => map_some_of_getRow
    have hstack : ∀ f ∈ fields, ∃ q : String × Leaf α, stackField fields rows f = .ok q ∧
        q.2.rows.length = ids.length := by
      intro f hf
      obtain ⟨tensors, leaf, htensors, hleaf⟩ := h f hf
      have hsame : collect fields rows f = tensors :=
        (List.map_injective_iff.mpr (Option.some_injective _))
          ((map_some_collect hnd hall hf).trans htensors.symm)
      refine ⟨(f, leaf), ?_, ?_⟩
      · rw [stackField, hsame, hleaf]
        rfl
      · rw [rows_of_stackOrNest hleaf]
        simpa using congrArg List.length htensors
    obtain ⟨td, htd⟩ := exists_mapM fun f hf => (hstack f hf).imp fun q => And.left
    have hlength : ∀ field ∈ td, field.2.rows.length = ids.length := by
      intro field hfield
      obtain ⟨f, hf, hq⟩ := mem_of_mapM htd hfield
      obtain ⟨q, hq', hrows'⟩ := hstack f hf
      rwa [← Except.ok.inj (hq'.symm.trans hq)]
    refine ⟨td, ?_⟩
    rw [hrows, hnd.dedup]
    simp only [bind, Except.bind, htd, tensorDict]
    exact if_pos hlength

end Get

namespace NoOpStore

/-- The rows of all partitions. -/
def contents (s : NoOpStore α) : List (String × Partition α) :=
  s.partitions.map fun p => (p.1, p.2.rows)

theorem lookup_contents (s : NoOpStore α) (pid : String) :
    s.contents.lookup pid = (s.partitions.lookup pid).map PartitionState.rows :=
  lookup_map s.partitions (fun _ rec' => rec'.rows) pid

/-- Writing the fields of a sample without an error. -/
theorem rowAt_of_writeFields {i : ℕ} {fields : TensorDict α} {row : List (String × Tensor α)}
    (h : (writeFields i fields row).1 = none) :
    ∃ vals, rowAt fields i = .ok vals ∧
      (writeFields i fields row).2 = vals.foldl (fun d field => dictSet d field.1 field.2) row := by
  induction fields generalizing row with
  | nil => exact ⟨[], rfl, rfl⟩
  | cons field fields ih =>
    obtain ⟨fname, leaf⟩ := field
    rw [writeFields] at h ⊢
    cases hval : leaf.rows[i]? with
    | none =>
      rw [hval] at h
      cases h
    | some val =>
      rw [hval] at h
      obtain ⟨vals, hvals, hrow⟩ := ih h
      refine ⟨(fname, val) :: vals, ?_, hrow⟩
      rw [rowAt] at hvals ⊢
      rw [List.mapM_cons, hvals]
      simp only [hval]
      rfl

/-- Writing samples without an error. -/
theorem foldlM_of_writeSamples {fields : TensorDict α} {samples : List (String × ℕ)}
    {rows : Partition α} (h : (writeSamples fields samples rows).1 = none) :
    samples.foldlM (putSample fields) rows = .ok (writeSamples fields samples rows).2 := by
  induction samples generalizing rows with
  | nil => rfl
  | cons q samples ih =>
    obtain ⟨sid, i⟩ := q
    rw [writeSamples] at h ⊢
    cases hfields : (writeFields i fields ((rows.lookup sid).getD [])).1 with
    | some e =>
      rw [hfields] at h
      cases h
    | none =>
      rw [hfields] at h
      obtain ⟨vals, hvals, hrow⟩ := rowAt_of_writeFields hfields
      have hput : putSample fields rows (sid, i) = .ok (dictSet rows sid
          (writeFields i fields ((rows.lookup sid).getD [])).2) := by
        rw [putSample, hvals, hrow]
        rfl
      rw [List.foldlM_cons, hput]
      exact ih h

/-- A put of fields that returns does to the rows what the client with two operations does. -/
theorem putSamples_contents {s : NoOpStore α} {ids : List String} {pid : String}
    {td : TensorDict α} {tags : Option (List Tag)} {batch : KVBatchMeta}
    (h : (s.putSamples ids pid (some td) tags).1 = .ok batch) :
    noOpClient.putSamples s.contents ids pid td tags =
      .ok (s.putSamples ids pid (some td) tags).2.contents := by
  simp only [noOpClient, lookup_contents, putSamples] at h ⊢
  cases hrec : s.partitions.lookup pid with
  | none =>
    rw [hrec] at h
    cases h
  | some rec' =>
    rw [hrec] at h
    simp only [Option.isSome_some, if_true, Option.getD_some] at h ⊢
    cases hwritten : (writeSamples td ids.zipIdx rec'.rows).1 with
    | some e =>
      rw [hwritten] at h
      cases h
    | none =>
      simp only [Option.map_some, noOpPut, foldlM_of_writeSamples hwritten, contents,
        map_dictSet PartitionState.rows]
      rfl

/-- Both clients get the same. -/
theorem getSamples_contents (s : NoOpStore α) (ids : List String) (pid : String)
    (fields : List String) :
    s.getSamples ids pid fields = noOpClient.getSamples s.contents ids pid fields := by
  simp only [getSamples, noOpClient, lookup_contents]
  cases s.partitions.lookup pid <;> rfl

end NoOpStore

end NemoRL.DataPlane
