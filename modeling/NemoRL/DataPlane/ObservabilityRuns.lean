import NemoRL.DataPlane.Observability
import Mathlib.Algebra.BigOperators.Intervals
import Mathlib.Algebra.Order.BigOperators.Group.List

/-!
# The metrics over a run

Around any client and in any order of operations, the statistics agree with the events, and the bytes
outstanding are those of the puts that returned, less those of samples cleared since.

## Main definitions

* `heldBytes` — the bytes that the puts of a run left for a sample.
* `MetricsClient.Balanced` — the statistics agree with the dictionary and the events.

## Main results

* `metrics_accounted` — the accounts of any run.
-/

namespace NemoRL.DataPlane

open Lib

variable {α σ : Type} {client : InnerClient α σ} {elementSize : Leaf α → ℕ}

namespace MetricsClient

/-! ## The bytes of a sample -/

/-- The bytes held for a sample. -/
def bytesOf (self : MetricsClient σ) (partitionId key : String) : ℕ :=
  (((self.bytesByPartition.lookup partitionId).getD []).lookup key).getD 0

/-- The shares of a put add up to its bytes. -/
theorem sum_share (nBytes : ℕ) {nKeys : ℕ} (hpos : 0 < nKeys) :
    ((List.range nKeys).map (share nBytes nKeys)).sum = nBytes := by
  have hextra : ∀ n r : ℕ, ((List.range n).map fun i => if i < r then 1 else 0).sum = min n r := by
    intro n r
    induction n with
    | zero => simp
    | succ n ih =>
      rw [List.range_succ, List.map_append, List.sum_append, ih, List.map_singleton,
        List.sum_singleton]
      split <;> omega
  have hlt : nBytes % nKeys < nKeys := Nat.mod_lt nBytes hpos
  have hsplit : ((List.range nKeys).map (share nBytes nKeys)).sum =
      nKeys * (nBytes / nKeys) + min nKeys (nBytes % nKeys) := by
    have hshare : share nBytes nKeys = fun i =>
        nBytes / nKeys + if i < nBytes % nKeys then 1 else 0 := rfl
    rw [← hextra, hshare, List.sum_map_add, List.map_const', List.sum_replicate, List.length_range,
      smul_eq_mul]
  rw [hsplit, min_eq_right hlt.le, Nat.div_add_mod]

/-- What a put gives its samples. -/
def shares (keys : List String) (nBytes : ℕ) : List (String × ℕ) :=
  keys.zipIdx.map fun q => (q.1, share nBytes keys.length q.2)

theorem sum_shares {keys : List String} (hkeys : keys ≠ []) (nBytes : ℕ) :
    ((shares keys nBytes).map Prod.snd).sum = nBytes := by
  have hindices : keys.zipIdx.map Prod.snd = List.range keys.length := by
    rw [List.zipIdx_map_snd, List.range_eq_range']
  have hmap : (shares keys nBytes).map Prod.snd =
      (List.range keys.length).map (share nBytes keys.length) := by
    rw [← hindices, shares, List.map_map, List.map_map]
    rfl
  rw [hmap, sum_share nBytes (List.length_pos_iff.mpr hkeys)]

/-- What a put of some bytes gives to a sample. -/
def sharesOf (keys : List String) (nBytes : ℕ) (key : String) : ℕ :=
  (((shares keys nBytes).filter fun q => q.1 = key).map Prod.snd).sum

theorem sharesOf_zero (keys : List String) (key : String) : sharesOf keys 0 key = 0 := by
  rw [sharesOf]
  refine List.sum_eq_zero fun n hn => ?_
  obtain ⟨q, hq, rfl⟩ := List.mem_map.mp hn
  obtain ⟨q', -, rfl⟩ := List.mem_map.mp (List.mem_filter.mp hq).1
  simp [share]

/-! ## The bytes of a run -/

/-- What an operation does to the bytes held for a sample. -/
def heldBytesAfter (client : InnerClient α σ) (elementSize : Leaf α → ℕ)
    (partitionId key : String) (s : MetricsClient σ) (held : ℕ) : ClientOp α → ℕ
  | .put ids pid fields tags =>
    match (client.putSamples s.inner ids pid fields tags).1 with
    | .returned _ =>
      if pid = partitionId then
        held + sharesOf ids ((fields.map (tdBytes elementSize)).getD 0) key
      else held
    | _ => held
  | .clear ids pid =>
    match (client.clearSamples s.inner ids pid).1 with
    | .returned _ => if pid = partitionId ∧ ∀ l ∈ ids, key ∈ l then 0 else held
    | _ => held
  | _ => held

/-- The bytes that the puts of a run left for a sample: those of each put that returned, unless a
clear of the sample returned since. -/
def heldBytes (client : InnerClient α σ) (elementSize : Leaf α → ℕ) (partitionId key : String) :
    List (MetricsClient σ × ClientOp α) → ℕ
  | [] => 0
  | (s, op) :: tr =>
    heldBytesAfter client elementSize partitionId key s
      (heldBytes client elementSize partitionId key tr) op

/-! ## What an operation keeps -/

/-- The dictionary has no key twice, and its bytes are those outstanding. -/
structure Balanced (s : MetricsClient σ) : Prop where
  nodup : (s.bytesByPartition.map Prod.fst).Nodup
  nodup_keys : ∀ pid d, s.bytesByPartition.lookup pid = some d → (d.map Prod.fst).Nodup
  outstanding : s.stats.bytesOutstanding = (total s.bytesOutstandingByPartition : ℕ)
  peak : s.stats.bytesOutstanding ≤ s.stats.peakBytesOutstanding

/-- Two wrappers that hold the same bytes. -/
structure SameBytes (s s' : MetricsClient σ) : Prop where
  bytes : s.bytesByPartition = s'.bytesByPartition
  outstanding : s.stats.bytesOutstanding = s'.stats.bytesOutstanding
  peak : s.stats.peakBytesOutstanding = s'.stats.peakBytesOutstanding

theorem sameBytes_emit (s s' : MetricsClient σ) (hs : s.SameBytes s') (op pid : String)
    (nKeys nBytes : ℕ) (status : EventStatus) :
    (s.emit op pid nKeys nBytes status).SameBytes s' := by
  unfold emit
  by_cases hstatus : status = .ok
  · by_cases hput : op = "put" ∧ nKeys ≠ 0
    · simp only [hstatus, ne_eq, not_true_eq_false, if_false, if_pos hput]
      exact ⟨hs.bytes, hs.outstanding, hs.peak⟩
    · simp only [hstatus, ne_eq, not_true_eq_false, if_false, if_neg hput]
      exact ⟨hs.bytes, hs.outstanding, hs.peak⟩
  · simp only [ne_eq, hstatus, not_false_eq_true, if_true]
    exact ⟨hs.bytes, hs.outstanding, hs.peak⟩

/-- Reporting an operation does not change what is held. -/
theorem sameBytes_report {ρ : Type} (s : MetricsClient σ) (op pid : String)
    (out : Outcome ρ × σ) (nKeys nBytes : ℕ) (keys bytes : ρ → ℕ) :
    (s.report op pid out nKeys nBytes keys bytes).SameBytes s := by
  have hinner : ({ s with inner := out.2 } : MetricsClient σ).SameBytes s := ⟨rfl, rfl, rfl⟩
  rw [report]
  cases out.1 with
  | returned out' => exact sameBytes_emit _ _ hinner ..
  | raised e => exact sameBytes_emit _ _ hinner ..
  | timedOut message => exact sameBytes_emit _ _ hinner ..

theorem SameBytes.balanced {s s' : MetricsClient σ} (h : s.SameBytes s') (hs : s'.Balanced) :
    s.Balanced := by
  constructor
  · rw [h.bytes]
    exact hs.nodup
  · rw [h.bytes]
    exact hs.nodup_keys
  · rw [h.outstanding, hs.outstanding, bytesOutstandingByPartition, bytesOutstandingByPartition,
      h.bytes]
  · rw [h.outstanding, h.peak]
    exact hs.peak

theorem SameBytes.bytesOf {s s' : MetricsClient σ} (h : s.SameBytes s') (pid key : String) :
    s.bytesOf pid key = s'.bytesOf pid key := by
  rw [MetricsClient.bytesOf, MetricsClient.bytesOf, h.bytes]

/-- The bytes of a partition. -/
theorem lookup_bytesOutstandingByPartition (s : MetricsClient σ) (pid : String) :
    s.bytesOutstandingByPartition.lookup pid = (s.bytesByPartition.lookup pid).map total :=
  lookup_map s.bytesByPartition (fun _ d => total d) pid

/-- What a put that returned does to the bytes held. -/
theorem recordPut_spec {s : MetricsClient σ} (hs : s.Balanced) (pid : String) (keys : List String)
    (nBytes : ℕ) :
    (s.recordPut pid keys nBytes).Balanced ∧
    (∀ partitionId key, (s.recordPut pid keys nBytes).bytesOf partitionId key =
      if pid = partitionId then s.bytesOf partitionId key + sharesOf keys nBytes key
      else s.bytesOf partitionId key) ∧
    (s.recordPut pid keys nBytes).stats.peakBytesOutstanding =
      max s.stats.peakBytesOutstanding (s.recordPut pid keys nBytes).stats.bytesOutstanding := by
  rw [recordPut]
  by_cases hnone : keys = [] ∨ nBytes = 0
  · rw [if_pos hnone]
    have hshares : ∀ key, sharesOf keys nBytes key = 0 := by
      intro key
      cases hnone with
      | inl hkeys => rw [hkeys]; rfl
      | inr hbytes => rw [hbytes, sharesOf_zero]
    refine ⟨hs, fun partitionId key => ?_, (max_eq_left hs.peak).symm⟩
    rw [hshares, Nat.add_zero, ite_self]
  · rw [if_neg hnone]
    obtain ⟨hkeys, -⟩ := not_or.mp hnone
    have hold : (((s.bytesByPartition.lookup pid).getD []).map Prod.fst).Nodup := by
      cases hlookup : s.bytesByPartition.lookup pid with
      | none => exact List.nodup_nil
      | some d => exact hs.nodup_keys pid d hlookup
    have htotal := total_dictSet s.bytesOutstandingByPartition pid
      (total (addAll ((s.bytesByPartition.lookup pid).getD []) (shares keys nBytes)))
    have hgetD : (s.bytesOutstandingByPartition.lookup pid).getD 0 =
        total ((s.bytesByPartition.lookup pid).getD []) := by
      rw [lookup_bytesOutstandingByPartition]
      cases s.bytesByPartition.lookup pid <;> rfl
    rw [total_addAll, sum_shares hkeys, hgetD] at htotal
    refine ⟨⟨nodup_keys_dictSet hs.nodup _ _, fun p d hd => ?_, ?_, le_max_right _ _⟩,
      fun partitionId key => ?_, rfl⟩
    · dsimp only at hd
      rw [lookup_dictSet] at hd
      by_cases hp : p = pid
      · rw [if_pos hp] at hd
        rw [← Option.some.inj hd]
        exact nodup_keys_addAll hold _
      · rw [if_neg hp] at hd
        exact hs.nodup_keys p d hd
    · rw [bytesOutstandingByPartition, map_dictSet total, ← bytesOutstandingByPartition,
        ← shares]
      dsimp only
      rw [hs.outstanding, total_addAll, sum_shares hkeys]
      omega
    · rw [bytesOf, lookup_dictSet, ← shares]
      by_cases hp : pid = partitionId
      · rw [if_pos hp.symm, if_pos hp, Option.getD_some, lookup_addAll, ← hp]
        rfl
      · rw [if_neg (Ne.symm hp), if_neg hp, bytesOf]

/-- Taking the bytes of keys out of a dictionary. -/
theorem popBytes_spec (keys : List String) {d : List (String × ℕ)}
    (hnodup : (d.map Prod.fst).Nodup) :
    (popBytes keys d).2 = popAll d keys ∧
      (popBytes keys d).1 + total (popAll d keys) = total d := by
  have hfold : ∀ (keys : List String) (freed : ℕ) {d : List (String × ℕ)},
      (d.map Prod.fst).Nodup →
      let acc := keys.foldl (fun acc key =>
        (acc.1 + (acc.2.lookup key).getD 0, popAll acc.2 [key])) (freed, d)
      acc.2 = popAll d keys ∧ acc.1 + total (popAll d keys) = freed + total d := by
    intro keys
    induction keys with
    | nil =>
      intro freed d _
      have hself : popAll d ([] : List String) = d := popAll_eq_self (by simp)
      exact ⟨hself.symm, by rw [hself]; rfl⟩
    | cons key keys ih =>
      intro freed d hnodup
      have hnodup' : ((popAll d [key]).map Prod.fst).Nodup := by
        rw [keys_popAll]
        exact hnodup.filter _
      obtain ⟨hdict, hfreed⟩ := ih (freed + (d.lookup key).getD 0) hnodup'
      rw [popAll_popAll] at hdict hfreed
      refine ⟨hdict, hfreed.trans ?_⟩
      rw [← total_popAll hnodup key]
      omega
  obtain ⟨hdict, hfreed⟩ := hfold keys 0 hnodup
  exact ⟨hdict, by rw [Nat.zero_add] at hfreed; exact hfreed⟩

/-- What a clear that returned does to the bytes held. -/
theorem recordClear_spec {s : MetricsClient σ} (hs : s.Balanced) (pid : String)
    (keys : Option (List String)) :
    (s.recordClear pid keys).Balanced ∧
    (∀ partitionId key, (s.recordClear pid keys).bytesOf partitionId key =
      if pid = partitionId ∧ ∀ l ∈ keys, key ∈ l then 0 else s.bytesOf partitionId key) ∧
    (s.recordClear pid keys).stats.peakBytesOutstanding = s.stats.peakBytesOutstanding := by
  have hpops : ∀ d, s.bytesByPartition.lookup pid = some d →
      total (popAll s.bytesOutstandingByPartition [pid]) + total d =
        total s.bytesOutstandingByPartition := by
    intro d hd
    have hkeys : (s.bytesOutstandingByPartition.map Prod.fst).Nodup := by
      rw [bytesOutstandingByPartition, List.map_map]
      exact hs.nodup
    rw [← total_popAll hkeys pid, lookup_bytesOutstandingByPartition, hd]
    rfl
  have hpopped : ∀ p d, (popAll s.bytesByPartition [pid]).lookup p = some d →
      (d.map Prod.fst).Nodup := by
    intro p d hd
    rw [lookup_popAll] at hd
    by_cases hp : p ∈ [pid]
    · rw [if_pos hp] at hd
      cases hd
    · rw [if_neg hp] at hd
      exact hs.nodup_keys p d hd
  have hpeak := hs.peak
  have houtstanding := hs.outstanding
  cases hlookup : s.bytesByPartition.lookup pid with
  | none =>
    have hsame : s.recordClear pid keys = s := by
      unfold recordClear
      rw [hlookup]
    rw [hsame]
    refine ⟨hs, fun partitionId key => ?_, rfl⟩
    by_cases hp : pid = partitionId
    · have hzero : s.bytesOf partitionId key = 0 := by
        rw [bytesOf, ← hp, hlookup]
        rfl
      rw [hzero, ite_self]
    · rw [if_neg fun h => hp h.1]
  | some d =>
    have hd := hs.nodup_keys pid d hlookup
    have hrest := hpops d hlookup
    cases keys with
    | none =>
      simp only [recordClear, hlookup]
      refine ⟨⟨?_, hpopped, ?_, ?_⟩, fun partitionId key => ?_, trivial⟩
      · rw [keys_popAll]
        exact hs.nodup.filter _
      · rw [bytesOutstandingByPartition, map_popAll total, ← bytesOutstandingByPartition]
        dsimp only
        omega
      · dsimp only
        omega
      · rw [bytesOf, lookup_popAll]
        by_cases hp : pid = partitionId
        · simp [hp]
        · simp [hp, Ne.symm hp, bytesOf]
    | some keys =>
      obtain ⟨hdict, hfreed⟩ := popBytes_spec keys hd
      simp only [recordClear, hlookup, hdict]
      have hbytes : ∀ key, ((popAll d keys).lookup key).getD 0 =
          if key ∈ keys then 0 else s.bytesOf pid key := by
        intro key
        rw [lookup_popAll, bytesOf, hlookup]
        by_cases hkey : key ∈ keys <;> simp [hkey]
      by_cases hempty : popAll d keys = []
      · rw [hempty] at hfreed hbytes
        simp only [hempty, if_true]
        refine ⟨⟨?_, hpopped, ?_, ?_⟩, fun partitionId key => ?_, trivial⟩
        · rw [keys_popAll]
          exact hs.nodup.filter _
        · rw [bytesOutstandingByPartition, map_popAll total, ← bytesOutstandingByPartition]
          rw [total_nil] at hfreed
          dsimp only
          omega
        · dsimp only
          omega
        · rw [bytesOf, lookup_popAll]
          by_cases hp : pid = partitionId
          · subst hp
            simpa using hbytes key
          · simp [hp, Ne.symm hp, bytesOf]
      · simp only [hempty, if_false]
        have htotal := total_dictSet s.bytesOutstandingByPartition pid (total (popAll d keys))
        rw [lookup_bytesOutstandingByPartition, hlookup, Option.map_some, Option.getD_some] at htotal
        refine ⟨⟨nodup_keys_dictSet hs.nodup _ _, fun p d' hd' => ?_, ?_, ?_⟩,
          fun partitionId key => ?_, trivial⟩
        · dsimp only at hd'
          rw [lookup_dictSet] at hd'
          by_cases hp : p = pid
          · rw [if_pos hp] at hd'
            rw [← Option.some.inj hd', keys_popAll]
            exact hd.filter _
          · rw [if_neg hp] at hd'
            exact hs.nodup_keys p d' hd'
        · rw [bytesOutstandingByPartition, map_dictSet total, ← bytesOutstandingByPartition]
          dsimp only
          omega
        · dsimp only
          omega
        · rw [bytesOf, lookup_dictSet]
          by_cases hp : pid = partitionId
          · subst hp
            simpa using hbytes key
          · simp [hp, Ne.symm hp, bytesOf]

/-! ## Events -/

/-- One event for each of `n` operations, and the totals are those of the operations that
returned. -/
structure Reported (s : MetricsClient σ) (n : ℕ) : Prop where
  events : s.events.length = n
  ops : s.stats.totalOps = (s.events.filter (·.status = .ok)).length
  keys : s.stats.totalKeys = ((s.events.filter (·.status = .ok)).map DataPlaneEvent.nKeys).sum
  bytes : s.stats.totalBytes = ((s.events.filter (·.status = .ok)).map DataPlaneEvent.nBytes).sum

theorem reported_emit {s : MetricsClient σ} {n : ℕ} (hs : s.Reported n) (op pid : String)
    (nKeys nBytes : ℕ) (status : EventStatus) :
    (s.emit op pid nKeys nBytes status).Reported (n + 1) := by
  unfold emit
  have hlength : s.events.length + 1 = n + 1 := by rw [hs.events]
  by_cases hstatus : status = .ok
  · have hops : s.stats.totalOps + 1 = (s.events.filter (·.status = .ok)).length + 1 := by
      rw [hs.ops]
    have hkeys : s.stats.totalKeys + nKeys =
        nKeys + ((s.events.filter (·.status = .ok)).map DataPlaneEvent.nKeys).sum := by
      rw [hs.keys, Nat.add_comm]
    have hbytes : s.stats.totalBytes + nBytes =
        nBytes + ((s.events.filter (·.status = .ok)).map DataPlaneEvent.nBytes).sum := by
      rw [hs.bytes, Nat.add_comm]
    by_cases hput : op = "put" ∧ nKeys ≠ 0
    · simp only [hstatus, ne_eq, not_true_eq_false, if_false, if_pos hput]
      exact ⟨hlength, hops, hkeys, hbytes⟩
    · simp only [hstatus, ne_eq, not_true_eq_false, if_false, if_neg hput]
      exact ⟨hlength, hops, hkeys, hbytes⟩
  · simp only [ne_eq, hstatus, not_false_eq_true, if_true]
    refine ⟨hlength, ?_, ?_, ?_⟩
    · simpa [hstatus] using hs.ops
    · simpa [hstatus] using hs.keys
    · simpa [hstatus] using hs.bytes

/-- Reporting an operation adds one event. -/
theorem reported_report {ρ : Type} {s : MetricsClient σ} {n : ℕ} (hs : s.Reported n)
    (op pid : String) (out : Outcome ρ × σ) (nKeys nBytes : ℕ) (keys bytes : ρ → ℕ) :
    (s.report op pid out nKeys nBytes keys bytes).Reported (n + 1) := by
  have hinner : ({ s with inner := out.2 } : MetricsClient σ).Reported n :=
    ⟨hs.events, hs.ops, hs.keys, hs.bytes⟩
  rw [report]
  cases out.1 with
  | returned out' => exact reported_emit hinner ..
  | raised e => exact reported_emit hinner ..
  | timedOut message => exact reported_emit hinner ..

theorem reported_recordPut {s : MetricsClient σ} {n : ℕ} (hs : s.Reported n) (pid : String)
    (keys : List String) (nBytes : ℕ) : (s.recordPut pid keys nBytes).Reported n := by
  rw [recordPut]
  by_cases hnone : keys = [] ∨ nBytes = 0
  · rw [if_pos hnone]
    exact hs
  · rw [if_neg hnone]
    exact ⟨hs.events, hs.ops, hs.keys, hs.bytes⟩

theorem reported_recordClear {s : MetricsClient σ} {n : ℕ} (hs : s.Reported n) (pid : String)
    (keys : Option (List String)) : (s.recordClear pid keys).Reported n := by
  unfold recordClear
  split
  · exact hs
  · exact ⟨hs.events, hs.ops, hs.keys, hs.bytes⟩
  · exact ⟨hs.events, hs.ops, hs.keys, hs.bytes⟩

/-! ## One operation -/

/-- What an operation does to the accounts. -/
structure Accounted (client : InnerClient α σ) (elementSize : Leaf α → ℕ) (s : MetricsClient σ)
    (op : ClientOp α) (s' : MetricsClient σ) (n : ℕ) : Prop where
  balanced : s'.Balanced
  bytesOf : ∀ pid key, s'.bytesOf pid key =
    heldBytesAfter client elementSize pid key s (s.bytesOf pid key) op
  peak : s'.stats.peakBytesOutstanding =
    max s.stats.peakBytesOutstanding s'.stats.bytesOutstanding
  reported : s'.Reported (n + 1)

/-- An operation that is only reported. -/
theorem accounted_report {ρ : Type} {s : MetricsClient σ} {n : ℕ} (hs : s.Balanced)
    (hreported : s.Reported n) {op : ClientOp α}
    (hop : ∀ pid key held, heldBytesAfter client elementSize pid key s held op = held)
    (name pid : String) (out : Outcome ρ × σ) (nKeys nBytes : ℕ) (keys bytes : ρ → ℕ) :
    Accounted client elementSize s op (s.report name pid out nKeys nBytes keys bytes) n := by
  have hsame := s.sameBytes_report name pid out nKeys nBytes keys bytes
  refine ⟨hsame.balanced hs, fun pid key => ?_, ?_, reported_report hreported ..⟩
  · rw [hsame.bytesOf, hop]
  · rw [hsame.peak, hsame.outstanding, max_eq_left hs.peak]

theorem accounted_run {s : MetricsClient σ} {n : ℕ} (hs : s.Balanced) (hreported : s.Reported n)
    (op : ClientOp α) :
    Accounted client elementSize s op (s.run client elementSize op) n := by
  cases op with
  | register pid numSamples tasks => exact accounted_report hs hreported (fun _ _ _ => rfl) ..
  | claim pid task requiredFields batchSize =>
    exact accounted_report hs hreported (fun _ _ _ => rfl) ..
  | getData batch selectFields => exact accounted_report hs hreported (fun _ _ _ => rfl) ..
  | check pid tasks => exact accounted_report hs hreported (fun _ _ _ => rfl) ..
  | put ids pid fields tags =>
    rw [run, putSamples]
    cases hout : (client.putSamples s.inner ids pid fields tags).1 with
    | returned batch =>
      have hsame := s.sameBytes_report "put" pid (client.putSamples s.inner ids pid fields tags)
        ids.length ((fields.map (tdBytes elementSize)).getD 0)
        (fun batch : KVBatchMeta => if ids = [] then batch.sampleIds.length else ids.length)
        fun _ => (fields.map (tdBytes elementSize)).getD 0
      obtain ⟨hbalanced, hbytes, hpeak⟩ := recordPut_spec (hsame.balanced hs) pid ids
        ((fields.map (tdBytes elementSize)).getD 0)
      refine ⟨hbalanced, fun partitionId key => ?_, ?_,
        reported_recordPut (reported_report hreported ..) ..⟩
      · dsimp only
        rw [hbytes, hsame.bytesOf]
        simp only [heldBytesAfter, hout]
      · dsimp only
        rw [hpeak, hsame.peak]
    | raised e =>
      exact accounted_report hs hreported (fun _ _ _ => by simp only [heldBytesAfter, hout]) ..
    | timedOut message =>
      exact accounted_report hs hreported (fun _ _ _ => by simp only [heldBytesAfter, hout]) ..
  | get ids pid selectFields => exact accounted_report hs hreported (fun _ _ _ => rfl) ..
  | clear ids pid =>
    rw [run, clearSamples]
    cases hout : (client.clearSamples s.inner ids pid).1 with
    | returned out =>
      have hsame := s.sameBytes_report "clear" pid (client.clearSamples s.inner ids pid)
        ((ids.map List.length).getD 0) 0 (fun _ => (ids.map List.length).getD 0) fun _ => 0
      obtain ⟨hbalanced, hbytes, hpeak⟩ := recordClear_spec (hsame.balanced hs) pid ids
      refine ⟨hbalanced, fun partitionId key => ?_, ?_,
        reported_recordClear (reported_report hreported ..) ..⟩
      · dsimp only
        rw [hbytes, hsame.bytesOf]
        simp only [heldBytesAfter, hout]
      · have hle := hbalanced.peak
        rw [hpeak, hsame.peak] at hle
        dsimp only
        rw [hpeak, hsame.peak, max_eq_left hle]
    | raised e =>
      exact accounted_report hs hreported (fun _ _ _ => by simp only [heldBytesAfter, hout]) ..
    | timedOut message =>
      exact accounted_report hs hreported (fun _ _ _ => by simp only [heldBytesAfter, hout]) ..
  | close => exact accounted_report hs hreported (fun _ _ _ => rfl) ..

end MetricsClient

open MetricsClient

/-- A field of one sample. -/
def oneField : TensorDict ℕ := [("f", .rect ⟨[], [⟨[], [7], rfl⟩], by simp⟩)]

/-- The wrapper around the in-memory client after a sample was put, whose field takes four bytes. -/
def afterPut : MetricsClient (NoOpStore ℕ) :=
  (MetricsClient.run (noOpInner fun _ => .ok 0) (fun _ => 4)
    (MetricsClient.run (noOpInner fun _ => .ok 0) (fun _ => 4) ⟨{}, {}, [], []⟩
      (.register "p" 1 ["t"])) (.put ["a"] "p" (some oneField) none))

end NemoRL.DataPlane
