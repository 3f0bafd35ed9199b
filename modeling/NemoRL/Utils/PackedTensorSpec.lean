import NemoRL.Utils.PackedTensor

/-!
# Producer and consumer in step

The loop of both sides goes through the greedy batches of the tensors. Both sides compute
the same batches, so the broadcasts agree, and each broadcast carries what its batch asks
for. What can go wrong is unpacking: a piece of a buffer is only viewed as a tensor when
the tensor has a dimension and the piece starts at a multiple of the element size.

## Main definitions

* `flushBatch` — what the loop does with one batch.
* `Viewable` — a batch whose pieces can be viewed.

## Main results

* `packLoop_eq` — the loop runs through the batches.
* `inStep_iff` — when both sides are in step.
-/

namespace NemoRL.Utils

open Lib

/-! ## The loop goes through the batches -/

section Loop
variable {ι ε σ : Type} {entry : ι → ℕ → Except Halt (ε × ℕ)}
  {flush : List ε → ℕ → σ → Except Halt σ} {target : ℕ} {size : ι → ℕ}

/-- The entries of a batch, when the buffer already has size `n`. -/
def packEntries (entry : ι → ℕ → Except Halt (ε × ℕ)) : ℕ → List ι → Except Halt (List ε)
  | _, [] => .ok []
  | n, x :: xs => (entry x n).bind fun p =>
      (packEntries entry (n + p.2) xs).map fun items => p.1 :: items

/-- Fill a buffer with a batch and flush it. -/
def flushBatch (entry : ι → ℕ → Except Halt (ε × ℕ)) (flush : List ε → ℕ → σ → Except Halt σ)
    (size : ι → ℕ) (st : σ) (batch : List ι) : Except Halt σ :=
  (packEntries entry 0 batch).bind fun items => flush items (batch.map size).sum st

/-- Filling a buffer takes the first batch. -/
theorem fillBuffer_eq (hsize : ∀ x n p, entry x n = .ok p → p.2 = size x) {i : ℕ}
    {buffers : List (PackBuffer ε)} (hi : i < buffers.length) {buffer : PackBuffer ε}
    (hbuffer : buffers.getD i {} = buffer) (items : List ι) :
    ∃ stopped, (stopped = true → (takeBatch size target buffer.size items).2 = []) ∧
      (stopped = false → items ≠ []) ∧
      fillBuffer entry target i buffers items =
        (packEntries entry buffer.size (takeBatch size target buffer.size items).1).map
          fun packed =>
            (buffers.set i ⟨buffer.entries ++ packed, buffer.size +
              ((takeBatch size target buffer.size items).1.map size).sum⟩,
              stopped, (takeBatch size target buffer.size items).2) := by
  induction items generalizing buffers buffer with
  | nil =>
    have hsame : buffers.set i buffer = buffers := by
      rw [← hbuffer, List.getD_eq_getElem?_getD, List.getElem?_eq_getElem hi, Option.getD_some,
        List.set_getElem_self]
    refine ⟨true, fun _ => rfl, by simp, ?_⟩
    simp only [fillBuffer, takeBatch, packEntries, Except.map, List.append_nil, List.map_nil,
      List.sum_nil, Nat.add_zero]
    rw [hsame]
  | cons x xs ih =>
    cases hentry : entry x buffer.size with
    | error e =>
      refine ⟨false, by simp, by simp, ?_⟩
      rw [fillBuffer, takeBatch, hbuffer]
      by_cases hover : target < buffer.size + size x
      · simp [hentry, hover, packEntries, Except.bind, Except.map]
      · simp [hentry, hover, packEntries, Except.bind, Except.map]
    | ok p =>
      obtain ⟨item, n⟩ := p
      have hn : n = size x := hsize x buffer.size (item, n) hentry
      by_cases hover : target < buffer.size + size x
      · refine ⟨false, by simp, by simp, ?_⟩
        rw [fillBuffer, takeBatch, hbuffer, if_pos hover]
        simp [hentry, hn, hover, packEntries, Except.bind, Except.map]
      · have hset : (buffers.set i ⟨buffer.entries ++ [item], buffer.size + size x⟩).getD i {} =
            ⟨buffer.entries ++ [item], buffer.size + size x⟩ := by
          rw [List.getD_eq_getElem?_getD, List.getElem?_set_self hi, Option.getD_some]
        obtain ⟨stopped, hstop, -, hfill⟩ := ih (by simpa using hi) hset
        refine ⟨stopped, ?_, by simp, ?_⟩
        · simpa [takeBatch, hover] using hstop
        · rw [fillBuffer, takeBatch, hbuffer, if_neg hover]
          simp only [hentry, hn, if_neg hover, hfill, packEntries, Except.bind, List.map_cons,
            List.sum_cons, ← Nat.add_assoc, List.set_set]
          cases packEntries entry (buffer.size + size x)
            (takeBatch size target (buffer.size + size x) xs).1 with
          | error e => rfl
          | ok packed => simp [Except.map]

theorem packEntries_ne_nil {n : ℕ} {items : List ι} {packed : List ε} (hne : items ≠ [])
    (h : packEntries entry n items = .ok packed) : packed ≠ [] := by
  cases items with
  | nil => exact (hne rfl).elim
  | cons x xs =>
    rw [packEntries, bind_eq_ok] at h
    obtain ⟨p, -, h⟩ := h
    cases hrest : packEntries entry (n + p.2) xs with
    | error e => simp [hrest, Except.map] at h
    | ok rest =>
      simp only [hrest, Except.map, Except.ok.injEq] at h
      simp [← h]

theorem getD_set_self {buffers : List (PackBuffer ε)} (hne : buffers.length ≠ 0) {i : ℕ}
    (buffer : PackBuffer ε) :
    (buffers.set (i % buffers.length) buffer).getD (i % buffers.length) {} = buffer := by
  rw [List.getD_eq_getElem?_getD,
    List.getElem?_set_self (Nat.mod_lt i (Nat.pos_of_ne_zero hne)), Option.getD_some]

/-- The loop runs through the batches. -/
theorem packLoop_eq (hsize : ∀ x n p, entry x n = .ok p → p.2 = size x) {i : ℕ}
    {buffers : List (PackBuffer ε)} (hne : buffers.length ≠ 0) (items : List ι) (st : σ) :
    packLoop entry flush target i buffers items st =
      (batches size target items).foldlM (flushBatch entry flush size) st := by
  induction items using batches.induct size target generalizing i buffers st with
  | case1 =>
    have hreset : (buffers.set ((i + 1) % buffers.length) {}).getD ((i + 1) % buffers.length) {} =
        ({} : PackBuffer ε) := getD_set_self hne _
    rw [packLoop_round entry flush target hne, batches]
    simp only [fillBuffer, Except.bind, hreset, List.foldlM_nil]
    rfl
  | case2 x xs ih =>
    have hlt : (i + 1) % buffers.length < (buffers.set ((i + 1) % buffers.length) {}).length := by
      rw [List.length_set]
      exact Nat.mod_lt _ (Nat.pos_of_ne_zero hne)
    have hreset : (buffers.set ((i + 1) % buffers.length) {}).getD ((i + 1) % buffers.length) {} =
        ({} : PackBuffer ε) := getD_set_self hne _
    obtain ⟨stopped, hstop, -, hfill⟩ :=
      fillBuffer_eq hsize hlt hreset (x :: xs)
    rw [packLoop_round entry flush target hne, batches, List.foldlM_cons, hfill]
    simp only [List.nil_append, Nat.zero_add, List.set_set, flushBatch]
    cases hpack : packEntries entry 0 (takeBatch size target 0 (x :: xs)).1 with
    | error e => rfl
    | ok packed =>
      have hpacked : packed ≠ [] :=
        packEntries_ne_nil (takeBatch_ne_nil size target 0 x xs) hpack
      simp only [Except.map, Except.bind, getD_set_self hne, if_pos hpacked]
      cases stopped with
      | true =>
        have hrest : (takeBatch size target 0 (x :: xs)).2 = [] := hstop rfl
        rw [if_pos rfl, hrest, batches]
        exact (bind_pure _).symm
      | false =>
        rw [if_neg (by simp)]
        refine congrArg _ (funext fun st => ?_)
        exact ih (by simpa using hne) st

end Loop

/-! ## Entries at their offsets -/

section Offsets
variable {ι ε δ σ : Type} {size : ι → ℕ} {item : ι → ℕ → ε}

/-- The entries of a batch, each at its offset. -/
def withOffsets (item : ι → ℕ → ε) (size : ι → ℕ) : ℕ → List ι → List ε
  | _, [] => []
  | n, x :: xs => item x n :: withOffsets item size (n + size x) xs

theorem mem_withOffsets {n : ℕ} {xs : List ι} {y : ε} :
    y ∈ withOffsets item size n xs ↔
      ∃ pre x post, xs = pre ++ x :: post ∧ y = item x (n + (pre.map size).sum) := by
  induction xs generalizing n with
  | nil => simp [withOffsets]
  | cons x xs ih =>
    rw [withOffsets, List.mem_cons, ih]
    constructor
    · rintro (rfl | ⟨pre, z, post, rfl, rfl⟩)
      · exact ⟨[], x, xs, rfl, by simp⟩
      · exact ⟨x :: pre, z, post, rfl, by simp [Nat.add_assoc]⟩
    · rintro ⟨pre, z, post, heq, rfl⟩
      cases pre with
      | nil =>
        simp only [List.nil_append, List.cons.injEq] at heq
        exact .inl (by simp [heq.1])
      | cons w pre =>
        simp only [List.cons_append, List.cons.injEq] at heq
        exact .inr ⟨pre, z, post, heq.2, by simp [heq.1, Nat.add_assoc]⟩

theorem map_withOffsets (f : ε → δ) (n : ℕ) (xs : List ι) :
    (withOffsets item size n xs).map f = withOffsets (fun x n => f (item x n)) size n xs := by
  induction xs generalizing n with
  | nil => rfl
  | cons x xs ih => simp [withOffsets, ih]

theorem withOffsets_const (f : ι → ε) (n : ℕ) (xs : List ι) :
    withOffsets (fun x _ => f x) size n xs = xs.map f := by
  induction xs generalizing n with
  | nil => rfl
  | cons x xs ih => simp [withOffsets, ih]

theorem packEntries_eq {entry : ι → ℕ → Except Halt (ε × ℕ)} {xs : List ι}
    (hentry : ∀ x ∈ xs, ∀ n, entry x n = .ok (item x n, size x)) (n : ℕ) :
    packEntries entry n xs = .ok (withOffsets item size n xs) := by
  induction xs generalizing n with
  | nil => rfl
  | cons x xs ih =>
    have hrest := ih (fun y hy => hentry y (List.mem_cons_of_mem x hy)) (n + size x)
    simp [packEntries, hentry x List.mem_cons_self, hrest, withOffsets, Except.bind, Except.map]

theorem mapM_withOffsets {f : ε → Except Halt δ} {g : ι → δ} {n : ℕ} {xs : List ι}
    (h : ∀ pre x post, xs = pre ++ x :: post → f (item x (n + (pre.map size).sum)) = .ok (g x)) :
    (withOffsets item size n xs).mapM f = .ok (xs.map g) := by
  induction xs generalizing n with
  | nil => rfl
  | cons x xs ih =>
    have hfirst : f (item x n) = .ok (g x) := h [] x xs rfl
    have hrest : (withOffsets item size (n + size x) xs).mapM f = .ok (xs.map g) := by
      refine ih fun pre y post hxs => ?_
      have := h (x :: pre) y post (by rw [hxs, List.cons_append])
      rwa [List.map_cons, List.sum_cons, ← Nat.add_assoc] at this
    rw [withOffsets, List.mapM_cons, hfirst, hrest]
    rfl

/-- The steps of a fold that returned all returned. -/
theorem foldlM_ok_mem {ε δ : Type} {f : σ → δ → Except ε σ} {l : List δ} {st st' : σ}
    (h : l.foldlM f st = .ok st') {x : δ} (hx : x ∈ l) : ∃ s s', f s x = .ok s' := by
  induction l generalizing st with
  | nil => exact nomatch hx
  | cons y l ih =>
    rw [List.foldlM_cons] at h
    obtain ⟨s, hs, hrest⟩ := bind_eq_ok.mp h
    rcases List.mem_cons.mp hx with rfl | hx
    · exact ⟨st, s, hs⟩
    · exact ih hrest hx

end Offsets

/-! ## The producer -/

section Producer
variable {iterator : List (String × WeightTensor)}
  {postIterFunc : String × WeightTensor → WeightTensor} {target numBuffers : ℕ}

/-- The bytes of the tensor of an item. -/
def byteSize (postIterFunc : String × WeightTensor → WeightTensor) (x : String × WeightTensor) :
    ℕ := (postIterFunc x).bytes.length

/-- The batches of both sides. -/
def tensorBatches (iterator : List (String × WeightTensor))
    (postIterFunc : String × WeightTensor → WeightTensor) (target : ℕ) :
    List (List (String × WeightTensor)) := batches (byteSize postIterFunc) target iterator

/-- The bytes of a batch. -/
def batchBytes (postIterFunc : String × WeightTensor → WeightTensor)
    (batch : List (String × WeightTensor)) : Bytes := batch.flatMap fun x => (postIterFunc x).bytes

theorem packLoop_no_buffers {ι ε σ : Type} {entry : ι → ℕ → Except Halt (ε × ℕ)}
    {flush : List ε → ℕ → σ → Except Halt σ} {i : ℕ} {items : List ι} {st st' : σ} :
    packLoop entry flush target i (List.replicate 0 {}) items st ≠ .ok st' := by
  rw [packLoop]
  simp

theorem foldlM_append_ok {δ τ : Type} {f : List τ → δ → Except Halt (List τ)} {g : δ → τ}
    {l : List δ} (h : ∀ x ∈ l, ∀ st, f st x = .ok (st ++ [g x])) (st : List τ) :
    l.foldlM f st = .ok (st ++ l.map g) := by
  induction l generalizing st with
  | nil =>
    rw [List.foldlM_nil, List.map_nil, List.append_nil]
    rfl
  | cons x l ih =>
    rw [List.foldlM_cons, h x List.mem_cons_self]
    simpa [bind, Except.bind] using
      ih (fun y hy => h y (List.mem_cons_of_mem x hy)) (st ++ [g x])

theorem mem_of_mem_tensorBatches {batch : List (String × WeightTensor)}
    (hbatch : batch ∈ tensorBatches iterator postIterFunc target) {x : String × WeightTensor}
    (hx : x ∈ batch) : x ∈ iterator := by
  rw [← flatten_batches (byteSize postIterFunc) target iterator]
  exact List.mem_flatten.mpr ⟨batch, hbatch, hx⟩

/-- The producer broadcasts the bytes of each batch. -/
theorem packedBroadcastProducer_ok (hpos : numBuffers ≠ 0)
    (hdim : ∀ x ∈ iterator, (postIterFunc x).shape ≠ []) :
    packedBroadcastProducer iterator postIterFunc target numBuffers =
      .ok ((tensorBatches iterator postIterFunc target).map (batchBytes postIterFunc)) := by
  have hentry : ∀ x ∈ iterator, linearize (postIterFunc x) = .ok (postIterFunc x).bytes := by
    intro x hx
    rw [linearize, if_neg fun h => hdim x hx h.1]
  have hsize : ∀ x n p, producerEntry postIterFunc x n = .ok p →
      p.2 = byteSize postIterFunc x := by
    intro x n p h
    rw [producerEntry, linearize] at h
    split at h
    case isTrue => exact nomatch h
    case isFalse =>
      rw [← Except.ok.inj h]
      rfl
  rw [packedBroadcastProducer, packLoop_eq hsize (by simpa using hpos)]
  refine (foldlM_append_ok (fun batch hbatch st => ?_) []).trans rfl
  have hpack : packEntries (producerEntry postIterFunc) 0 batch =
      .ok (withOffsets (fun x _ => (postIterFunc x).bytes) (byteSize postIterFunc) 0 batch) := by
    refine packEntries_eq (fun x hx n => ?_) 0
    rw [producerEntry, hentry x (mem_of_mem_tensorBatches hbatch hx)]
    rfl
  rw [flushBatch, hpack, withOffsets_const, batchBytes, List.flatMap_def]
  rfl

end Producer

/-! ## The consumer -/

section Consumer
variable {postIterFunc : String × WeightTensor → WeightTensor} {target numBuffers : ℕ}
  {iterator batch : List (String × WeightTensor)}

/-- What the consumer is told about one tensor. -/
def metaOf (postIterFunc : String × WeightTensor → WeightTensor) (x : String × WeightTensor) :
    String × List ℕ × Dtype := (x.1, (postIterFunc x).shape, (postIterFunc x).dtype)

/-- What the consumer notes about one tensor. -/
def tensorMeta (postIterFunc : String × WeightTensor → WeightTensor) (x : String × WeightTensor)
    (offset : ℕ) : TensorMeta :=
  ⟨x.1, (postIterFunc x).shape, (postIterFunc x).dtype, offset, byteSize postIterFunc x⟩

/-- Every tensor of a batch has a dimension, and the bytes packed before it are a multiple of
its element size. -/
def Viewable (postIterFunc : String × WeightTensor → WeightTensor)
    (batch : List (String × WeightTensor)) : Prop :=
  ∀ pre x post, batch = pre ++ x :: post → (postIterFunc x).shape ≠ [] ∧
    (postIterFunc x).dtype.itemsize ∣ (pre.map (byteSize postIterFunc)).sum

theorem viewAs_eq_ok {offset : ℕ} {bytes : Bytes} {dtype : Dtype} {shape : List ℕ}
    {t : WeightTensor} (h : viewAs offset bytes dtype shape = .ok t) :
    shape ≠ [] ∧ dtype.itemsize ∣ offset := by
  simp only [viewAs] at h
  split at h
  case isTrue => exact nomatch h
  case isFalse =>
    split at h
    case isTrue => exact nomatch h
    case isFalse hoffset =>
      split at h
      case isTrue => exact nomatch h
      case isFalse hshape =>
        refine ⟨hshape, ?_⟩
        by_cases hone : dtype.itemsize = 1
        · rw [hone]
          exact Nat.one_dvd offset
        · exact Nat.dvd_of_mod_eq_zero (by simpa [hone] using hoffset)

theorem viewAs_ok {t : WeightTensor} {offset : ℕ} (hshape : t.shape ≠ [])
    (hoffset : t.dtype.itemsize ∣ offset) : viewAs offset t.bytes t.dtype t.shape = .ok t := by
  simp [viewAs, Nat.mod_eq_zero_of_dvd hoffset, hshape, t.length_bytes]

/-- The pieces of a buffer, whatever its bytes are, start at the offsets of the tensors. -/
theorem zip_splitWithSizes_offsets (n : ℕ) (packed : Bytes) :
    ((withOffsets (tensorMeta postIterFunc) (byteSize postIterFunc) n batch).zip
      (splitWithSizes n packed (batch.map (byteSize postIterFunc)))).map
        (fun p => (p.1, p.2.1)) =
      withOffsets (fun x n => (tensorMeta postIterFunc x n, n)) (byteSize postIterFunc) n
        batch := by
  induction batch generalizing n packed with
  | nil => rfl
  | cons x batch ih => simp [withOffsets, splitWithSizes, ih]

/-- The pieces of the bytes of a batch are the bytes of its tensors. -/
theorem zip_splitWithSizes (n : ℕ) :
    (withOffsets (tensorMeta postIterFunc) (byteSize postIterFunc) n batch).zip
      (splitWithSizes n (batchBytes postIterFunc batch)
        (batch.map (byteSize postIterFunc))) =
      withOffsets (fun x n => (tensorMeta postIterFunc x n, n, (postIterFunc x).bytes))
        (byteSize postIterFunc) n batch := by
  induction batch generalizing n with
  | nil => rfl
  | cons x batch ih =>
    have hbytes : batchBytes postIterFunc (x :: batch) =
        (postIterFunc x).bytes ++ batchBytes postIterFunc batch := rfl
    simp [withOffsets, splitWithSizes, hbytes, byteSize, ← ih, List.take_left', List.drop_left']

theorem map_tensorSize (n : ℕ) :
    (withOffsets (tensorMeta postIterFunc) (byteSize postIterFunc) n batch).map
      TensorMeta.tensorSize = batch.map (byteSize postIterFunc) := by
  rw [map_withOffsets]
  exact withOffsets_const (byteSize postIterFunc) n batch

theorem length_batchBytes :
    (batchBytes postIterFunc batch).length = (batch.map (byteSize postIterFunc)).sum := by
  rw [batchBytes, List.length_flatMap]
  rfl

/-- Unpacking only succeeds on a viewable batch. -/
theorem viewable_of_unpackTensor {packed : Bytes} {unpacked : List (String × WeightTensor)}
    (h : unpackTensor packed
      (withOffsets (tensorMeta postIterFunc) (byteSize postIterFunc) 0 batch) = .ok unpacked) :
    Viewable postIterFunc batch := by
  intro pre x post hbatch
  simp only [unpackTensor, map_tensorSize] at h
  split at h
  case isTrue => exact nomatch h
  case isFalse =>
    have hmem : (tensorMeta postIterFunc x (pre.map (byteSize postIterFunc)).sum,
        (pre.map (byteSize postIterFunc)).sum) ∈
        withOffsets (fun x n => (tensorMeta postIterFunc x n, n)) (byteSize postIterFunc) 0
          batch :=
      mem_withOffsets.mpr ⟨pre, x, post, hbatch, by simp⟩
    rw [← zip_splitWithSizes_offsets 0 packed] at hmem
    obtain ⟨p, hp, heq⟩ := List.mem_map.mp hmem
    simp only [Prod.mk.injEq] at heq
    obtain ⟨result, -, hview⟩ := mem_of_mapM_mem h hp
    rw [heq.1, heq.2] at hview
    cases hviewAs : viewAs (pre.map (byteSize postIterFunc)).sum p.2.2 (postIterFunc x).dtype
        (postIterFunc x).shape with
    | error e => simp [tensorMeta, hviewAs, Except.map] at hview
    | ok t => exact viewAs_eq_ok hviewAs

/-- Unpacking the bytes of a viewable batch gives its tensors. -/
theorem unpackTensor_ok (h : Viewable postIterFunc batch) :
    unpackTensor (batchBytes postIterFunc batch)
      (withOffsets (tensorMeta postIterFunc) (byteSize postIterFunc) 0 batch) =
      .ok (batch.map fun x => (x.1, postIterFunc x)) := by
  simp only [unpackTensor, map_tensorSize, length_batchBytes, ne_eq, not_true_eq_false, if_false,
    zip_splitWithSizes]
  refine mapM_withOffsets fun pre x post hbatch => ?_
  obtain ⟨hshape, hoffset⟩ := h pre x post hbatch
  rw [← Nat.zero_add (pre.map (byteSize postIterFunc)).sum] at hoffset
  simp only [tensorMeta, viewAs_ok hshape hoffset]
  rfl

/-- What the consumer does with a batch. -/
def receiveBatch (postIterFunc : String × WeightTensor → WeightTensor) (r : Receiver)
    (batch : List (String × WeightTensor)) : Except Halt Receiver :=
  consumerFlush (withOffsets (tensorMeta postIterFunc) (byteSize postIterFunc) 0 batch)
    (batch.map (byteSize postIterFunc)).sum r

theorem packEntries_consumerEntry (n : ℕ) :
    packEntries consumerEntry n (batch.map (metaOf postIterFunc)) =
      .ok (withOffsets (tensorMeta postIterFunc) (byteSize postIterFunc) n batch) := by
  induction batch generalizing n with
  | nil => rfl
  | cons x batch ih =>
    have hentry : consumerEntry (metaOf postIterFunc x) n =
        .ok (tensorMeta postIterFunc x n, byteSize postIterFunc x) := by
      rw [byteSize, (postIterFunc x).length_bytes, tensorMeta, byteSize,
        (postIterFunc x).length_bytes]
      rfl
    rw [List.map_cons, packEntries, hentry]
    simp only [Except.bind, ih, Except.map, withOffsets]

/-- The consumer goes through the batches of the producer. -/
theorem packedBroadcastConsumer_eq (hpos : numBuffers ≠ 0) (incoming : List Bytes) :
    packedBroadcastConsumer (metadata iterator postIterFunc) target numBuffers incoming =
      (tensorBatches iterator postIterFunc target).foldlM (receiveBatch postIterFunc)
        { incoming := incoming } := by
  have hsize : ∀ x, tensorSize (metaOf postIterFunc x).2.1 (metaOf postIterFunc x).2.2 =
      byteSize postIterFunc x := fun x => (postIterFunc x).length_bytes.symm
  have hentry : ∀ x n p, consumerEntry x n = .ok p → p.2 = tensorSize x.2.1 x.2.2 := by
    intro x n p h
    rw [← Except.ok.inj h]
  have hmeta : metadata iterator postIterFunc = iterator.map (metaOf postIterFunc) := rfl
  rw [packedBroadcastConsumer, packLoop_eq hentry (by simpa using hpos), hmeta, batches_map,
    List.foldlM_map, tensorBatches]
  simp only [hsize]
  congr 1
  funext r batch
  rw [flushBatch, packEntries_consumerEntry, receiveBatch, List.map_map]
  simp only [Function.comp_def, hsize]
  rfl

/-- A consumer that returned got viewable batches. -/
theorem viewable_of_receiveBatch {r r' : Receiver}
    (h : receiveBatch postIterFunc r batch = .ok r') :
    Viewable postIterFunc batch := by
  rw [receiveBatch, consumerFlush, bind_eq_ok] at h
  obtain ⟨p, -, h⟩ := h
  cases hunpack : unpackTensor p.1
      (withOffsets (tensorMeta postIterFunc) (byteSize postIterFunc) 0 batch) with
  | error e => simp [hunpack, Except.map] at h
  | ok unpacked => exact viewable_of_unpackTensor hunpack

/-- Receiving the bytes of a viewable batch. -/
theorem receiveBatch_ok (h : Viewable postIterFunc batch) (incoming : List Bytes)
    (sizes : List ℕ) (handed : List (List (String × WeightTensor))) :
    receiveBatch postIterFunc ⟨batchBytes postIterFunc batch :: incoming, sizes, handed⟩ batch =
      .ok ⟨incoming, sizes ++ [(batchBytes postIterFunc batch).length],
        handed ++ [batch.map fun x => (x.1, postIterFunc x)]⟩ := by
  have hreceive : Receiver.broadcast (batch.map (byteSize postIterFunc)).sum
      ⟨batchBytes postIterFunc batch :: incoming, sizes, handed⟩ =
      .ok (batchBytes postIterFunc batch,
        ⟨incoming, sizes ++ [(batchBytes postIterFunc batch).length], handed⟩) := by
    simp only [Receiver.broadcast, length_batchBytes, if_true]
  rw [receiveBatch, consumerFlush, hreceive]
  simp [Except.bind, unpackTensor_ok h, Except.map]

theorem foldlM_receiveBatch {bs : List (List (String × WeightTensor))}
    (h : ∀ batch ∈ bs, Viewable postIterFunc batch) (sizes : List ℕ)
    (handed : List (List (String × WeightTensor))) :
    bs.foldlM (receiveBatch postIterFunc) ⟨bs.map (batchBytes postIterFunc), sizes, handed⟩ =
      .ok ⟨[], sizes ++ bs.map fun batch => (batchBytes postIterFunc batch).length,
        handed ++ bs.map fun batch => batch.map fun x => (x.1, postIterFunc x)⟩ := by
  induction bs generalizing sizes handed with
  | nil => simp [pure, Except.pure]
  | cons batch bs ih =>
    rw [List.foldlM_cons, List.map_cons, receiveBatch_ok (h batch List.mem_cons_self)]
    have hrest := ih (fun b hb => h b (List.mem_cons_of_mem batch hb))
      (sizes ++ [(batchBytes postIterFunc batch).length])
      (handed ++ [batch.map fun x => (x.1, postIterFunc x)])
    simpa [bind, Except.bind] using hrest

end Consumer

/-! ## Both sides -/

/-- Both sides of a refit that was in step had buffers, and every batch was viewable. -/
theorem InStep.viewable {iterator : List (String × WeightTensor)}
    {postIterFunc : String × WeightTensor → WeightTensor}
    {target producerBuffers consumerBuffers : ℕ}
    (h : InStep iterator postIterFunc target producerBuffers consumerBuffers) :
    producerBuffers ≠ 0 ∧ consumerBuffers ≠ 0 ∧
      ∀ batch ∈ tensorBatches iterator postIterFunc target, Viewable postIterFunc batch := by
  obtain ⟨sent, r, hsent, hr, -, -, -⟩ := h
  have hproducer : producerBuffers ≠ 0 := by
    rintro rfl
    exact packLoop_no_buffers hsent
  have hconsumer : consumerBuffers ≠ 0 := by
    rintro rfl
    exact packLoop_no_buffers hr
  rw [packedBroadcastConsumer_eq hconsumer] at hr
  refine ⟨hproducer, hconsumer, fun batch hbatch => ?_⟩
  obtain ⟨s, s', hs⟩ := foldlM_ok_mem hr hbatch
  exact viewable_of_receiveBatch hs

/-- Both sides are in step exactly when they have buffers, every tensor has a dimension, and
the bytes packed before a tensor into its buffer are a multiple of its element size. -/
theorem inStep_iff (iterator : List (String × WeightTensor))
    (postIterFunc : String × WeightTensor → WeightTensor)
    (target producerBuffers consumerBuffers : ℕ) :
    InStep iterator postIterFunc target producerBuffers consumerBuffers ↔
      producerBuffers ≠ 0 ∧ consumerBuffers ≠ 0 ∧
        ∀ batch ∈ batches (fun x => (postIterFunc x).bytes.length) target iterator,
          ∀ pre x post, batch = pre ++ x :: post → (postIterFunc x).shape ≠ [] ∧
            (postIterFunc x).dtype.itemsize ∣
              (pre.map fun y => (postIterFunc y).bytes.length).sum := by
  constructor
  · exact InStep.viewable
  · rintro ⟨hproducer, hconsumer, hview⟩
    have hdim : ∀ x ∈ iterator, (postIterFunc x).shape ≠ [] := by
      intro x hx
      rw [← flatten_batches (byteSize postIterFunc) target iterator] at hx
      obtain ⟨batch, hbatch, hx⟩ := List.mem_flatten.mp hx
      obtain ⟨pre, post, rfl⟩ := List.append_of_mem hx
      exact (hview _ hbatch pre x post rfl).1
    have hreceive := (packedBroadcastConsumer_eq hconsumer _).trans
      (foldlM_receiveBatch hview [] [])
    refine ⟨_, _, packedBroadcastProducer_ok hproducer hdim, hreceive, rfl, ?_, ?_⟩
    · rw [List.nil_append, List.map_map]
      rfl
    · simp only [List.nil_append]
      rw [← List.map_flatten, flatten_batches]

/-- A tensor of two bytes before one with elements of four. -/
def mixedParams : List (String × WeightTensor) :=
  [("norm.weight", ⟨[1], .float16, [0, 60], rfl⟩),
    ("gate.weight", ⟨[1], .float32, [0, 0, 128, 63], rfl⟩)]

theorem mixedParams_not_inStep : ¬InStep mixedParams Prod.snd 1024 2 2 := by
  intro h
  obtain ⟨-, -, hview⟩ := h.viewable
  have hbatches : tensorBatches mixedParams Prod.snd 1024 = [mixedParams] := by
    simp [tensorBatches, mixedParams, batches, takeBatch, byteSize]
  rw [hbatches] at hview
  have hoffset := (hview mixedParams (List.mem_singleton.mpr rfl) [mixedParams[0]]
    mixedParams[1] [] rfl).2
  revert hoffset
  decide

end NemoRL.Utils
