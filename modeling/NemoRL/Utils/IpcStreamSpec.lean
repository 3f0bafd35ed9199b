import NemoRL.Utils.IpcStream

/-!
# Streaming is safe and complete

At any time one group at most is sent and not acknowledged, and the producer packs the half
that this group is not in. The group holds its weights at the offsets that both sides compute,
so that the views of the consumer show them. What is loaded, what is in that group, what is
packed and what is left are the weights in order.

## Main definitions

* `HoldsGroup` — a buffer holds a group of weights.
* `Flight` — how far the group is that was sent.
* `IpcInvariant` — the invariant.

## Main results

* `Flying.step` — the consumer loads the group on its way, weight by weight.
* `Streaming.consumer`, `Streaming.next`, `Streaming.pack`, `Streaming.send` — the steps of
  both sides keep the invariant.
-/

namespace NemoRL.Utils

open Lib

/-! ## Aligned sizes -/

theorem le_calculateAlignedSize (n : ℕ) : n ≤ calculateAlignedSize n := by
  unfold calculateAlignedSize
  dsimp only
  omega

theorem dvd_calculateAlignedSize (n : ℕ) : 512 ∣ calculateAlignedSize n :=
  Nat.dvd_mul_left ..

theorem Dtype.itemsize_dvd (dtype : Dtype) : dtype.itemsize ∣ 512 := by
  cases dtype <;> decide

/-- The bytes that a group of weights takes. -/
def groupSize (group : List NamedWeight) : ℕ :=
  (group.map fun w => calculateAlignedSize w.2.bytes.length).sum

@[simp] theorem groupSize_nil : groupSize [] = 0 := rfl

@[simp] theorem groupSize_cons (w : NamedWeight) (group : List NamedWeight) :
    groupSize (w :: group) = calculateAlignedSize w.2.bytes.length + groupSize group := by
  simp [groupSize]

@[simp] theorem groupSize_append (g₁ g₂ : List NamedWeight) :
    groupSize (g₁ ++ g₂) = groupSize g₁ + groupSize g₂ := by
  simp [groupSize]

theorem dvd_groupSize (group : List NamedWeight) : 512 ∣ groupSize group := by
  induction group with
  | nil => exact Nat.dvd_zero 512
  | cons w group ih =>
    rw [groupSize_cons]
    exact Nat.dvd_add (dvd_calculateAlignedSize _) ih

/-! ## What a buffer holds -/

/-- A buffer holds the bytes of a group from an offset on. -/
def HoldsGroup (buffer : Bytes) : ℕ → List NamedWeight → Prop
  | _, [] => True
  | offset, w :: group =>
    slice buffer offset (offset + w.2.bytes.length) = w.2.bytes ∧
      HoldsGroup buffer (offset + calculateAlignedSize w.2.bytes.length) group

theorem holds_append {buffer : Bytes} {offset : ℕ} {g₁ g₂ : List NamedWeight} :
    HoldsGroup buffer offset (g₁ ++ g₂) ↔
      HoldsGroup buffer offset g₁ ∧ HoldsGroup buffer (offset + groupSize g₁) g₂ := by
  induction g₁ generalizing offset with
  | nil => simp [HoldsGroup]
  | cons w g₁ ih =>
    simp only [List.cons_append, HoldsGroup, ih, groupSize_cons, Nat.add_assoc, and_assoc]

theorem length_writeAt {buffer : Bytes} {offset : ℕ} {bytes : Bytes}
    (h : offset + bytes.length ≤ buffer.length) :
    (writeAt buffer offset bytes).length = buffer.length := by
  simp only [writeAt, List.length_append, List.length_take, List.length_drop]
  omega

/-- Bytes in front of those that are written stay. -/
theorem slice_writeAt_before {buffer : Bytes} {offset i j : ℕ} {bytes : Bytes}
    (h : offset ≤ buffer.length) (hj : j ≤ offset) :
    slice (writeAt buffer offset bytes) i j = slice buffer i j := by
  have htake : (writeAt buffer offset bytes).take offset = buffer.take offset := by
    rw [writeAt, List.append_assoc, List.take_append_of_le_length (by simp [h]),
      List.take_take, Nat.min_self]
  have hslice : ∀ l : Bytes, slice l i j = ((l.take offset).take j).drop i := by
    intro l
    rw [List.take_take, Nat.min_eq_left hj, slice, List.drop_take]
  rw [hslice, htake, ← hslice]

/-- The bytes that are written are there. -/
theorem slice_writeAt {buffer : Bytes} {offset : ℕ} {bytes : Bytes}
    (h : offset ≤ buffer.length) :
    slice (writeAt buffer offset bytes) offset (offset + bytes.length) = bytes := by
  have hlength : (buffer.take offset).length = offset := by simp [h]
  rw [slice, Nat.add_sub_cancel_left, writeAt, List.append_assoc]
  conv_lhs => rw [← hlength]
  simp [hlength]

/-- Writing behind a group keeps it. -/
theorem HoldsGroup.writeAt {buffer : Bytes} {start offset : ℕ} {bytes : Bytes}
    {group : List NamedWeight} (h : HoldsGroup buffer start group)
    (hoffset : start + groupSize group ≤ offset) (hlength : offset ≤ buffer.length) :
    HoldsGroup (writeAt buffer offset bytes) start group := by
  induction group generalizing start with
  | nil => trivial
  | cons w group ih =>
    rw [groupSize_cons] at hoffset
    have hle := le_calculateAlignedSize w.2.bytes.length
    refine ⟨?_, ih h.2 (by omega)⟩
    rw [slice_writeAt_before hlength (by omega)]
    exact h.1

/-- A weight written behind a group belongs to it. -/
theorem HoldsGroup.writeAt_append {buffer : Bytes} {group : List NamedWeight} {w : NamedWeight}
    (h : HoldsGroup buffer 0 group)
    (hlength : groupSize group + w.2.bytes.length ≤ buffer.length) :
    HoldsGroup (Utils.writeAt buffer (groupSize group) w.2.bytes) 0 (group ++ [w]) := by
  rw [holds_append]
  refine ⟨h.writeAt (by omega) (by omega), ?_, trivial⟩
  rw [Nat.zero_add]
  exact slice_writeAt (by omega)

/-! ## Views -/

/-- The views of a group from an offset on. -/
def viewsFrom : ℕ → List NamedWeight → List View
  | _, [] => []
  | offset, w :: group =>
    ⟨w.1, offset, w.2.shape, w.2.dtype⟩ ::
      viewsFrom (offset + calculateAlignedSize w.2.bytes.length) group

theorem viewsFrom_append (offset : ℕ) (g₁ g₂ : List NamedWeight) :
    viewsFrom offset (g₁ ++ g₂) =
      viewsFrom offset g₁ ++ viewsFrom (offset + groupSize g₁) g₂ := by
  induction g₁ generalizing offset with
  | nil => simp [viewsFrom]
  | cons w g₁ ih => simp [viewsFrom, ih, Nat.add_assoc]

@[simp] theorem length_viewsFrom (offset : ℕ) (group : List NamedWeight) :
    (viewsFrom offset group).length = group.length := by
  induction group generalizing offset with
  | nil => rfl
  | cons w group ih => simp [viewsFrom, ih]

/-- A weight that a buffer has room for can be viewed at an aligned offset. -/
theorem viewAt_ok {bufferLength offset : ℕ} {w : NamedWeight} (haligned : 512 ∣ offset)
    (hlength : offset + w.2.bytes.length ≤ bufferLength) :
    viewAt bufferLength offset w.1 w.2.shape w.2.dtype =
      .ok ⟨w.1, offset, w.2.shape, w.2.dtype⟩ := by
  have hsize : tensorSize w.2.shape w.2.dtype = w.2.bytes.length := w.2.length_bytes.symm
  have hslice : min (offset + tensorSize w.2.shape w.2.dtype) bufferLength -
      min offset bufferLength = tensorSize w.2.shape w.2.dtype := by omega
  have hitems : tensorSize w.2.shape w.2.dtype % w.2.dtype.itemsize = 0 :=
    Nat.mul_mod_left ..
  have hoffset : offset % w.2.dtype.itemsize = 0 :=
    Nat.mod_eq_zero_of_dvd (Nat.dvd_trans (Dtype.itemsize_dvd _) haligned)
  unfold viewAt
  simp only [hslice, hitems, hoffset, ne_eq, not_true_eq_false, if_false]

/-- A view of a weight shows it. -/
theorem read_view {buffer : Bytes} {offset : ℕ} {w : NamedWeight}
    (h : slice buffer offset (offset + w.2.bytes.length) = w.2.bytes) :
    (View.mk w.1 offset w.2.shape w.2.dtype).read buffer = .ok w.2 := by
  have hsize : tensorSize w.2.shape w.2.dtype = w.2.bytes.length := w.2.length_bytes.symm
  unfold View.read
  simp only [hsize, h]
  rw [dif_pos w.2.length_bytes]

/-! ## A group on its way -/

/-- The messages on their way, the consumer, and the history of both directions. -/
structure Link where
  requests : List Request
  acks : ℕ
  consumer : ConsumerPc
  reqBusy : Bool
  sent : List Half
  acksReceived : ℕ

/-- The link in a state. -/
def IpcState.link (s : IpcState) : Link :=
  ⟨s.requests, s.acks, s.consumer, s.reqBusy, s.sent, s.acksReceived⟩

/-- No group is on its way. -/
structure Landed (link : Link) : Prop where
  requests_eq : link.requests = []
  acks_eq : link.acks = 0
  consumer_eq : link.consumer = .recv
  reqBusy_eq : link.reqBusy = false
  acksReceived_eq : link.acksReceived = link.sent.length

/-- How far a group is that was sent, with its weights that are not loaded yet. -/
inductive Flight (half : Half) (group : List NamedWeight) (link : Link) :
    List NamedWeight → Prop
  | queued (hrequests : link.requests = [.group half (group.map Prod.fst) (groupSize group)])
      (hacks : link.acks = 0) (hconsumer : link.consumer = .recv) : Flight half group link group
  | viewing (viewed left : List NamedWeight) (hgroup : group = viewed ++ left)
      (hrequests : link.requests = []) (hacks : link.acks = 0)
      (hconsumer : link.consumer = .view half (left.map Prod.fst) (groupSize group)
        (groupSize viewed) (viewsFrom 0 viewed)) : Flight half group link group
  | loading (done left : List NamedWeight) (hgroup : group = done ++ left)
      (hrequests : link.requests = []) (hacks : link.acks = 0)
      (hconsumer : link.consumer = .load half (viewsFrom (groupSize done) left)) :
      Flight half group link left
  | acked (hrequests : link.requests = []) (hacks : link.acks = 1)
      (hconsumer : link.consumer = .recv) : Flight half group link []

/-- What the consumer knows of some weights is right. -/
def Describes (stateDictInfo : StateDictInfo) (weights : List NamedWeight) : Prop :=
  ∀ w ∈ weights, stateDictInfo.lookup w.1 = some (w.2.shape, w.2.dtype)

/-- A group was sent from a half, which holds it. -/
structure Flying (stateDictInfo : StateDictInfo) (buffer : Bytes) (half : Half) (link : Link)
    (left : List NamedWeight) : Prop where
  flight : ∃ group, Flight half group link left ∧ HoldsGroup buffer 0 group ∧
    groupSize group ≤ buffer.length ∧ Describes stateDictInfo group
  reqBusy_eq : link.reqBusy = true
  sent_eq : ∃ before, link.sent = before ++ [half]
  acksReceived_eq : link.acksReceived + 1 = link.sent.length

/-- The producer and the buffers are not touched. -/
structure SameProducer (s s' : IpcState) : Prop where
  producer_eq : s'.producer = s.producer
  bufferA_eq : s'.bufferA = s.bufferA
  bufferB_eq : s'.bufferB = s.bufferB

theorem SameProducer.buffer_eq {s s' : IpcState} (h : SameProducer s s') (half : Half) :
    s'.buffer half = s.buffer half := by
  cases half with
  | a => exact h.bufferA_eq
  | b => exact h.bufferB_eq

section Consumer
variable {stateDictInfo : StateDictInfo} {s s' : IpcState} {half : Half}
  {left : List NamedWeight}

/-- A group moves on with the consumer: what is loaded is taken from what is left. -/
theorem Flying.step (h : Flying stateDictInfo (s.buffer half) half s.link left)
    (hs : updateWeightsViaIpcZmq stateDictInfo s = some s') :
    ∃ left', Flying stateDictInfo (s'.buffer half) half s'.link left' ∧
      s'.loaded ++ left' = s.loaded ++ left ∧ SameProducer s s' := by
  obtain ⟨group, hflight, hholds, hfits, hdescribes⟩ := h.flight
  cases hflight with
  | queued hrequests hacks hconsumer =>
    simp only [IpcState.link] at hrequests hacks hconsumer
    simp only [updateWeightsViaIpcZmq, hconsumer, hrequests, Option.some.injEq] at hs
    subst hs
    refine ⟨left, ⟨⟨left, .viewing [] left rfl rfl hacks rfl, hholds, hfits, hdescribes⟩,
      h.reqBusy_eq, h.sent_eq, h.acksReceived_eq⟩, rfl, rfl, rfl, rfl⟩
  | viewing viewed rest hgroup hrequests hacks hconsumer =>
    simp only [IpcState.link] at hrequests hacks hconsumer
    cases rest with
    | nil =>
      have hsize : groupSize viewed = groupSize left := by rw [hgroup, List.append_nil]
      simp only [updateWeightsViaIpcZmq, hconsumer, List.map_nil, hsize, if_true,
        Option.some.injEq] at hs
      subst hs
      refine ⟨left, ⟨⟨left, .loading [] left rfl hrequests hacks ?_, hholds, hfits, hdescribes⟩,
        h.reqBusy_eq, h.sent_eq, h.acksReceived_eq⟩, rfl, rfl, rfl, rfl⟩
      rw [groupSize_nil, hgroup, List.append_nil]
      rfl
    | cons w rest =>
      have hlookup : stateDictInfo.lookup w.1 = some (w.2.shape, w.2.dtype) :=
        hdescribes w (by simp [hgroup])
      have hroom : groupSize viewed + w.2.bytes.length ≤ (s.buffer half).length := by
        have hle := le_calculateAlignedSize w.2.bytes.length
        rw [hgroup, groupSize_append, groupSize_cons] at hfits
        omega
      have hview := viewAt_ok (dvd_groupSize viewed) hroom
      simp only [updateWeightsViaIpcZmq, hconsumer, List.map_cons, hlookup, hview,
        Option.some.injEq] at hs
      subst hs
      refine ⟨left, ⟨⟨left, .viewing (viewed ++ [w]) rest (by simp [hgroup]) hrequests hacks ?_,
        hholds, hfits, hdescribes⟩, h.reqBusy_eq, h.sent_eq, h.acksReceived_eq⟩,
        rfl, rfl, rfl, rfl⟩
      have hsize : tensorSize w.2.shape w.2.dtype = w.2.bytes.length := w.2.length_bytes.symm
      simp [IpcState.link, viewsFrom_append, viewsFrom, hsize]
  | loading done _ hgroup hrequests hacks hconsumer =>
    simp only [IpcState.link] at hrequests hacks hconsumer
    cases left with
    | nil =>
      simp only [updateWeightsViaIpcZmq, hconsumer, viewsFrom, Option.some.injEq] at hs
      subst hs
      refine ⟨[], ⟨⟨group, .acked hrequests ?_ rfl, hholds, hfits, hdescribes⟩,
        h.reqBusy_eq, h.sent_eq, h.acksReceived_eq⟩, rfl, rfl, rfl, rfl⟩
      simp [IpcState.link, hacks]
    | cons w rest =>
      have hread : slice (s.buffer half) (groupSize done) (groupSize done + w.2.bytes.length) =
          w.2.bytes := by
        have hparts := hholds
        rw [hgroup, holds_append, Nat.zero_add] at hparts
        exact hparts.2.1
      have hview := read_view hread
      simp only [updateWeightsViaIpcZmq, hconsumer, viewsFrom, hview, Option.some.injEq] at hs
      subst hs
      refine ⟨rest, ⟨⟨group, .loading (done ++ [w]) rest (by simp [hgroup]) hrequests hacks ?_,
        hholds, hfits, hdescribes⟩, h.reqBusy_eq, h.sent_eq, h.acksReceived_eq⟩,
        by simp, rfl, rfl, rfl⟩
      simp [IpcState.link]
  | acked hrequests hacks hconsumer =>
    simp only [IpcState.link] at hrequests hacks hconsumer
    simp [updateWeightsViaIpcZmq, hconsumer, hrequests] at hs

/-- The consumer stops only at its end, or where there is no request. -/
theorem updateWeightsViaIpcZmq_eq_none (h : updateWeightsViaIpcZmq stateDictInfo s = none) :
    (s.consumer = .recv ∧ s.requests = []) ∨ s.consumer = .done ∨
      ∃ e, s.consumer = .failed e := by
  unfold updateWeightsViaIpcZmq at h
  cases hconsumer : s.consumer with
  | recv =>
    rw [hconsumer] at h
    cases hrequests : s.requests with
    | nil => exact .inl ⟨rfl, rfl⟩
    | cons request requests =>
      rw [hrequests] at h
      cases request <;> cases h
  | view buffer keys usedBytes offset weights =>
    rw [hconsumer] at h
    cases keys with
    | nil =>
      dsimp only at h
      split_ifs at h
    | cons key keys =>
      dsimp only at h
      split at h
      · cases h
      · split at h <;> cases h
  | load buffer weights =>
    rw [hconsumer] at h
    cases weights with
    | nil => cases h
    | cons view weights =>
      dsimp only at h
      split at h <;> cases h
  | finish =>
    rw [hconsumer] at h
    cases h
  | done => exact .inr (.inl rfl)
  | failed e => exact .inr (.inr ⟨e, rfl⟩)

/-- Until a group is acknowledged the consumer can take a step. -/
theorem Flying.enabled (h : Flying stateDictInfo (s.buffer half) half s.link left) :
    (∃ s', updateWeightsViaIpcZmq stateDictInfo s = some s') ∨ s.acks = 1 ∧ left = [] := by
  obtain ⟨group, hflight, -, -, -⟩ := h.flight
  cases hstep : updateWeightsViaIpcZmq stateDictInfo s with
  | some s' => exact .inl ⟨s', rfl⟩
  | none =>
    right
    rcases updateWeightsViaIpcZmq_eq_none hstep with
      ⟨hconsumer, hrequests⟩ | hconsumer | ⟨e, hconsumer⟩
    · cases hflight with
      | queued hgroup _ _ => exact nomatch hrequests.symm.trans hgroup
      | viewing _ _ _ _ _ hview => exact nomatch hconsumer.symm.trans hview
      | loading _ _ _ _ _ hload => exact nomatch hconsumer.symm.trans hload
      | acked _ hacks _ => exact ⟨hacks, rfl⟩
    all_goals
      cases hflight with
      | queued _ _ hrecv => exact nomatch hconsumer.symm.trans hrecv
      | viewing _ _ _ _ _ hview => exact nomatch hconsumer.symm.trans hview
      | loading _ _ _ _ _ hload => exact nomatch hconsumer.symm.trans hload
      | acked _ _ hrecv => exact nomatch hconsumer.symm.trans hrecv

/-- Without a group the consumer waits. -/
theorem Landed.blocked (h : Landed s.link) : updateWeightsViaIpcZmq stateDictInfo s = none := by
  have hconsumer := h.consumer_eq
  have hrequests := h.requests_eq
  simp only [IpcState.link] at hconsumer hrequests
  simp only [updateWeightsViaIpcZmq, hconsumer, hrequests]

end Consumer

/-! ## The invariant -/

@[simp] theorem Half.other_other (half : Half) : half.other.other = half := by
  cases half <;> rfl

theorem Half.other_ne (half : Half) : half.other ≠ half := by
  cases half <;> decide

/-- The half that the producer fills holds a group. -/
structure Packed (half : ℕ) (s : IpcState) (group : List NamedWeight) : Prop where
  paramNames_eq : s.producer.paramNames = group.map Prod.fst
  usedBytes_eq : s.producer.usedBytes = groupSize group
  holds : HoldsGroup (s.buffer s.producer.currentBuffer) 0 group
  fits : groupSize group ≤ half

/-- The group before the one that is packed, with its weights that are not loaded yet. -/
inductive Outstanding (stateDictInfo : StateDictInfo) (s : IpcState) (half : Half) :
    List NamedWeight → Prop
  | landed (hlanded : Landed s.link) (hawait : s.producer.awaitRecv = false) :
      Outstanding stateDictInfo s half []
  | flying (left : List NamedWeight)
      (hflying : Flying stateDictInfo (s.buffer half) half s.link left)
      (hawait : s.producer.awaitRecv = true) : Outstanding stateDictInfo s half left

/-- Where the producer packs, with the weight that it is about to pack. -/
inductive PackingPc (half : ℕ) (p : Producer) : List NamedWeight → Prop
  | next (hpc : p.pc = .next) : PackingPc half p []
  | pack (w : NamedWeight) (hpc : p.pc = .pack w)
      (hroom : p.usedBytes + calculateAlignedSize w.2.bytes.length ≤ half) : PackingPc half p [w]
  | awaitGroup (nextWeight : Option NamedWeight) (hpc : p.pc = .awaitGroup nextWeight)
      (hlast : nextWeight = none → p.params = []) : PackingPc half p nextWeight.toList

/-- The states of a stream, by what the producer does. -/
inductive Streaming (half : ℕ) (stateDictInfo : StateDictInfo) (params : List NamedWeight)
    (s : IpcState) : Prop
  | packing (left group pending : List NamedWeight)
      (hpc : PackingPc half s.producer pending) (hpacked : Packed half s group)
      (hout : Outstanding stateDictInfo s s.producer.currentBuffer.other left)
      (hall : s.loaded ++ left ++ group ++ pending ++ s.producer.params = params)
  | sending (group : List NamedWeight) (nextWeight : Option NamedWeight)
      (hpc : s.producer.pc = .sendGroup nextWeight) (hpacked : Packed half s group)
      (hlanded : Landed s.link) (hlast : nextWeight = none → s.producer.params = [])
      (hall : s.loaded ++ group ++ nextWeight.toList ++ s.producer.params = params)
  | lastGroup (left : List NamedWeight) (last : Half) (hpc : s.producer.pc = .awaitLast)
      (hout : Outstanding stateDictInfo s last left) (hall : s.loaded ++ left = params)
  | completing (hpc : s.producer.pc = .sendComplete) (hlanded : Landed s.link)
      (hall : s.loaded = params)
  | waiting (hpc : s.producer.pc = .awaitComplete) (hbusy : s.reqBusy = true)
      (hlink : (s.requests = [.complete] ∧ s.acks = 0 ∧ s.consumer = .recv) ∨
        (s.requests = [] ∧ s.acks = 0 ∧ s.consumer = .finish) ∨
        (s.requests = [] ∧ s.acks = 1 ∧ s.consumer = .done))
      (hall : s.loaded = params)
  | finished (hpc : s.producer.pc = .done) (hbusy : s.reqBusy = false)
      (hrequests : s.requests = []) (hacks : s.acks = 0) (hconsumer : s.consumer = .done)
      (hall : s.loaded = params)

/-- The buffers have the size of an aligned half, and the stream is where it should be. -/
structure IpcInvariant (half : ℕ) (stateDictInfo : StateDictInfo) (params : List NamedWeight)
    (s : IpcState) : Prop where
  length_buffer : ∀ h, (s.buffer h).length = calculateAlignedSize half
  streaming : Streaming half stateDictInfo params s

/-! ## Steps of the consumer -/

section Steps
variable {half : ℕ} {stateDictInfo : StateDictInfo} {params : List NamedWeight}
  {s s' : IpcState}

/-- The group on its way moves on. -/
theorem Outstanding.step {last : Half} {left : List NamedWeight}
    (h : Outstanding stateDictInfo s last left)
    (hs : updateWeightsViaIpcZmq stateDictInfo s = some s') :
    ∃ left', Outstanding stateDictInfo s' last left' ∧
      s'.loaded ++ left' = s.loaded ++ left ∧ SameProducer s s' := by
  cases h with
  | landed hlanded _ =>
    rw [hlanded.blocked] at hs
    cases hs
  | flying _ hflying hawait =>
    obtain ⟨left', hflying, hloaded, hsame⟩ := hflying.step hs
    exact ⟨left', .flying left' hflying (hsame.producer_eq ▸ hawait), hloaded, hsame⟩

theorem Packed.sameProducer {group : List NamedWeight} (h : Packed half s group)
    (hsame : SameProducer s s') : Packed half s' group := by
  refine ⟨?_, ?_, ?_, h.fits⟩
  · rw [hsame.producer_eq]
    exact h.paramNames_eq
  · rw [hsame.producer_eq]
    exact h.usedBytes_eq
  · rw [hsame.producer_eq, hsame.buffer_eq]
    exact h.holds

/-- The consumer keeps the invariant. -/
theorem Streaming.consumer (h : Streaming half stateDictInfo params s)
    (hs : updateWeightsViaIpcZmq stateDictInfo s = some s') :
    (∀ side, s'.buffer side = s.buffer side) ∧ Streaming half stateDictInfo params s' := by
  cases h with
  | packing left group pending hpc hpacked hout hall =>
    obtain ⟨left', hout, hloaded, hsame⟩ := hout.step hs
    refine ⟨hsame.buffer_eq, .packing left' group pending (hsame.producer_eq ▸ hpc)
      (hpacked.sameProducer hsame) (hsame.producer_eq ▸ hout) ?_⟩
    rw [hloaded, hsame.producer_eq]
    exact hall
  | sending _ _ _ _ hlanded _ _ =>
    rw [hlanded.blocked] at hs
    cases hs
  | lastGroup left last hpc hout hall =>
    obtain ⟨left', hout, hloaded, hsame⟩ := hout.step hs
    exact ⟨hsame.buffer_eq, .lastGroup left' last (hsame.producer_eq ▸ hpc) hout
      (hloaded.trans hall)⟩
  | completing _ hlanded _ =>
    rw [hlanded.blocked] at hs
    cases hs
  | waiting hpc hbusy hlink hall =>
    rcases hlink with ⟨hrequests, hacks, hconsumer⟩ | ⟨hrequests, hacks, hconsumer⟩ |
      ⟨hrequests, hacks, hconsumer⟩
    · simp only [updateWeightsViaIpcZmq, hconsumer, hrequests, Option.some.injEq] at hs
      subst hs
      exact ⟨fun side => by cases side <;> rfl,
        .waiting hpc hbusy (.inr (.inl ⟨rfl, hacks, rfl⟩)) hall⟩
    · simp only [updateWeightsViaIpcZmq, hconsumer, Option.some.injEq] at hs
      subst hs
      refine ⟨fun side => by cases side <;> rfl,
        .waiting hpc hbusy (.inr (.inr ⟨hrequests, ?_, rfl⟩)) hall⟩
      simp only [hacks]
    · simp [updateWeightsViaIpcZmq, hconsumer] at hs
  | finished _ _ _ _ hconsumer _ => simp [updateWeightsViaIpcZmq, hconsumer] at hs

/-! ## Steps of the producer -/

/-- Writing a half changes that half only. -/
theorem buffer_setBuffer (s : IpcState) (bytes : Bytes) (side : Half) (p : Producer) :
    { s.setBuffer bytes side with producer := p }.buffer side = bytes ∧
      (∀ other, other ≠ side →
        { s.setBuffer bytes side with producer := p }.buffer other = s.buffer other) ∧
      { s.setBuffer bytes side with producer := p }.link = s.link ∧
      { s.setBuffer bytes side with producer := p }.loaded = s.loaded := by
  cases side with
  | a =>
    refine ⟨rfl, fun other hother => ?_, rfl, rfl⟩
    cases other with
    | a => exact absurd rfl hother
    | b => rfl
  | b =>
    refine ⟨rfl, fun other hother => ?_, rfl, rfl⟩
    cases other with
    | a => rfl
    | b => exact absurd rfl hother

/-- The group on its way is not touched by other fields of the state. -/
theorem Outstanding.same {last : Half} {left : List NamedWeight}
    (h : Outstanding stateDictInfo s last left)
    (hawait : s'.producer.awaitRecv = s.producer.awaitRecv) (hlink : s'.link = s.link)
    (hbuffer : ∀ side, s'.buffer side = s.buffer side) :
    Outstanding stateDictInfo s' last left := by
  cases h with
  | landed hlanded hfalse => exact .landed (hlink ▸ hlanded) (hawait.trans hfalse)
  | flying _ hflying htrue =>
    refine .flying _ ?_ (hawait.trans htrue)
    rw [hbuffer, hlink]
    exact hflying

/-- Waiting for a group ends when the consumer has acknowledged it. -/
theorem Outstanding.received {last : Half} {left : List NamedWeight} {pc : ProducerPc}
    (h : Outstanding stateDictInfo s last left)
    (hs : (if s.producer.awaitRecv then s.recvReply pc else some (s.goto pc)) = some s') :
    left = [] ∧ Landed s'.link ∧ s'.producer = { s.producer with pc := pc } ∧
      (∀ side, s'.buffer side = s.buffer side) ∧ s'.loaded = s.loaded := by
  cases h with
  | landed hlanded hawait =>
    rw [hawait, if_neg Bool.false_ne_true, Option.some.injEq] at hs
    subst hs
    exact ⟨rfl, ⟨hlanded.requests_eq, hlanded.acks_eq, hlanded.consumer_eq, hlanded.reqBusy_eq,
      hlanded.acksReceived_eq⟩, rfl, fun side => by cases side <;> rfl, rfl⟩
  | flying _ hflying hawait =>
    obtain ⟨group, hflight, -, -, -⟩ := hflying.flight
    have hbusy : s.reqBusy = true := hflying.reqBusy_eq
    rw [hawait, if_pos rfl] at hs
    unfold IpcState.recvReply at hs
    simp only [hbusy, Bool.not_true, Bool.false_eq_true, if_false] at hs
    have hsome : s.acks ≠ 0 := by
      intro h0
      rw [if_pos h0] at hs
      cases hs
    rw [if_neg hsome, Option.some.injEq] at hs
    subst hs
    cases hflight with
    | queued _ hacks _ => exact absurd hacks hsome
    | viewing _ _ _ _ hacks _ => exact absurd hacks hsome
    | loading _ _ _ _ hacks _ => exact absurd hacks hsome
    | acked hrequests hacks hconsumer =>
      simp only [IpcState.link] at hacks
      exact ⟨rfl, ⟨hrequests, by simp [IpcState.link, IpcState.goto, hacks], hconsumer, rfl,
        hflying.acksReceived_eq⟩, rfl, fun side => by cases side <;> rfl, rfl⟩

/-- Waiting lasts as long as the consumer can take a step. -/
theorem Outstanding.enabled {last : Half} {left : List NamedWeight} {pc : ProducerPc}
    (h : Outstanding stateDictInfo s last left) :
    (∃ s', (if s.producer.awaitRecv then s.recvReply pc else some (s.goto pc)) = some s') ∨
      ∃ s', updateWeightsViaIpcZmq stateDictInfo s = some s' := by
  cases h with
  | landed _ hawait => exact .inl ⟨_, by rw [hawait, if_neg Bool.false_ne_true]⟩
  | flying _ hflying hawait =>
    rcases hflying.enabled with hstep | ⟨hacks, -⟩
    · exact .inr hstep
    · have hbusy : s.reqBusy = true := hflying.reqBusy_eq
      left
      rw [hawait, if_pos rfl, IpcState.recvReply, hbusy, hacks]
      exact ⟨_, rfl⟩

variable (hdescribes : Describes stateDictInfo params)
  (hfits : ∀ w ∈ params, calculateAlignedSize w.2.bytes.length ≤ half)
include hdescribes hfits

omit hdescribes in
/-- The producer takes the next weight, or comes to the end of the weights. -/
theorem Streaming.next {left group : List NamedWeight} (hpc : s.producer.pc = .next)
    (hpacked : Packed half s group)
    (hout : Outstanding stateDictInfo s s.producer.currentBuffer.other left)
    (hall : s.loaded ++ left ++ group ++ s.producer.params = params)
    (hs : streamWeightsViaIpcZmqImpl half s = some s') :
    (∀ side, s'.buffer side = s.buffer side) ∧ Streaming half stateDictInfo params s' := by
  unfold streamWeightsViaIpcZmqImpl at hs
  simp only [hpc] at hs
  cases hparams : s.producer.params with
  | nil =>
    simp only [hparams, Option.some.injEq] at hs
    subst hs
    refine ⟨fun side => by cases side <;> rfl, ?_⟩
    by_cases hnames : s.producer.paramNames = []
    · have hgroup : group = [] := by
        rw [hpacked.paramNames_eq] at hnames
        exact List.map_eq_nil_iff.mp hnames
      rw [hgroup, hparams, List.append_nil, List.append_nil] at hall
      rw [if_pos hnames]
      exact .lastGroup left _ rfl
        (hout.same rfl rfl fun side => by cases side <;> rfl) hall
    · rw [if_neg hnames]
      refine .packing left group _ (.awaitGroup none rfl fun _ => hparams) ?_
        (hout.same rfl rfl fun side => by cases side <;> rfl) ?_
      · exact ⟨hpacked.paramNames_eq, hpacked.usedBytes_eq, hpacked.holds, hpacked.fits⟩
      · change s.loaded ++ left ++ group ++ [] ++ s.producer.params = params
        rw [List.append_nil]
        exact hall
  | cons w rest =>
    have hfit := hfits w (by rw [← hall, hparams]; simp)
    simp only [hparams] at hs
    rw [if_neg (by omega)] at hs
    have hmoved : s.loaded ++ left ++ group ++ [w] ++ rest = params := by
      rw [← hall, hparams]
      simp
    split_ifs at hs with hroom
    · rw [Option.some.injEq] at hs
      subst hs
      refine ⟨fun side => by cases side <;> rfl, .packing left group [w]
        (.awaitGroup (some w) rfl fun h => nomatch h) ?_
        (hout.same rfl rfl fun side => by cases side <;> rfl) hmoved⟩
      exact ⟨hpacked.paramNames_eq, hpacked.usedBytes_eq, hpacked.holds, hpacked.fits⟩
    · rw [Option.some.injEq] at hs
      subst hs
      refine ⟨fun side => by cases side <;> rfl, .packing left group [w]
        (.pack w rfl (Nat.not_lt.mp hroom)) ?_
        (hout.same rfl rfl fun side => by cases side <;> rfl) hmoved⟩
      exact ⟨hpacked.paramNames_eq, hpacked.usedBytes_eq, hpacked.holds, hpacked.fits⟩

omit hdescribes hfits in
/-- The producer packs a weight. -/
theorem Streaming.pack {left group : List NamedWeight} {w : NamedWeight}
    (hlength : ∀ side, (s.buffer side).length = calculateAlignedSize half)
    (hpc : s.producer.pc = .pack w)
    (hroom : s.producer.usedBytes + calculateAlignedSize w.2.bytes.length ≤ half)
    (hpacked : Packed half s group)
    (hout : Outstanding stateDictInfo s s.producer.currentBuffer.other left)
    (hall : s.loaded ++ left ++ group ++ [w] ++ s.producer.params = params)
    (hs : streamWeightsViaIpcZmqImpl half s = some s') :
    (∀ side, (s'.buffer side).length = calculateAlignedSize half) ∧
      Streaming half stateDictInfo params s' := by
  have hle := le_calculateAlignedSize w.2.bytes.length
  have hhalf := le_calculateAlignedSize half
  have hbuffer := hlength s.producer.currentBuffer
  have hfit : s.producer.usedBytes + w.2.bytes.length ≤
      (s.buffer s.producer.currentBuffer).length := by omega
  have hpack : packTensor (s.buffer s.producer.currentBuffer) w.2 s.producer.usedBytes =
      .ok (writeAt (s.buffer s.producer.currentBuffer) s.producer.usedBytes w.2.bytes) :=
    if_pos hfit
  have hholds := hpacked.holds.writeAt_append (hpacked.usedBytes_eq ▸ hfit)
  rw [← hpacked.usedBytes_eq] at hholds
  unfold streamWeightsViaIpcZmqImpl at hs
  simp only [hpc, hpack, Option.some.injEq] at hs
  obtain ⟨hself, hother, hlink, hloaded⟩ := buffer_setBuffer s
    (writeAt (s.buffer s.producer.currentBuffer) s.producer.usedBytes w.2.bytes)
    s.producer.currentBuffer { s.producer with
      pc := .next
      usedBytes := s.producer.usedBytes + calculateAlignedSize w.2.bytes.length
      paramNames := s.producer.paramNames ++ [w.1] }
  rw [hs] at hself hother hlink hloaded
  have hproducer : s'.producer = { s.producer with
      pc := .next
      usedBytes := s.producer.usedBytes + calculateAlignedSize w.2.bytes.length
      paramNames := s.producer.paramNames ++ [w.1] } := by rw [← hs]
  refine ⟨fun side => ?_, .packing left (group ++ [w]) [] (.next (by rw [hproducer])) ?_ ?_ ?_⟩
  · by_cases hside : side = s.producer.currentBuffer
    · rw [hside, hself, length_writeAt hfit, hbuffer]
    · rw [hother side hside, hlength]
  · refine ⟨?_, ?_, ?_, ?_⟩
    · simp [hproducer, hpacked.paramNames_eq]
    · simp [hproducer, hpacked.usedBytes_eq]
    · rw [hproducer]
      simp only [hself]
      exact hholds
    · simp only [groupSize_append, groupSize_cons, groupSize_nil, Nat.add_zero,
        ← hpacked.usedBytes_eq]
      exact hroom
  · rw [hproducer]
    cases hout with
    | landed hlanded hawait => exact .landed (hlink ▸ hlanded) (by rw [hproducer]; exact hawait)
    | flying _ hflying hawait =>
      refine .flying _ ?_ (by rw [hproducer]; exact hawait)
      rw [hlink]
      simp only [hother _ (Half.other_ne _)]
      exact hflying
  · rw [hloaded, hproducer]
    simpa using hall

/-- The producer sends a group. With a weight that had no room it goes on in the other half. -/
theorem Streaming.send {group : List NamedWeight} {nextWeight : Option NamedWeight}
    (hlength : ∀ side, (s.buffer side).length = calculateAlignedSize half)
    (hpc : s.producer.pc = .sendGroup nextWeight) (hpacked : Packed half s group)
    (hlanded : Landed s.link) (hlast : nextWeight = none → s.producer.params = [])
    (hall : s.loaded ++ group ++ nextWeight.toList ++ s.producer.params = params)
    (hs : streamWeightsViaIpcZmqImpl half s = some s') :
    (∀ side, s'.buffer side = s.buffer side) ∧ Streaming half stateDictInfo params s' := by
  have hfree : s.reqBusy = false := hlanded.reqBusy_eq
  have hhalf := le_calculateAlignedSize half
  have hgroup : Describes stateDictInfo group := fun w hw => hdescribes w (by
    rw [← hall]
    simp [hw])
  unfold streamWeightsViaIpcZmqImpl at hs
  simp only [hpc, hfree, Bool.false_eq_true, if_false, Option.some.injEq] at hs
  have hbuffer : ∀ side, s'.buffer side = s.buffer side := by
    intro side
    rw [← hs]
    simp only [IpcState.sendRequest, hfree]
    cases side <;> rfl
  have hproducer : s'.producer = s.producer.groupSent nextWeight := by rw [← hs]
  have hloaded : s'.loaded = s.loaded := by
    rw [← hs]
    simp only [IpcState.sendRequest, hfree, Bool.false_eq_true, if_false]
  have hlink : s'.link = ⟨[.group s.producer.currentBuffer (group.map Prod.fst)
      (groupSize group)], 0, .recv, true, s.sent ++ [s.producer.currentBuffer],
      s.acksReceived⟩ := by
    have hrequests : s.requests = [] := hlanded.requests_eq
    have hacks : s.acks = 0 := hlanded.acks_eq
    have hconsumer : s.consumer = .recv := hlanded.consumer_eq
    rw [← hs]
    simp only [IpcState.link, IpcState.sendRequest, hfree, Bool.false_eq_true, if_false,
      hrequests, hacks, hconsumer, hpacked.paramNames_eq, hpacked.usedBytes_eq, List.nil_append]
  have hflying : Flying stateDictInfo (s'.buffer s.producer.currentBuffer)
      s.producer.currentBuffer s'.link group := by
    rw [hbuffer, hlink]
    refine ⟨⟨group, .queued rfl rfl rfl, hpacked.holds, ?_, hgroup⟩, rfl, ⟨s.sent, rfl⟩, ?_⟩
    · rw [hlength]
      exact hpacked.fits.trans hhalf
    · have hreceived : s.acksReceived = s.sent.length := hlanded.acksReceived_eq
      simp [hreceived]
  refine ⟨hbuffer, ?_⟩
  cases nextWeight with
  | none =>
    refine .lastGroup group _ (by rw [hproducer]; rfl)
      (.flying group hflying (by rw [hproducer]; rfl)) ?_
    rw [hloaded]
    simpa [hlast rfl] using hall
  | some w =>
    have hcurrent : s'.producer.currentBuffer.other = s.producer.currentBuffer := by
      rw [hproducer]
      exact Half.other_other _
    have hfit := hfits w (by rw [← hall]; simp)
    refine .packing group [] [w] (.pack w (by rw [hproducer]; rfl) ?_) ?_
      (.flying group (hcurrent ▸ hflying) (by rw [hproducer]; rfl)) ?_
    · rw [hproducer]
      simpa [Producer.groupSent] using hfit
    · exact ⟨by rw [hproducer]; rfl, by rw [hproducer]; rfl, trivial, Nat.zero_le _⟩
    · rw [hloaded, hproducer]
      simpa [Producer.groupSent] using hall

end Steps

end NemoRL.Utils
