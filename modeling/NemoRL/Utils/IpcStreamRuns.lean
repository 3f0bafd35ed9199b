import NemoRL.Utils.IpcStreamSpec

/-!
# Runs of a stream

The steps of both sides keep the invariant, so that it holds in every run. Each step also
brings the stream nearer to its end, by a measure of the messages and of the weights that are
left. A run is therefore no longer than the measure at the start, and where no step is left
both sides have come to their ends.

## Main definitions

* `WriteSafe` — the producer does not write into a half that is not acknowledged.
* `IpcState.remaining` — the measure.

## Main results

* `stream_weights` — the halves are not overwritten, the weights arrive in order, and both
  sides come to their ends.
-/

namespace NemoRL.Utils

open Lib

section Steps
variable {half : ℕ} {stateDictInfo : StateDictInfo} {params : List NamedWeight}
  {s s' : IpcState}

/-! ## The invariant -/

theorem IpcInvariant.of_buffer (h : IpcInvariant half stateDictInfo params s)
    (hs : (∀ side, s'.buffer side = s.buffer side) ∧ Streaming half stateDictInfo params s') :
    IpcInvariant half stateDictInfo params s' :=
  ⟨fun side => (congrArg List.length (hs.1 side)).trans (h.length_buffer side), hs.2⟩

/-- A producer that waits for the last group goes on when there is none. -/
theorem Streaming.awaitLast {left : List NamedWeight} {last : Half}
    (hpc : s.producer.pc = .awaitLast) (hout : Outstanding stateDictInfo s last left)
    (hall : s.loaded ++ left = params) (hs : streamWeightsViaIpcZmqImpl half s = some s') :
    (∀ side, s'.buffer side = s.buffer side) ∧ Streaming half stateDictInfo params s' := by
  simp only [streamWeightsViaIpcZmqImpl, hpc] at hs
  obtain ⟨hleft, hlanded, hproducer, hbuffer, hloaded⟩ := hout.received hs
  refine ⟨hbuffer, .completing (by rw [hproducer]) hlanded ?_⟩
  rw [hloaded, ← hall, hleft, List.append_nil]

/-- A producer that waits for the group before goes on when there is none. -/
theorem Streaming.awaitGroup {left group : List NamedWeight} {nextWeight : Option NamedWeight}
    (hpc : s.producer.pc = .awaitGroup nextWeight)
    (hlast : nextWeight = none → s.producer.params = []) (hpacked : Packed half s group)
    (hout : Outstanding stateDictInfo s s.producer.currentBuffer.other left)
    (hall : s.loaded ++ left ++ group ++ nextWeight.toList ++ s.producer.params = params)
    (hs : streamWeightsViaIpcZmqImpl half s = some s') :
    (∀ side, s'.buffer side = s.buffer side) ∧ Streaming half stateDictInfo params s' := by
  simp only [streamWeightsViaIpcZmqImpl, hpc] at hs
  obtain ⟨hleft, hlanded, hproducer, hbuffer, hloaded⟩ := hout.received hs
  refine ⟨hbuffer, .sending group nextWeight (by rw [hproducer]) ?_ hlanded ?_ ?_⟩
  · refine ⟨?_, ?_, ?_, hpacked.fits⟩
    · rw [hproducer]
      exact hpacked.paramNames_eq
    · rw [hproducer]
      exact hpacked.usedBytes_eq
    · rw [hproducer, hbuffer]
      exact hpacked.holds
  · rw [hproducer]
    exact hlast
  · rw [hloaded, hproducer, ← hall, hleft, List.append_nil]

variable (hdescribes : Describes stateDictInfo params)
  (hfits : ∀ w ∈ params, calculateAlignedSize w.2.bytes.length ≤ half)
include hdescribes hfits

/-- The producer keeps the invariant. -/
theorem IpcInvariant.producer (h : IpcInvariant half stateDictInfo params s)
    (hs : streamWeightsViaIpcZmqImpl half s = some s') :
    IpcInvariant half stateDictInfo params s' := by
  cases h.streaming with
  | packing left group pending hpc hpacked hout hall =>
    cases hpc with
    | next hpc =>
      rw [List.append_nil] at hall
      exact h.of_buffer (Streaming.next hfits hpc hpacked hout hall hs)
    | pack w hpc hroom =>
      obtain ⟨hlength, hstreaming⟩ :=
        Streaming.pack h.length_buffer hpc hroom hpacked hout hall hs
      exact ⟨hlength, hstreaming⟩
    | awaitGroup nextWeight hpc hlast =>
      exact h.of_buffer (Streaming.awaitGroup hpc hlast hpacked hout hall hs)
  | sending group nextWeight hpc hpacked hlanded hlast hall =>
    exact h.of_buffer
      (Streaming.send hdescribes hfits h.length_buffer hpc hpacked hlanded hlast hall hs)
  | lastGroup left last hpc hout hall => exact h.of_buffer (Streaming.awaitLast hpc hout hall hs)
  | completing hpc hlanded hall =>
    have hfree : s.reqBusy = false := hlanded.reqBusy_eq
    have hrequests : s.requests = [] := hlanded.requests_eq
    have hacks : s.acks = 0 := hlanded.acks_eq
    have hconsumer : s.consumer = .recv := hlanded.consumer_eq
    simp only [streamWeightsViaIpcZmqImpl, hpc, IpcState.sendRequest, hfree,
      Bool.false_eq_true, if_false, Option.some.injEq] at hs
    subst hs
    refine h.of_buffer ⟨fun side => by cases side <;> rfl, .waiting rfl rfl (.inl ⟨?_, hacks,
      hconsumer⟩) hall⟩
    simp [IpcState.goto, hrequests]
  | waiting hpc hbusy hlink hall =>
    simp only [streamWeightsViaIpcZmqImpl, hpc, IpcState.recvReply, hbusy, Bool.not_true,
      Bool.false_eq_true, if_false] at hs
    obtain ⟨-, hacks, -⟩ | ⟨-, hacks, -⟩ | ⟨hrequests, hacks, hconsumer⟩ := hlink
    · simp [hacks] at hs
    · simp [hacks] at hs
    · simp only [hacks, one_ne_zero, if_false, Option.some.injEq] at hs
      subst hs
      exact h.of_buffer ⟨fun side => by cases side <;> rfl,
        .finished rfl rfl hrequests rfl hconsumer hall⟩
  | finished hpc _ _ _ _ _ => simp [streamWeightsViaIpcZmqImpl, hpc] at hs

/-- Both sides keep the invariant. -/
theorem IpcInvariant.step {bufferSizeBytes : ℕ} {side : Side} (hhalf : bufferSizeBytes / 2 = half)
    (h : IpcInvariant half stateDictInfo params s)
    (hs : (ipcStream bufferSizeBytes stateDictInfo params).step s side = some s') :
    IpcInvariant half stateDictInfo params s' := by
  cases side with
  | producer => exact h.producer hdescribes hfits (hhalf ▸ hs)
  | consumer => exact h.of_buffer (h.streaming.consumer hs)

omit hdescribes hfits in
/-- The invariant holds at the start. -/
theorem IpcInvariant.init {bufferSizeBytes : ℕ} (hhalf : bufferSizeBytes / 2 = half)
    (h : (ipcStream bufferSizeBytes stateDictInfo params).init s) :
    IpcInvariant half stateDictInfo params s := by
  obtain ⟨bytesA, bytesB, hA, hB, rfl⟩ := h
  rw [hhalf] at hA hB
  refine ⟨fun side => ?_, .packing [] [] [] (.next rfl) ⟨rfl, rfl, trivial, Nat.zero_le _⟩
    (.landed ⟨rfl, rfl, rfl, rfl, rfl⟩ rfl) rfl⟩
  cases side with
  | a => exact hA
  | b => exact hB

end Steps

/-! ## What the invariant says -/

/-- The groups that were sent from a half which the producer is about to write are
acknowledged. -/
def WriteSafe (s : IpcState) : Prop :=
  ∀ weight, s.producer.pc = .pack weight →
    ∀ i, s.sent[i]? = some s.producer.currentBuffer → i < s.acksReceived

/-- Both sides have returned, and nothing is on its way. -/
structure Finished (params : List NamedWeight) (s : IpcState) : Prop where
  producer_done : s.producer.pc = .done
  consumer_done : s.consumer = .done
  requests_eq : s.requests = []
  acks_eq : s.acks = 0
  reqBusy_eq : s.reqBusy = false
  loaded_eq : s.loaded = params

section Invariant
variable {half : ℕ} {stateDictInfo : StateDictInfo} {params : List NamedWeight} {s : IpcState}

/-- Only the group before is not acknowledged, and it was sent from the other half. -/
theorem Outstanding.acked {last other : Half} {left : List NamedWeight}
    (h : Outstanding stateDictInfo s last left) (hother : last ≠ other) {i : ℕ}
    (hi : s.sent[i]? = some other) : i < s.acksReceived := by
  obtain ⟨hlt, hget⟩ := List.getElem?_eq_some_iff.mp hi
  cases h with
  | landed hlanded _ =>
    have hreceived : s.acksReceived = s.sent.length := hlanded.acksReceived_eq
    omega
  | flying _ hflying _ =>
    have hreceived : s.acksReceived + 1 = s.sent.length := hflying.acksReceived_eq
    obtain ⟨before, hsent⟩ := hflying.sent_eq
    change s.sent = before ++ [last] at hsent
    have hlength : s.sent.length = before.length + 1 := by rw [hsent]; simp
    have hne : i ≠ before.length := by
      intro hi
      apply hother
      simpa [hsent, hi] using hget
    omega

theorem Streaming.writeSafe (h : Streaming half stateDictInfo params s) : WriteSafe s := by
  intro weight hpack i hi
  cases h with
  | packing _ _ _ _ _ hout _ => exact hout.acked (Half.other_ne _) hi
  | sending _ _ hpc _ _ _ _ => exact nomatch hpc.symm.trans hpack
  | lastGroup _ _ hpc _ _ => exact nomatch hpc.symm.trans hpack
  | completing hpc _ _ => exact nomatch hpc.symm.trans hpack
  | waiting hpc _ _ _ => exact nomatch hpc.symm.trans hpack
  | finished hpc _ _ _ _ _ => exact nomatch hpc.symm.trans hpack

/-- What is loaded is a first part of the weights. -/
theorem Streaming.loaded_prefix (h : Streaming half stateDictInfo params s) :
    s.loaded <+: params := by
  cases h with
  | packing left group pending _ _ _ hall =>
    exact ⟨left ++ group ++ pending ++ s.producer.params, by rw [← hall]; simp⟩
  | sending group nextWeight _ _ _ _ hall =>
    exact ⟨group ++ nextWeight.toList ++ s.producer.params, by rw [← hall]; simp⟩
  | lastGroup left _ _ _ hall => exact ⟨left, hall⟩
  | completing _ _ hall => exact hall ▸ List.prefix_rfl
  | waiting _ _ _ hall => exact hall ▸ List.prefix_rfl
  | finished _ _ _ _ _ hall => exact hall ▸ List.prefix_rfl

theorem Outstanding.not_failed {last : Half} {left : List NamedWeight}
    (h : Outstanding stateDictInfo s last left) (e : PyError) : s.consumer ≠ .failed e := by
  intro hfailed
  cases h with
  | landed hlanded _ => exact nomatch hlanded.consumer_eq.symm.trans hfailed
  | flying _ hflying _ =>
    obtain ⟨group, hflight, -⟩ := hflying.flight
    cases hflight with
    | queued _ _ hconsumer => exact nomatch hconsumer.symm.trans hfailed
    | viewing _ _ _ _ _ hconsumer => exact nomatch hconsumer.symm.trans hfailed
    | loading _ _ _ _ _ hconsumer => exact nomatch hconsumer.symm.trans hfailed
    | acked _ _ hconsumer => exact nomatch hconsumer.symm.trans hfailed

/-- The consumer does not raise. -/
theorem Streaming.consumer_ne_failed (h : Streaming half stateDictInfo params s) (e : PyError) :
    s.consumer ≠ .failed e := by
  intro hfailed
  cases h with
  | packing _ _ _ _ _ hout _ => exact hout.not_failed e hfailed
  | sending _ _ _ _ hlanded _ _ => exact nomatch hlanded.consumer_eq.symm.trans hfailed
  | lastGroup _ _ _ hout _ => exact hout.not_failed e hfailed
  | completing _ hlanded _ => exact nomatch hlanded.consumer_eq.symm.trans hfailed
  | waiting _ _ hlink _ =>
    obtain ⟨-, -, hconsumer⟩ | ⟨-, -, hconsumer⟩ | ⟨-, -, hconsumer⟩ := hlink
    all_goals exact nomatch hconsumer.symm.trans hfailed
  | finished _ _ _ _ hconsumer _ => exact nomatch hconsumer.symm.trans hfailed

/-- The producer does not raise. -/
theorem Streaming.producer_ne_failed (h : Streaming half stateDictInfo params s) (e : PyError) :
    s.producer.pc ≠ .failed e := by
  intro hfailed
  cases h with
  | packing _ _ _ hpc _ _ _ =>
    cases hpc with
    | next hpc => exact nomatch hpc.symm.trans hfailed
    | pack _ hpc _ => exact nomatch hpc.symm.trans hfailed
    | awaitGroup _ hpc _ => exact nomatch hpc.symm.trans hfailed
  | sending _ _ hpc _ _ _ _ => exact nomatch hpc.symm.trans hfailed
  | lastGroup _ _ hpc _ _ => exact nomatch hpc.symm.trans hfailed
  | completing hpc _ _ => exact nomatch hpc.symm.trans hfailed
  | waiting hpc _ _ _ => exact nomatch hpc.symm.trans hfailed
  | finished hpc _ _ _ _ _ => exact nomatch hpc.symm.trans hfailed

/-- The producer waits only for the consumer. -/
theorem Streaming.enabled (h : Streaming half stateDictInfo params s) :
    (∃ s', streamWeightsViaIpcZmqImpl half s = some s') ∨
      (∃ s', updateWeightsViaIpcZmq stateDictInfo s = some s') ∨ Finished params s := by
  cases h with
  | packing _ _ _ hpc _ hout _ =>
    cases hpc with
    | next hpc =>
      left
      unfold streamWeightsViaIpcZmqImpl
      simp only [hpc]
      split
      · exact ⟨_, rfl⟩
      · split_ifs
        all_goals exact ⟨_, rfl⟩
    | pack w hpc _ =>
      left
      unfold streamWeightsViaIpcZmqImpl
      simp only [hpc]
      split
      all_goals exact ⟨_, rfl⟩
    | awaitGroup nextWeight hpc _ =>
      simp only [streamWeightsViaIpcZmqImpl, hpc]
      exact hout.enabled.imp_right .inl
  | sending _ _ hpc _ hlanded _ _ =>
    have hfree : s.reqBusy = false := hlanded.reqBusy_eq
    left
    simp only [streamWeightsViaIpcZmqImpl, hpc, hfree]
    exact ⟨_, rfl⟩
  | lastGroup _ _ hpc hout _ =>
    simp only [streamWeightsViaIpcZmqImpl, hpc]
    exact hout.enabled.imp_right .inl
  | completing hpc hlanded _ =>
    have hfree : s.reqBusy = false := hlanded.reqBusy_eq
    left
    simp only [streamWeightsViaIpcZmqImpl, hpc, hfree]
    exact ⟨_, rfl⟩
  | waiting hpc hbusy hlink _ =>
    obtain ⟨hrequests, -, hconsumer⟩ | ⟨-, -, hconsumer⟩ | ⟨-, hacks, -⟩ := hlink
    · right; left
      simp only [updateWeightsViaIpcZmq, hconsumer, hrequests]
      exact ⟨_, rfl⟩
    · right; left
      simp only [updateWeightsViaIpcZmq, hconsumer]
      exact ⟨_, rfl⟩
    · left
      simp only [streamWeightsViaIpcZmqImpl, hpc, IpcState.recvReply, hbusy, hacks]
      exact ⟨_, rfl⟩
  | finished hpc hbusy hrequests hacks hconsumer hall =>
    exact .inr (.inr ⟨hpc, hconsumer, hrequests, hacks, hbusy, hall⟩)

end Invariant

/-! ## The way to the end -/

/-- The steps that a request takes at most. -/
def Request.remaining : Request → ℕ
  | .group _ paramNames _ => 2 * paramNames.length + 4
  | .complete => 2

/-- The steps that the consumer takes at most before it waits again. -/
def ConsumerPc.remaining : ConsumerPc → ℕ
  | .view _ keys _ _ weights => 2 * keys.length + weights.length + 3
  | .load _ weights => weights.length + 1
  | .finish => 1
  | .recv | .done | .failed _ => 0

/-- The steps that the producer and the requests it sends take at most, but for the weights
that it has not taken yet. -/
def Producer.remaining (p : Producer) : ℕ :=
  match p.pc with
  | .next => 12 + 2 * p.paramNames.length
  | .pack _ => 15 + 2 * p.paramNames.length
  | .awaitGroup none => 11 + 2 * p.paramNames.length
  | .awaitGroup (some _) => 21 + 2 * p.paramNames.length
  | .sendGroup none => 10 + 2 * p.paramNames.length
  | .sendGroup (some _) => 20 + 2 * p.paramNames.length
  | .awaitLast => 5
  | .sendComplete => 4
  | .awaitComplete => 1
  | .done | .failed _ => 0

/-- The steps that are left at most. -/
def IpcState.remaining (s : IpcState) : ℕ :=
  10 * s.producer.params.length + s.producer.remaining +
    (s.requests.map Request.remaining).sum + s.consumer.remaining

section Remaining
variable {half : ℕ} {stateDictInfo : StateDictInfo} {s s' : IpcState}

/-- A step of the consumer takes one off. -/
theorem updateWeightsViaIpcZmq_remaining (h : updateWeightsViaIpcZmq stateDictInfo s = some s') :
    s'.remaining < s.remaining := by
  unfold updateWeightsViaIpcZmq at h
  cases hconsumer : s.consumer with
  | recv =>
    rw [hconsumer] at h
    cases hrequests : s.requests with
    | nil => simp [hrequests] at h
    | cons request requests =>
      cases request with
      | complete =>
        simp only [hrequests, Option.some.injEq] at h
        subst h
        simp [IpcState.remaining, hconsumer, hrequests, ConsumerPc.remaining, Request.remaining]
        omega
      | group buffer keys usedBytes =>
        simp only [hrequests, Option.some.injEq] at h
        subst h
        simp [IpcState.remaining, hconsumer, hrequests, ConsumerPc.remaining, Request.remaining]
        omega
  | view buffer keys usedBytes offset weights =>
    rw [hconsumer] at h
    cases keys with
    | nil =>
      dsimp only at h
      split_ifs at h
      all_goals
        rw [Option.some.injEq] at h
        subst h
        simp [IpcState.remaining, hconsumer, ConsumerPc.remaining]
    | cons key keys =>
      dsimp only at h
      split at h
      · rw [Option.some.injEq] at h
        subst h
        simp [IpcState.remaining, hconsumer, ConsumerPc.remaining]
      · split at h
        all_goals
          rw [Option.some.injEq] at h
          subst h
          simp [IpcState.remaining, hconsumer, ConsumerPc.remaining]
          try omega
  | load buffer weights =>
    rw [hconsumer] at h
    cases weights with
    | nil =>
      rw [Option.some.injEq] at h
      subst h
      simp [IpcState.remaining, hconsumer, ConsumerPc.remaining]
    | cons view weights =>
      dsimp only at h
      split at h
      all_goals
        rw [Option.some.injEq] at h
        subst h
        simp [IpcState.remaining, hconsumer, ConsumerPc.remaining]
  | finish =>
    rw [hconsumer, Option.some.injEq] at h
    subst h
    simp [IpcState.remaining, hconsumer, ConsumerPc.remaining]
  | done => simp [hconsumer] at h
  | failed e => simp [hconsumer] at h

/-- Moving on takes one off where the new place has less left. -/
theorem goto_remaining {pc : ProducerPc}
    (h : { s.producer with pc := pc }.remaining < s.producer.remaining) :
    (s.goto pc).remaining < s.remaining := by
  dsimp only at h
  simp only [IpcState.remaining, IpcState.goto]
  omega

/-- Waiting for a reply takes one off. -/
theorem recvReply_remaining {pc : ProducerPc}
    (hpc : { s.producer with pc := pc }.remaining < s.producer.remaining)
    (h : s.recvReply pc = some s') : s'.remaining < s.remaining := by
  unfold IpcState.recvReply at h
  split_ifs at h
  · rw [Option.some.injEq] at h
    subst h
    refine goto_remaining (lt_of_le_of_lt ?_ hpc)
    exact Nat.zero_le _
  · rw [Option.some.injEq] at h
    subst h
    exact goto_remaining hpc

/-- A step of the producer takes one off. -/
theorem streamWeightsViaIpcZmqImpl_remaining (h : streamWeightsViaIpcZmqImpl half s = some s') :
    s'.remaining < s.remaining := by
  unfold streamWeightsViaIpcZmqImpl at h
  cases hpc : s.producer.pc with
  | next =>
    simp only [hpc] at h
    cases hparams : s.producer.params with
    | nil =>
      simp only [hparams, Option.some.injEq] at h
      subst h
      refine goto_remaining ?_
      split_ifs
      all_goals
        simp only [Producer.remaining, hpc]
        omega
    | cons w rest =>
      simp only [hparams] at h
      split_ifs at h
      all_goals
        rw [Option.some.injEq] at h
        subst h
        simp only [IpcState.remaining, IpcState.goto, Producer.remaining, hpc, hparams,
          List.length_cons]
        omega
  | pack w =>
    simp only [hpc] at h
    split at h
    · rw [Option.some.injEq] at h
      subst h
      refine goto_remaining ?_
      simp only [Producer.remaining, hpc]
      omega
    · rw [Option.some.injEq] at h
      subst h
      cases s.producer.currentBuffer <;>
        simp only [IpcState.remaining, IpcState.setBuffer, Producer.remaining, hpc,
          List.length_append, List.length_singleton] <;> omega
  | awaitGroup nextWeight =>
    have hlt : { s.producer with pc := .sendGroup nextWeight }.remaining <
        s.producer.remaining := by
      cases nextWeight with
      | none =>
        simp only [Producer.remaining, hpc]
        omega
      | some w =>
        simp only [Producer.remaining, hpc]
        omega
    simp only [hpc] at h
    split_ifs at h
    · exact recvReply_remaining hlt h
    · rw [Option.some.injEq] at h
      subst h
      exact goto_remaining hlt
  | sendGroup nextWeight =>
    simp only [hpc] at h
    split_ifs at h with hbusy
    · rw [Option.some.injEq] at h
      subst h
      refine goto_remaining ?_
      cases nextWeight with
      | none =>
        simp only [Producer.remaining, hpc]
        omega
      | some w =>
        simp only [Producer.remaining, hpc]
        omega
    · rw [Option.some.injEq] at h
      subst h
      cases nextWeight with
      | none =>
        simp [IpcState.remaining, IpcState.sendRequest, hbusy, Producer.groupSent,
          Producer.remaining, hpc, Request.remaining]
        omega
      | some w =>
        simp [IpcState.remaining, IpcState.sendRequest, hbusy, Producer.groupSent,
          Producer.remaining, hpc, Request.remaining]
        omega
  | awaitLast =>
    have hlt : { s.producer with pc := .sendComplete }.remaining < s.producer.remaining := by
      simp [Producer.remaining, hpc]
    simp only [hpc] at h
    split_ifs at h
    · exact recvReply_remaining hlt h
    · rw [Option.some.injEq] at h
      subst h
      exact goto_remaining hlt
  | sendComplete =>
    simp only [hpc] at h
    split_ifs at h with hbusy
    · rw [Option.some.injEq] at h
      subst h
      exact goto_remaining (by simp [Producer.remaining, hpc])
    · rw [Option.some.injEq] at h
      subst h
      simp [IpcState.remaining, IpcState.sendRequest, IpcState.goto, hbusy, Producer.remaining,
        hpc, Request.remaining]
      omega
  | awaitComplete =>
    simp only [hpc] at h
    exact recvReply_remaining (by simp [Producer.remaining, hpc]) h
  | done => simp [hpc] at h
  | failed e => simp [hpc] at h

end Remaining

/-! ## Runs -/

section Runs
variable {bufferSizeBytes : ℕ} {stateDictInfo : StateDictInfo} {params : List NamedWeight}
  {tr : List (IpcState × Side)} {s : IpcState}

/-- A run takes a step off with each of its steps. -/
theorem run_remaining
    (h : (ipcStream bufferSizeBytes stateDictInfo params).Run System.always tr s) :
    tr.length + s.remaining ≤ 10 * params.length + 12 := by
  induction h with
  | init h =>
    obtain ⟨bytesA, bytesB, -, -, rfl⟩ := h
    simp [IpcState.remaining, Producer.remaining, ConsumerPc.remaining]
  | @step tr s s' side _ _ hs ih =>
    have hlt : s'.remaining < s.remaining := by
      cases side with
      | producer => exact streamWeightsViaIpcZmqImpl_remaining hs
      | consumer => exact updateWeightsViaIpcZmq_remaining hs
    rw [List.length_cons]
    omega

/-- For weights that fit into a half each, and a consumer that knows what they are, every run
writes only into halves whose groups are acknowledged, loads the weights in order with their
own bytes, raises on neither side, and goes on until both sides have returned with every weight
loaded and nothing on its way, after a bounded number of steps. -/
theorem stream_weights (hdescribes : Describes stateDictInfo params)
    (hfits : ∀ w ∈ params, calculateAlignedSize w.2.bytes.length ≤ bufferSizeBytes / 2)
    (h : (ipcStream bufferSizeBytes stateDictInfo params).Run System.always tr s) :
    WriteSafe s ∧ s.loaded <+: params ∧
      (∀ e, s.producer.pc ≠ .failed e ∧ s.consumer ≠ .failed e) ∧
      tr.length ≤ 10 * params.length + 12 ∧
      ((∃ side s', (ipcStream bufferSizeBytes stateDictInfo params).step s side = some s') ∨
        Finished params s) := by
  have hinv : IpcInvariant (bufferSizeBytes / 2) stateDictInfo params s :=
    h.invariant (fun s hs => IpcInvariant.init rfl hs)
      fun s side s' hs _ hstep => hs.step hdescribes hfits rfl hstep
  have hremaining := run_remaining h
  refine ⟨hinv.streaming.writeSafe, hinv.streaming.loaded_prefix, fun e =>
    ⟨hinv.streaming.producer_ne_failed e, hinv.streaming.consumer_ne_failed e⟩, by omega, ?_⟩
  rcases hinv.streaming.enabled with ⟨s', hs⟩ | ⟨s', hs⟩ | hfinished
  · exact .inl ⟨.producer, s', hs⟩
  · exact .inl ⟨.consumer, s', hs⟩
  · exact .inr hfinished

end Runs

/-! ### Two groups -/

/-- Two bytes with their names. -/
def twoWeights : List NamedWeight :=
  [("w", ⟨[1], .uint8, [7], rfl⟩), ("v", ⟨[2], .uint8, [8, 9], rfl⟩)]

/-- A start with halves for one weight each. -/
def twoWeightsStart : IpcState :=
  ⟨List.replicate 512 0, List.replicate 512 0, { pc := .next, params := twoWeights }, .recv, [],
    0, false, [], [], 0⟩

/-- The second weight is packed before the first one is loaded. -/
def twoWeightsSides : List Side :=
  List.replicate 7 .producer ++ List.replicate 5 .consumer ++ List.replicate 2 .producer ++
    List.replicate 5 .consumer ++ List.replicate 2 .producer ++ List.replicate 2 .consumer ++
    [.producer]

theorem stream_weights_twoWeights :
    ∃ s, (ipcStream 1024 [("w", [1], .uint8), ("v", [2], .uint8)] twoWeights).exec
        twoWeightsStart twoWeightsSides = some s ∧
      (s.producer.pc = .done ∧ s.consumer = .done ∧ s.loaded = twoWeights) ∧
      WriteSafe s ∧ s.loaded <+: twoWeights := by
  have hend : ((ipcStream 1024 [("w", [1], .uint8), ("v", [2], .uint8)] twoWeights).exec
      twoWeightsStart twoWeightsSides).any (fun s => s.producer.pc = .done ∧ s.consumer = .done ∧
        s.loaded = twoWeights) = true := by
    decide +kernel
  obtain ⟨s, hs, hdone⟩ := (Option.any_eq_true _ _).mp hend
  have hinit : (ipcStream 1024 [("w", [1], .uint8), ("v", [2], .uint8)] twoWeights).Run
      System.always [] twoWeightsStart :=
    .init ⟨_, _, List.length_replicate, List.length_replicate, rfl⟩
  have hdescribes : Describes [("w", [1], .uint8), ("v", [2], .uint8)] twoWeights := by
    unfold Describes
    decide
  obtain ⟨hsafe, hloaded, -⟩ := stream_weights hdescribes (by decide)
    (hinit.exec twoWeightsSides (fun _ _ => trivial) hs)
  exact ⟨s, hs, of_decide_eq_true hdone, hsafe, hloaded⟩

end NemoRL.Utils
