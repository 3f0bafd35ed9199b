import Mathlib.Algebra.Order.Group.Nat
import NemoRL.XToken.TeacherLogits

/-!
# Reassembly of teacher logits

Every match of the plan paints its part of the window of the student with the logits of the
teacher, and every cell of the window belongs to the part of exactly one match. The view
takes the same window from the only shard of each sample that covers it.

## Main results

* `assembleTeacherLogitsFromShards_eq` — reassembly gives the window of the student.
* `teacherLogits_reassembled` — and the view agrees with it.
-/

namespace NemoRL.XToken

open Lib

section Window
variable {cp rank T : ℕ}

/-- The positions of a rank start at the multiples of the local length. -/
theorem window_eq (hcp : cp ∣ T) (rank : ℕ) : rank * T / cp = rank * (T / cp) :=
  Nat.mul_div_assoc rank hcp

theorem window_le (hcp : cp ∣ T) (hrank : rank < cp) : (rank + 1) * T / cp ≤ T := by
  rw [window_eq hcp]
  calc (rank + 1) * (T / cp) ≤ cp * (T / cp) := Nat.mul_le_mul_right _ hrank
    _ = T := Nat.mul_div_cancel' hcp

theorem window_length (hcp : cp ∣ T) (rank : ℕ) :
    (rank + 1) * T / cp = rank * T / cp + T / cp := by
  rw [window_eq hcp, window_eq hcp, Nat.succ_mul]

end Window

/-! ## Reassembly -/

section Assemble
variable {α P : Type} {rebuild : P → Storage α} {full : Mat α} {shards : List (ShardHandle P)}
  {cp rank : ℕ}

/-- The window of a student rank. -/
def studentWindow (full : Mat α) (rank cp : ℕ) : Mat α :=
  full.window (rank * full.rows / cp) ((rank + 1) * full.rows / cp) 0 full.cols

theorem size_studentWindow (hcp : cp ∣ full.rows) (hrank : rank < cp) :
    (studentWindow full rank cp).rows = full.rows / cp ∧
      (studentWindow full rank cp).cols = full.cols := by
  constructor
  · simp only [studentWindow, Mat.window]
    rw [Nat.min_eq_left (window_le hcp hrank), window_length hcp, Nat.add_sub_cancel_left]
  · simp [studentWindow, Mat.window]

/-- A match comes from a shard that overlaps the positions of the student. -/
theorem mem_collect {m : ShardMatch P} {rank cp T : ℕ} :
    m ∈ collectOverlappingTeacherShards shards rank cp T ↔ ∃ h ∈ shards,
      max (rank * T / cp) h.globalSeqStart <
        min ((rank + 1) * T / cp) (h.globalSeqStart + h.actualShape.1) ∧
      m = {
        handle := h
        srcSeq := ⟨max (rank * T / cp) h.globalSeqStart - h.globalSeqStart,
          min ((rank + 1) * T / cp) (h.globalSeqStart + h.actualShape.1) - h.globalSeqStart⟩
        srcVocab := ⟨0, h.vocabEndIndex - h.vocabStartIndex⟩
        destSeq := ⟨max (rank * T / cp) h.globalSeqStart - rank * T / cp,
          min ((rank + 1) * T / cp) (h.globalSeqStart + h.actualShape.1) - rank * T / cp⟩
        destVocab := ⟨h.vocabStartIndex, h.vocabEndIndex⟩ } := by
  simp only [collectOverlappingTeacherShards, List.mem_filterMap]
  constructor
  · rintro ⟨h, hh, heq⟩
    split at heq
    · exact nomatch heq
    · exact ⟨h, hh, by omega, (Option.some.inj heq).symm⟩
  · rintro ⟨h, hh, hlt, rfl⟩
    exact ⟨h, hh, by rw [if_neg (by omega)]⟩

theorem copyMatch_eq {dest dest' sample : Mat α} {m : ShardMatch P}
    (hsample : (rebuild m.handle.payloadIpc).sample m.handle.bufIdx m.handle.sampleIndexInBuf =
      .ok sample)
    (hassign : dest.assign ((sample.window 0 m.handle.actualShape.1 0
      m.handle.actualShape.2).window m.srcSeq.start m.srcSeq.stop m.srcVocab.start
      m.srcVocab.stop) m.destSeq.start m.destSeq.stop m.destVocab.start m.destVocab.stop =
        some dest') : copyMatch rebuild dest m = .ok dest' := by
  simp only [copyMatch, hsample, hassign, bind, Except.bind, pure, Except.pure]

/-- A match paints its part of the window. -/
theorem copyMatch_paints (hs : IsSharded rebuild full shards) (hcp : cp ∣ full.rows)
    (hrank : rank < cp) {m : ShardMatch P}
    (hm : m ∈ collectOverlappingTeacherShards shards rank cp full.rows) :
    Mat.Paints (studentWindow full rank cp) (fun m i j => m.writes i j) (copyMatch rebuild) m := by
  obtain ⟨h, hh, hlt, rfl⟩ := mem_collect.mp hm
  have hle := window_le hcp hrank
  have hlen := window_length hcp rank
  have hshape := hs.shape h hh
  have hwithin := hs.within h hh
  obtain ⟨sample, hsample, hstored⟩ := hs.stored h hh
  intro d hrows hcols
  have htarget := size_studentWindow hcp hrank
  rw [htarget.1] at hrows
  rw [htarget.2] at hcols
  simp only [htarget]
  have hentry : ∀ i j, (studentWindow full rank cp).get? i j =
      if rank * full.rows / cp + i < (rank + 1) * full.rows / cp ∧ j < full.cols then
        full.get? (rank * full.rows / cp + i) j else none := by
    intro i j
    rw [studentWindow, Mat.get?_window, Nat.zero_add]
  simp only [hentry]
  generalize rank * full.rows / cp = start at *
  generalize (rank + 1) * full.rows / cp = stop at *
  generalize full.rows / cp = len at *
  obtain ⟨overlapStart, hoStart⟩ : ∃ n, n = max start h.globalSeqStart := ⟨_, rfl⟩
  obtain ⟨overlapEnd, hoEnd⟩ : ∃ n, n = min stop (h.globalSeqStart + h.actualShape.1) := ⟨_, rfl⟩
  simp only [← hoStart, ← hoEnd] at hlt ⊢
  have hpart : ∀ i j, ((sample.window 0 h.actualShape.1 0 h.actualShape.2).window
      (overlapStart - h.globalSeqStart) (overlapEnd - h.globalSeqStart) 0
      (h.vocabEndIndex - h.vocabStartIndex)).get? i j =
      if overlapStart + i < overlapEnd ∧ h.vocabStartIndex + j < h.vocabEndIndex then
        full.get? (overlapStart + i) (h.vocabStartIndex + j) else none := by
    intro i j
    rw [hstored, Mat.get?_window, Mat.get?_window]
    by_cases hin : overlapStart + i < overlapEnd ∧ h.vocabStartIndex + j < h.vocabEndIndex
    · rw [if_pos (by omega), if_pos (by omega), if_pos hin]
      congr 1 <;> omega
    · rw [if_neg hin, if_neg (by omega)]
  obtain ⟨d', hassign, hrows', hcols', hd'⟩ := Mat.get?_assign d
    ((sample.window 0 h.actualShape.1 0 h.actualShape.2).window
      (overlapStart - h.globalSeqStart) (overlapEnd - h.globalSeqStart) 0
      (h.vocabEndIndex - h.vocabStartIndex))
    (overlapStart - start) (overlapEnd - start) h.vocabStartIndex h.vocabEndIndex (by omega)
    (by omega) (by rw [hstored]; simp only [Mat.window]; omega)
    (by rw [hstored]; simp only [Mat.window]; omega)
  refine ⟨d', ?_, by omega, by omega, fun i j => ⟨?_, ?_⟩⟩
  · exact copyMatch_eq hsample hassign
  · intro hcover
    simp only [ShardMatch.writes, decide_eq_true_eq] at hcover
    rw [hd', if_pos hcover, hpart, if_pos (by omega), if_pos (by omega)]
    congr 1 <;> omega
  · intro hcover
    simp only [ShardMatch.writes, decide_eq_true_eq] at hcover
    rw [hd', if_neg hcover]

/-- Every cell of the window is written by exactly one match. -/
theorem countP_writes (hs : IsSharded rebuild full shards) (hcp : cp ∣ full.rows)
    (hrank : rank < cp) {i j : ℕ} (hi : i < full.rows / cp) (hj : j < full.cols) :
    (collectOverlappingTeacherShards shards rank cp full.rows).countP
      (fun m => m.writes i j) = 1 := by
  have hle := window_le hcp hrank
  have hlen := window_length hcp rank
  generalize hstart : rank * full.rows / cp = start at *
  generalize hstop : (rank + 1) * full.rows / cp = stop at *
  rw [← hs.partition (start + i) j (by omega) hj, collectOverlappingTeacherShards, hstart, hstop,
    List.countP_filterMap]
  refine List.countP_congr fun h hh => ?_
  simp only [ShardHandle.covers, decide_eq_true_eq]
  split
  · simp
    omega
  · simp only [Option.map_some, Option.getD_some, ShardMatch.writes, decide_eq_true_eq]
    omega

/-- Reassembly gives the window of the student. -/
theorem assembleTeacherLogitsFromShards_eq [Zero α] (hs : IsSharded rebuild full shards)
    (hcp : cp ∣ full.rows) (hrank : rank < cp) :
    assembleTeacherLogitsFromShards rebuild shards rank cp = .ok (studentWindow full rank cp) := by
  cases hshards : shards with
  | nil => exact (hs.ne_nil hshards).elim
  | cons first rest =>
    have hsize := hs.size first (by simp [hshards])
    rw [assembleTeacherLogitsFromShards, hsize.1, hsize.2,
      if_neg (by simpa using Nat.mod_eq_zero_of_dvd hcp), ← hshards]
    have htarget := size_studentWindow hcp hrank
    refine Mat.foldlM_paint (fun m hm => copyMatch_paints hs hcp hrank hm) htarget.1.symm
      htarget.2.symm fun i j hi hj => ?_
    rw [htarget.1] at hi
    rw [htarget.2] at hj
    have hcount := countP_writes hs hcp hrank hi hj
    obtain ⟨m, hm, hwrites⟩ := List.countP_pos_iff.mp (by rw [hcount]; exact Nat.one_pos)
    exact .inr ⟨m, hm, hwrites⟩

end Assemble

/-! ## The view -/

section View
variable {α P : Type} {rebuild : P → Storage α} {cp rank : ℕ}

/-- The entry of a batch at a position, if there is one. -/
def Batched.get? (t : Batched α) (b i j : ℕ) : Option α :=
  if h : b < t.batch ∧ i < t.rows ∧ j < t.cols then
    some (t.entry ⟨b, h.1⟩ ⟨i, h.2.1⟩ ⟨j, h.2.2⟩)
  else none

theorem Batched.ext_get? {t t' : Batched α} (hbatch : t.batch = t'.batch) (hrows : t.rows = t'.rows)
    (hcols : t.cols = t'.cols) (h : ∀ b i j, t.get? b i j = t'.get? b i j) : t = t' := by
  obtain ⟨batch, rows, cols, entry⟩ := t
  obtain ⟨batch', rows', cols', entry'⟩ := t'
  subst hbatch
  subst hrows
  subst hcols
  congr
  funext b i j
  have hij := h b i j
  simpa [Batched.get?, b.isLt, i.isLt, j.isLt] using hij

/-- A stack of matrices of one size, read entry by entry. -/
theorem stack_eq {ms : List (Mat α)} {rows cols : ℕ} (hne : ms ≠ [])
    (hsize : ∀ m ∈ ms, m.rows = rows ∧ m.cols = cols) :
    ∃ t, stack ms = .ok t ∧ t.batch = ms.length ∧ t.rows = rows ∧ t.cols = cols ∧
      ∀ b i j, t.get? b i j = ms[b]?.bind fun m => m.get? i j := by
  cases ms with
  | nil => exact (hne rfl).elim
  | cons m ms =>
    obtain ⟨rfl, rfl⟩ := hsize m List.mem_cons_self
    refine ⟨_, dif_pos hsize, rfl, rfl, rfl, fun b i j => ?_⟩
    by_cases hb : b < (m :: ms).length
    · have hmem : (m :: ms)[b] ∈ m :: ms := List.getElem_mem hb
      rw [List.getElem?_eq_getElem hb, Option.bind_some]
      by_cases hij : i < m.rows ∧ j < m.cols
      · have hsize := hsize _ hmem
        rw [Mat.get?_eq_some (by omega) (by omega)]
        exact dif_pos ⟨hb, hij⟩
      · have hsize := hsize _ hmem
        rw [Mat.get?_eq_none (by omega)]
        exact dif_neg fun h => hij h.2
    · rw [List.getElem?_eq_none (by omega), Option.bind_none]
      exact dif_neg fun h => hb h.1

theorem sample_eq_ok {s : Storage α} {buf b : ℕ} {m : Mat α} (h : s.sample buf b = .ok m) :
    ∃ (hbuf : buf < s.slots) (hb : b < s.samples),
      m = ⟨s.seq, s.vocab, s.entry ⟨buf, hbuf⟩ ⟨b, hb⟩⟩ := by
  simp only [Storage.sample] at h
  split at h
  case isTrue hbuf =>
    split at h
    case isTrue hb => exact ⟨hbuf, hb, (Except.ok.inj h).symm⟩
    case isFalse => exact nomatch h
  case isFalse => exact nomatch h

/-- The view shows a window of every sample. -/
theorem view_get? {s : Storage α} {t : Batched α} {buf samples lo hi vocab b : ℕ} {m : Mat α}
    (hview : s.view buf samples lo hi vocab = .ok t) (hm : s.sample buf b = .ok m)
    (hb : b < samples) (i j : ℕ) : t.get? b i j = (m.window lo hi 0 vocab).get? i j := by
  obtain ⟨hbuf, hbs, rfl⟩ := sample_eq_ok hm
  rw [Storage.view, dif_pos hbuf] at hview
  obtain rfl := Except.ok.inj hview
  rw [Mat.get?_window]
  by_cases hij : (lo + i < hi ∧ 0 + j < vocab) ∧ lo + i < s.seq ∧ 0 + j < s.vocab
  · rw [if_pos hij.1, Mat.get?_eq_some hij.2.1 hij.2.2]
    simp only [Nat.zero_add] at hij ⊢
    exact dif_pos ⟨by simp only; omega, by simp only; omega, by simp only; omega⟩
  · have hnone : (if lo + i < hi ∧ 0 + j < vocab then
        Mat.get? ⟨s.seq, s.vocab, s.entry ⟨buf, hbuf⟩ ⟨b, hbs⟩⟩ (lo + i) (0 + j) else none) =
        none := by
      split
      · exact Mat.get?_eq_none (by simp only; omega)
      · rfl
    rw [hnone]
    exact dif_neg (by simp only; omega)

/-- The chosen shards, sample by sample. -/
theorem chooseCovering_forall₂ {entries : List (List (ShardHandle P))} {vocab start stop : ℕ}
    {chosen : List (ShardHandle P)}
    (h : chooseCovering entries vocab start stop = some chosen) :
    List.Forall₂ (fun shards h => h ∈ shards ∧ h.coversSeq vocab start stop) entries chosen := by
  induction entries generalizing chosen with
  | nil =>
    obtain rfl : [] = chosen := by simpa [chooseCovering] using h
    exact .nil
  | cons shards entries ih =>
    simp only [chooseCovering, List.mapM_cons, Option.bind_eq_bind, Option.bind_eq_some_iff,
      Option.pure_def, Option.some.injEq] at h
    obtain ⟨handle, hhandle, rest, hrest, rfl⟩ := h
    refine .cons ?_ (ih hrest)
    split at hhandle
    case h_1 handle' heq =>
      obtain rfl := Option.some.inj hhandle
      have hmem : handle' ∈ shards.filter fun h => h.coversSeq vocab start stop := by simp [heq]
      exact List.mem_filter.mp hmem
    case h_2 => exact nomatch hhandle

end View

section Microbatch
variable {α P : Type} {rebuild : P → Storage α} {T V cp rank : ℕ}
  {samples : List (Mat α × List (ShardHandle P))}

/-- A microbatch of sharded logits of one size. -/
def AllSharded (rebuild : P → Storage α) (T V : ℕ)
    (samples : List (Mat α × List (ShardHandle P))) : Prop :=
  ∀ p ∈ samples, IsSharded rebuild p.1 p.2 ∧ p.1.rows = T ∧ p.1.cols = V

/-- Reassembly of all samples of a microbatch. -/
theorem mapM_assemble [Zero α] (hs : AllSharded rebuild T V samples) (hcp : cp ∣ T)
    (hrank : rank < cp) :
    (samples.map Prod.snd).mapM
        (fun shards => assembleTeacherLogitsFromShards rebuild shards rank cp) =
      .ok (samples.map fun p => studentWindow p.1 rank cp) := by
  rw [mapM_eq_ok, List.forall₂_map_left_iff, List.forall₂_map_right_iff, List.forall₂_same]
  intro p hp
  obtain ⟨hsharded, rfl, -⟩ := hs p hp
  exact assembleTeacherLogitsFromShards_eq hsharded hcp hrank

theorem size_window_of_mem (hs : AllSharded rebuild T V samples) (hcp : cp ∣ T)
    (hrank : rank < cp) :
    ∀ m ∈ samples.map (fun p => studentWindow p.1 rank cp), m.rows = T / cp ∧ m.cols = V := by
  intro m hm
  obtain ⟨p, hp, rfl⟩ := List.mem_map.mp hm
  obtain ⟨-, rfl, rfl⟩ := hs p hp
  exact size_studentWindow hcp hrank

/-- What the view was taken from. -/
theorem tryZeroCopy_eq_some [DecidableEq P] {view : Batched α}
    (hs : AllSharded rebuild T V samples)
    (h : tryZeroCopyTeacherLogits rebuild (samples.map Prod.snd) rank cp = .ok (some view)) :
    ∃ h₀ chosen, List.Forall₂ (fun shards (h : ShardHandle P) => h ∈ shards ∧
        h.coversSeq V (rank * T / cp) ((rank + 1) * T / cp)) (samples.map Prod.snd)
        (h₀ :: chosen) ∧
      (∀ p ∈ (h₀ :: chosen).zipIdx, p.1.payloadIpc = h₀.payloadIpc ∧ p.1.bufIdx = h₀.bufIdx ∧
        p.1.sampleIndexInBuf = p.2 ∧ p.1.globalSeqStart = h₀.globalSeqStart) ∧
      (rebuild h₀.payloadIpc).view h₀.bufIdx (h₀ :: chosen).length
        (rank * T / cp - h₀.globalSeqStart) ((rank + 1) * T / cp - h₀.globalSeqStart) V =
          .ok view := by
  cases samples with
  | nil => exact nomatch h
  | cons p samples =>
    obtain ⟨full, shards⟩ := p
    obtain ⟨hsharded, rfl, rfl⟩ := hs (full, shards) List.mem_cons_self
    cases shards with
    | nil => exact (hsharded.ne_nil rfl).elim
    | cons first shards =>
      obtain ⟨hseq, hvocab⟩ := hsharded.size first List.mem_cons_self
      simp only [List.map_cons, tryZeroCopyTeacherLogits, hseq, hvocab] at h
      split at h
      case h_1 => exact nomatch h
      case h_2 => exact nomatch h
      case h_3 h₀ chosen hchosen =>
        split at h
        case isTrue hall =>
          refine ⟨h₀, chosen, chooseCovering_forall₂ hchosen, ?_, ?_⟩
          · simpa using hall
          · cases hview : (rebuild h₀.payloadIpc).view h₀.bufIdx (h₀ :: chosen).length
                (rank * full.rows / cp - h₀.globalSeqStart)
                ((rank + 1) * full.rows / cp - h₀.globalSeqStart) full.cols with
            | error e =>
              rw [hview] at h
              exact nomatch h
            | ok view' =>
              rw [hview] at h
              rw [Option.some.inj (Except.ok.inj h)]
        case isFalse => exact nomatch h

/-- What a covering shard stores, shifted to the positions of the student, is its window. -/
theorem window_of_covering {full m : Mat α} {shards : List (ShardHandle P)} {h : ShardHandle P}
    (hs : IsSharded rebuild full shards) (hh : h ∈ shards)
    (hcover : h.coversSeq full.cols (rank * full.rows / cp) ((rank + 1) * full.rows / cp))
    (hm : (rebuild h.payloadIpc).sample h.bufIdx h.sampleIndexInBuf = .ok m) (i j : ℕ) :
    (rank + 1) * full.rows / cp - h.globalSeqStart ≤ m.rows ∧ full.cols ≤ m.cols ∧
      (m.window (rank * full.rows / cp - h.globalSeqStart)
        ((rank + 1) * full.rows / cp - h.globalSeqStart) 0 full.cols).get? i j =
        (studentWindow full rank cp).get? i j := by
  obtain ⟨sample, hsample, hstored⟩ := hs.stored h hh
  obtain rfl : sample = m := Except.ok.inj (hsample.symm.trans hm)
  have hshape := hs.shape h hh
  have hwithin := hs.within h hh
  simp only [ShardHandle.coversSeq, decide_eq_true_eq] at hcover
  obtain ⟨hstart, hend, hlo, hhi⟩ := hcover
  rw [hstart, hend] at hstored
  rw [hstart, hend] at hshape
  have hrows := congrArg Mat.rows hstored
  have hcols := congrArg Mat.cols hstored
  simp only [Mat.window] at hrows hcols
  rw [studentWindow]
  generalize rank * full.rows / cp = start at *
  generalize (rank + 1) * full.rows / cp = stop at *
  refine ⟨by omega, by omega, ?_⟩
  have hentry := congrArg (fun w => w.get? (start - h.globalSeqStart + i) j) hstored
  simp only [Mat.get?_window, Nat.zero_add] at hentry ⊢
  by_cases hij : start + i < stop ∧ j < full.cols
  · rw [if_pos (by omega), if_pos (by omega)] at hentry
    rw [if_pos (by omega), if_pos hij, hentry]
    congr 1
    omega
  · rw [if_neg (by omega), if_neg hij]

/-- Every student rank reassembles its window of the logits of every sample, each cell
written once, and a view that is taken instead is the stack of these windows. -/
theorem teacherLogits_reassembled [Zero α] [DecidableEq P] (rebuild : P → Storage α)
    (T V cp rank : ℕ) (samples : List (Mat α × List (ShardHandle P)))
    (hs : AllSharded rebuild T V samples) (hcp : cp ∣ T) (hrank : rank < cp) :
    (∀ p ∈ samples, assembleTeacherLogitsFromShards rebuild p.2 rank cp =
        .ok (p.1.window (rank * T / cp) ((rank + 1) * T / cp) 0 V) ∧
      ∀ i j, i < T / cp → j < V →
        (collectOverlappingTeacherShards p.2 rank cp T).countP (fun m => m.writes i j) = 1) ∧
    ∀ view, tryZeroCopyTeacherLogits rebuild (samples.map Prod.snd) rank cp = .ok (some view) →
      ∃ rebuilt, (samples.map Prod.snd).mapM
          (fun shards => assembleTeacherLogitsFromShards rebuild shards rank cp) = .ok rebuilt ∧
        stack rebuilt = .ok view := by
  constructor
  · intro p hp
    obtain ⟨hsharded, rfl, rfl⟩ := hs p hp
    exact ⟨assembleTeacherLogitsFromShards_eq hsharded hcp hrank,
      fun i j hi hj => countP_writes hsharded hcp hrank hi hj⟩
  · intro view hview
    refine ⟨_, mapM_assemble hs hcp hrank, ?_⟩
    obtain ⟨h₀, chosen, hchosen, hslab, hview⟩ := tryZeroCopy_eq_some hs hview
    have hlen : samples.length = (h₀ :: chosen).length := by
      simpa using hchosen.length_eq
    -- What the view shows of one sample.
    have hsample : ∀ b (hb : b < samples.length), b < (rebuild h₀.payloadIpc).samples ∧
        (rank + 1) * T / cp - h₀.globalSeqStart ≤ (rebuild h₀.payloadIpc).seq ∧
        V ≤ (rebuild h₀.payloadIpc).vocab ∧ h₀.globalSeqStart ≤ rank * T / cp ∧
        ∀ i j, view.get? b i j = (studentWindow samples[b].1 rank cp).get? i j := by
      intro b hb
      have hb' : b < (h₀ :: chosen).length := hlen ▸ hb
      obtain ⟨hsharded, hT, hV⟩ := hs samples[b] (List.getElem_mem hb)
      obtain ⟨hmem, hcover⟩ := (List.forall₂_iff_get.mp hchosen).2 b (by simpa using hb) hb'
      simp only [List.get_eq_getElem, List.getElem_map] at hmem hcover
      obtain ⟨hpayload, hbuf, hindex, hstart⟩ :=
        hslab ((h₀ :: chosen)[b], b) (List.mk_mem_zipIdx_iff_getElem?.mpr
          (List.getElem?_eq_getElem hb'))
      obtain ⟨m, hm, -⟩ := hsharded.stored _ hmem
      rw [← hT, ← hV] at hcover
      have hwindow := window_of_covering hsharded hmem hcover hm
      rw [hpayload, hbuf, hindex] at hm
      rw [hstart, hT, hV] at hwindow
      have hlo : h₀.globalSeqStart ≤ rank * T / cp := by
        simp only [ShardHandle.coversSeq, decide_eq_true_eq] at hcover
        rw [← hstart, ← hT]
        exact hcover.2.2.1
      obtain ⟨_, hbs, hdata⟩ := sample_eq_ok hm
      have hrows : m.rows = (rebuild h₀.payloadIpc).seq := by rw [hdata]
      have hcols : m.cols = (rebuild h₀.payloadIpc).vocab := by rw [hdata]
      refine ⟨hbs, hrows ▸ (hwindow 0 0).1, hcols ▸ (hwindow 0 0).2.1, hlo, fun i j => ?_⟩
      rw [view_get? hview hm hb' i j]
      exact (hwindow i j).2.2
    have hne : samples ≠ [] := by
      rintro rfl
      exact nomatch hlen
    obtain ⟨t, ht, htbatch, htrows, htcols, htget⟩ :=
      stack_eq (by simpa using hne) (size_window_of_mem hs hcp hrank)
    have hlength := window_length hcp rank
    have hfirst := hsample 0 (List.length_pos_iff.mpr hne)
    have hlast := hsample (samples.length - 1)
      (by have := List.length_pos_iff.mpr hne; omega)
    have hsize : view.batch = samples.length ∧ view.rows = T / cp ∧ view.cols = V := by
      rw [Storage.view] at hview
      split at hview
      case isTrue =>
        rw [← Except.ok.inj hview]
        simp only [← hlen]
        omega
      case isFalse => exact nomatch hview
    rw [ht, Batched.ext_get? (htbatch.trans _) (htrows.trans hsize.2.1.symm)
      (htcols.trans hsize.2.2.symm) _]
    · rw [List.length_map, hsize.1]
    · intro b i j
      rw [htget]
      by_cases hb : b < samples.length
      · rw [List.getElem?_map, List.getElem?_eq_getElem hb, Option.map_some, Option.bind_some,
          (hsample b hb).2.2.2.2 i j]
      · rw [List.getElem?_eq_none (by simpa using hb), Option.bind_none]
        rw [Batched.get?, dif_neg (by omega)]

end Microbatch

/-- Two positions and one token, in the storage of a teacher without parallelism. -/
def twoPositions : Storage ℤ := ⟨1, 1, 2, 1, fun _ _ i _ => i.val⟩

/-- The only shard of these logits. -/
def wholeShard : ShardHandle ℕ := ⟨0, 0, 0, 0, 1, 0, (2, 1), 2, 1⟩

theorem isSharded_twoPositions :
    IsSharded (fun _ : ℕ => twoPositions) ⟨2, 1, fun i _ => (i.val : ℤ)⟩ [wholeShard] where
  ne_nil := by simp
  size := by simp [wholeShard]
  shape := by simp [wholeShard]
  within := by simp [wholeShard]
  partition s v hs hv := by simp [wholeShard, ShardHandle.covers, hs, hv]
  stored := by
    intro h hh
    rw [List.mem_singleton.mp hh]
    exact ⟨_, rfl, rfl⟩

/-- The second of two student ranks. -/
theorem teacherLogits_reassembled_twoPositions :
    assembleTeacherLogitsFromShards (fun _ : ℕ => twoPositions) [wholeShard] 1 2 =
      .ok (Mat.window ⟨2, 1, fun i _ => (i.val : ℤ)⟩ 1 2 0 1) := by
  have hs : AllSharded (fun _ : ℕ => twoPositions) 2 1
      [(⟨2, 1, fun i _ => (i.val : ℤ)⟩, [wholeShard])] := by
    intro p hp
    rw [List.mem_singleton.mp hp]
    exact ⟨isSharded_twoPositions, rfl, rfl⟩
  exact ((teacherLogits_reassembled _ 2 1 2 1 _ hs (by decide) (by decide)).1 _
    List.mem_cons_self).1

end NemoRL.XToken
