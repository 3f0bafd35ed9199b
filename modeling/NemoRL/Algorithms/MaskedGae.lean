import NemoRL.Error
import Mathlib.Algebra.Order.Ring.Rat
import Mathlib.Data.Fin.VecNotation
import Mathlib.Data.List.FinRange
import Mathlib.Data.List.GetD
import Mathlib.Tactic.Ring

/-!
# Generalized advantages over masked rows

The advantages of a batch are computed backwards over its positions, with the value and the
advantage of the next position. A position that is masked out leaves both as they are, so that a
row is computed as if it had only its other positions.

Numbers are elements of an ordered ring. The estimate of the divergence from the reference policy
is a parameter.

## Main definitions

* `computeGae`, `buildTokenLevelRewards` — the advantages and the rewards of a batch.
* `gae` — the recursion without a mask.
* `unmasked` — what stands at the unmasked positions of a row.

## Main results

* `gae_of_masked` — the advantages of the unmasked positions.
-/

namespace NemoRL.Algorithms

/-! ## The estimator -/

section Estimator
variable {K : Type} [CommRing K] {B T : ℕ}

/-- What the loop over the positions carries: the value and the advantage of the next position of
each row, and the advantages so far. -/
structure GaeState (B : ℕ) (K : Type) where
  nextValues : Fin B → K
  lastGaeLam : Fin B → K
  advantagesReversed : List (Fin B → K)

/-- One position of all rows. -/
def gaeStep (gaeGamma : K) (lam : Fin B → K) (tokenLevelRewards values mask : Fin B → Fin T → K)
    (s : GaeState B K) (t : Fin T) : GaeState B K :=
  let delta := fun i => tokenLevelRewards i t + gaeGamma * s.nextValues i - values i t
  let newGaeLam := fun i => delta i + gaeGamma * lam i * s.lastGaeLam i
  let lastGaeLam := fun i => newGaeLam i * mask i t + (1 - mask i t) * s.lastGaeLam i
  ⟨fun i => values i t * mask i t + (1 - mask i t) * s.nextValues i, lastGaeLam,
    s.advantagesReversed ++ [lastGaeLam]⟩

/-- One number for all samples, or one for each. -/
inductive GaeLambda (B : ℕ) (K : Type)
  | scalar (lam : K)
  | perSample (lam : Fin B → K)

/-- The number of a sample. -/
def GaeLambda.get (i : Fin B) : GaeLambda B K → K
  | scalar lam => lam
  | perSample lam => lam i

/-- The advantages and the returns of a batch. -/
def computeGae (gaeGamma : K) (lam : GaeLambda B K)
    (tokenLevelRewards values mask : Fin B → Fin T → K) :
    Except PyError ((Fin B → Fin T → K) × (Fin B → Fin T → K)) :=
  let s := (List.finRange T).reverse.foldl
    (gaeStep gaeGamma (fun i => lam.get i) tokenLevelRewards values mask) ⟨0, 0, []⟩
  if s.advantagesReversed.isEmpty then
    .error ⟨.runtimeError, "stack expects a non-empty TensorList"⟩
  else
    let advantages := fun i (t : Fin T) => s.advantagesReversed.reverse.getD t 0 i
    .ok (advantages, fun i t => advantages i t + values i t)

variable [LinearOrder K]

/-- The configuration that the rewards read. -/
structure KlRewardConfig (K : Type) where
  useKlInReward : Bool
  klCoef : K

/-- The first position of the largest number. -/
def argmax (xs : List K) : ℕ := xs.findIdx fun x => decide (∀ y ∈ xs, y ≤ x)

/-- The divergence is subtracted from the rewards. -/
def appliesKl (config : KlRewardConfig K)
    (logprobs referenceLogprobs : Option (Fin B → Fin T → K)) : Prop :=
  config.useKlInReward ∧ 0 < config.klCoef ∧ logprobs.isSome ∧ referenceLogprobs.isSome

/-- What the divergence takes from the rewards. -/
def klPenalty (config : KlRewardConfig K) (calculateKl : K → K → K)
    (logprobs referenceLogprobs : Option (Fin B → Fin T → K)) : Fin B → Fin T → K :=
  match logprobs, referenceLogprobs with
  | some logprobs, some referenceLogprobs =>
    if config.useKlInReward ∧ 0 < config.klCoef then
      fun i t => config.klCoef * calculateKl (logprobs i t) (referenceLogprobs i t)
    else 0
  | _, _ => 0

/-- The rewards of the positions: the reward of a sample at its last unmasked position, less the
divergence at each. -/
def buildTokenLevelRewards (config : KlRewardConfig K) (calculateKl : K → K → K)
    (rewards : Fin B → K) (mask : Fin B → Fin T → K)
    (logprobs referenceLogprobs : Option (Fin B → Fin T → K)) :
    Except PyError (Fin B → Fin T → K) :=
  let kl := klPenalty config calculateKl logprobs referenceLogprobs
  if T = 0 then
    .error ⟨.indexError, "argmax(): Expected reduction dim 1 to have non-zero size."⟩
  else
    let lastResponseIdx := fun i => T - 1 - argmax (List.ofFn (mask i)).reverse
    let hasResponse := fun i => decide (∃ t, mask i t ≠ 0)
    .ok fun i t =>
      ((0 - kl i t) + if hasResponse i ∧ (t : ℕ) = lastResponseIdx i then rewards i else 0) *
        mask i t

end Estimator

/-! ## Without a mask -/

section Recursion
variable {K : Type} [CommRing K]

/-- The advantages of a sequence of rewards and values, with zero behind its end. -/
def gae (gamma lam : K) : List (K × K) → List K
  | [] => []
  | token :: tokens =>
    (token.1 + gamma * (tokens.map Prod.snd).headD 0 - token.2 +
      gamma * lam * (gae gamma lam tokens).headD 0) :: gae gamma lam tokens

/-- The positions of a row that are not masked out. -/
def unmaskedPositions [DecidableEq K] {T : ℕ} (mask : Fin T → K) (positions : List (Fin T)) :
    List (Fin T) :=
  positions.filter fun t => mask t = 1

/-- What stands at the unmasked positions of a row. -/
def unmasked [DecidableEq K] {T : ℕ} {α : Type} (mask : Fin T → K) (row : Fin T → α) : List α :=
  (unmaskedPositions mask (List.finRange T)).map row

/-- A reward at the last of some positions. -/
def terminalReward (reward : K) : ℕ → List K
  | 0 => []
  | n + 1 => List.replicate n 0 ++ [reward]

end Recursion

/-! ## The loop -/

section Loop
variable {K : Type} [CommRing K] [DecidableEq K] {B T : ℕ} {gamma : K} {lam : Fin B → K}
  {rewards values mask : Fin B → Fin T → K}

/-- The tokens of a row at some positions. -/
def tokensAt (rewards values : Fin B → Fin T → K) (i : Fin B) (positions : List (Fin T)) :
    List (K × K) :=
  positions.map fun t => (rewards i t, values i t)

/-- The state behind the positions from some position on: the value and the advantage of the first
unmasked one, and the advantages of all. -/
structure Carries (gamma : K) (lam : Fin B → K) (rewards values mask : Fin B → Fin T → K)
    (positions : List (Fin T)) (s : GaeState B K) : Prop where
  length : s.advantagesReversed.length = positions.length
  nextValues : ∀ i, s.nextValues i =
    ((unmaskedPositions (mask i) positions).map (values i)).headD 0
  lastGaeLam : ∀ i, s.lastGaeLam i =
    (gae gamma (lam i) (tokensAt rewards values i (unmaskedPositions (mask i) positions))).headD 0
  advantages : ∀ i, ((positions.zip s.advantagesReversed.reverse).filter
    fun p => mask i p.1 = 1).map (fun p => p.2 i) =
      gae gamma (lam i) (tokensAt rewards values i (unmaskedPositions (mask i) positions))

theorem Carries.nil : Carries gamma lam rewards values mask [] ⟨0, 0, []⟩ :=
  ⟨rfl, fun _ => rfl, fun _ => rfl, fun _ => rfl⟩

theorem unmaskedPositions_cons_of_eq_one {m : Fin T → K} {t : Fin T} (h : m t = 1)
    (positions : List (Fin T)) :
    unmaskedPositions m (t :: positions) = t :: unmaskedPositions m positions :=
  List.filter_cons_of_pos (by simpa using h)

theorem unmaskedPositions_cons_of_eq_zero [Nontrivial K] {m : Fin T → K} {t : Fin T}
    (h : m t = 0) (positions : List (Fin T)) :
    unmaskedPositions m (t :: positions) = unmaskedPositions m positions :=
  List.filter_cons_of_neg (by simp [h])

omit [DecidableEq K] in
/-- The advantage of a position that is not masked out is one step of the recursion. -/
theorem gae_cons_tokensAt (i : Fin B) (t : Fin T) (positions : List (Fin T)) :
    gae gamma (lam i) (tokensAt rewards values i (t :: positions)) =
      (rewards i t + gamma * (positions.map (values i)).headD 0 - values i t +
        gamma * lam i * (gae gamma (lam i) (tokensAt rewards values i positions)).headD 0) ::
          gae gamma (lam i) (tokensAt rewards values i positions) := by
  have hvalues : (tokensAt rewards values i positions).map Prod.snd = positions.map (values i) := by
    rw [tokensAt, List.map_map]
    rfl
  rw [← hvalues]
  rfl

/-- One more position in front. -/
theorem Carries.step [Nontrivial K] (hmask : ∀ i t, mask i t = 0 ∨ mask i t = 1)
    {positions : List (Fin T)} {s : GaeState B K}
    (h : Carries gamma lam rewards values mask positions s) (t : Fin T) :
    Carries gamma lam rewards values mask (t :: positions)
      (gaeStep gamma lam rewards values mask s t) := by
  have hreverse : (gaeStep gamma lam rewards values mask s t).advantagesReversed.reverse =
      (gaeStep gamma lam rewards values mask s t).lastGaeLam :: s.advantagesReversed.reverse :=
    List.reverse_concat ..
  constructor
  · simp [gaeStep, h.length]
  · intro i
    cases hmask i t with
    | inl hzero =>
      rw [unmaskedPositions_cons_of_eq_zero hzero, ← h.nextValues i]
      simp [gaeStep, hzero]
    | inr hone =>
      rw [unmaskedPositions_cons_of_eq_one hone]
      simp [gaeStep, hone]
  · intro i
    cases hmask i t with
    | inl hzero =>
      rw [unmaskedPositions_cons_of_eq_zero hzero, ← h.lastGaeLam i]
      simp [gaeStep, hzero]
    | inr hone =>
      rw [unmaskedPositions_cons_of_eq_one hone, gae_cons_tokensAt, ← h.nextValues i,
        ← h.lastGaeLam i]
      simp [gaeStep, hone]
  · intro i
    rw [hreverse, List.zip_cons_cons]
    cases hmask i t with
    | inl hzero =>
      rw [unmaskedPositions_cons_of_eq_zero hzero, List.filter_cons_of_neg (by simp [hzero])]
      exact h.advantages i
    | inr hone =>
      rw [unmaskedPositions_cons_of_eq_one hone, gae_cons_tokensAt,
        List.filter_cons_of_pos (by simpa using hone), List.map_cons, h.advantages i,
        ← h.nextValues i, ← h.lastGaeLam i]
      simp [gaeStep, hone]

/-- The loop over the positions of a list, from the last one. -/
theorem carries_foldl [Nontrivial K] (hmask : ∀ i t, mask i t = 0 ∨ mask i t = 1)
    (positions : List (Fin T)) :
    Carries gamma lam rewards values mask positions
      (positions.reverse.foldl (gaeStep gamma lam rewards values mask) ⟨0, 0, []⟩) := by
  induction positions with
  | nil => exact Carries.nil
  | cons t positions ih =>
    rw [List.reverse_cons, List.foldl_append]
    exact ih.step hmask t

end Loop

/-! ## The advantages -/

section Advantages
variable {K : Type} [CommRing K] [DecidableEq K] [Nontrivial K] {B T : ℕ}

/-- Reading a list of columns by position. -/
theorem finRange_zip {α : Type} {l : List α} (h : l.length = T) (d : α) :
    (List.finRange T).zip l = (List.finRange T).map fun t : Fin T => (t, l.getD t d) := by
  apply List.ext_getElem
  · simp [h]
  · intro j hj hj'
    have hjl : j < l.length := by
      rw [List.length_zip] at hj
      omega
    simp [hjl]

/-- The advantages of the unmasked positions of each row are those of these positions alone. -/
theorem computeGae_eq (gaeGamma : K) (lam : GaeLambda B K)
    (tokenLevelRewards values mask : Fin B → Fin T → K)
    (hmask : ∀ i t, mask i t = 0 ∨ mask i t = 1) (hT : 0 < T) :
    ∃ advantages returns,
      computeGae gaeGamma lam tokenLevelRewards values mask = .ok (advantages, returns) ∧
      (∀ i, unmasked (mask i) (advantages i) = gae gaeGamma (lam.get i)
        (unmasked (mask i) fun t => (tokenLevelRewards i t, values i t))) ∧
      ∀ i t, returns i t = advantages i t + values i t := by
  obtain ⟨s, hs⟩ : ∃ s, s = (List.finRange T).reverse.foldl
    (gaeStep gaeGamma (fun i => lam.get i) tokenLevelRewards values mask) ⟨0, 0, []⟩ := ⟨_, rfl⟩
  have hcarries : Carries gaeGamma (fun i => lam.get i) tokenLevelRewards values mask
      (List.finRange T) s := hs ▸ carries_foldl hmask (List.finRange T)
  have hlength : s.advantagesReversed.length = T := by
    rw [hcarries.length, List.length_finRange]
  have hempty : s.advantagesReversed.isEmpty = false := by
    rw [List.isEmpty_eq_false_iff]
    intro hnil
    rw [hnil, List.length_nil] at hlength
    omega
  have hok : computeGae gaeGamma lam tokenLevelRewards values mask =
      .ok (fun i t => s.advantagesReversed.reverse.getD t 0 i, fun i t =>
        s.advantagesReversed.reverse.getD t 0 i + values i t) := by
    rw [computeGae, ← hs]
    simp [hempty]
  refine ⟨_, _, hok, fun i => ?_, fun i t => rfl⟩
  have hadvantages := hcarries.advantages i
  rw [finRange_zip (by rw [List.length_reverse, hlength]) 0, List.filter_map, List.map_map]
    at hadvantages
  exact hadvantages

end Advantages

/-! ## The rewards -/

section Rewards
variable {K : Type} [CommRing K] [LinearOrder K] [IsStrictOrderedRing K] {B T : ℕ}

/-- The first largest number of a reversed 0/1 row is its last one. -/
theorem argmax_reverse_ofFn {m : Fin T → K} (hmask : ∀ t, m t = 0 ∨ m t = 1)
    (hone : ∃ t, m t = 1) :
    ∃ last : Fin T, T - 1 - argmax (List.ofFn m).reverse = last ∧ m last = 1 ∧
      ∀ t, m t = 1 → t ≤ last := by
  obtain ⟨xs, hxs⟩ : ∃ xs, xs = (List.ofFn m).reverse := ⟨_, rfl⟩
  have hlength : xs.length = T := by simp [hxs]
  have hget : ∀ (k : ℕ) (hk : k < xs.length), xs[k] = m ⟨T - 1 - k, by omega⟩ := by
    intro k hk
    simp [hxs, List.getElem_reverse]
  have hmem : ∀ t, m t ∈ xs := by
    intro t
    rw [hxs, List.mem_reverse, List.mem_ofFn]
    exact ⟨t, rfl⟩
  have hle : ∀ y ∈ xs, y ≤ 1 := by
    intro y hy
    rw [hxs, List.mem_reverse, List.mem_ofFn] at hy
    obtain ⟨t, rfl⟩ := hy
    cases hmask t with
    | inl hzero => exact hzero.trans_le zero_le_one
    | inr hone => exact hone.le
  -- the largest numbers are the ones
  have hlargest : ∀ t, (∀ y ∈ xs, y ≤ m t) ↔ m t = 1 := by
    intro t
    constructor
    · intro h
      obtain ⟨t', ht'⟩ := hone
      exact le_antisymm (hle _ (hmem t)) (ht' ▸ h _ (hmem t'))
    · intro h y hy
      rw [h]
      exact hle y hy
  have hlt : argmax xs < xs.length := by
    obtain ⟨t, ht⟩ := hone
    exact List.findIdx_lt_length_of_exists ⟨m t, hmem t, decide_eq_true ((hlargest t).mpr ht)⟩
  have hfound : decide (∀ y ∈ xs, y ≤ xs[argmax xs]) = true := List.findIdx_getElem (w := hlt)
  rw [← hxs]
  refine ⟨⟨T - 1 - argmax xs, by omega⟩, rfl, ?_, fun t ht => ?_⟩
  · rw [hget _ hlt] at hfound
    exact (hlargest _).mp (of_decide_eq_true hfound)
  · by_contra hgt
    rw [Fin.le_def, not_le] at hgt
    have hbound := t.isLt
    have hbefore : T - 1 - (t : ℕ) < argmax xs := by
      dsimp only at hgt
      omega
    have hindex : (⟨T - 1 - (T - 1 - (t : ℕ)), by omega⟩ : Fin T) = t := by
      apply Fin.ext
      dsimp only
      omega
    have hnot : ¬decide (∀ y ∈ xs, y ≤ xs[T - 1 - (t : ℕ)]) = true := by
      simpa using List.not_of_lt_findIdx hbefore
    rw [hget _ (by omega), hindex] at hnot
    exact hnot (decide_eq_true ((hlargest t).mpr ht))

omit [IsStrictOrderedRing K] in
/-- A row that is a number at its last unmasked position and zero at the others. -/
theorem unmasked_eq_terminalReward {m row : Fin T → K} {reward : K} {last : Fin T}
    (hlast : m last = 1) (hmax : ∀ t, m t = 1 → t ≤ last) (hrow : row last = reward)
    (hothers : ∀ t, t ≠ last → row t = 0) :
    unmasked m row = terminalReward reward (unmaskedPositions m (List.finRange T)).length := by
  rw [unmasked]
  obtain ⟨positions, hpositions⟩ : ∃ positions, positions =
    unmaskedPositions m (List.finRange T) := ⟨_, rfl⟩
  rw [← hpositions]
  have hmem : ∀ t, t ∈ positions ↔ m t = 1 := by
    intro t
    rw [hpositions, unmaskedPositions]
    simp
  have hsorted : positions.Pairwise (· < ·) := by
    rw [hpositions]
    exact (List.pairwise_lt_finRange T).filter _
  obtain ⟨init, final, rfl⟩ : ∃ init final, positions = init ++ [final] := by
    rcases List.eq_nil_or_concat' positions with hnil | ⟨init, final, h⟩
    · have hin := (hmem last).mpr hlast
      rw [hnil] at hin
      cases hin
    · exact ⟨init, final, h⟩
  have hbefore : ∀ t ∈ init, t < final := by
    intro t ht
    exact (List.pairwise_append.mp hsorted).2.2 t ht final (List.mem_singleton.mpr rfl)
  have hfinal : final = last := by
    refine le_antisymm (hmax final ((hmem final).mp (by simp))) ?_
    cases List.mem_append.mp ((hmem last).mpr hlast) with
    | inl hin => exact (hbefore last hin).le
    | inr hin => exact (List.mem_singleton.mp hin).le
  subst hfinal
  rw [List.length_append, List.length_singleton, terminalReward, List.map_append,
    List.map_singleton, hrow]
  congr 1
  refine List.eq_replicate_iff.mpr ⟨List.length_map .., fun x hx => ?_⟩
  obtain ⟨t, ht, rfl⟩ := List.mem_map.mp hx
  exact hothers t (hbefore t ht).ne

omit [IsStrictOrderedRing K] in
theorem klPenalty_eq_zero {config : KlRewardConfig K} {calculateKl : K → K → K}
    {logprobs referenceLogprobs : Option (Fin B → Fin T → K)}
    (h : ¬appliesKl config logprobs referenceLogprobs) :
    klPenalty config calculateKl logprobs referenceLogprobs = 0 := by
  cases logprobs with
  | none => rfl
  | some logprobs =>
    cases referenceLogprobs with
    | none => rfl
    | some referenceLogprobs => exact if_neg fun hkl => h ⟨hkl.1, hkl.2, rfl, rfl⟩

/-- Without the divergence the reward of a sample is at its last unmasked position. -/
theorem buildTokenLevelRewards_eq (config : KlRewardConfig K) (calculateKl : K → K → K)
    (rewards : Fin B → K) (mask : Fin B → Fin T → K)
    (logprobs referenceLogprobs : Option (Fin B → Fin T → K))
    (hkl : ¬appliesKl config logprobs referenceLogprobs)
    (hmask : ∀ i t, mask i t = 0 ∨ mask i t = 1) (hT : 0 < T) :
    ∃ tokenLevelRewards,
      buildTokenLevelRewards config calculateKl rewards mask logprobs referenceLogprobs =
        .ok tokenLevelRewards ∧
      ∀ i, unmasked (mask i) (tokenLevelRewards i) = terminalReward (rewards i)
        (unmaskedPositions (mask i) (List.finRange T)).length := by
  refine ⟨_, by rw [buildTokenLevelRewards, klPenalty_eq_zero hkl, if_neg hT.ne'], fun i => ?_⟩
  by_cases hone : ∃ t, mask i t = 1
  · obtain ⟨last, hidx, hlast, hmax⟩ := argmax_reverse_ofFn (hmask i) hone
    have hresponse : ∃ t, mask i t ≠ 0 := ⟨last, by rw [hlast]; exact one_ne_zero⟩
    refine unmasked_eq_terminalReward hlast hmax ?_ fun t ht => ?_
    · simp [hidx, hlast, hresponse]
    · have hne : (t : ℕ) ≠ last := fun h => ht (Fin.ext h)
      simp [hidx, hne]
  · have hnone : unmaskedPositions (mask i) (List.finRange T) = [] := by
      refine List.filter_eq_nil_iff.mpr fun t _ h => ?_
      exact hone ⟨t, of_decide_eq_true h⟩
    rw [unmasked, hnone]
    rfl

/-- At the unmasked positions of each row the advantages are those of these positions alone, and
the returns are the advantages with the values. With the rewards that are built without the
divergence the reward of a sample stands in that recursion once, at its end. -/
theorem gae_of_masked (gaeGamma : K) (lam : GaeLambda B K)
    (tokenLevelRewards values mask : Fin B → Fin T → K)
    (hmask : ∀ i t, mask i t = 0 ∨ mask i t = 1) (hT : 0 < T) :
    (∃ advantages returns,
      computeGae gaeGamma lam tokenLevelRewards values mask = .ok (advantages, returns) ∧
      (∀ i, unmasked (mask i) (advantages i) = gae gaeGamma (lam.get i)
        (unmasked (mask i) fun t => (tokenLevelRewards i t, values i t))) ∧
      ∀ i t, returns i t = advantages i t + values i t) ∧
    ∀ (config : KlRewardConfig K) (calculateKl : K → K → K) (rewards : Fin B → K)
      (logprobs referenceLogprobs : Option (Fin B → Fin T → K)),
      ¬appliesKl config logprobs referenceLogprobs →
      ∃ built advantages returns,
        buildTokenLevelRewards config calculateKl rewards mask logprobs referenceLogprobs =
          .ok built ∧
        computeGae gaeGamma lam built values mask = .ok (advantages, returns) ∧
        ∀ i, unmasked (mask i) (advantages i) = gae gaeGamma (lam.get i)
          ((terminalReward (rewards i) (unmasked (mask i) (values i)).length).zip
            (unmasked (mask i) (values i))) := by
  refine ⟨computeGae_eq gaeGamma lam tokenLevelRewards values mask hmask hT, ?_⟩
  intro config calculateKl rewards logprobs referenceLogprobs hkl
  obtain ⟨built, hbuilt, hterminal⟩ :=
    buildTokenLevelRewards_eq config calculateKl rewards mask logprobs referenceLogprobs hkl hmask
      hT
  obtain ⟨advantages, returns, hok, hadvantages, -⟩ :=
    computeGae_eq gaeGamma lam built values mask hmask hT
  refine ⟨built, advantages, returns, hbuilt, hok, fun i => ?_⟩
  have hzip : unmasked (mask i) (fun t => (built i t, values i t)) =
      (unmasked (mask i) (built i)).zip (unmasked (mask i) (values i)) := by
    rw [unmasked, unmasked, unmasked, List.zip_map']
  rw [hadvantages i, hzip, hterminal i, unmasked, List.length_map]

/-- A row with a masked position between two others and one behind. -/
theorem gae_of_masked_hole :
    let mask : Fin 1 → Fin 4 → ℚ := fun _ => ![1, 0, 1, 0]
    let values : Fin 1 → Fin 4 → ℚ := fun _ => ![2, 9, 4, 7]
    ∃ advantages returns,
      computeGae (1 / 2) (.scalar (1 / 2)) (fun _ => ![1, 8, 3, 5]) values mask =
        .ok (advantages, returns) ∧
      unmasked (mask 0) (advantages 0) = gae (1 / 2) (1 / 2) [(1, 2), (3, 4)] := by
  intro mask values
  obtain ⟨⟨advantages, returns, hok, hadvantages, -⟩, -⟩ := gae_of_masked (1 / 2)
    (.scalar (1 / 2)) (fun _ => ![1, 8, 3, 5]) values mask (by decide) (by decide)
  exact ⟨advantages, returns, hok, hadvantages 0⟩

end Rewards

end NemoRL.Algorithms
