import NemoRL.Data.PackingTotal

/-!
# The bins of the leftovers

The last phase of the modified first-fit decreasing packer replaces a first-fit loop. It puts a
leftover into a least loaded bin, where the first-fit loop takes the first bin with room, and so
it can run out of room earlier. Both loops are compared leftover by leftover.

## Main definitions

* `leftoverBins`, `originalFfdBins` — the last phase, and the loop that it replaces.
* `UsesLeastLoaded`, `KeepsRoom` — when the choice of the bin does no harm.

## Main results

* `leftoverBins_le` — the last phase then opens no more bins.
-/

namespace NemoRL.Data.Packing

open Lib

/-- Phase 5: the bins of the leftovers that are not empty. -/
def leftoverBins (cap : ℕ) (leftovers : List Item) : Except PyError (List (List Item)) := do
  let ffdBins ← (sortDescending leftovers).foldlM (ffdStep cap) [([], 0)]
  return (ffdBins.map Prod.fst).filter fun b => !b.isEmpty

/-- The original placement: the first bin with room, or a new one. -/
def placeOriginal (cap : ℕ) (it : Item) : List (List Item) → List (List Item)
  | [] => [[it]]
  | b :: bins =>
    if it.2 + load Prod.snd b ≤ cap then (b ++ [it]) :: bins
    else b :: placeOriginal cap it bins

/-- The original loop over leftovers in a given order. -/
def placeAllOriginal (cap : ℕ) (items : List Item) : List (List Item) :=
  items.foldl (fun bins it => placeOriginal cap it bins) []

/-- The original bins of the leftovers. -/
def originalFfdBins (cap : ℕ) (leftovers : List Item) : List (List Item) :=
  placeAllOriginal cap (sortDescending leftovers)

/-- Some bin has room for an item. -/
def HasRoom (cap : ℕ) (bins : List (List Item)) (it : Item) : Prop :=
  ∃ b ∈ bins, it.2 + load Prod.snd b ≤ cap

/-- The first bin with room is always a least loaded one. -/
def UsesLeastLoaded (cap : ℕ) (items : List Item) : Prop :=
  ∀ pre it post, items = pre ++ it :: post →
    ∀ l b r, placeAllOriginal cap pre = l ++ b :: r → (∀ c ∈ l, cap < it.2 + load Prod.snd c) →
      it.2 + load Prod.snd b ≤ cap → ∀ c ∈ l ++ b :: r, load Prod.snd b ≤ load Prod.snd c

/-- Whenever the original loop finds room for an item, it has always used a least loaded bin so
far, or the items before it cannot be packed into as many bins such that none has room. -/
def KeepsRoom (cap : ℕ) (items : List Item) : Prop :=
  ∀ pre it post, items = pre ++ it :: post → HasRoom cap (placeAllOriginal cap pre) it →
    UsesLeastLoaded cap pre ∨
      ∀ bins, IsPacking Prod.snd cap pre bins → [] ∉ bins →
        bins.length = (placeAllOriginal cap pre).length → HasRoom cap bins it

/-- The last phase of a call, in which the bins of the phases before come first. -/
theorem modifiedFirstFitDecreasingPack_eq {cap : ℕ} {lens : List ℕ} (hcap : cap ≠ 0)
    (hpos : ¬ lens.any (· = 0)) (hvalid : validateSequenceLengths cap lens = .ok ()) :
    modifiedFirstFitDecreasingPack cap lens =
      (leftoverBins cap (refillLargeBins cap (lens.zipIdx.map Prod.swap)).2).map fun ffdBins =>
        (((refillLargeBins cap (lens.zipIdx.map Prod.swap)).1.filter fun b => !b.isEmpty) ++
          ffdBins).map (List.map Prod.fst) := by
  rw [modifiedFirstFitDecreasingPack, if_neg hcap, if_neg hpos, hvalid]
  simp only [leftoverBins, bind, Except.bind]
  split
  · rfl
  · simp [pure, Except.pure, Except.map, List.filter_append]

/-! ## One leftover -/

section Step
variable {cap : ℕ} {items : List Item} {it : Item}

theorem placeAllOriginal_snoc (cap : ℕ) (items : List Item) (it : Item) :
    placeAllOriginal cap (items ++ [it]) = placeOriginal cap it (placeAllOriginal cap items) := by
  simp [placeAllOriginal]

/-- The original loop takes the first bin with room. -/
theorem placeOriginal_of_hasRoom {bins : List (List Item)} (h : HasRoom cap bins it) :
    ∃ l b r, bins = l ++ b :: r ∧ (∀ c ∈ l, cap < it.2 + load Prod.snd c) ∧
      it.2 + load Prod.snd b ≤ cap ∧ placeOriginal cap it bins = l ++ (b ++ [it]) :: r := by
  induction bins with
  | nil =>
    obtain ⟨b, hb, -⟩ := h
    exact absurd hb List.not_mem_nil
  | cons b bins ih =>
    by_cases hfits : it.2 + load Prod.snd b ≤ cap
    · refine ⟨[], b, bins, rfl, by simp, hfits, ?_⟩
      rw [placeOriginal, if_pos hfits]
      rfl
    · have htail : HasRoom cap bins it := by
        obtain ⟨c, hc, hroom⟩ := h
        rcases List.mem_cons.mp hc with rfl | hc
        · exact absurd hroom hfits
        · exact ⟨c, hc, hroom⟩
      obtain ⟨l, c, r, rfl, hfull, hroom, hplace⟩ := ih htail
      refine ⟨b :: l, c, r, rfl, fun d hd => ?_, hroom, ?_⟩
      · rcases List.mem_cons.mp hd with rfl | hd
        · exact not_le.mp hfits
        · exact hfull d hd
      · rw [placeOriginal, if_neg hfits, hplace]
        rfl

/-- Without room, it opens a bin. -/
theorem placeOriginal_of_not_hasRoom {bins : List (List Item)} (h : ¬ HasRoom cap bins it) :
    placeOriginal cap it bins = bins ++ [[it]] := by
  induction bins with
  | nil => rfl
  | cons b bins ih =>
    have hfits : ¬ it.2 + load Prod.snd b ≤ cap := fun hfits => h ⟨b, List.mem_cons_self, hfits⟩
    have htail : ¬ HasRoom cap bins it := fun ⟨c, hc, hroom⟩ =>
      h ⟨c, List.mem_cons_of_mem b hc, hroom⟩
    rw [placeOriginal, if_neg hfits, ih htail]
    rfl

/-- The bins of the last phase: they pack the items, none is empty, and they are sorted by their
sizes. -/
structure LeftoverState (cap : ℕ) (items : List Item) (bins : List (List Item × ℕ)) : Prop where
  inv : FfdInv cap items bins
  nonempty : ∀ p ∈ bins, p.1 ≠ []
  sorted : bins.Pairwise fun p q => p.2 ≤ q.2

/-- A bin put where the sizes ask for it leaves the bins sorted. -/
theorem insertIdx_sorted {bins : List (List Item × ℕ)} (p : List Item × ℕ)
    (h : bins.Pairwise fun p q => p.2 ≤ q.2) :
    (bins.insertIdx (bins.takeWhile fun q => decide (q.2 ≤ p.2)).length p).Pairwise
      fun p q => p.2 ≤ q.2 := by
  induction bins with
  | nil => simp
  | cons q bins ih =>
    rw [List.pairwise_cons] at h
    by_cases hle : q.2 ≤ p.2
    · rw [List.takeWhile_cons_of_pos (by simpa using hle), List.length_cons,
        List.insertIdx_succ_cons, List.pairwise_cons]
      refine ⟨fun r hr => ?_, ih h.2⟩
      rcases List.eq_or_mem_of_mem_insertIdx hr with rfl | hr
      · exact hle
      · exact h.1 r hr
    · rw [List.takeWhile_cons_of_neg (by simpa using hle), List.length_nil,
        List.insertIdx_zero, List.pairwise_cons, List.pairwise_cons]
      refine ⟨fun r hr => ?_, h⟩
      rcases List.mem_cons.mp hr with rfl | hr
      · omega
      · have hq := h.1 r hr
        omega

theorem LeftoverState.loads_eq {bins : List (List Item × ℕ)} (h : LeftoverState cap items bins) :
    (bins.map Prod.fst).map (load Prod.snd) = bins.map Prod.snd := by
  rw [List.map_map]
  exact List.map_congr_left h.inv.size

theorem hasRoom_iff_loads {bins : List (List Item)} :
    HasRoom cap bins it ↔ ∃ m ∈ bins.map (load Prod.snd), it.2 + m ≤ cap := by
  simp [HasRoom]

/-- What the last phase does with a leftover: if some bin has room, a least loaded one takes it,
and otherwise a new bin is opened. -/
theorem ffdStep_leftover {bins : List (List Item × ℕ)} (hcap : it.2 ≤ cap)
    (h : LeftoverState cap items bins) (hne : bins ≠ []) :
    ∃ bins', ffdStep cap bins it = .ok bins' ∧ LeftoverState cap (items ++ [it]) bins' ∧
      (HasRoom cap (bins.map Prod.fst) it → ∃ m loads, (bins.map Prod.snd).Perm (m :: loads) ∧
        (∀ x ∈ loads, m ≤ x) ∧ (bins'.map Prod.snd).Perm ((m + it.2) :: loads)) ∧
      (¬ HasRoom cap (bins.map Prod.fst) it →
        (bins'.map Prod.snd).Perm (it.2 :: bins.map Prod.snd)) := by
  obtain ⟨⟨b, size⟩, rest, rfl⟩ := List.exists_cons_of_ne_nil hne
  have hsorted := List.pairwise_cons.mp h.sorted
  have hroom : HasRoom cap (((b, size) :: rest).map Prod.fst) it ↔ it.2 + size ≤ cap := by
    rw [hasRoom_iff_loads, h.loads_eq]
    refine ⟨fun ⟨m, hm, hfits⟩ => ?_, fun hfits => ⟨size, List.mem_cons_self, hfits⟩⟩
    rcases List.mem_cons.mp hm with rfl | hm
    · exact hfits
    · obtain ⟨p, hp, rfl⟩ := List.mem_map.mp hm
      have hle := hsorted.1 p hp
      dsimp only at hle
      omega
  have hinsert : ∀ (others : List (List Item × ℕ)) (p : List Item × ℕ),
      (others.insertIdx (others.takeWhile fun q => decide (q.2 ≤ p.2)).length p).Perm
        (p :: others) := fun others p =>
    List.perm_insertIdx _ _ (List.takeWhile_sublist _).length_le
  have hinv : ∀ bins', ffdStep cap ((b, size) :: rest) it = .ok bins' →
      FfdInv cap (items ++ [it]) bins' := by
    intro bins' hstep
    have hnext := ffdStep_inv hcap h.inv hstep
    exact ⟨hnext.packing.of_perm (List.perm_append_singleton it items).symm, hnext.size⟩
  by_cases hfits : it.2 + size ≤ cap
  · have hstep : ffdStep cap ((b, size) :: rest) it = .ok (rest.insertIdx
        (rest.takeWhile fun q => decide (q.2 ≤ size + it.2)).length (b ++ [it], size + it.2)) := by
      simp only [ffdStep, if_pos hfits]
    have hperm := hinsert rest (b ++ [it], size + it.2)
    refine ⟨_, hstep, ⟨hinv _ hstep, fun p hp => ?_, ?_⟩, fun _ => ?_, fun hno => ?_⟩
    · rcases List.mem_cons.mp (hperm.mem_iff.mp hp) with rfl | hp
      · simp
      · exact h.nonempty p (List.mem_cons_of_mem _ hp)
    · exact insertIdx_sorted (b ++ [it], size + it.2) hsorted.2
    · refine ⟨size, rest.map Prod.snd, .refl _, fun x hx => ?_, hperm.map Prod.snd⟩
      obtain ⟨p, hp, rfl⟩ := List.mem_map.mp hx
      exact hsorted.1 p hp
    · exact absurd (hroom.mpr hfits) hno
  · have hstep : ffdStep cap ((b, size) :: rest) it = .ok (((b, size) :: rest).insertIdx
        (((b, size) :: rest).takeWhile fun q => decide (q.2 ≤ it.2)).length ([it], it.2)) := by
      simp only [ffdStep, if_neg hfits, Nat.zero_add]
      rfl
    have hperm := hinsert ((b, size) :: rest) ([it], it.2)
    refine ⟨_, hstep, ⟨hinv _ hstep, fun p hp => ?_, ?_⟩, fun hyes => ?_, fun _ => ?_⟩
    · rcases List.mem_cons.mp (hperm.mem_iff.mp hp) with rfl | hp
      · simp
      · exact h.nonempty p hp
    · exact insertIdx_sorted ([it], it.2) h.sorted
    · exact absurd (hroom.mp hyes) hfits
    · exact hperm.map Prod.snd

/-- How the bins of both loops compare after the same items: there are no more of them, and while
the original loop uses least loaded bins they have the same loads. -/
structure Compares (cap : ℕ) (items : List Item) (bins : List (List Item × ℕ)) : Prop where
  length : bins.length ≤ (placeAllOriginal cap items).length
  loads : UsesLeastLoaded cap items →
    (bins.map Prod.snd).Perm ((placeAllOriginal cap items).map (load Prod.snd))

theorem UsesLeastLoaded.of_snoc (h : UsesLeastLoaded cap (items ++ [it])) :
    UsesLeastLoaded cap items :=
  fun pre other post hsplit => h pre other (post ++ [it]) (by rw [hsplit]; simp)

/-- A least loaded bin takes the item in both loops. -/
theorem loads_perm_of_hasRoom {m : ℕ} {loads loads' : List ℕ}
    (hleast : UsesLeastLoaded cap (items ++ [it]))
    (hroom : HasRoom cap (placeAllOriginal cap items) it)
    (hsame : (m :: loads).Perm ((placeAllOriginal cap items).map (load Prod.snd)))
    (hmin : ∀ x ∈ loads, m ≤ x) (hnew : loads'.Perm ((m + it.2) :: loads)) :
    loads'.Perm ((placeAllOriginal cap (items ++ [it])).map (load Prod.snd)) := by
  obtain ⟨l, b, r, hbins, hfull, hfits, hplace⟩ := placeOriginal_of_hasRoom hroom
  have hb := hleast items it [] rfl l b r hbins hfull hfits
  rw [hbins, List.map_append, List.map_cons] at hsame
  have hmb : load Prod.snd b = m := by
    refine le_antisymm ?_ ?_
    · have hm : m ∈ (l ++ b :: r).map (load Prod.snd) := by
        rw [List.map_append, List.map_cons]
        exact hsame.mem_iff.mp List.mem_cons_self
      obtain ⟨c, hc, rfl⟩ := List.mem_map.mp hm
      exact hb c hc
    · rcases List.mem_cons.mp (hsame.mem_iff.mpr (List.mem_append_right _ List.mem_cons_self))
        with heq | hmem
      · exact heq.ge
      · exact hmin _ hmem
  have hrest : loads.Perm (l.map (load Prod.snd) ++ r.map (load Prod.snd)) := by
    rw [hmb] at hsame
    exact (hsame.trans List.perm_middle).cons_inv
  have hload : load Prod.snd (b ++ [it]) = m + it.2 := by
    rw [load_append, load_cons, load_nil, hmb, Nat.add_zero]
  rw [placeAllOriginal_snoc, hplace, List.map_append, List.map_cons, hload]
  exact hnew.trans ((hrest.cons _).trans List.perm_middle.symm)

/-- One leftover in both loops. -/
theorem leftover_step {bins : List (List Item × ℕ)} (hcap : it.2 ≤ cap)
    (h : LeftoverState cap items bins) (hne : bins ≠ []) (hcompares : Compares cap items bins)
    (hkeeps : HasRoom cap (placeAllOriginal cap items) it → UsesLeastLoaded cap items ∨
      ∀ bins, IsPacking Prod.snd cap items bins → [] ∉ bins →
        bins.length = (placeAllOriginal cap items).length → HasRoom cap bins it) :
    ∃ bins', ffdStep cap bins it = .ok bins' ∧ LeftoverState cap (items ++ [it]) bins' ∧
      bins' ≠ [] ∧ Compares cap (items ++ [it]) bins' := by
  obtain ⟨bins', hstep, hstate, hyes, hno⟩ := ffdStep_leftover hcap h hne
  have hsame : UsesLeastLoaded cap items →
      (HasRoom cap (bins.map Prod.fst) it ↔ HasRoom cap (placeAllOriginal cap items) it) := by
    intro hleast
    rw [hasRoom_iff_loads, hasRoom_iff_loads, h.loads_eq]
    simp only [(hcompares.loads hleast).mem_iff]
  refine ⟨bins', hstep, hstate, ?_, ?_⟩
  · rintro rfl
    by_cases hroom : HasRoom cap (bins.map Prod.fst) it
    · obtain ⟨m, loads, -, -, hnew⟩ := hyes hroom
      exact absurd hnew.length_eq (by simp)
    · exact absurd (hno hroom).length_eq (by simp)
  by_cases hroom : HasRoom cap (bins.map Prod.fst) it
  · obtain ⟨m, loads, hold, hmin, hnew⟩ := hyes hroom
    have hlength : bins'.length = bins.length := by
      have hold' := hold.length_eq
      have hnew' := hnew.length_eq
      simp only [List.length_map, List.length_cons] at hold' hnew'
      omega
    refine ⟨?_, fun hleast => ?_⟩
    · refine hlength.le.trans (hcompares.length.trans ?_)
      rw [placeAllOriginal_snoc]
      by_cases horig : HasRoom cap (placeAllOriginal cap items) it
      · obtain ⟨l, b, r, hbins, -, -, hplace⟩ := placeOriginal_of_hasRoom horig
        rw [hplace, hbins]
        simp
      · rw [placeOriginal_of_not_hasRoom horig]
        simp
    · exact loads_perm_of_hasRoom hleast ((hsame hleast.of_snoc).mp hroom)
        (hold.symm.trans (hcompares.loads hleast.of_snoc)) hmin hnew
  · have hnew := hno hroom
    have hlength : bins'.length = bins.length + 1 := by simpa using hnew.length_eq
    by_cases horig : HasRoom cap (placeAllOriginal cap items) it
    · -- Only the last phase opens a bin, so that it had fewer before.
      rcases hkeeps horig with hleast | hpackings
      · exact absurd ((hsame hleast).mpr horig) hroom
      have hfewer : bins.length ≠ (placeAllOriginal cap items).length := by
        intro heq
        refine hroom (hpackings _ h.inv.packing (fun hnil => ?_) (by rwa [List.length_map]))
        obtain ⟨p, hp, hpnil⟩ := List.mem_map.mp hnil
        exact h.nonempty p hp hpnil
      obtain ⟨l, b, r, hbins, -, -, hplace⟩ := placeOriginal_of_hasRoom horig
      refine ⟨?_, fun hleast => absurd ((hsame hleast.of_snoc).mpr horig) hroom⟩
      have hle := hcompares.length
      rw [hbins] at hle hfewer
      rw [placeAllOriginal_snoc, hplace, hlength]
      simp only [List.length_append, List.length_cons] at *
      omega
    · have hopens : placeAllOriginal cap (items ++ [it]) =
          placeAllOriginal cap items ++ [[it]] := by
        rw [placeAllOriginal_snoc, placeOriginal_of_not_hasRoom horig]
      refine ⟨?_, fun hleast => ?_⟩
      · rw [hlength, hopens, List.length_append]
        exact Nat.add_le_add_right hcompares.length 1
      · rw [hopens, List.map_append]
        refine (hnew.trans ((hcompares.loads hleast.of_snoc).cons _)).trans ?_
        exact (List.perm_append_singleton it.2 _).symm

end Step

/-! ## All leftovers -/

/-- Both loops over the same items, by induction on the items seen. -/
theorem leftover_run {cap : ℕ} {items : List Item} (hcap : ∀ it ∈ items, it.2 ≤ cap)
    (hkeeps : KeepsRoom cap items) (hne : items ≠ []) :
    ∃ bins, items.foldlM (ffdStep cap) [([], 0)] = .ok bins ∧ LeftoverState cap items bins ∧
      bins ≠ [] ∧ Compares cap items bins := by
  induction items using List.reverseRecOn with
  | nil => exact absurd rfl hne
  | append_singleton items it ih =>
    have hit : it.2 ≤ cap := hcap it (by simp)
    rw [List.foldlM_append]
    rcases eq_or_ne items [] with rfl | hitems
    · -- The first leftover goes into the empty bin at hand.
      have hstep : ffdStep cap [([], 0)] it = .ok [([it], it.2)] := by
        simp [ffdStep, hit]
      have hinit : FfdInv cap [] [([], 0)] := ⟨⟨by simp, by simp⟩, by simp⟩
      refine ⟨[([it], it.2)], ?_, ⟨ffdStep_inv hit hinit hstep, by simp, by simp⟩, by simp, ?_⟩
      · simp only [List.foldlM_nil, List.foldlM_cons, pure_bind, hstep]
        rfl
      · refine ⟨?_, fun _ => ?_⟩ <;> simp [placeAllOriginal, placeOriginal]
    · have hstart : KeepsRoom cap items := fun pre other post hsplit =>
        hkeeps pre other (post ++ [it]) (by rw [hsplit]; simp)
      obtain ⟨bins, hrun, hstate, hbins, hcompares⟩ :=
        ih (fun other hother => hcap other (by simp [hother])) hstart hitems
      obtain ⟨bins', hstep, hnext⟩ :=
        leftover_step hit hstate hbins hcompares (hkeeps items it [] rfl)
      refine ⟨bins', ?_, hnext⟩
      simp only [hrun, List.foldlM_cons, List.foldlM_nil, bind, Except.bind, hstep]
      rfl

/-- If the original loop keeps room for the leftovers, the last phase opens no more bins than it
did. -/
theorem leftoverBins_le {cap : ℕ} {leftovers : List Item} (hcap : ∀ it ∈ leftovers, it.2 ≤ cap)
    (hkeeps : KeepsRoom cap (sortDescending leftovers)) :
    ∃ bins, leftoverBins cap leftovers = .ok bins ∧
      bins.length ≤ (originalFfdBins cap leftovers).length := by
  unfold leftoverBins originalFfdBins
  rcases eq_or_ne (sortDescending leftovers) [] with hnil | hne
  · rw [hnil]
    exact ⟨_, rfl, le_rfl⟩
  · obtain ⟨bins, hrun, -, -, hcompares⟩ := leftover_run
      (fun it hit => hcap it ((sortDescending_perm leftovers).mem_iff.mp hit)) hkeeps hne
    rw [hrun]
    refine ⟨_, rfl, ?_⟩
    refine (List.filter_sublist.length_le).trans ?_
    rw [List.length_map]
    exact hcompares.length

/-- Items that fit in one bin are put in one bin. -/
theorem length_placeAllOriginal_le_one {cap : ℕ} {items : List Item}
    (h : load Prod.snd items ≤ cap) : (placeAllOriginal cap items).length ≤ 1 := by
  have hbins : placeAllOriginal cap items = if items = [] then [] else [items] := by
    induction items using List.reverseRecOn with
    | nil => rfl
    | append_singleton items it ih =>
      rw [load_append, load_cons, load_nil] at h
      have hsnoc : items ++ [it] ≠ [] := by simp
      rw [placeAllOriginal_snoc, ih (by omega), if_neg hsnoc]
      rcases eq_or_ne items [] with rfl | hne
      · rfl
      · rw [if_neg hne, placeOriginal, if_pos (by omega)]
  rw [hbins]
  split <;> simp

/-- For items that fit in one bin the choice of the bin does no harm. -/
theorem keepsRoom_of_load_le {cap : ℕ} {items : List Item} (h : load Prod.snd items ≤ cap) :
    KeepsRoom cap items := by
  rintro pre it post rfl -
  refine Or.inl ?_
  rintro pre other post' rfl l b r hbins - - c hc
  simp only [load_append] at h
  have hone := @length_placeAllOriginal_le_one cap pre (by omega)
  rw [hbins, List.length_append, List.length_cons] at hone
  obtain rfl : l = [] := List.length_eq_zero_iff.mp (by omega)
  obtain rfl : r = [] := List.length_eq_zero_iff.mp (by omega)
  rw [List.mem_singleton.mp hc]

/-- Three leftovers of a half, a third and a sixth of the capacity. -/
theorem leftoverBins_three : ∃ bins, leftoverBins 6 [(0, 3), (1, 2), (2, 1)] = .ok bins ∧
    bins.length ≤ (originalFfdBins 6 [(0, 3), (1, 2), (2, 1)]).length :=
  leftoverBins_le (by decide) (keepsRoom_of_load_le (by decide))

/-- Seven leftovers for which the original loop fills two bins and the last phase opens three. -/
theorem leftoverBins_seven :
    leftoverBins 11 [(0, 4), (1, 4), (2, 4), (3, 3), (4, 3), (5, 2), (6, 2)] =
        .ok [[(6, 2)], [(2, 4), (3, 3), (4, 3)], [(0, 4), (1, 4), (5, 2)]] ∧
      originalFfdBins 11 [(0, 4), (1, 4), (2, 4), (3, 3), (4, 3), (5, 2), (6, 2)] =
        [[(0, 4), (1, 4), (3, 3)], [(2, 4), (4, 3), (5, 2), (6, 2)]] ∧
      modifiedFirstFitDecreasingPack 11 [4, 4, 4, 3, 3, 2, 2] =
        .ok [[6], [2, 3, 4], [0, 1, 5]] := by
  refine ⟨?_, ?_, ?_⟩
  · rfl
  · rfl
  · rw [modifiedFirstFitDecreasingPack_eq (by decide) (by decide) rfl]
    rfl

end NemoRL.Data.Packing
