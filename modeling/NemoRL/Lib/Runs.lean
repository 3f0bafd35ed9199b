import Mathlib.Data.Finset.Dedup
import Mathlib.Data.Finset.Insert
import Mathlib.Data.List.Sort
import Mathlib.Data.Finset.Card

/-!
# Runs of equal labels

The items of a list are labelled. They are contiguous when no item comes between two items of
another label. A list that is sorted is contiguous for the labels that the order separates, and
of a contiguous list whose labels have the same number of items each, a prefix of as many times
this number holds all items of some labels and none of the others.

## Main definitions

* `sortOn` — sort by a key.
* `Contiguous` — the items of each label follow each other.

## Main results

* `contiguous_of_pairwise` — sorted lists are contiguous.
* `take_mul_runs` — a prefix of whole runs.
-/

namespace NemoRL.Lib

variable {α κ ω : Type*}

/-! ## Sorting by a key -/

section Sorting
variable [LinearOrder ω] {key : α → ω} {l : List α}

/-- Sort by a key. Items with one key keep their order. -/
def sortOn (key : α → ω) (l : List α) : List α :=
  l.insertionSort fun a b => key a ≤ key b

theorem sortOn_perm (key : α → ω) (l : List α) : (sortOn key l).Perm l :=
  List.perm_insertionSort ..

theorem pairwise_sortOn (key : α → ω) (l : List α) :
    (sortOn key l).Pairwise fun a b => key a ≤ key b := by
  have htotal : Std.Total fun a b : α => key a ≤ key b := ⟨fun a b => le_total (key a) (key b)⟩
  have htrans : IsTrans α fun a b => key a ≤ key b := ⟨fun a b c => le_trans⟩
  exact List.pairwise_insertionSort _ l

end Sorting

/-! ## Contiguous items -/

/-- The items of each label follow each other. -/
def Contiguous (label : α → κ) (l : List α) : Prop :=
  ∀ a b c, [a, b, c].Sublist l → label a = label c → label b = label a

section Contiguous
variable {label : α → κ} {l : List α}

theorem Contiguous.sublist (h : Contiguous label l) {l' : List α} (hsub : l'.Sublist l) :
    Contiguous label l' :=
  fun a b c habc => h a b c (habc.trans hsub)

/-- Sorted items are contiguous when no other label is between two items of one label. -/
theorem contiguous_of_pairwise {r : α → α → Prop} (hl : l.Pairwise r)
    (h : ∀ a ∈ l, ∀ b ∈ l, ∀ c ∈ l, r a b → r b c → label a = label c → label b = label a) :
    Contiguous label l := by
  intro a b c hsub hac
  have hmem : ∀ x ∈ [a, b, c], x ∈ l := fun x hx => hsub.subset hx
  have hsorted := hl.sublist hsub
  simp only [List.pairwise_cons, List.mem_cons, List.not_mem_nil, or_false] at hsorted
  obtain ⟨ha, hb, -⟩ := hsorted
  exact h a (hmem a (by simp)) b (hmem b (by simp)) c (hmem c (by simp)) (ha b (.inl rfl))
    (hb c rfl) hac

/-- Labels that tell the same items apart. -/
theorem Contiguous.congr {ρ : Type*} {label' : α → ρ} (h : Contiguous label l)
    (heq : ∀ a ∈ l, ∀ b ∈ l, label' a = label' b ↔ label a = label b) : Contiguous label' l := by
  intro a b c hsub hac
  have ha : a ∈ l := hsub.subset (by simp)
  have hb : b ∈ l := hsub.subset (by simp)
  have hc : c ∈ l := hsub.subset (by simp)
  exact (heq b hb a ha).mpr (h a b c hsub ((heq a ha c hc).mp hac))

theorem Contiguous.map {β : Type*} {f : β → α} {l : List β}
    (h : Contiguous (fun x => label (f x)) l) : Contiguous label (l.map f) := by
  intro a b c hsub hac
  obtain ⟨l', hsub', hmap⟩ := List.sublist_map_iff.mp hsub
  obtain ⟨x, _, rfl, rfl, hx⟩ := List.map_eq_cons_iff.mp hmap.symm
  obtain ⟨y, _, rfl, rfl, hy⟩ := List.map_eq_cons_iff.mp hx
  obtain ⟨z, _, rfl, rfl, hz⟩ := List.map_eq_cons_iff.mp hy
  obtain rfl := List.map_eq_nil_iff.mp hz
  exact h x y z hsub' hac

/-- Items that have a property and come before those that have it not. -/
theorem filter_append_filter_not {p : α → Bool} (h : l.Pairwise fun a b => p b → p a) :
    l.filter p ++ (l.filter fun a => !p a) = l := by
  induction l with
  | nil => rfl
  | cons a l ih =>
    obtain ⟨ha, hl⟩ := List.pairwise_cons.mp h
    cases hp : p a with
    | true => rw [List.filter_cons_of_pos hp, List.filter_cons_of_neg (by simp [hp]),
        List.cons_append, ih hl]
    | false =>
      have hnone : l.filter p = [] := by
        rw [List.filter_eq_nil_iff]
        intro b hb hpb
        rw [ha b hb hpb] at hp
        cases hp
      have hall : (l.filter fun a => !p a) = l := by
        rw [List.filter_eq_self]
        intro b hb
        by_contra hpb
        rw [ha b hb (by simpa using hpb)] at hp
        cases hp
      rw [List.filter_cons_of_neg (by simp [hp]), List.filter_cons_of_pos (by simp [hp]), hnone,
        hall, List.nil_append]

variable [DecidableEq κ]

/-- The first run of a contiguous list. -/
theorem Contiguous.filter_append (h : Contiguous label l) {a : α} {rest : List α}
    (hl : l = a :: rest) :
    (l.filter fun x => decide (label x = label a)) ++
      (l.filter fun x => !decide (label x = label a)) = l := by
  apply filter_append_filter_not
  subst hl
  refine List.pairwise_cons.mpr ⟨fun b _ _ => by simp, ?_⟩
  rw [List.pairwise_iff_forall_sublist]
  intro x y hxy hy
  simp only [decide_eq_true_eq] at hy ⊢
  exact h a x y (hxy.cons_cons a) hy.symm

/-- A prefix of whole runs: with `k` items of each label, the first `u * k` items hold all items
of a label or none, and those of `u` labels if there are as many. -/
theorem take_mul_runs (hc : Contiguous label l) {k : ℕ}
    (hk : ∀ a ∈ l, (l.filter fun x => decide (label x = label a)).length = k) (u : ℕ) :
    (∀ a ∈ l.take (u * k), ∀ b ∈ l, label a = label b → b ∈ l.take (u * k)) ∧
      ((l.take (u * k)).map label).toFinset.card = min u (l.map label).toFinset.card := by
  induction u generalizing l with
  | zero => simp
  | succ u ih =>
    cases hl : l with
    | nil => simp
    | cons a rest =>
      rw [← hl]
      have ha : a ∈ l := by rw [hl]; exact List.mem_cons_self
      have hsplit := hc.filter_append hl
      have hlength := hk a ha
      obtain ⟨run, hrun⟩ : ∃ run, run = l.filter fun x => decide (label x = label a) := ⟨_, rfl⟩
      obtain ⟨others, hothers⟩ : ∃ others,
          others = l.filter fun x => !decide (label x = label a) := ⟨_, rfl⟩
      rw [← hrun, ← hothers] at hsplit
      rw [← hrun] at hlength
      have hmemRun : ∀ x, x ∈ run ↔ x ∈ l ∧ label x = label a := by
        intro x
        rw [hrun, List.mem_filter, decide_eq_true_eq]
      have hmemOthers : ∀ x, x ∈ others ↔ x ∈ l ∧ label x ≠ label a := by
        intro x
        rw [hothers, List.mem_filter]
        simp
      have hothersSub : others.Sublist l := hothers ▸ List.filter_sublist
      -- a label of the others has all its items among them
      have hkOthers : ∀ b ∈ others,
          (others.filter fun x => decide (label x = label b)).length = k := by
        intro b hb
        obtain ⟨hbl, hba⟩ := (hmemOthers b).mp hb
        rw [← hk b hbl, hothers, List.filter_filter]
        refine congrArg List.length (List.filter_congr fun x _ => ?_)
        by_cases hx : label x = label b
        · simp [hx, hba]
        · simp [hx]
      have htake : l.take ((u + 1) * k) = run ++ others.take (u * k) := by
        conv_lhs => rw [← hsplit]
        rw [Nat.succ_mul, Nat.add_comm, ← hlength, List.take_length_add_append]
      have hlabels : ∀ t ⊆ others, ((run ++ t).map label).toFinset.card =
          (t.map label).toFinset.card + 1 := by
        intro t ht
        have hinsert : ((run ++ t).map label).toFinset =
            insert (label a) (t.map label).toFinset := by
          ext c
          simp only [List.map_append, List.toFinset_append, Finset.mem_union, List.mem_toFinset,
            Finset.mem_insert, List.mem_map]
          refine or_congr_left ⟨?_, ?_⟩
          · rintro ⟨x, hx, rfl⟩
            exact ((hmemRun x).mp hx).2
          · rintro rfl
            exact ⟨a, (hmemRun a).mpr ⟨ha, rfl⟩, rfl⟩
        have hnotMem : label a ∉ (t.map label).toFinset := by
          rw [List.mem_toFinset, List.mem_map]
          rintro ⟨x, hx, hxa⟩
          exact ((hmemOthers x).mp (ht hx)).2 hxa
        rw [hinsert, Finset.card_insert_of_notMem hnotMem]
      obtain ⟨hwhole, hcard⟩ := ih (hc.sublist hothersSub) hkOthers
      rw [htake]
      constructor
      · intro x hx y hy hxy
        rw [List.mem_append] at hx ⊢
        cases hx with
        | inl hx => exact .inl ((hmemRun y).mpr ⟨hy, hxy ▸ ((hmemRun x).mp hx).2⟩)
        | inr hx =>
          have hxa := ((hmemOthers x).mp (List.mem_of_mem_take hx)).2
          exact .inr (hwhole x hx y ((hmemOthers y).mpr ⟨hy, hxy ▸ hxa⟩) hxy)
      · have hall := hlabels others fun _ hx => hx
        rw [hsplit] at hall
        rw [hlabels _ (List.take_subset _ _), hcard, hall]
        omega

end Contiguous

end NemoRL.Lib
