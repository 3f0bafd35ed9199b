import NemoRL.Lib.Select
import Mathlib.Data.List.Flatten
import Mathlib.Data.Int.CardIntervalMod

/-!
# Distributing a list over classes

A list is dealt out to `k` classes by a key. Each class gets a sublist, and the
classes together get every element once. Dealing in turn, by the position modulo
`k`, is the round-robin case, and it is fair when `k` divides the length.

A program that deals out elements in one loop, updating the accumulator of the class
of each element, computes for each class the loop over its own elements.

## Main definitions

* `stride l k i` — the elements at the positions that are `i` modulo `k`.
* `scatterFold` — one loop that updates the accumulator of each element's class.

## Main results

* `flatMap_filter_perm`, `flatMap_stride_perm` — the classes make up the list.
* `length_stride` — dealing in turn is fair.
* `getElem?_scatterFold` — what the loop leaves in each accumulator.
-/

namespace NemoRL.Lib

variable {α β : Type*}

/-! ## Classes by a key -/

private theorem flatMap_cons_at (f : ℕ → List α) (x : α) {s k : ℕ} (hs : s < k) :
    ((List.range k).flatMap fun i => if s = i then x :: f i else f i).Perm
      (x :: (List.range k).flatMap f) := by
  induction k with
  | zero => omega
  | succ k ih =>
    rw [List.range_succ, List.flatMap_append, List.flatMap_append]
    by_cases hk : s = k
    · have hsame : (List.range k).flatMap (fun i => if s = i then x :: f i else f i) =
          (List.range k).flatMap f := by
        apply List.flatMap_congr
        intro i hi
        rw [if_neg (by have := List.mem_range.mp hi; omega)]
      rw [hsame, List.flatMap_singleton, List.flatMap_singleton, if_pos hk]
      exact List.perm_middle
    · simp only [List.flatMap_singleton, if_neg hk]
      exact (ih (by omega)).append_right _

/-- The classes of a key make up the list. -/
theorem flatMap_filter_perm (key : α → ℕ) {k : ℕ} {l : List α} (h : ∀ x ∈ l, key x < k) :
    ((List.range k).flatMap fun i => l.filter fun x => key x = i).Perm l := by
  induction l with
  | nil => simp
  | cons x l ih =>
    have hcons : ∀ i, ((x :: l).filter fun y => key y = i) =
        if key x = i then x :: (l.filter fun y => key y = i) else l.filter fun y => key y = i := by
      intro i
      rw [List.filter_cons]
      simp
    simp only [hcons]
    exact (flatMap_cons_at _ x (h x (by simp))).trans
      ((ih fun y hy => h y (by simp [hy])).cons x)

/-- Two nested walks list the same elements in either order. -/
theorem flatMap_comm_perm {γ : Type*} (l : List α) (m : List β) (f : α → β → List γ) :
    (l.flatMap fun a => m.flatMap (f a)).Perm (m.flatMap fun b => l.flatMap fun a => f a b) := by
  induction l with
  | nil => simp
  | cons a l ih =>
    have hsplit : ∀ (g h : β → List γ) (m : List β),
        (m.flatMap fun b => g b ++ h b).Perm (m.flatMap g ++ m.flatMap h) := by
      intro g h m
      induction m with
      | nil => simp
      | cons b m ihm =>
        simp only [List.flatMap_cons, List.append_assoc]
        refine List.Perm.append_left _ ((ihm.append_left _).trans ?_)
        rw [← List.append_assoc, ← List.append_assoc]
        exact List.perm_append_comm.append_right _
    simp only [List.flatMap_cons]
    exact (ih.append_left _).trans (hsplit (f a) (fun b => l.flatMap fun a => f a b) m).symm

/-- Consecutive ranges of one length make up a range. -/
theorem flatMap_range' (k n : ℕ) :
    ((List.range k).flatMap fun c => List.range' (c * n) n) = List.range (k * n) := by
  induction k with
  | zero => simp
  | succ k ih =>
    rw [List.range_succ, List.flatMap_append, ih, List.flatMap_singleton, List.range_eq_range',
      List.range_eq_range', Nat.succ_mul, ← List.range'_append]
    simp

/-- Consecutive blocks of one length are addressed by block and offset. -/
theorem getElem?_flatMap_range {f : ℕ → List α} {k w i o : ℕ}
    (hw : ∀ j < k, (f j).length = w) (hi : i < k) (ho : o < w) :
    ((List.range k).flatMap f)[i * w + o]? = (f i)[o]? := by
  induction k with
  | zero => omega
  | succ k ih =>
    have hlen : ((List.range k).flatMap f).length = k * w := by
      rw [List.length_flatMap, List.map_congr_left fun j hj =>
        hw j (by have := List.mem_range.mp hj; omega)]
      simp
    rw [List.range_succ, List.flatMap_append, List.flatMap_singleton]
    rcases Nat.lt_succ_iff_lt_or_eq.mp hi with hlt | rfl
    · have hbound : i * w + o < k * w := by
        calc
          i * w + o < (i + 1) * w := by rw [Nat.add_mul]; omega
          _ ≤ k * w := Nat.mul_le_mul_right w hlt
      rw [List.getElem?_append_left (by omega)]
      exact ih (fun j hj => hw j (by omega)) hlt
    · rw [List.getElem?_append_right (by omega), hlen, Nat.add_sub_cancel_left]

/-! ## Dealing in turn -/

/-- The elements at the positions that are `i` modulo `k`, in order. -/
def stride (l : List α) (k i : ℕ) : List α :=
  (l.zipIdx.filter fun p => p.2 % k = i).map Prod.fst

theorem stride_sublist (l : List α) (k i : ℕ) : (stride l k i).Sublist l := by
  have := (List.filter_sublist (p := fun p : α × ℕ => p.2 % k = i) (l := l.zipIdx)).map Prod.fst
  rwa [List.zipIdx_map_fst] at this

theorem stride_one (l : List α) : stride l 1 0 = l := by
  simp [stride, Nat.mod_one, List.zipIdx_map_fst]

theorem stride_map (f : α → β) (l : List α) (k i : ℕ) :
    stride (l.map f) k i = (stride l k i).map f := by
  simp only [stride, List.zipIdx_map, List.filter_map, List.map_map]
  rfl

/-- Dealing in turn deals out every element once. -/
theorem flatMap_stride_perm (l : List α) {k : ℕ} (hk : 0 < k) :
    ((List.range k).flatMap (stride l k)).Perm l := by
  have h := (flatMap_filter_perm (fun p : α × ℕ => p.2 % k) (l := l.zipIdx)
    fun p _ => Nat.mod_lt _ hk).map Prod.fst
  rwa [List.map_flatMap, List.zipIdx_map_fst] at h

/-- Dealing in turn is fair when the number of classes divides the length. -/
theorem length_stride {l : List α} {k m i : ℕ} (hl : l.length = k * m) (hi : i < k) :
    (stride l k i).length = m := by
  have hcount : (stride l k i).length = Nat.count (fun j => j ≡ i [MOD k]) l.length := by
    have hmap : l.zipIdx.countP (fun p => decide (p.2 % k = i)) =
        (l.zipIdx.map Prod.snd).countP fun j => decide (j % k = i) := by
      rw [List.countP_map]; rfl
    rw [stride, List.length_map, ← List.countP_eq_length_filter, hmap, List.zipIdx_map_snd,
      ← List.range_eq_range', Nat.count]
    apply List.countP_congr
    intro j _
    simp [Nat.ModEq, Nat.mod_eq_of_lt hi]
  rw [hcount, hl, Nat.count_modEq_card _ (by omega), Nat.mul_mod_right,
    Nat.mul_div_cancel_left _ (by omega)]
  simp

/-! ## One loop for all classes -/

/-- One loop over `l` that updates the accumulator of the class of each element. -/
def scatterFold {σ : Type*} (key : α → ℕ) (f : σ → α → σ) (accs : List σ) (l : List α) : List σ :=
  l.foldl (fun accs x => accs.modify (key x) fun acc => f acc x) accs

theorem getElem?_scatterFold {σ : Type*} (key : α → ℕ) (f : σ → α → σ) (accs : List σ)
    (l : List α) (i : ℕ) :
    (scatterFold key f accs l)[i]? =
      accs[i]?.map fun acc => (l.filter fun x => key x = i).foldl f acc := by
  induction l generalizing accs with
  | nil => simp [scatterFold]
  | cons x l ih =>
    have hfold : scatterFold key f accs (x :: l) =
        scatterFold key f (accs.modify (key x) fun acc => f acc x) l := rfl
    rw [hfold, ih, List.getElem?_modify, List.filter_cons]
    by_cases hx : key x = i
    · simp [hx, Option.map_map, Function.comp_def]
    · simp [hx]

theorem length_scatterFold {σ : Type*} (key : α → ℕ) (f : σ → α → σ) (accs : List σ)
    (l : List α) : (scatterFold key f accs l).length = accs.length := by
  induction l generalizing accs with
  | nil => rfl
  | cons x l ih => exact (ih _).trans (List.length_modify ..)

end NemoRL.Lib
