import Mathlib.Data.Nat.ModEq
import NemoRL.Lib.Segments

/-!
# Consecutive parts of a list

Parts of given lengths that follow each other are found by the running totals of their
lengths. Cutting a concatenation at these positions gives the parts back, and writing parts
at these positions one after another gives their concatenation.

## Main definitions

* `cumulative` — the running totals.
* `bounds` — the start and the end of each part.
* `extendLast` — lengthen the last part.
* `assignSlice` — overwrite a slice.

## Main results

* `map_slice_bounds` — the slices of a concatenation are its parts.
* `foldlM_assignSlice` — writing all parts.
-/

namespace NemoRL.Lib

/-- The running totals of lengths, from `a` on. -/
def cumulative (a : ℕ) : List ℕ → List ℕ
  | [] => [a]
  | n :: ns => a :: cumulative (a + n) ns

/-- The start and the end of each part. -/
def bounds (cu : List ℕ) : List (ℕ × ℕ) := cu.zip cu.tail

@[simp] theorem bounds_cumulative_nil (a : ℕ) : bounds (cumulative a []) = [] := rfl

@[simp] theorem bounds_cumulative_cons (a n : ℕ) (ns : List ℕ) :
    bounds (cumulative a (n :: ns)) = (a, a + n) :: bounds (cumulative (a + n) ns) := by
  cases ns with
  | nil => rfl
  | cons m ns => rfl

@[simp] theorem length_cumulative (a : ℕ) (ns : List ℕ) :
    (cumulative a ns).length = ns.length + 1 := by
  induction ns generalizing a with
  | nil => rfl
  | cons n ns ih => simp [cumulative, ih]

@[simp] theorem length_bounds_cumulative (a : ℕ) (ns : List ℕ) :
    (bounds (cumulative a ns)).length = ns.length := by
  simp [bounds]

theorem getLast_cumulative (a : ℕ) (ns : List ℕ) :
    (cumulative a ns).getLast? = some (a + ns.sum) := by
  induction ns generalizing a with
  | nil => rfl
  | cons n ns ih =>
    rw [cumulative, List.getLast?_cons, ih, List.sum_cons]
    simp [Nat.add_assoc]

theorem getElem?_cumulative (a : ℕ) {ns : List ℕ} {i : ℕ} (hi : i ≤ ns.length) :
    (cumulative a ns)[i]? = some (a + (ns.take i).sum) := by
  induction ns generalizing a i with
  | nil =>
    obtain rfl : i = 0 := by simpa using hi
    rfl
  | cons n ns ih =>
    cases i with
    | zero => simp [cumulative]
    | succ i =>
      have hrest : i ≤ ns.length := by simpa using hi
      simp [cumulative, ih _ hrest, Nat.add_assoc]

/-- The bounds of a part. -/
theorem getElem?_bounds_cumulative (a : ℕ) (ns : List ℕ) (i : ℕ) :
    (bounds (cumulative a ns))[i]? =
      ns[i]?.map fun n => (a + (ns.take i).sum, a + (ns.take i).sum + n) := by
  induction ns generalizing a i with
  | nil => rfl
  | cons n ns ih =>
    rw [bounds_cumulative_cons]
    cases i with
    | zero => simp
    | succ i => simp [ih, Nat.add_assoc]

/-- The bounds of parts whose lengths are divided by a common divisor. -/
theorem bounds_div {k : ℕ} {ns : List ℕ} (hns : ∀ n ∈ ns, k ∣ n) {a : ℕ} (ha : k ∣ a) :
    (bounds (cumulative a ns)).map (fun p => (p.1 / k, p.2 / k)) =
      bounds (cumulative (a / k) (ns.map (· / k))) := by
  induction ns generalizing a with
  | nil => rfl
  | cons n ns ih =>
    have hn : k ∣ n := hns n List.mem_cons_self
    rw [bounds_cumulative_cons, List.map_cons, List.map_cons, bounds_cumulative_cons,
      ih (fun m hm => hns m (List.mem_cons_of_mem n hm)) (Nat.dvd_add ha hn),
      Nat.add_div_of_dvd_right ha]

/-- Lengthen the last part. -/
def extendLast (k : ℕ) : List ℕ → List ℕ
  | [] => []
  | [n] => [n + k]
  | n :: m :: ns => n :: extendLast k (m :: ns)

/-- Lengthening the last part moves the last running total. -/
theorem cumulative_extendLast (a k : ℕ) {ns : List ℕ} (hns : ns ≠ []) :
    cumulative a (extendLast k ns) = (cumulative a ns).dropLast ++ [a + ns.sum + k] := by
  induction ns generalizing a with
  | nil => exact absurd rfl hns
  | cons n ns ih =>
    cases ns with
    | nil => simp [extendLast, cumulative, Nat.add_assoc]
    | cons m ns =>
      have hne : cumulative (a + n) (m :: ns) ≠ [] := List.cons_ne_nil _ _
      rw [extendLast, cumulative, ih (a + n) (List.cons_ne_nil m ns), cumulative.eq_2 a n,
        List.dropLast_cons_of_ne_nil hne, List.cons_append, List.sum_cons (a := n),
        Nat.add_assoc a n]

theorem forall₂_extendLast {ns ms : List ℕ} (h : List.Forall₂ (· ≤ ·) ns ms) (k : ℕ) :
    List.Forall₂ (· ≤ ·) ns (extendLast k ms) := by
  induction h with
  | nil => exact .nil
  | cons hnm hrest ih =>
    cases hrest with
    | nil => exact .cons (hnm.trans (Nat.le_add_right _ k)) .nil
    | cons _ _ => exact .cons hnm ih

theorem sum_extendLast (k : ℕ) {ns : List ℕ} (hns : ns ≠ []) :
    (extendLast k ns).sum = ns.sum + k := by
  have hlast := getLast_cumulative 0 (extendLast k ns)
  rw [cumulative_extendLast 0 k hns, List.getLast?_concat, Option.some.injEq] at hlast
  omega

theorem dvd_extendLast {d k : ℕ} {ns : List ℕ} (hns : ∀ n ∈ ns, d ∣ n) (hk : d ∣ k) :
    ∀ n ∈ extendLast k ns, d ∣ n := by
  induction ns with
  | nil => exact fun n hn => nomatch hn
  | cons m ns ih =>
    have hm : d ∣ m := hns m List.mem_cons_self
    cases ns with
    | nil =>
      intro n hn
      obtain rfl := List.mem_singleton.mp hn
      exact Nat.dvd_add hm hk
    | cons m' ns =>
      intro n hn
      rcases List.mem_cons.mp hn with rfl | hn
      · exact hm
      · exact ih (fun n' hn' => hns n' (List.mem_cons_of_mem m hn')) n hn

section Slices
variable {α β ι : Type*}

/-- The element of a concatenation at a position of a part. -/
theorem getElem?_flatten {parts : List (List α)} {b : ℕ} {part : List α}
    (hb : parts[b]? = some part) {t : ℕ} (ht : t < part.length) :
    parts.flatten[((parts.map List.length).take b).sum + t]? = part[t]? := by
  induction parts generalizing b with
  | nil => exact nomatch hb
  | cons first parts ih =>
    cases b with
    | zero =>
      obtain rfl : first = part := by simpa using hb
      simp [List.getElem?_append_left ht]
    | succ b =>
      rw [List.getElem?_cons_succ] at hb
      rw [List.map_cons, List.take_succ_cons, List.sum_cons, List.flatten_cons, Nat.add_assoc,
        List.getElem?_append_right (Nat.le_add_right _ _), Nat.add_sub_cancel_left, ih hb]

/-- Every position of a concatenation belongs to a part. -/
theorem exists_part {parts : List (List α)} {i : ℕ} (hi : i < parts.flatten.length) :
    ∃ b part t, parts[b]? = some part ∧ t < part.length ∧
      i = ((parts.map List.length).take b).sum + t := by
  induction parts generalizing i with
  | nil => exact absurd hi (Nat.not_lt_zero i)
  | cons first parts ih =>
    rw [List.flatten_cons, List.length_append] at hi
    by_cases hfirst : i < first.length
    · exact ⟨0, first, i, rfl, hfirst, by simp⟩
    · obtain ⟨b, part, t, hb, ht, heq⟩ := ih (show i - first.length < _ by omega)
      refine ⟨b + 1, part, t, hb, ht, ?_⟩
      rw [List.map_cons, List.take_succ_cons, List.sum_cons]
      omega

/-- The slices of a concatenation are its parts. -/
theorem map_slice_bounds (pre : List α) (parts : List (List α)) :
    (bounds (cumulative pre.length (parts.map List.length))).map
      (fun p => slice (pre ++ parts.flatten) p.1 p.2) = parts := by
  induction parts generalizing pre with
  | nil => rfl
  | cons part parts ih =>
    have hrest := ih (pre ++ part)
    rw [List.length_append, List.append_assoc, ← List.flatten_cons] at hrest
    rw [List.map_cons, bounds_cumulative_cons, List.map_cons, hrest]
    simp [slice]

/-- The slices of a concatenation, with their lengths, are its parts, whatever follows it. -/
theorem map_slice_bounds_append (pre : List α) (parts : List (List α)) (post : List α) :
    (bounds (cumulative pre.length (parts.map List.length))).map
      (fun p => (slice (pre ++ (parts.flatten ++ post)) p.1 p.2, p.2 - p.1)) =
      parts.map fun part => (part, part.length) := by
  induction parts generalizing pre with
  | nil => rfl
  | cons part parts ih =>
    have hrest := ih (pre ++ part)
    rw [List.length_append, List.append_assoc, ← List.append_assoc, ← List.append_assoc,
      List.append_assoc pre, ← List.flatten_cons, List.append_assoc] at hrest
    rw [List.map_cons, bounds_cumulative_cons, List.map_cons, hrest]
    simp [slice]

/-- The slice of a concatenation between the bounds of a part. -/
theorem slice_bounds {parts : List (List α)} {i : ℕ} {p : ℕ × ℕ}
    (h : (bounds (cumulative 0 (parts.map List.length)))[i]? = some p) :
    parts[i]? = some (slice parts.flatten p.1 p.2) := by
  have hparts := congrArg (fun l => l[i]?) (map_slice_bounds [] parts)
  simp only [List.length_nil, List.getElem?_map, h, Option.map_some, List.nil_append] at hparts
  exact hparts.symm

/-- Overwrite the slice from `start` up to `stop`. One element is repeated to the size of the
slice; any other size has to agree. -/
def assignSlice (xs : List α) (start stop : ℕ) (ys : List α) : Option (List α) :=
  let size := min stop xs.length - start
  if ys.length = size then some (xs.take start ++ ys ++ xs.drop (start + size))
  else
    match ys with
    | [y] => some (xs.take start ++ List.replicate size y ++ xs.drop (start + size))
    | _ => none

theorem assignSlice_eq {pre mid post ys : List α} (h : ys.length = mid.length) :
    assignSlice (pre ++ mid ++ post) pre.length (pre.length + mid.length) ys =
      some (pre ++ ys ++ post) := by
  have hsize : min (pre.length + mid.length) (pre ++ mid ++ post).length - pre.length =
      mid.length := by
    simp only [List.length_append]
    omega
  simp only [assignSlice, hsize, if_pos h]
  simp [List.append_assoc]

/-- Writing parts one after another, behind what was written before. -/
theorem foldlM_assignSlice_append {l : List ι} {lo hi : ι → ℕ} {part : ι → List α}
    {pre rest : List α} (hl : l.map (fun x => (lo x, hi x)) =
      bounds (cumulative pre.length (l.map fun x => (part x).length)))
    (hrest : rest.length = (l.map fun x => (part x).length).sum) :
    l.foldlM (fun acc x => assignSlice acc (lo x) (hi x) (part x)) (pre ++ rest) =
      some (pre ++ l.flatMap part) := by
  induction l generalizing pre rest with
  | nil =>
    obtain rfl : rest = [] := by simpa using hrest
    simp
  | cons x l ih =>
    rw [List.map_cons, List.map_cons, bounds_cumulative_cons, List.cons.injEq] at hl
    rw [List.map_cons, List.sum_cons] at hrest
    obtain ⟨hx, hl⟩ := hl
    obtain ⟨hlo, hhi⟩ := Prod.mk.inj hx
    have hsplit : pre ++ rest = pre ++ rest.take (part x).length ++ rest.drop (part x).length := by
      rw [List.append_assoc, List.take_append_drop]
    have hmid : (part x).length = (rest.take (part x).length).length := by
      rw [List.length_take]
      omega
    rw [List.foldlM_cons, hlo, hhi, hsplit]
    nth_rewrite 3 [hmid]
    rw [assignSlice_eq hmid, List.flatMap_cons, ← List.append_assoc]
    refine ih ?_ ?_
    · rw [List.length_append]
      exact hl
    · rw [List.length_drop]
      omega

/-- Writing all parts one after another. -/
theorem foldlM_assignSlice (l : List ι) (lo hi : ι → ℕ) (part : ι → List α) {xs : List α}
    (hl : l.map (fun x => (lo x, hi x)) = bounds (cumulative 0 (l.map fun x => (part x).length)))
    (hxs : xs.length = (l.map fun x => (part x).length).sum) :
    l.foldlM (fun acc x => assignSlice acc (lo x) (hi x) (part x)) xs = some (l.flatMap part) := by
  have happend : l.foldlM (fun acc x => assignSlice acc (lo x) (hi x) (part x)) ([] ++ xs) =
      some ([] ++ l.flatMap part) := foldlM_assignSlice_append hl hxs
  exact happend

end Slices
end NemoRL.Lib
