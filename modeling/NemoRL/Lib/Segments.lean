import Mathlib.Data.List.Basic
import Mathlib.Algebra.Order.Group.Int

/-!
# Segments of a sequence

A segment is a run of items with the positions of its first item and of the place
after its last. A segment without items carries the marker `-1` instead of positions.
Segments cover a sequence when they follow each other without gap or overlap; their
spans then tile the positions of the sequence.

## Main definitions

* `Tiles spans a b` — consecutive non-empty spans from `a` to `b`.
* `Segment`, `Covers a segs` — segments that follow each other from position `a` on.
* `Segment.shift`, `Segment.singles`, `mergeWhere` — moving, splitting and joining segments.

## Main results

* `covers_append` — coverings compose.
* `covers_shift`, `covers_singles`, `sits_mergeWhere` — the operations keep coverings.
* `Covers.tiles` — the spans of a covering tile.
-/

namespace NemoRL.Lib

/-! ## Spans -/

/-- Consecutive non-empty spans from `a` to `b`. -/
def Tiles : List (ℤ × ℤ) → ℤ → ℤ → Prop
  | [], a, b => a = b
  | (s, e) :: l, a, b => s = a ∧ s < e ∧ Tiles l e b

theorem Tiles.le {l : List (ℤ × ℤ)} {a b : ℤ} (h : Tiles l a b) : a ≤ b := by
  induction l generalizing a with
  | nil => exact le_of_eq h
  | cons p l ih =>
    obtain ⟨rfl, hlt, hrest⟩ := h
    exact hlt.le.trans (ih hrest)

theorem tiles_append {l l' : List (ℤ × ℤ)} {a c : ℤ} :
    Tiles (l ++ l') a c ↔ ∃ b, Tiles l a b ∧ Tiles l' b c := by
  induction l generalizing a with
  | nil => simp [Tiles]
  | cons p l ih =>
    obtain ⟨s, e⟩ := p
    simp only [List.cons_append, Tiles, ih]
    constructor
    · rintro ⟨hs, hlt, b, hl, hl'⟩
      exact ⟨b, ⟨hs, hlt, hl⟩, hl'⟩
    · rintro ⟨b, ⟨hs, hlt, hl⟩, hl'⟩
      exact ⟨hs, hlt, b, hl, hl'⟩

theorem tiles_singleton {s e a b : ℤ} : Tiles [(s, e)] a b ↔ s = a ∧ s < e ∧ e = b := Iff.rfl

/-- Joining spans that tile into one. -/
theorem Tiles.join {p : ℤ × ℤ} {l : List (ℤ × ℤ)} {a b : ℤ} (h : Tiles (p :: l) a b) :
    Tiles [(p.1, ((p :: l).getLast (List.cons_ne_nil p l)).2)] a b := by
  induction l generalizing p a with
  | nil => exact h
  | cons q l ih =>
    obtain ⟨hstart, hlt, hrest⟩ := h
    obtain ⟨hnext, hlt', hstop⟩ := ih hrest
    rw [List.getLast_cons (List.cons_ne_nil q l)]
    exact ⟨hstart, by omega, hstop⟩

/-- The spans lie between the ends. -/
theorem Tiles.mem {l : List (ℤ × ℤ)} {a b : ℤ} (h : Tiles l a b) {p : ℤ × ℤ} (hp : p ∈ l) :
    a ≤ p.1 ∧ p.1 < p.2 ∧ p.2 ≤ b := by
  induction l generalizing a with
  | nil => exact nomatch hp
  | cons q l ih =>
    obtain ⟨rfl, hlt, hrest⟩ := h
    rcases List.mem_cons.mp hp with rfl | hp
    · exact ⟨le_rfl, hlt, hrest.le⟩
    · obtain ⟨hle, hrest⟩ := ih hrest hp
      exact ⟨hlt.le.trans hle, hrest⟩

/-- Spans tile as well after their ends are moved by a strictly increasing function. -/
theorem Tiles.map {l : List (ℤ × ℤ)} {a b : ℤ} (h : Tiles l a b) {f : ℤ → ℤ}
    (hf : ∀ x y, a ≤ x → x < y → y ≤ b → f x < f y) :
    Tiles (l.map fun p => (f p.1, f p.2)) (f a) (f b) := by
  induction l generalizing a with
  | nil => exact congrArg f h
  | cons p l ih =>
    obtain ⟨rfl, hlt, hrest⟩ := h
    refine ⟨rfl, hf _ _ le_rfl hlt hrest.le, ih hrest fun x y hx => ?_⟩
    exact hf x y (hlt.le.trans hx)

/-- Every position between the ends lies in a span. -/
theorem Tiles.exists_mem {l : List (ℤ × ℤ)} {a b x : ℤ} (h : Tiles l a b) (hax : a ≤ x)
    (hxb : x < b) : ∃ p ∈ l, p.1 ≤ x ∧ x < p.2 := by
  induction l generalizing a with
  | nil =>
    obtain rfl : a = b := h
    omega
  | cons q l ih =>
    obtain ⟨rfl, hlt, hrest⟩ := h
    by_cases hx : x < q.2
    · exact ⟨q, List.mem_cons_self, hax, hx⟩
    · obtain ⟨p, hp, hpx⟩ := ih hrest (not_lt.mp hx)
      exact ⟨p, List.mem_cons_of_mem q hp, hpx⟩

/-- A span ends before the spans after it start. -/
theorem Tiles.pairwise {l : List (ℤ × ℤ)} {a b : ℤ} (h : Tiles l a b) :
    l.Pairwise fun p q => p.2 ≤ q.1 := by
  induction l generalizing a with
  | nil => exact List.Pairwise.nil
  | cons q l ih =>
    obtain ⟨rfl, hlt, hrest⟩ := h
    exact List.pairwise_cons.mpr ⟨fun p hp => (hrest.mem hp).1, ih hrest⟩

/-- The first end and the ends of all spans. -/
def edges (l : List (ℤ × ℤ)) (a : ℤ) : List ℤ := a :: l.map Prod.snd

theorem Tiles.edges_lt {l : List (ℤ × ℤ)} {a b : ℤ} (h : Tiles l a b) :
    (edges l a).Pairwise (· < ·) := by
  induction l generalizing a with
  | nil => exact List.pairwise_singleton _ _
  | cons q l ih =>
    obtain ⟨rfl, hlt, hrest⟩ := h
    refine List.pairwise_cons.mpr ⟨fun x hx => ?_, ih hrest⟩
    obtain ⟨p, hp, rfl⟩ := List.mem_map.mp hx
    rcases List.mem_cons.mp hp with rfl | hp
    · exact hlt
    · have := hrest.mem hp
      omega

theorem Tiles.getElem?_fst {l : List (ℤ × ℤ)} {a b : ℤ} (h : Tiles l a b) {i : ℕ} {p : ℤ × ℤ}
    (hp : l[i]? = some p) : (edges l a)[i]? = some p.1 := by
  induction l generalizing a i with
  | nil => exact nomatch hp
  | cons q l ih =>
    obtain ⟨rfl, -, hrest⟩ := h
    cases i with
    | zero =>
      rw [List.getElem?_cons_zero, Option.some.injEq] at hp
      rw [← hp]
      rfl
    | succ i => exact ih hrest hp

theorem getElem?_snd {l : List (ℤ × ℤ)} {a : ℤ} {i : ℕ} {p : ℤ × ℤ} (hp : l[i]? = some p) :
    (edges l a)[i + 1]? = some p.2 := by
  rw [edges, List.getElem?_cons_succ, List.getElem?_map, hp, Option.map_some]

theorem Tiles.getElem?_length {l : List (ℤ × ℤ)} {a b : ℤ} (h : Tiles l a b) :
    (edges l a)[l.length]? = some b := by
  induction l generalizing a with
  | nil =>
    obtain rfl : a = b := h
    rfl
  | cons q l ih => exact ih h.2.2

/-! ## Segments -/

/-- A run of items with its first position and the position after its last item. -/
structure Segment (α : Type*) where
  items : List α
  start : ℤ
  stop : ℤ

variable {α : Type*} {a b : ℤ} {x : Segment α} {xs ys zs : List (Segment α)}

/-- The items of segments one after another. -/
def itemsOf (xs : List (Segment α)) : List α := xs.flatMap Segment.items

@[simp] theorem itemsOf_nil : itemsOf ([] : List (Segment α)) = [] := rfl

@[simp] theorem itemsOf_cons (x : Segment α) (xs : List (Segment α)) :
    itemsOf (x :: xs) = x.items ++ itemsOf xs := rfl

@[simp] theorem itemsOf_append (xs ys : List (Segment α)) :
    itemsOf (xs ++ ys) = itemsOf xs ++ itemsOf ys := List.flatMap_append

/-- The segment starts at `a`, or has no items and no position. -/
def Segment.Sits (x : Segment α) (a : ℤ) : Prop :=
  if x.items = [] then x.start = -1 ∧ x.stop = -1
  else x.start = a ∧ x.stop = a + x.items.length

theorem Segment.Sits.of_nil (h : x.Sits a) (hnil : x.items = []) :
    x.start = -1 ∧ x.stop = -1 := by
  rwa [Sits, if_pos hnil] at h

theorem Segment.Sits.of_ne_nil (h : x.Sits a) (hne : x.items ≠ []) :
    x.start = a ∧ x.stop = a + x.items.length := by
  rwa [Sits, if_neg hne] at h

/-- Segments that follow each other from position `a` on. -/
def Covers (a : ℤ) : List (Segment α) → Prop
  | [] => True
  | x :: xs => x.Sits a ∧ Covers (a + x.items.length) xs

theorem covers_append :
    Covers a (xs ++ ys) ↔ Covers a xs ∧ Covers (a + (itemsOf xs).length) ys := by
  induction xs generalizing a with
  | nil => simp [Covers]
  | cons x xs ih =>
    simp only [List.cons_append, Covers, ih, itemsOf_cons, List.length_append, and_assoc]
    push_cast
    rw [add_assoc]

theorem covers_singleton : Covers a [x] ↔ x.Sits a := by simp [Covers]

/-- Replacing segments by others that cover the same items. -/
theorem Covers.replace (h : Covers a (xs ++ ys ++ zs)) {ys' : List (Segment α)}
    (hitems : itemsOf ys' = itemsOf ys) (hys' : Covers (a + (itemsOf xs).length) ys') :
    Covers a (xs ++ ys' ++ zs) := by
  rw [List.append_assoc, covers_append, covers_append] at h ⊢
  rw [hitems]
  exact ⟨h.1, hys', h.2.2⟩

/-! ## Slices -/

/-- The items from position `i` up to position `j`. -/
def slice (l : List α) (i j : ℕ) : List α := (l.drop i).take (j - i)

theorem length_slice {l : List α} {i j : ℕ} (hj : j ≤ l.length) : (slice l i j).length = j - i := by
  rw [slice, List.length_take, List.length_drop]
  omega

theorem take_append_slice (l : List α) {i j : ℕ} (h : i ≤ j) :
    l.take i ++ slice l i j = l.take j := by
  rw [slice, ← List.take_add, Nat.add_sub_cancel' h]

theorem slice_singleton {l : List α} {i : ℕ} (hi : i < l.length) (d : α) :
    slice l i (i + 1) = [l.getD i d] := by
  rw [slice, Nat.add_sub_cancel_left, List.drop_eq_getElem_cons hi, List.take_succ_cons,
    List.take_zero, List.getD_eq_getElem?_getD, List.getElem?_eq_getElem hi, Option.getD_some]

theorem slice_append_drop (l : List α) {i j : ℕ} (h : i ≤ j) :
    slice l i j ++ l.drop j = l.drop i := by
  have hdrop : l.drop j = (l.drop i).drop (j - i) := by
    rw [List.drop_drop, Nat.add_sub_cancel' h]
  rw [hdrop, slice, List.take_append_drop]

/-- Slices that follow each other. -/
theorem slice_append_slice (l : List α) {i j k : ℕ} (hij : i ≤ j) (hjk : j ≤ k) :
    slice l i j ++ slice l j k = slice l i k := by
  apply (List.append_right_inj (l.take i)).mp
  rw [← List.append_assoc, take_append_slice l hij, take_append_slice l hjk,
    take_append_slice l (hij.trans hjk)]

theorem slice_slice (l : List α) {a b i j : ℕ} (h : a + j ≤ b) :
    slice (slice l a b) i j = slice l (a + i) (a + j) := by
  rw [slice, slice, slice, List.drop_take, List.drop_drop, List.take_take]
  congr 1
  omega

/-- A range of indices as a span. -/
def toSpan (range : ℕ × ℕ) : ℤ × ℤ := (range.1, range.2)

/-- The slices at ranges that tile make up the slice between the ends. -/
theorem flatMap_slice (l : List α) {ranges : List (ℕ × ℕ)} {i j : ℕ}
    (h : Tiles (ranges.map toSpan) i j) :
    ranges.flatMap (fun range => slice l range.1 range.2) = slice l i j := by
  induction ranges generalizing i with
  | nil =>
    obtain rfl : i = j := Int.ofNat.inj h
    simp [slice]
  | cons range ranges ih =>
    obtain ⟨hstart, hlt, hrest⟩ := h
    have hle : range.2 ≤ j := by exact_mod_cast hrest.le
    obtain rfl : range.1 = i := by exact_mod_cast hstart
    rw [List.flatMap_cons, ih hrest]
    exact slice_append_slice l (by exact_mod_cast hlt.le) hle

theorem slice_length (l : List α) (i : ℕ) : slice l i l.length = l.drop i := by
  rw [slice, List.take_of_length_le (List.length_drop.le)]

theorem getD_slice {l : List α} {i k n : ℕ} (hk : k < n) (d : α) :
    (slice l i (i + n)).getD k d = l.getD (i + k) d := by
  rw [slice, Nat.add_sub_cancel_left, List.getD_eq_getElem?_getD, List.getElem?_take_of_lt hk,
    List.getElem?_drop, ← List.getD_eq_getElem?_getD]

/-- A slice with its positions. -/
theorem sits_slice {l : List α} {i j : ℕ} (hij : i < j) (hj : j ≤ l.length) :
    (⟨slice l i j, i, j⟩ : Segment α).Sits i := by
  have hlen := length_slice (i := i) hj
  have hne : slice l i j ≠ [] := by
    rw [← List.length_pos_iff]
    omega
  have hstop : (j : ℤ) = i + ((j - i : ℕ) : ℤ) := by omega
  rw [Segment.Sits, if_neg hne, hlen]
  exact ⟨rfl, hstop⟩

theorem sits_nil (a : ℤ) : (⟨[], -1, -1⟩ : Segment α).Sits a := by simp [Segment.Sits]

/-! ## Moving -/

/-- Move a segment that has a position. -/
def Segment.shift (c : ℤ) (x : Segment α) : Segment α where
  items := x.items
  start := if x.start ≠ -1 then x.start + c else -1
  stop := if x.stop ≠ -1 then x.stop + c else -1

theorem Segment.Sits.shift (ha : 0 ≤ a) (h : x.Sits a) (c : ℤ) : (x.shift c).Sits (a + c) := by
  by_cases hnil : x.items = []
  · obtain ⟨hstart, hstop⟩ := h.of_nil hnil
    simp [Segment.shift, Sits, hnil, hstart, hstop]
  · obtain ⟨hstart, hstop⟩ := h.of_ne_nil hnil
    have hne : x.start ≠ -1 := by omega
    have hne' : x.stop ≠ -1 := by omega
    simp only [Segment.shift, Sits, if_neg hnil, if_pos hne, if_pos hne']
    omega

theorem itemsOf_shift (xs : List (Segment α)) (c : ℤ) :
    itemsOf (xs.map (Segment.shift c)) = itemsOf xs := by
  induction xs with
  | nil => rfl
  | cons x xs ih => rw [List.map_cons, itemsOf_cons, itemsOf_cons, ih]; rfl

theorem covers_shift (ha : 0 ≤ a) (h : Covers a xs) (c : ℤ) :
    Covers (a + c) (xs.map (Segment.shift c)) := by
  induction xs generalizing a with
  | nil => trivial
  | cons x xs ih =>
    refine ⟨h.1.shift ha c, ?_⟩
    have hpos : a + c + (x.shift c).items.length = a + x.items.length + c := by
      simp only [Segment.shift]
      omega
    rw [hpos]
    exact ih (by omega) h.2

/-- Segments without items cover from any position. -/
theorem Covers.of_items_nil (h : Covers a xs) (hnil : itemsOf xs = []) (b : ℤ) :
    Covers b xs := by
  induction xs generalizing a b with
  | nil => trivial
  | cons x xs ih =>
    obtain ⟨hx, hxs⟩ := List.append_eq_nil_iff.mp hnil
    refine ⟨?_, ih h.2 hxs _⟩
    rw [Segment.Sits, if_pos hx]
    exact h.1.of_nil hx

/-! ## Splitting -/

/-- A segment for each item. -/
def Segment.singles (x : Segment α) : List (Segment α) :=
  x.items.zipIdx.map fun p => ⟨[p.1], x.start + p.2, x.start + p.2 + 1⟩

theorem covers_singles_aux (l : List α) (a : ℤ) (k : ℕ) :
    Covers (a + k) ((l.zipIdx k).map fun p => ⟨[p.1], a + p.2, a + p.2 + 1⟩) ∧
      itemsOf ((l.zipIdx k).map fun p => (⟨[p.1], a + p.2, a + p.2 + 1⟩ : Segment α)) = l := by
  induction l generalizing k with
  | nil => exact ⟨trivial, rfl⟩
  | cons y l ih =>
    obtain ⟨hcovers, hitems⟩ := ih (k + 1)
    rw [List.zipIdx_cons, List.map_cons]
    refine ⟨⟨?_, ?_⟩, ?_⟩
    · simp [Segment.Sits]
    · have hpos : a + (k : ℤ) + ([y] : List α).length = a + ((k + 1 : ℕ) : ℤ) := by
        simp only [List.length_singleton]
        omega
      rw [hpos]
      exact hcovers
    · rw [itemsOf_cons, hitems]
      rfl

/-- Splitting a segment into its items. -/
theorem covers_singles (x : Segment α) :
    Covers x.start x.singles ∧ itemsOf x.singles = x.items := by
  simpa [Segment.singles] using covers_singles_aux x.items x.start 0

/-! ## Joining -/

/-- The items of all segments, from the first start to the last stop of the segments that
`p` picks. -/
def mergeWhere (p : Segment α → Bool) (xs : List (Segment α)) : Segment α where
  items := itemsOf xs
  start := ((xs.filter p).map Segment.start).min?.getD (-1)
  stop := ((xs.filter p).map Segment.stop).max?.getD (-1)

theorem Covers.mem (h : Covers a xs) (hx : x ∈ xs) (hne : x.items ≠ []) :
    a ≤ x.start ∧ x.stop ≤ a + (itemsOf xs).length := by
  induction xs generalizing a with
  | nil => exact nomatch hx
  | cons y xs ih =>
    rw [itemsOf_cons, List.length_append]
    rcases List.mem_cons.mp hx with rfl | hx
    · obtain ⟨hstart, hstop⟩ := h.1.of_ne_nil hne
      push_cast
      omega
    · have := ih h.2 hx
      push_cast
      omega

/-- The first segment with items starts where the covering starts. -/
theorem Covers.exists_start (h : Covers a xs) (hne : itemsOf xs ≠ []) :
    ∃ x ∈ xs, x.items ≠ [] ∧ x.start = a := by
  induction xs generalizing a with
  | nil => exact (hne rfl).elim
  | cons y xs ih =>
    by_cases hy : y.items = []
    · rw [itemsOf_cons, hy, List.nil_append] at hne
      obtain ⟨x, hx, hitems, hstart⟩ := ih h.2 hne
      refine ⟨x, List.mem_cons_of_mem y hx, hitems, ?_⟩
      simpa [hy] using hstart
    · exact ⟨y, List.mem_cons_self, hy, (h.1.of_ne_nil hy).1⟩

/-- The last segment with items stops where the covering stops. -/
theorem Covers.exists_stop (h : Covers a xs) (hne : itemsOf xs ≠ []) :
    ∃ x ∈ xs, x.items ≠ [] ∧ x.stop = a + (itemsOf xs).length := by
  induction xs generalizing a with
  | nil => exact (hne rfl).elim
  | cons y xs ih =>
    by_cases hxs : itemsOf xs = []
    · rw [itemsOf_cons, hxs, List.append_nil] at hne ⊢
      exact ⟨y, List.mem_cons_self, hne, (h.1.of_ne_nil hne).2⟩
    · obtain ⟨x, hx, hitems, hstop⟩ := ih h.2 hxs
      refine ⟨x, List.mem_cons_of_mem y hx, hitems, ?_⟩
      rw [hstop, itemsOf_cons, List.length_append]
      push_cast
      omega

/-- Joining segments that follow each other, where `p` picks those that have items. -/
theorem sits_mergeWhere {p : Segment α → Bool} (h : Covers a xs)
    (hp : ∀ x ∈ xs, p x = true ↔ x.items ≠ []) : (mergeWhere p xs).Sits a := by
  by_cases hnil : itemsOf xs = []
  · have hfilter : xs.filter p = [] := by
      rw [List.filter_eq_nil_iff]
      intro x hx hpx
      exact (hp x hx).mp hpx (List.flatMap_eq_nil_iff.mp hnil x hx)
    simp [Segment.Sits, mergeWhere, hnil, hfilter]
  · have hstart : ((xs.filter p).map Segment.start).min? = some a := by
      rw [List.min?_eq_some_iff]
      constructor
      · obtain ⟨x, hx, hitems, rfl⟩ := h.exists_start hnil
        exact List.mem_map_of_mem (List.mem_filter.mpr ⟨hx, (hp x hx).mpr hitems⟩)
      · intro b hb
        obtain ⟨x, hx, rfl⟩ := List.mem_map.mp hb
        obtain ⟨hx, hpx⟩ := List.mem_filter.mp hx
        exact (h.mem hx ((hp x hx).mp hpx)).1
    have hstop : ((xs.filter p).map Segment.stop).max? =
        some (a + (itemsOf xs).length) := by
      rw [List.max?_eq_some_iff]
      constructor
      · obtain ⟨x, hx, hitems, hstop⟩ := h.exists_stop hnil
        rw [← hstop]
        exact List.mem_map_of_mem (List.mem_filter.mpr ⟨hx, (hp x hx).mpr hitems⟩)
      · intro b hb
        obtain ⟨x, hx, rfl⟩ := List.mem_map.mp hb
        obtain ⟨hx, hpx⟩ := List.mem_filter.mp hx
        exact (h.mem hx ((hp x hx).mp hpx)).2
    simp [Segment.Sits, mergeWhere, hnil, hstart, hstop]

/-! ## Tiling -/

/-- The spans of the segments that have a position. -/
def spansOf (xs : List (Segment α)) : List (ℤ × ℤ) :=
  (xs.filter fun x => x.start ≠ -1).map fun x => (x.start, x.stop)

/-- The spans of segments that cover a sequence tile its positions. -/
theorem Covers.tiles (ha : 0 ≤ a) (h : Covers a xs) :
    Tiles (spansOf xs) a (a + (itemsOf xs).length) := by
  induction xs generalizing a with
  | nil => simp [spansOf, Tiles]
  | cons x xs ih =>
    have hrest := ih (by omega) h.2
    by_cases hnil : x.items = []
    · obtain ⟨hstart, -⟩ := h.1.of_nil hnil
      simpa [spansOf, hstart, hnil] using hrest
    · obtain ⟨hstart, hstop⟩ := h.1.of_ne_nil hnil
      have hne : x.start ≠ -1 := by omega
      have hpos : 0 < x.items.length := List.length_pos_iff.mpr hnil
      rw [itemsOf_cons, List.length_append, spansOf, List.filter_cons_of_pos (by simpa using hne),
        List.map_cons]
      refine ⟨hstart, by omega, ?_⟩
      rw [hstop]
      push_cast
      rw [← add_assoc]
      exact hrest

end NemoRL.Lib
