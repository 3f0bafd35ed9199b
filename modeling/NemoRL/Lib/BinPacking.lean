import Mathlib

/-!
# Bin packing

Items of a type `ι` have a size `w : ι → ℕ`, and a packing distributes a list of
items over bins of one capacity. An online packer holds a packing of the items it
has seen, so its correctness is that one placement turns a packing of `items` into
a packing of `x :: items`.

## Main definitions

* `load w b` — the total size of a bin.
* `IsPacking w cap items bins` — every item is in one bin and no bin is overfull.

## Main results

* `IsPacking.place`, `IsPacking.openBin` — the two ways to place an item.
* `IsPacking.split` — moving an item to a bin of its own.
-/

namespace NemoRL.Lib

variable {ι κ : Type*} {w : ι → ℕ} {cap : ℕ}

/-- The total size of a bin. -/
def load (w : ι → ℕ) (b : List ι) : ℕ := (b.map w).sum

@[simp] theorem load_nil : load w [] = 0 := rfl

@[simp] theorem load_cons (x : ι) (b : List ι) : load w (x :: b) = w x + load w b := by
  simp [load]

@[simp] theorem load_append (b b' : List ι) : load w (b ++ b') = load w b + load w b' := by
  simp [load]

theorem load_map (f : κ → ι) (b : List κ) : load w (b.map f) = load (fun k => w (f k)) b := by
  simp [load, Function.comp_def]

theorem load_congr {w' : ι → ℕ} {b : List ι} (h : ∀ x ∈ b, w x = w' x) :
    load w b = load w' b := by
  rw [load, load, List.map_congr_left h]

/-- Dropping the last item of a bin leaves a smaller load. -/
theorem load_dropLast_le (b : List ι) : load w b.dropLast ≤ load w b := by
  cases hb : b.getLast? with
  | none => simp_all
  | some x =>
    obtain ⟨ys, rfl⟩ := List.getLast?_eq_some_iff.mp hb
    simp

theorem le_load_of_mem {x : ι} {b : List ι} (h : x ∈ b) : w x ≤ load w b := by
  obtain ⟨s, t, rfl⟩ := List.append_of_mem h
  simp only [load_append, load_cons]
  omega

/-- The items are distributed over the bins and no bin is overfull. -/
structure IsPacking (w : ι → ℕ) (cap : ℕ) (items : List ι) (bins : List (List ι)) : Prop where
  perm : bins.flatten.Perm items
  fits : ∀ b ∈ bins, load w b ≤ cap

namespace IsPacking
variable {items items' : List ι} {bins bins' : List (List ι)} {x : ι} {b b' : List ι}

theorem nil : IsPacking w cap [] [] := ⟨.refl _, by simp⟩

theorem of_perm (h : IsPacking w cap items bins) (hp : items.Perm items') :
    IsPacking w cap items' bins := ⟨h.perm.trans hp, h.fits⟩

theorem of_bins_perm (h : IsPacking w cap items bins) (hp : bins'.Perm bins) :
    IsPacking w cap items bins' :=
  ⟨hp.flatten.trans h.perm, fun b hb => h.fits b (hp.mem_iff.mp hb)⟩

/-- Place an item in a bin with room for it. -/
theorem place {pre post : List (List ι)} (h : IsPacking w cap items (pre ++ b :: post))
    (hroom : w x + load w b ≤ cap) :
    IsPacking w cap (x :: items) (pre ++ (b ++ [x]) :: post) := by
  constructor
  · have hsplit : (pre ++ (b ++ [x]) :: post).flatten.Perm
        (x :: (pre ++ b :: post).flatten) := by
      simp only [List.flatten_append, List.flatten_cons, List.append_assoc]
      refine (List.Perm.append_left _ List.perm_middle).trans List.perm_middle
    exact hsplit.trans (h.perm.cons x)
  · intro c hc
    rcases List.mem_append.mp hc with hc | hc
    · exact h.fits c (by simp [hc])
    · rcases List.mem_cons.mp hc with rfl | hc
      · rw [load_append, load_cons, load_nil]
        omega
      · exact h.fits c (by simp [hc])

/-- Place an item in a new bin. -/
theorem openBin (h : IsPacking w cap items bins) (hroom : w x ≤ cap) :
    IsPacking w cap (x :: items) (bins ++ [[x]]) := by
  constructor
  · simpa using List.perm_append_comm.trans (h.perm.cons x)
  · intro c hc
    rcases List.mem_append.mp hc with hc | hc
    · exact h.fits c hc
    · obtain rfl := List.mem_singleton.mp hc
      simpa using hroom

theorem append (h : IsPacking w cap items bins) (h' : IsPacking w cap items' bins') :
    IsPacking w cap (items ++ items') (bins ++ bins') := by
  refine ⟨?_, fun b hb => ?_⟩
  · rw [List.flatten_append]
    exact h.perm.append h'.perm
  · exact (List.mem_append.mp hb).elim (h.fits b) (h'.fits b)

/-- Close a packing under forgetting empty bins. -/
theorem filter_ne_nil (h : IsPacking w cap items bins) :
    IsPacking w cap items (bins.filter fun b => !b.isEmpty) := by
  refine ⟨?_, fun b hb => h.fits b (List.mem_of_mem_filter hb)⟩
  rw [List.flatten_filter_not_isEmpty]
  exact h.perm

/-- Move the last item of a bin to a bin of its own at the end. -/
theorem split {pre post : List (List ι)} (h : IsPacking w cap items (pre ++ b :: post))
    (hb : b ≠ []) : IsPacking w cap items (pre ++ b.dropLast :: post ++ [[b.getLast hb]]) := by
  have hlast := List.dropLast_concat_getLast hb
  constructor
  · have hmove : (pre ++ b.dropLast :: post ++ [[b.getLast hb]]).flatten.Perm
        (pre ++ b :: post).flatten := by
      simp only [List.flatten_append, List.flatten_cons, List.flatten_nil, List.append_nil,
        List.append_assoc]
      conv_rhs => rw [← hlast]
      rw [List.append_assoc]
      exact List.Perm.append_left _ (List.Perm.append_left _ List.perm_append_comm)
    exact hmove.trans h.perm
  · intro c hc
    simp only [List.mem_append, List.mem_cons, List.not_mem_nil, or_false] at hc
    have hbig := h.fits b (by simp)
    rcases hc with (hc | rfl | hc) | rfl
    · exact h.fits c (by simp [hc])
    · exact Nat.le_trans (load_dropLast_le b) hbig
    · exact h.fits c (by simp [hc])
    · simpa using Nat.le_trans (le_load_of_mem (List.getLast_mem hb)) hbig

/-- A packing of named items is a packing of their names. -/
theorem map {w' : κ → ℕ} {f : ι → κ} (h : IsPacking w cap items bins)
    (hw : ∀ x ∈ items, w' (f x) = w x) :
    IsPacking w' cap (items.map f) (bins.map (List.map f)) := by
  refine ⟨?_, fun c hc => ?_⟩
  · rw [← List.map_flatten]
    exact h.perm.map f
  · obtain ⟨b, hb, rfl⟩ := List.mem_map.mp hc
    have hmem : ∀ x ∈ b, x ∈ items := fun x hx =>
      h.perm.mem_iff.mp (List.mem_flatten.mpr ⟨b, hb, hx⟩)
    rw [load_map, load_congr fun x hx => hw x (hmem x hx)]
    exact h.fits b hb

end IsPacking

/-! ## Online packers -/

section Seen
variable {σ ε : Type*} {P : List ι → σ → Prop} {l : List ι}

/-- The invariant rule of an online algorithm: the invariant speaks of the items seen
so far. -/
theorem foldl_seen {f : σ → ι → σ} {s : σ} {seen : List ι}
    (hstep : ∀ seen s, ∀ x ∈ l, P seen s → P (x :: seen) (f s x)) (h : P seen s) :
    P (l.reverse ++ seen) (l.foldl f s) := by
  induction l generalizing s seen with
  | nil => exact h
  | cons x l ih =>
    have := ih (fun seen s y hy => hstep seen s y (by simp [hy])) (hstep seen s x (by simp) h)
    simpa using this

/-- The rule for an algorithm that may raise. -/
theorem foldlM_seen {f : σ → ι → Except ε σ} {s s' : σ} {seen : List ι}
    (hstep : ∀ seen s s', ∀ x ∈ l, P seen s → f s x = .ok s' → P (x :: seen) s')
    (h : P seen s) (hs : l.foldlM f s = .ok s') : P (l.reverse ++ seen) s' := by
  induction l generalizing s seen with
  | nil =>
    obtain rfl : s = s' := Except.ok.inj hs
    exact h
  | cons x l ih =>
    rw [List.foldlM_cons] at hs
    cases hx : f s x with
    | error e => rw [hx] at hs; exact nomatch hs
    | ok t =>
      rw [hx] at hs
      have := ih (fun seen s s' y hy => hstep seen s s' y (by simp [hy]))
        (hstep seen s t x (by simp) h hx) hs
      simpa using this

end Seen

end NemoRL.Lib
