import Mathlib.Data.List.Forall2

/-!
# Computations that may raise

A computation in `Except ε` that returned went through every one of its steps. These
rules take such a computation apart.

## Main results

* `bind_eq_ok` — both parts of a sequence returned.
* `mapM_eq_ok` — every element of a list was mapped.
-/

namespace NemoRL.Lib

variable {α β ε : Type*}

/-- A sequence returned exactly when both parts did. -/
theorem bind_eq_ok {α β : Type*} {x : Except ε α} {f : α → Except ε β} {b : β} :
    x.bind f = .ok b ↔ ∃ a, x = .ok a ∧ f a = .ok b := by
  cases x <;> simp [Except.bind]

/-- Mapping a list returned exactly when every element was mapped. -/
theorem mapM_eq_ok {α : Type*} {β ε : Type*} {f : α → Except ε β} {l : List α} {l' : List β} :
    l.mapM f = .ok l' ↔ List.Forall₂ (fun a b => f a = .ok b) l l' := by
  induction l generalizing l' with
  | nil => simp [pure, Except.pure, eq_comm]
  | cons a l ih =>
    rw [List.mapM_cons, List.forall₂_cons_left_iff]
    simp only [bind, bind_eq_ok, pure, Except.pure, Except.ok.injEq]
    constructor
    · rintro ⟨b, hb, bs, hbs, rfl⟩
      exact ⟨b, bs, hb, ih.mp hbs, rfl⟩
    · rintro ⟨b, bs, hb, hbs, rfl⟩
      exact ⟨b, hb, bs, ih.mpr hbs, rfl⟩

/-- The element that a mapped element was mapped to. -/
theorem getElem?_of_mapM {f : α → Except ε β} {l : List α} {l' : List β} (h : l.mapM f = .ok l')
    {i : ℕ} {b : β} (hb : l'[i]? = some b) : ∃ a, l[i]? = some a ∧ f a = .ok b := by
  have hall := mapM_eq_ok.mp h
  have hlen := hall.length_eq
  obtain ⟨hi, rfl⟩ := List.getElem?_eq_some_iff.mp hb
  refine ⟨l[i], List.getElem?_eq_getElem _, ?_⟩
  exact (List.forall₂_iff_get.mp hall).2 i (by omega) hi

/-- A mapped element comes from an element of the list. -/
theorem mem_of_mapM {f : α → Except ε β} {l : List α} {l' : List β} (h : l.mapM f = .ok l')
    {b : β} (hb : b ∈ l') : ∃ a ∈ l, f a = .ok b := by
  obtain ⟨i, hi⟩ := List.mem_iff_getElem?.mp hb
  obtain ⟨a, ha, hab⟩ := getElem?_of_mapM h hi
  exact ⟨a, List.mem_of_getElem? ha, hab⟩

/-- Every element of the list was mapped. -/
theorem mem_of_mapM_mem {f : α → Except ε β} {l : List α} {l' : List β} (h : l.mapM f = .ok l')
    {a : α} (ha : a ∈ l) : ∃ b ∈ l', f a = .ok b := by
  have hall := mapM_eq_ok.mp h
  clear h
  induction hall with
  | nil => exact nomatch ha
  | cons hab _ ih =>
    rcases List.mem_cons.mp ha with rfl | ha
    · exact ⟨_, List.mem_cons_self, hab⟩
    · obtain ⟨b, hb, hab⟩ := ih ha
      exact ⟨b, List.mem_cons_of_mem _ hb, hab⟩

/-- Mapping returns when every element can be mapped, and relates what the elements are
mapped to. -/
theorem exists_mapM_forall₂ {f : α → Except ε β} {r : α → β → Prop} {l : List α}
    (h : ∀ a ∈ l, ∃ b, f a = .ok b ∧ r a b) : ∃ l', l.mapM f = .ok l' ∧ List.Forall₂ r l l' := by
  induction l with
  | nil => exact ⟨[], mapM_eq_ok.mpr .nil, .nil⟩
  | cons a l ih =>
    obtain ⟨b, hb, hr⟩ := h a (by simp)
    obtain ⟨l', hl', hall⟩ := ih fun a' ha' => h a' (by simp [ha'])
    exact ⟨b :: l', mapM_eq_ok.mpr (.cons hb (mapM_eq_ok.mp hl')), .cons hr hall⟩

theorem exists_mapM {f : α → Except ε β} {l : List α} (h : ∀ a ∈ l, ∃ b, f a = .ok b) :
    ∃ l', l.mapM f = .ok l' := by
  have htrivial : ∀ a ∈ l, ∃ b, f a = .ok b ∧ True := by simpa using h
  obtain ⟨l', hl', -⟩ := exists_mapM_forall₂ (r := fun _ _ => True) htrivial
  exact ⟨l', hl'⟩

theorem exists_mapM_iff {f : α → Except ε β} {l : List α} :
    (∃ l', l.mapM f = .ok l') ↔ ∀ a ∈ l, ∃ b, f a = .ok b := by
  refine ⟨?_, exists_mapM⟩
  rintro ⟨l', hl'⟩ a ha
  obtain ⟨b, -, hb⟩ := mem_of_mapM_mem hl' ha
  exact ⟨b, hb⟩

/-- A fold whose steps always return does. -/
theorem exists_foldlM {f : β → α → Except ε β} {l : List α}
    (h : ∀ a ∈ l, ∀ b, ∃ b', f b a = .ok b') (b : β) : ∃ r, l.foldlM f b = .ok r := by
  induction l generalizing b with
  | nil => exact ⟨b, rfl⟩
  | cons a l ih =>
    obtain ⟨b', hb⟩ := h a List.mem_cons_self b
    obtain ⟨r, hr⟩ := ih (fun a' ha' => h a' (List.mem_cons_of_mem a ha')) b'
    refine ⟨r, ?_⟩
    rw [List.foldlM_cons, hb]
    exact hr

/-- A fold that returns wherever a fold with an optional result has one. -/
theorem foldlM_of_some {f : β → α → Except ε β} {g : β → α → Option β} {l : List α}
    (h : ∀ a ∈ l, ∀ b b', g b a = some b' → f b a = .ok b') {b r : β}
    (hg : l.foldlM g b = some r) : l.foldlM f b = .ok r := by
  induction l generalizing b with
  | nil =>
    rw [List.foldlM_nil] at hg ⊢
    exact congrArg Except.ok (Option.some.inj hg)
  | cons a l ih =>
    rw [List.foldlM_cons] at hg ⊢
    obtain ⟨b', hb, hg⟩ := Option.bind_eq_some_iff.mp hg
    rw [h a List.mem_cons_self b b' hb]
    exact ih (fun a' ha => h a' (List.mem_cons_of_mem a ha)) hg

/-- The invariant rule for a fold: the property reads what has been folded so far. -/
theorem foldlM_invariant {f : β → α → Except ε β} {P : List α → β → Prop} {l : List α} {b r : β}
    (h : l.foldlM f b = .ok r) (hinit : P [] b)
    (hstep : ∀ pre a post b b', l = pre ++ a :: post → P pre b → f b a = .ok b' →
      P (pre ++ [a]) b') : P l r := by
  have hloop : ∀ pre post b, l = pre ++ post → P pre b → post.foldlM f b = .ok r → P l r := by
    intro pre post
    induction post generalizing pre with
    | nil =>
      intro b hl hP hfold
      rw [List.append_nil] at hl
      obtain rfl : b = r := Except.ok.inj hfold
      exact hl ▸ hP
    | cons a post ih =>
      intro b hl hP hfold
      rw [List.foldlM_cons] at hfold
      obtain ⟨b', hb, hfold⟩ := bind_eq_ok.mp hfold
      exact ih (pre ++ [a]) b' (by rw [hl, List.append_assoc, List.singleton_append])
        (hstep pre a post b b' hl hP hb) hfold
  exact hloop [] l b rfl hinit h

/-- Mapping with a function that always returns. -/
theorem mapM_of_forall {f : α → Except ε β} {g : α → β} {l : List α}
    (h : ∀ a ∈ l, f a = .ok (g a)) : l.mapM f = .ok (l.map g) := by
  rw [mapM_eq_ok, List.forall₂_map_right_iff, List.forall₂_same]
  exact h

/-- Mapping raises when it does at an element. -/
theorem mapM_raises {f : α → Except ε β} {l : List α} {a : α} (ha : a ∈ l)
    (h : ∃ e, f a = .error e) : ∃ e, l.mapM f = .error e := by
  obtain ⟨e, he⟩ := h
  cases hmap : l.mapM f with
  | error e' => exact ⟨e', rfl⟩
  | ok l' =>
    obtain ⟨b, -, hb⟩ := mem_of_mapM_mem hmap ha
    rw [he] at hb
    exact nomatch hb

/-- Mapping the indices of a list with a function that returns at each of them. -/
theorem mapM_range {f : ℕ → Except ε β} {g : ℕ → α → β} {l : List α}
    (h : ∀ i a, l[i]? = some a → f i = .ok (g i a)) :
    (List.range l.length).mapM f = .ok (l.mapIdx g) := by
  rw [mapM_eq_ok, List.forall₂_iff_get]
  refine ⟨by simp, fun i hi hi' => ?_⟩
  have hget : i < l.length := by simpa using hi
  simpa using h i l[i] (List.getElem?_eq_getElem hget)

/-- Mapping an optional value with a function that returns at it. -/
theorem option_mapM {f : α → Except ε β} {g : α → β} {o : Option α}
    (h : ∀ a, o = some a → f a = .ok (g a)) : o.mapM f = .ok (o.map g) := by
  cases o with
  | none => rfl
  | some a =>
    rw [Option.mapM_some, h a rfl]
    rfl

theorem mapM_range_map {f : ℕ → Except ε β} {g : α → β} {l : List α}
    (h : ∀ i a, l[i]? = some a → f i = .ok (g a)) :
    (List.range l.length).mapM f = .ok (l.map g) := by
  have hidx : l.mapIdx (fun _ => g) = l.map g := by
    refine List.ext_getElem? fun i => ?_
    rw [List.getElem?_mapIdx, List.getElem?_map]
  rw [mapM_range h, hidx]

end NemoRL.Lib
