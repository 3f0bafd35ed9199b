import NemoRL.Lib.Except

/-!
# Dictionaries as association lists

A dictionary in insertion order is a list of keys with values, read by `List.lookup`.

## Main definitions

* `dictSet` — set a key in place, or append it.

## Main results

* `lookup_dictSet` — setting a key changes the value at that key only.
* `lookup_of_mapM` — mapping the values keeps the keys.
-/

namespace NemoRL.Lib

variable {κ β γ ε : Type} [DecidableEq κ] {d : List (κ × β)} {k k' : κ} {b : β}

/-- Set a key of a dictionary, in place or at the end. -/
def dictSet (d : List (κ × β)) (k : κ) (b : β) : List (κ × β) :=
  match d with
  | [] => [(k, b)]
  | (k', b') :: d => if k = k' then (k, b) :: d else (k', b') :: dictSet d k b

theorem lookup_cons (d : List (κ × β)) (p : κ × β) (k : κ) :
    (p :: d).lookup k = if k = p.1 then some p.2 else d.lookup k := by
  obtain ⟨k', b⟩ := p
  by_cases h : k = k'
  · simp [h]
  · have hbeq : (k == k') = false := beq_eq_false_iff_ne.mpr h
    rw [List.lookup_cons, hbeq, if_neg h]

/-- Setting a key changes the value at that key only. -/
theorem lookup_dictSet (d : List (κ × β)) (k : κ) (b : β) (k' : κ) :
    (dictSet d k b).lookup k' = if k' = k then some b else d.lookup k' := by
  induction d with
  | nil => rw [dictSet, lookup_cons]
  | cons p d ih =>
    obtain ⟨k₀, b₀⟩ := p
    rw [dictSet]
    split
    case isTrue h =>
      subst h
      simp only [lookup_cons]
      split <;> rfl
    case isFalse h =>
      simp only [lookup_cons, ih]
      by_cases hk : k' = k
      · subst hk
        simp [h]
      · simp [hk]

/-- A key that is present has a value. -/
theorem exists_lookup (h : k ∈ d.map Prod.fst) : ∃ b, d.lookup k = some b := by
  induction d with
  | nil => exact nomatch h
  | cons p d ih =>
    rw [lookup_cons]
    split
    case isTrue => exact ⟨_, rfl⟩
    case isFalse hk => exact ih ((List.mem_cons.mp h).resolve_left hk)

theorem mem_of_lookup (h : d.lookup k = some b) : (k, b) ∈ d := by
  induction d with
  | nil => exact nomatch h
  | cons p d ih =>
    rw [lookup_cons] at h
    split at h
    case isTrue hk =>
      obtain rfl := Option.some.inj h
      subst hk
      exact List.mem_cons_self
    case isFalse => exact List.mem_cons_of_mem p (ih h)

/-- Setting several keys one after another: keys that are not set keep their values. -/
theorem lookup_foldl_dictSet_of_notMem {row : List (κ × β)} (h : k ∉ row.map Prod.fst) :
    (row.foldl (fun d p => dictSet d p.1 p.2) d).lookup k = d.lookup k := by
  induction row generalizing d with
  | nil => rfl
  | cons p row ih =>
    rw [List.map_cons, List.mem_cons, not_or] at h
    rw [List.foldl_cons, ih h.2, lookup_dictSet, if_neg h.1]

/-- Setting several distinct keys sets each of them. -/
theorem lookup_foldl_dictSet {row : List (κ × β)} (hnd : (row.map Prod.fst).Nodup)
    (h : row.lookup k = some b) :
    (row.foldl (fun d p => dictSet d p.1 p.2) d).lookup k = some b := by
  induction row generalizing d with
  | nil => exact nomatch h
  | cons p row ih =>
    rw [List.map_cons, List.nodup_cons] at hnd
    rw [List.foldl_cons]
    rw [lookup_cons] at h
    split at h
    case isTrue hk =>
      subst hk
      rw [lookup_foldl_dictSet_of_notMem hnd.1, lookup_dictSet, if_pos rfl, h]
    case isFalse => exact ih hnd.2 h

/-- Of different keys each has the value at its position. -/
theorem lookup_zip {ks : List κ} {vs : List β} (hnd : ks.Nodup) {i : ℕ} (hk : i < ks.length)
    (hv : i < vs.length) : (ks.zip vs).lookup ks[i] = some vs[i] := by
  induction ks generalizing vs i with
  | nil => exact absurd hk (Nat.not_lt_zero _)
  | cons k ks ih =>
    cases vs with
    | nil => exact absurd hv (Nat.not_lt_zero _)
    | cons v vs =>
      rw [List.zip_cons_cons, lookup_cons]
      cases i with
      | zero => simp
      | succ i =>
        obtain ⟨hnotMem, hnd⟩ := List.nodup_cons.mp hnd
        have hi : i < ks.length := Nat.lt_of_succ_lt_succ hk
        have hne : ks[i] ≠ k := fun heq => hnotMem (heq ▸ List.getElem_mem hi)
        simp only [List.getElem_cons_succ, if_neg hne]
        exact ih hnd hi (Nat.lt_of_succ_lt_succ hv)

theorem lookup_map (d : List (κ × β)) (f : κ → β → γ) (k : κ) :
    (d.map fun p => (p.1, f p.1 p.2)).lookup k = (d.lookup k).map (f k) := by
  induction d with
  | nil => rfl
  | cons p d ih =>
    rw [List.map_cons, lookup_cons, lookup_cons, ih]
    split
    case isTrue hk => rw [hk]; rfl
    case isFalse => rfl

/-- Dictionaries with the same keys and related values. -/
theorem lookup_of_forall₂ {r : β → γ → Prop} {d' : List (κ × γ)}
    (h : List.Forall₂ (fun p q => q.1 = p.1 ∧ r p.2 q.2) d d') (k : κ) :
    Option.Rel r (d.lookup k) (d'.lookup k) := by
  induction h with
  | nil => exact .none
  | @cons p q _ _ hpq _ ih =>
    rw [lookup_cons, lookup_cons, hpq.1]
    split
    case isTrue => exact .some hpq.2
    case isFalse => exact ih

section MapM
variable {f : κ × β → Except ε (κ × γ)} {d' : List (κ × γ)}

omit [DecidableEq κ] in
/-- Mapping the values keeps the keys. -/
theorem keys_of_mapM (hkey : ∀ p q, f p = .ok q → q.1 = p.1) (h : d.mapM f = .ok d') :
    d'.map Prod.fst = d.map Prod.fst := by
  have hall := mapM_eq_ok.mp h
  clear h
  induction hall with
  | nil => rfl
  | cons hp _ ih => rw [List.map_cons, List.map_cons, ih, hkey _ _ hp]

/-- Mapping the values maps the value of each key. -/
theorem lookup_of_mapM (hkey : ∀ p q, f p = .ok q → q.1 = p.1) (h : d.mapM f = .ok d')
    (hb : d.lookup k = some b) : ∃ c, d'.lookup k = some c ∧ f (k, b) = .ok (k, c) := by
  have hall := mapM_eq_ok.mp h
  clear h
  induction hall with
  | nil => exact nomatch hb
  | @cons p q _ _ hp _ ih =>
    rw [lookup_cons] at hb ⊢
    rw [hkey p q hp]
    split at hb
    case isTrue hk =>
      obtain rfl := Option.some.inj hb
      rw [if_pos hk]
      refine ⟨q.2, rfl, ?_⟩
      rw [hk, hp, ← hkey p q hp]
    case isFalse hk =>
      rw [if_neg hk]
      exact ih hb

/-- Building a dictionary from its keys. -/
theorem lookup_of_mapM_keys {f : κ → Except ε (κ × γ)} {l : List κ}
    (hkey : ∀ k q, f k = .ok q → q.1 = k) (h : l.mapM f = .ok d') (hk : k ∈ l) :
    ∃ c, d'.lookup k = some c ∧ f k = .ok (k, c) := by
  have hall := mapM_eq_ok.mp h
  clear h
  induction hall with
  | nil => exact nomatch hk
  | @cons k' q _ _ hq _ ih =>
    rw [lookup_cons, hkey k' q hq]
    split
    case isTrue heq =>
      subst heq
      refine ⟨q.2, rfl, ?_⟩
      rw [hq, ← hkey k q hq]
    case isFalse hne => exact ih ((List.mem_cons.mp hk).resolve_left hne)

end MapM

/-- Picking the value of one of several distinct keys. -/
theorem filterMap_zip_keys {ks : List κ} (hnd : ks.Nodup) {vs : List β} {v : κ → Option β}
    (h : vs.map some = ks.map v) (hk : k ∈ ks) :
    ((ks.zip vs).filterMap fun p => if p.1 = k then some p.2 else none) = (v k).toList := by
  induction ks generalizing vs with
  | nil => exact nomatch hk
  | cons k' ks ih =>
    cases vs with
    | nil => exact nomatch h
    | cons b vs =>
      rw [List.map_cons, List.map_cons, List.cons.injEq] at h
      rw [List.nodup_cons] at hnd
      rw [List.zip_cons_cons, List.filterMap_cons]
      by_cases heq : k' = k
      · subst heq
        have hrest : ((ks.zip vs).filterMap fun p => if p.1 = k' then some p.2 else none) = [] := by
          rw [List.filterMap_eq_nil_iff]
          intro p hp
          have hne : p.1 ≠ k' := fun heq => hnd.1 (heq ▸ (List.of_mem_zip hp).1)
          exact if_neg hne
        simp [hrest, ← h.1]
      · have hmem : k ∈ ks := (List.mem_cons.mp hk).resolve_left (Ne.symm heq)
        simp only [if_neg heq]
        exact ih hnd.2 h.2 hmem

end NemoRL.Lib
