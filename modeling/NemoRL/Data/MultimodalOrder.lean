import Mathlib
import NemoRL.Data.MultimodalColumns

/-!
# The order of the logs of a multimodal batch

Two orders of one batch agree where their first logs decide the same for every key, and where each
of the first logs decides something that cannot be done.

## Main definitions

* `OrderIndependent` — two results agree up to the order of the logs.
* `FirstLogsAgree`, `FirstLogsDecide` — what is asked of the first logs.

## Main results

* `rowOrder_iff` — for which orders the results agree.
-/

namespace NemoRL.Data.Multimodal

open Lib

variable {D K V : Type} {promote : D → D → D} {values : List (Option (FlatValue D K V))}

/-! ## Flat messages -/

theorem shape_ne_nil_of_torchCat {dim : ℤ} {ts : List (MessageTensor D K)} {t : MessageTensor D K}
    (h : torchCat promote dim ts = .ok t) : t.value.shape ≠ [] := by
  cases ts with
  | nil => cases h
  | cons first rest =>
    unfold torchCat at h
    obtain ⟨_, -, h⟩ := bind_eq_ok.mp h
    split at h
    · obtain rfl := Except.ok.inj h
      simp [Tensor.vector]
    split at h
    case h_1 t' hcat =>
      obtain rfl := Except.ok.inj h
      exact shape_ne_nil_of_catAlong hcat
    case h_2 => cases h

theorem catValues_eq_ok {key : String} {vs : List (MessageValue D K V)} {t : MessageTensor D K}
    (h : catValues promote key vs = .ok t) : ∃ ts, torchCat promote 0 ts = .ok t := by
  unfold catValues at h
  obtain ⟨ts, -, h⟩ := bind_eq_ok.mp h
  refine ⟨ts, ?_⟩
  split at h
  case h_1 t' ht =>
    obtain rfl := Except.ok.inj h
    exact ht
  case h_2 e he =>
    split at h
    · cases h
    · cases h

/-- The tensors of a flat message have a dimension. -/
theorem shape_ne_nil_of_flat {log : List (Message D K V)} {flat : FlatMessage D K V}
    (h : messageLogToFlatMessages promote log = .ok flat) {key : String} {t : MessageTensor D K}
    (ht : flat.lookup key = some (.tensor t)) : t.value.shape ≠ [] := by
  obtain ⟨k, -, hk⟩ := mem_of_mapM h (mem_of_lookup ht)
  obtain ⟨v, hv, hk⟩ := bind_eq_ok.mp hk
  obtain ⟨rfl, rfl⟩ := Prod.mk.inj (Except.ok.inj hk)
  unfold concatValues at hv
  split at hv
  · obtain ⟨t', ht', hv⟩ := bind_eq_ok.mp hv
    obtain rfl := FlatValue.tensor.inj (Except.ok.inj hv)
    obtain ⟨ts, hts⟩ := catValues_eq_ok ht'
    exact shape_ne_nil_of_torchCat hts
  · split at hv
    · cases Except.ok.inj hv
    · cases hv
  · cases Except.ok.inj hv

/-- The values of a key. -/
def columnValues (flats : List (FlatMessage D K V)) (key : String) :
    List (Option (FlatValue D K V)) :=
  flats.map fun seq => seq.lookup key

section Batch
variable {div maxLen : ℕ} {flats : List (FlatMessage D K V)} {order : List ℕ} {key : String}

theorem mem_columnValues {v : Option (FlatValue D K V)} :
    v ∈ columnValues flats key ↔ ∃ flat ∈ flats, flat.lookup key = v := List.mem_map

theorem mem_flatKeys : key ∈ flatKeys flats ↔ ∃ v, some v ∈ columnValues flats key := by
  simp only [flatKeys, List.mem_dedup, List.mem_flatMap, mem_columnValues]
  constructor
  · rintro ⟨flat, hflat, hkey⟩
    obtain ⟨v, hv⟩ := exists_lookup hkey
    exact ⟨v, flat, hflat, hv⟩
  · rintro ⟨v, flat, hflat, hv⟩
    exact ⟨flat, hflat, List.mem_map_of_mem (mem_of_lookup hv)⟩

theorem longest_le_paddedMaxLen (h : paddedMaxLen flats div = .ok maxLen) :
    longest (flats.map seqLen) ≤ maxLen := by
  unfold paddedMaxLen at h
  dsimp only at h
  split at h
  · cases h
  rename_i hdiv
  split at h
  · obtain rfl := Except.ok.inj h
    rw [Nat.mul_comm]
    exact (Nat.lt_mul_div_succ _ (Nat.pos_of_ne_zero hdiv)).le
  · exact (Except.ok.inj h).le

theorem width_le (h : paddedMaxLen flats div = .ok maxLen) {t : MessageTensor D K}
    (ht : some (.tensor t) ∈ columnValues flats key) : t.value.width ≤ maxLen := by
  obtain ⟨flat, hflat, hlookup⟩ := mem_columnValues.mp ht
  have hwidth : t.value.width ∈ flat.map fun p => p.2.size :=
    List.mem_map_of_mem (f := fun p => p.2.size) (mem_of_lookup hlookup)
  calc t.value.width
      ≤ seqLen flat := le_longest hwidth
    _ ≤ longest (flats.map seqLen) := le_longest (List.mem_map_of_mem hflat)
    _ ≤ maxLen := longest_le_paddedMaxLen h

theorem exists_paddedMaxLen (flats : List (FlatMessage D K V)) (hdiv : div ≠ 0) :
    ∃ maxLen, paddedMaxLen flats div = .ok maxLen := by
  unfold paddedMaxLen
  rw [if_neg hdiv]
  split
  · exact ⟨_, rfl⟩
  · exact ⟨_, rfl⟩

theorem paddedMaxLen_select (horder : order.Perm (List.range flats.length)) :
    paddedMaxLen (select flats order) div = paddedMaxLen flats div := by
  have hperm := (select_perm horder).map seqLen
  have hlongest : longest ((select flats order).map seqLen) = longest (flats.map seqLen) := by
    refine le_antisymm (longest_le_iff.mpr ?_) (longest_le_iff.mpr ?_)
    · exact fun n hn => le_longest (hperm.mem_iff.mp hn)
    · exact fun n hn => le_longest (hperm.mem_iff.mpr hn)
  rw [paddedMaxLen, paddedMaxLen, hlongest]

theorem columnValues_select : columnValues (select flats order) key =
    select (columnValues flats key) order := (select_map _ flats order).symm

theorem head?_columnValues {first : FlatMessage D K V} (h : flats.head? = some first) :
    (columnValues flats key).head?.join = first.lookup key := by
  rw [columnValues, List.head?_map, h]
  rfl

theorem mem_flatKeys_select (horder : order.Perm (List.range flats.length)) :
    key ∈ flatKeys (select flats order) ↔ key ∈ flatKeys flats := by
  have hperm := select_perm (l := columnValues flats key) (u := order)
    (by rwa [columnValues, List.length_map])
  simp only [mem_flatKeys, columnValues_select, hperm.mem_iff]

end Batch

/-! ## The order of the logs -/

/-- Two results agree up to the order of the logs. -/
structure OrderIndependent (order : List ℕ)
    (r r' : Except PyError (List (String × FlatColumn D K V) × List ℕ)) : Prop where
  returns : (∃ x, r = .ok x) ↔ ∃ x, r' = .ok x
  columns : ∀ cols lens cols' lens', r = .ok (cols, lens) → r' = .ok (cols', lens') →
    ∀ key, Option.Rel (Permuted order) (cols.lookup key) (cols'.lookup key)
  lengths : ∀ cols lens cols' lens', r = .ok (cols, lens) → r' = .ok (cols', lens') →
    lens' = select lens order

/-- Two results that raise agree. -/
theorem orderIndependent_of_raises {order : List ℕ}
    {r r' : Except PyError (List (String × FlatColumn D K V) × List ℕ)}
    (h : ¬∃ x, r = .ok x) (h' : ¬∃ x, r' = .ok x) : OrderIndependent order r r' :=
  ⟨iff_of_false h h', fun _ _ _ _ hr _ => absurd ⟨_, hr⟩ h,
    fun _ _ _ _ hr _ => absurd ⟨_, hr⟩ h⟩

/-- Results of the same lengths agree where both or none have columns, which agree. -/
theorem orderIndependent_bind {m m' : Except PyError (List (String × FlatColumn D K V))}
    {lens order : List ℕ} :
    OrderIndependent order (m.bind fun cols => .ok (cols, lens))
      (m'.bind fun cols => .ok (cols, select lens order)) ↔
      ((∃ cols, m = .ok cols) ↔ ∃ cols, m' = .ok cols) ∧
        ∀ cols cols', m = .ok cols → m' = .ok cols' →
          ∀ key, Option.Rel (Permuted order) (cols.lookup key) (cols'.lookup key) := by
  have hbind : ∀ (m : Except PyError (List (String × FlatColumn D K V))) (lens : List ℕ) x,
      (m.bind fun cols => .ok (cols, lens)) = .ok x ↔ m = .ok x.1 ∧ x.2 = lens := by
    intro m lens x
    rw [bind_eq_ok]
    constructor
    · rintro ⟨cols, hm, heq⟩
      obtain rfl := Except.ok.inj heq
      exact ⟨hm, rfl⟩
    · rintro ⟨hm, rfl⟩
      exact ⟨x.1, hm, rfl⟩
  have hexists : ∀ (m : Except PyError (List (String × FlatColumn D K V))) (lens : List ℕ),
      (∃ x, (m.bind fun cols => .ok (cols, lens)) = .ok x) ↔ ∃ cols, m = .ok cols := by
    intro m lens
    simp only [hbind]
    constructor
    · rintro ⟨x, hm, -⟩
      exact ⟨x.1, hm⟩
    · rintro ⟨cols, hm⟩
      exact ⟨(cols, lens), hm, rfl⟩
  constructor
  · intro h
    refine ⟨?_, fun cols cols' hm hm' => ?_⟩
    · rw [← hexists m lens, ← hexists m' (select lens order)]
      exact h.returns
    · exact h.columns cols lens cols' (select lens order) ((hbind m lens _).mpr ⟨hm, rfl⟩)
        ((hbind m' _ _).mpr ⟨hm', rfl⟩)
  · rintro ⟨hreturns, hcolumns⟩
    refine ⟨?_, ?_, ?_⟩
    · rwa [hexists, hexists]
    · intro cols l cols' l' hr hr'
      exact hcolumns cols cols' ((hbind _ _ _).mp hr).1 ((hbind _ _ _).mp hr').1
    · intro cols l cols' l' hr hr'
      obtain ⟨-, rfl⟩ := (hbind _ _ _).mp hr
      exact ((hbind _ _ _).mp hr').2

/-- Something that a log decides cannot be done. -/
def Raises (promote : D → D → D) (flats : List (FlatMessage D K V)) (first : FlatMessage D K V) :
    Prop :=
  ∃ key, ¬CanDo promote (columnValues flats key) (decision (first.lookup key))

theorem CanDo.mono {values' : List (Option (FlatValue D K V))} {d : Decision}
    (h : ∀ v, v ∈ values' → v ∈ values) (hd : CanDo promote values d) :
    CanDo promote values' d := by
  cases d with
  | list => trivial
  | tensor => exact ⟨fun v hv => hd.tensors v (h _ hv),
      fun t t' ht ht' => hd.agree t t' (h _ ht) (h _ ht'),
      fun hnone t ht => hd.missing (h _ hnone) t (h _ ht)⟩
  | packed => exact ⟨fun v hv => hd.packed v (h _ hv),
      fun p p' hp hp' => hd.dimToPack p p' (h _ hp) (h _ hp'),
      fun p hp => hd.asTensor p (h _ hp)⟩

theorem exists_first {flats : List (FlatMessage D K V)} {order : List ℕ}
    (horder : order.Perm (List.range flats.length)) (hany : flats.any hasTensor = true) :
    ∃ first first', flats.head? = some first ∧ (select flats order).head? = some first' := by
  have hne : flats ≠ [] := by
    rintro rfl
    cases hany
  have hne' : select flats order ≠ [] := fun hnil => hne (hnil ▸ select_perm horder).symm.eq_nil
  obtain ⟨first, rest, hfirst⟩ := List.exists_cons_of_ne_nil hne
  obtain ⟨first', rest', hfirst'⟩ := List.exists_cons_of_ne_nil hne'
  exact ⟨first, first', by rw [hfirst]; rfl, by rw [hfirst']; rfl⟩

theorem raises_select {flats : List (FlatMessage D K V)} {order : List ℕ}
    {first : FlatMessage D K V} (horder : order.Perm (List.range flats.length)) :
    Raises promote (select flats order) first ↔ Raises promote flats first := by
  have hmem : ∀ key v, v ∈ columnValues (select flats order) key ↔ v ∈ columnValues flats key :=
    fun key v => ((select_perm horder).map _).mem_iff
  refine exists_congr fun key => not_congr ⟨?_, ?_⟩
  · exact CanDo.mono fun v => (hmem key v).mpr
  · exact CanDo.mono fun v => (hmem key v).mp

/-- Two logs decide something that cannot be done, or decide the same for every key. -/
def FirstLogsAgree (promote : D → D → D) (flats : List (FlatMessage D K V))
    (first first' : FlatMessage D K V) : Prop :=
  (Raises promote flats first ∧ Raises promote flats first') ∨
    ((¬Raises promote flats first ∧ ¬Raises promote flats first') ∧
      ∀ key, decision (first.lookup key) = decision (first'.lookup key))

/-- The keys for which some log has a tensor are stacked, and those with packed tensors are packed,
with a row for each log. -/
def Represents (flats : List (FlatMessage D K V)) (cols : List (String × FlatColumn D K V)) :
    Prop :=
  ∀ key, ∀ flat ∈ flats, decision (flat.lookup key) ≠ .list →
    ∃ c, cols.lookup key = some c ∧ c.decision = decision (flat.lookup key) ∧
      c.length = flats.length

/-- Two logs decide something that cannot be done, or both decide what any log decides for a key
other than a list. -/
def FirstLogsDecide (promote : D → D → D) (flats : List (FlatMessage D K V))
    (first first' : FlatMessage D K V) : Prop :=
  (Raises promote flats first ∧ Raises promote flats first') ∨
    ((¬Raises promote flats first ∧ ¬Raises promote flats first') ∧
      ∀ key, ∀ flat ∈ flats, decision (flat.lookup key) ≠ .list →
        decision (first.lookup key) = decision (flat.lookup key) ∧
          decision (first'.lookup key) = decision (flat.lookup key))

theorem FirstLogsDecide.agree {flats : List (FlatMessage D K V)} {first first' : FlatMessage D K V}
    (hmem : first ∈ flats) (hmem' : first' ∈ flats)
    (h : FirstLogsDecide promote flats first first') :
    FirstLogsAgree promote flats first first' := by
  refine h.imp_right fun ⟨hraises, hdecide⟩ => ⟨hraises, fun key => ?_⟩
  by_cases hfirst : decision (first.lookup key) = .list
  · by_cases hfirst' : decision (first'.lookup key) = .list
    · rw [hfirst, hfirst']
    · exact (hdecide key first' hmem' hfirst').1
  · exact (hdecide key first hmem hfirst).2.symm

section Columns
variable [DecidableEq D] [ToString D] [Zero K] {padValueDict : Option (List (String × K))}
  {maxLen : ℕ} {flats : List (FlatMessage D K V)} {order : List ℕ} {key : String}
  {cols : List (String × FlatColumn D K V)}

theorem flatColumn_eq_ok {q : String × FlatColumn D K V} :
    flatColumn promote padValueDict maxLen flats key = .ok q ↔ q.1 = key ∧
      stackColumn promote maxLen (((padValueDict.getD []).lookup key).getD 0)
        (columnValues flats key) = .ok q.2 := by
  unfold flatColumn
  constructor
  · intro h
    obtain ⟨c, hc, h⟩ := bind_eq_ok.mp h
    obtain rfl := Except.ok.inj h
    exact ⟨rfl, hc⟩
  · rintro ⟨rfl, hc⟩
    exact bind_eq_ok.mpr ⟨q.2, hc, rfl⟩

/-- The column of a key of the batch. -/
theorem lookup_columns
    (h : (flatKeys flats).mapM (flatColumn promote padValueDict maxLen flats) = .ok cols)
    (hkey : key ∈ flatKeys flats) : ∃ c, cols.lookup key = some c ∧
      stackColumn promote maxLen (((padValueDict.getD []).lookup key).getD 0)
        (columnValues flats key) = .ok c := by
  obtain ⟨c, hc, hcolumn⟩ := lookup_of_mapM_keys (fun k q hq => (flatColumn_eq_ok.mp hq).1) h hkey
  exact ⟨c, hc, (flatColumn_eq_ok.mp hcolumn).2⟩

theorem lookup_columns_none
    (h : (flatKeys flats).mapM (flatColumn promote padValueDict maxLen flats) = .ok cols)
    (hkey : key ∉ flatKeys flats) : cols.lookup key = none := by
  cases hc : cols.lookup key with
  | none => rfl
  | some c =>
    obtain ⟨k, hk, hcolumn⟩ := mem_of_mapM h (mem_of_lookup hc)
    obtain rfl := (flatColumn_eq_ok.mp hcolumn).1
    exact absurd hk hkey

/-- There are columns unless something that the first log decides cannot be done. -/
theorem exists_columns {first : FlatMessage D K V} (hfirst : flats.head? = some first)
    (hwidth : ∀ key t, some (.tensor t) ∈ columnValues flats key →
      t.value.shape ≠ [] ∧ t.value.width ≤ maxLen) :
    (∃ cols, (flatKeys flats).mapM (flatColumn promote padValueDict maxLen flats) = .ok cols) ↔
      ¬Raises promote flats first := by
  have hcolumn : ∀ key, (∃ q, flatColumn promote padValueDict maxLen flats key = .ok q) ↔
      CanDo promote (columnValues flats key) (decision (first.lookup key)) := by
    intro key
    rw [← head?_columnValues hfirst, ← exists_stackColumn (hwidth key)]
    simp only [flatColumn_eq_ok]
    constructor
    · rintro ⟨q, -, hq⟩
      exact ⟨q.2, hq⟩
    · rintro ⟨c, hc⟩
      exact ⟨(key, c), rfl, hc⟩
  rw [exists_mapM_iff, Raises, not_exists]
  simp only [hcolumn, not_not]
  refine ⟨fun h key => ?_, fun h key _ => h key⟩
  by_cases hkey : key ∈ flatKeys flats
  · exact h key hkey
  · have hnone : first.lookup key = none := by
      cases hv : first.lookup key with
      | none => rfl
      | some v =>
        refine absurd (mem_flatKeys.mpr ⟨v, mem_columnValues.mpr ⟨first, ?_, hv⟩⟩) hkey
        exact List.mem_of_head? hfirst
    rw [hnone]
    trivial

/-- The columns of a batch with a tensor agree where the first logs decide the same. -/
theorem columns_rel_iff {cols' : List (String × FlatColumn D K V)}
    {first first' : FlatMessage D K V}
    (horder : order.Perm (List.range flats.length)) (hfirst : flats.head? = some first)
    (hfirst' : (select flats order).head? = some first')
    (h : (flatKeys flats).mapM (flatColumn promote padValueDict maxLen flats) = .ok cols)
    (h' : (flatKeys (select flats order)).mapM
      (flatColumn promote padValueDict maxLen (select flats order)) = .ok cols') :
    (∀ key, Option.Rel (Permuted order) (cols.lookup key) (cols'.lookup key)) ↔
      ∀ key, decision (first.lookup key) = decision (first'.lookup key) := by
  refine forall_congr' fun key => ?_
  by_cases hkey : key ∈ flatKeys flats
  · obtain ⟨c, hc, hcolumn⟩ := lookup_columns h hkey
    obtain ⟨c', hc', hcolumn'⟩ := lookup_columns h' ((mem_flatKeys_select horder).mpr hkey)
    rw [columnValues_select] at hcolumn'
    have horder' : order.Perm (List.range (columnValues flats key).length) := by
      rwa [columnValues, List.length_map]
    rw [hc, hc', Option.rel_some_some, permuted_iff horder' hcolumn hcolumn',
      head?_columnValues hfirst, ← columnValues_select, head?_columnValues hfirst']
  · have hkey' : key ∉ flatKeys (select flats order) := by rwa [mem_flatKeys_select horder]
    have hnone : ∀ flat ∈ flats, flat.lookup key = none := by
      intro flat hflat
      cases hv : flat.lookup key with
      | none => rfl
      | some v => exact absurd (mem_flatKeys.mpr ⟨v, mem_columnValues.mpr ⟨flat, hflat, hv⟩⟩) hkey
    have hmem' : first' ∈ flats := (select_perm horder).mem_iff.mp (List.mem_of_head? hfirst')
    rw [lookup_columns_none h hkey, lookup_columns_none h' hkey',
      hnone first (List.mem_of_head? hfirst), hnone first' hmem']
    exact iff_of_true .none rfl

/-- The columns of a batch with a tensor are as documented where the first log decides so. -/
theorem represents_iff {first : FlatMessage D K V} (hfirst : flats.head? = some first)
    (h : (flatKeys flats).mapM (flatColumn promote padValueDict maxLen flats) = .ok cols) :
    Represents flats cols ↔ ∀ key, ∀ flat ∈ flats, decision (flat.lookup key) ≠ .list →
      decision (first.lookup key) = decision (flat.lookup key) := by
  refine forall_congr' fun key => forall₂_congr fun flat hflat => ?_
  refine imp_congr_right fun hlist => ?_
  have hkey : key ∈ flatKeys flats := by
    cases hv : flat.lookup key with
    | none => exact absurd (by rw [hv]; rfl) hlist
    | some v => exact mem_flatKeys.mpr ⟨v, mem_columnValues.mpr ⟨flat, hflat, hv⟩⟩
  obtain ⟨c, hc, hcolumn⟩ := lookup_columns h hkey
  have hdecision := decision_stackColumn hcolumn
  have hlength := length_stackColumn hcolumn
  rw [head?_columnValues hfirst] at hdecision
  rw [columnValues, List.length_map] at hlength
  rw [← hdecision, hc]
  constructor
  · rintro ⟨c', hc', heq, -⟩
    obtain rfl := Option.some.inj hc'
    exact heq
  · intro heq
    exact ⟨c, rfl, heq, hlength⟩

end Columns

section FirstValues
variable {flats : List (FlatMessage D K V)} {order : List ℕ} {key : String}
  {cols : List (String × FlatColumn D K V)}

theorem firstValuesColumn_eq_ok {q : String × FlatColumn D K V} :
    firstValuesColumn flats key = .ok q ↔
      ∃ vs, (columnValues flats key).mapM firstValue = .ok vs ∧ q = (key, .firstValues vs) := by
  unfold firstValuesColumn columnValues
  rw [List.mapM_map]
  refine bind_eq_ok.trans (exists_congr fun vs => and_congr_right fun _ => ?_)
  constructor
  · intro h
    exact (Except.ok.inj h).symm
  · rintro rfl
    rfl

/-- A batch without tensors has columns where every log has a first value. -/
theorem exists_firstValues :
    (∃ cols, (flatKeys flats).mapM (firstValuesColumn flats) = .ok cols) ↔
      ∀ key ∈ flatKeys flats, ∀ v ∈ columnValues flats key, ∃ x, firstValue v = .ok x := by
  rw [exists_mapM_iff]
  refine forall₂_congr fun key _ => ?_
  rw [← exists_mapM_iff]
  simp only [firstValuesColumn_eq_ok]
  constructor
  · rintro ⟨q, vs, hvs, -⟩
    exact ⟨vs, hvs⟩
  · rintro ⟨vs, hvs⟩
    exact ⟨_, vs, hvs, rfl⟩

theorem lookup_firstValues
    (h : (flatKeys flats).mapM (firstValuesColumn flats) = .ok cols) :
    (key ∈ flatKeys flats → ∃ vs, cols.lookup key = some (.firstValues vs) ∧
      (columnValues flats key).mapM firstValue = .ok vs) ∧
    (key ∉ flatKeys flats → cols.lookup key = none) := by
  constructor
  · intro hkey
    have hfst : ∀ k q, firstValuesColumn flats k = .ok q → q.1 = k := by
      intro k q hq
      obtain ⟨vs, -, rfl⟩ := firstValuesColumn_eq_ok.mp hq
      rfl
    obtain ⟨c, hc, hcolumn⟩ := lookup_of_mapM_keys hfst h hkey
    obtain ⟨vs, hvs, heq⟩ := firstValuesColumn_eq_ok.mp hcolumn
    obtain rfl := (Prod.mk.inj heq).2
    exact ⟨vs, hc, hvs⟩
  · intro hkey
    cases hc : cols.lookup key with
    | none => rfl
    | some c =>
      obtain ⟨k, hk, hcolumn⟩ := mem_of_mapM h (mem_of_lookup hc)
      obtain ⟨vs, -, heq⟩ := firstValuesColumn_eq_ok.mp hcolumn
      exact absurd ((Prod.mk.inj heq).1 ▸ hk) hkey

theorem firstValues_rel {cols' : List (String × FlatColumn D K V)}
    (horder : order.Perm (List.range flats.length))
    (h : (flatKeys flats).mapM (firstValuesColumn flats) = .ok cols)
    (h' : (flatKeys (select flats order)).mapM (firstValuesColumn (select flats order)) =
      .ok cols') (key : String) :
    Option.Rel (Permuted order) (cols.lookup key) (cols'.lookup key) := by
  by_cases hkey : key ∈ flatKeys flats
  · obtain ⟨vs, hvs, hfirst⟩ := (lookup_firstValues h).1 hkey
    obtain ⟨vs', hvs', hfirst'⟩ := (lookup_firstValues h').1 ((mem_flatKeys_select horder).mpr hkey)
    rw [columnValues_select, select_mapM hfirst order] at hfirst'
    rw [hvs, hvs', Option.rel_some_some]
    exact (Except.ok.inj hfirst').symm
  · have hkey' : key ∉ flatKeys (select flats order) := by rwa [mem_flatKeys_select horder]
    rw [(lookup_firstValues h).2 hkey, (lookup_firstValues h').2 hkey']
    exact .none

end FirstValues

section Batch
variable [DecidableEq D] [ToString D] [Zero K] {padValueDict : Option (List (String × K))}
  {div maxLen : ℕ} {batch : List (List (Message D K V))} {flats : List (FlatMessage D K V)}
  {order : List ℕ}

theorem batched_tensor (hne : batch ≠ [])
    (hflats : batch.mapM (messageLogToFlatMessages promote) = .ok flats)
    (hlen : paddedMaxLen flats div = .ok maxLen) (hany : flats.any hasTensor = true) :
    batchedMessageLogToFlatMessage promote padValueDict div batch =
      ((flatKeys flats).mapM (flatColumn promote padValueDict maxLen flats)).bind fun cols =>
        .ok (cols, flats.map seqLen) := by
  unfold batchedMessageLogToFlatMessage
  rw [if_neg (by simpa using hne), hflats]
  simp only [bind, Except.bind, hlen, hany]
  rfl

theorem batched_firstValues (hne : batch ≠ [])
    (hflats : batch.mapM (messageLogToFlatMessages promote) = .ok flats)
    (hlen : paddedMaxLen flats div = .ok maxLen) (hany : ¬ flats.any hasTensor = true) :
    batchedMessageLogToFlatMessage promote padValueDict div batch =
      ((flatKeys flats).mapM (firstValuesColumn flats)).bind fun cols => .ok (cols, []) := by
  unfold batchedMessageLogToFlatMessage
  rw [if_neg (by simpa using hne), hflats]
  simp only [bind, Except.bind, hlen, hany]
  rfl

theorem batched_raises (hne : batch ≠ [])
    (h : ∀ flats, batch.mapM (messageLogToFlatMessages promote) = .ok flats → div = 0) :
    ¬∃ x, batchedMessageLogToFlatMessage promote padValueDict div batch = .ok x := by
  rintro ⟨x, hx⟩
  unfold batchedMessageLogToFlatMessage at hx
  rw [if_neg (by simpa using hne)] at hx
  obtain ⟨flats, hflats, hx⟩ := bind_eq_ok.mp hx
  obtain ⟨maxLen, hlen, -⟩ := bind_eq_ok.mp hx
  rw [paddedMaxLen, if_pos (h flats hflats)] at hlen
  cases hlen

omit [DecidableEq D] [ToString D] [Zero K] in
/-- The tensors of the flat messages have a dimension and are not too long. -/
theorem shape_and_width (hflats : batch.mapM (messageLogToFlatMessages promote) = .ok flats)
    (hlen : paddedMaxLen flats div = .ok maxLen) :
    ∀ key t, some (.tensor t) ∈ columnValues flats key →
      t.value.shape ≠ [] ∧ t.value.width ≤ maxLen := by
  intro key t ht
  refine ⟨?_, width_le hlen ht⟩
  obtain ⟨flat, hflat, hlookup⟩ := mem_columnValues.mp ht
  obtain ⟨log, -, hlog⟩ := mem_of_mapM hflats hflat
  exact shape_ne_nil_of_flat hlog hlookup

/-- A batch with a tensor has columns unless something that the first log decides cannot be done. -/
theorem exists_batched_tensor {first : FlatMessage D K V}
    (padValueDict : Option (List (String × K))) (hne : batch ≠ [])
    (hflats : batch.mapM (messageLogToFlatMessages promote) = .ok flats) (hdiv : div ≠ 0)
    (hany : flats.any hasTensor = true) (hfirst : flats.head? = some first) :
    ((∃ x, batchedMessageLogToFlatMessage promote padValueDict div batch = .ok x) ↔
      ¬Raises promote flats first) ∧
    ∀ cols lens, batchedMessageLogToFlatMessage promote padValueDict div batch = .ok (cols, lens) →
      (Represents flats cols ↔ ∀ key, ∀ flat ∈ flats, decision (flat.lookup key) ≠ .list →
        decision (first.lookup key) = decision (flat.lookup key)) := by
  obtain ⟨maxLen, hlen⟩ := exists_paddedMaxLen flats hdiv
  have hwidth := shape_and_width hflats hlen
  rw [batched_tensor hne hflats hlen hany, ← exists_columns hfirst hwidth]
  constructor
  · constructor
    · rintro ⟨x, hx⟩
      obtain ⟨cols, hcols, -⟩ := bind_eq_ok.mp hx
      exact ⟨cols, hcols⟩
    · rintro ⟨cols, hcols⟩
      exact ⟨_, bind_eq_ok.mpr ⟨cols, hcols, rfl⟩⟩
  · intro cols lens h
    obtain ⟨cols', hcols, heq⟩ := bind_eq_ok.mp h
    obtain ⟨rfl, -⟩ := Prod.mk.inj (Except.ok.inj heq)
    exact represents_iff hfirst hcols

/-- A batch with a tensor. -/
theorem orderIndependent_tensor_iff {first first' : FlatMessage D K V}
    (horder : order.Perm (List.range flats.length)) (hne : batch ≠ [])
    (hne' : select batch order ≠ [])
    (hflats : batch.mapM (messageLogToFlatMessages promote) = .ok flats)
    (hdiv : div ≠ 0) (hany : flats.any hasTensor = true) (hfirst : flats.head? = some first)
    (hfirst' : (select flats order).head? = some first') :
    OrderIndependent order (batchedMessageLogToFlatMessage promote padValueDict div batch)
      (batchedMessageLogToFlatMessage promote padValueDict div (select batch order)) ↔
      FirstLogsAgree promote flats first first' := by
  obtain ⟨maxLen, hlen⟩ := exists_paddedMaxLen flats hdiv
  have hlen' := (paddedMaxLen_select horder).trans hlen
  have hany' : (select flats order).any hasTensor = true := by
    rw [List.any_eq_true] at hany ⊢
    simpa only [(select_perm horder).mem_iff] using hany
  have hwidth := shape_and_width hflats hlen
  have hwidth' : ∀ key t, some (.tensor t) ∈ columnValues (select flats order) key →
      t.value.shape ≠ [] ∧ t.value.width ≤ maxLen :=
    fun key t ht => hwidth key t (((select_perm horder).map _).mem_iff.mp ht)
  rw [batched_tensor hne hflats hlen hany,
    batched_tensor hne' (select_mapM hflats order) hlen' hany', ← select_map,
    orderIndependent_bind, exists_columns hfirst hwidth, exists_columns hfirst' hwidth',
    raises_select horder, FirstLogsAgree]
  by_cases hraises : Raises promote flats first
  · have hnone : ¬∃ cols, (flatKeys flats).mapM (flatColumn promote padValueDict maxLen flats) =
        .ok cols := fun h => (exists_columns hfirst hwidth).mp h hraises
    simp only [hraises, not_true_eq_false, false_iff, not_not, true_and, false_and, or_false,
      and_iff_left_iff_imp]
    intro _ cols cols' h
    exact absurd ⟨cols, h⟩ hnone
  · simp only [hraises, not_false_eq_true, true_iff, false_and, true_and, false_or]
    refine and_congr_right fun hraises' => ?_
    have hexists : ∃ cols, (flatKeys flats).mapM
        (flatColumn promote padValueDict maxLen flats) = .ok cols :=
      (exists_columns hfirst hwidth).mpr hraises
    have hexists' : ∃ cols, (flatKeys (select flats order)).mapM
        (flatColumn promote padValueDict maxLen (select flats order)) = .ok cols := by
      rw [exists_columns hfirst' hwidth', raises_select horder]
      exact hraises'
    obtain ⟨cols, hcols⟩ := hexists
    obtain ⟨cols', hcols'⟩ := hexists'
    rw [← columns_rel_iff horder hfirst hfirst' hcols hcols']
    constructor
    · intro h
      exact h cols cols' hcols hcols'
    · intro h cols₁ cols₂ hcols₁ hcols₂
      obtain rfl := Except.ok.inj (hcols.symm.trans hcols₁)
      obtain rfl := Except.ok.inj (hcols'.symm.trans hcols₂)
      exact h

/-- A batch without tensors. -/
theorem orderIndependent_firstValues (horder : order.Perm (List.range flats.length))
    (hne : batch ≠ []) (hne' : select batch order ≠ [])
    (hflats : batch.mapM (messageLogToFlatMessages promote) = .ok flats)
    (hdiv : div ≠ 0) (hany : ¬flats.any hasTensor = true) :
    OrderIndependent order (batchedMessageLogToFlatMessage promote padValueDict div batch)
      (batchedMessageLogToFlatMessage promote padValueDict div (select batch order)) := by
  obtain ⟨maxLen, hlen⟩ := exists_paddedMaxLen flats hdiv
  have hlen' := (paddedMaxLen_select horder).trans hlen
  have hany' : ¬(select flats order).any hasTensor = true := by
    rw [List.any_eq_true] at hany ⊢
    simpa only [(select_perm horder).mem_iff] using hany
  have hmem : ∀ key v, v ∈ columnValues (select flats order) key ↔ v ∈ columnValues flats key :=
    fun key v => ((select_perm horder).map _).mem_iff
  have hnil : select ([] : List ℕ) order = [] := by simp [select]
  rw [batched_firstValues hne hflats hlen hany,
    batched_firstValues hne' (select_mapM hflats order) hlen' hany']
  nth_rewrite 2 [← hnil]
  refine orderIndependent_bind.mpr ⟨?_, ?_⟩
  · rw [exists_firstValues, exists_firstValues]
    simp only [mem_flatKeys_select horder, hmem]
  · intro cols cols' h h' key
    exact firstValues_rel horder h h' key

/-- Two orders of a batch agree exactly where their first logs do, in a batch with a tensor whose
logs can be flattened. -/
theorem orderIndependent_iff_agree (horder : order.Perm (List.range batch.length)) :
    OrderIndependent order (batchedMessageLogToFlatMessage promote padValueDict div batch)
      (batchedMessageLogToFlatMessage promote padValueDict div (select batch order)) ↔
      ∀ flats first first', batch.mapM (messageLogToFlatMessages promote) = .ok flats →
        flats.head? = some first → (select flats order).head? = some first' → div ≠ 0 →
        flats.any hasTensor = true → FirstLogsAgree promote flats first first' := by
  have hperm := select_perm horder
  by_cases hne : batch = []
  · subst hne
    obtain rfl : order = [] := by simpa using horder
    refine iff_of_true ⟨Iff.rfl, ?_, ?_⟩ ?_
    · intro cols lens cols' lens' hr hr' key
      obtain ⟨rfl, rfl⟩ := Prod.mk.inj (Except.ok.inj hr)
      obtain ⟨rfl, rfl⟩ := Prod.mk.inj (Except.ok.inj hr')
      exact .none
    · intro cols lens cols' lens' hr hr'
      obtain ⟨rfl, rfl⟩ := Prod.mk.inj (Except.ok.inj hr)
      obtain ⟨rfl, rfl⟩ := Prod.mk.inj (Except.ok.inj hr')
      rfl
    · intro flats first first' hflats hfirst
      obtain rfl := Except.ok.inj hflats
      cases hfirst
  have hne' : select batch order ≠ [] := fun hnil => hne (hnil ▸ hperm).symm.eq_nil
  by_cases hraises : ∀ flats, batch.mapM (messageLogToFlatMessages promote) = .ok flats → div = 0
  · refine iff_of_true (orderIndependent_of_raises (batched_raises hne hraises) ?_) ?_
    · refine batched_raises hne' fun flats' hflats' => ?_
      obtain ⟨flats, hflats⟩ := exists_mapM_iff.mpr fun log hlog =>
        exists_mapM_iff.mp ⟨flats', hflats'⟩ log (hperm.mem_iff.mpr hlog)
      exact hraises flats hflats
    · intro flats first first' hflats _ _ hdiv
      exact absurd (hraises flats hflats) hdiv
  simp only [not_forall] at hraises
  obtain ⟨flats, hflats, hdiv⟩ := hraises
  have horder' : order.Perm (List.range flats.length) := by
    rwa [← (mapM_eq_ok.mp hflats).length_eq]
  by_cases hany : flats.any hasTensor = true
  · obtain ⟨first, first', hhead, hhead'⟩ := exists_first horder' hany
    rw [orderIndependent_tensor_iff horder' hne hne' hflats hdiv hany hhead hhead']
    constructor
    · intro h flats₁ first₁ first₂ hflats₁ hfirst₁ hfirst₂ _ _
      obtain rfl := Except.ok.inj (hflats.symm.trans hflats₁)
      obtain rfl := Option.some.inj (hhead.symm.trans hfirst₁)
      obtain rfl := Option.some.inj (hhead'.symm.trans hfirst₂)
      exact h
    · intro h
      exact h flats first first' hflats hhead hhead' hdiv hany
  · refine iff_of_true (orderIndependent_firstValues horder' hne hne' hflats hdiv hany) ?_
    intro flats₁ first₁ first₂ hflats₁ _ _ _ hany₁
    obtain rfl := Except.ok.inj (hflats.symm.trans hflats₁)
    exact absurd hany₁ hany

/-- What is promised of a batch and another order of its logs. -/
structure RowOrderIndependent (promote : D → D → D) (padValueDict : Option (List (String × K)))
    (div : ℕ) (batch : List (List (Message D K V))) (order : List ℕ) : Prop where
  independent : OrderIndependent order
    (batchedMessageLogToFlatMessage promote padValueDict div batch)
    (batchedMessageLogToFlatMessage promote padValueDict div (select batch order))
  represents : ∀ flats cols lens, batch.mapM (messageLogToFlatMessages promote) = .ok flats →
    batchedMessageLogToFlatMessage promote padValueDict div batch = .ok (cols, lens) →
    Represents flats cols

/-- The columns of a batch without tensors are lists. -/
theorem represents_of_not_hasTensor {cols : List (String × FlatColumn D K V)} {lens : List ℕ}
    (hne : batch ≠ [])
    (hflats : batch.mapM (messageLogToFlatMessages promote) = .ok flats)
    (hdiv : div ≠ 0) (hany : ¬flats.any hasTensor = true)
    (h : batchedMessageLogToFlatMessage promote padValueDict div batch = .ok (cols, lens)) :
    Represents flats cols := by
  obtain ⟨maxLen, hlen⟩ := exists_paddedMaxLen flats hdiv
  rw [batched_firstValues hne hflats hlen hany] at h
  obtain ⟨cols', hcols, -⟩ := bind_eq_ok.mp h
  have hfirst := exists_firstValues.mp ⟨cols', hcols⟩
  intro key flat hflat hlist
  refine absurd ?_ hlist
  cases hv : flat.lookup key with
  | none => rfl
  | some v =>
    have hmem : some v ∈ columnValues flats key := mem_columnValues.mpr ⟨flat, hflat, hv⟩
    obtain ⟨x, hx⟩ := hfirst key (mem_flatKeys.mpr ⟨v, hmem⟩) _ hmem
    cases v with
    | values vs => rfl
    | tensor t => cases hx
    | packed p => cases hx

/-- The order of the logs does not matter exactly where the first logs of both orders agree, in a
batch with a tensor whose logs can be flattened. The columns are also as documented exactly where
the first logs decide what any log decides for a key other than a list. -/
theorem rowOrder_iff (horder : order.Perm (List.range batch.length)) :
    (OrderIndependent order (batchedMessageLogToFlatMessage promote padValueDict div batch)
      (batchedMessageLogToFlatMessage promote padValueDict div (select batch order)) ↔
      ∀ flats first first', batch.mapM (messageLogToFlatMessages promote) = .ok flats →
        flats.head? = some first → (select flats order).head? = some first' → div ≠ 0 →
        flats.any hasTensor = true → FirstLogsAgree promote flats first first') ∧
    (RowOrderIndependent promote padValueDict div batch order ↔
      ∀ flats first first', batch.mapM (messageLogToFlatMessages promote) = .ok flats →
        flats.head? = some first → (select flats order).head? = some first' → div ≠ 0 →
        flats.any hasTensor = true → FirstLogsDecide promote flats first first') := by
  refine ⟨orderIndependent_iff_agree horder, ?_⟩
  constructor
  · intro h flats first first' hflats hfirst hfirst' hdiv hany
    have hagree := (orderIndependent_iff_agree horder).mp h.independent flats first first' hflats
      hfirst hfirst' hdiv hany
    have hne : batch ≠ [] := by
      rintro rfl
      obtain rfl := Except.ok.inj hflats
      cases hfirst
    obtain ⟨hexists, hrepresents⟩ :=
      exists_batched_tensor padValueDict hne hflats hdiv hany hfirst
    refine hagree.imp_right fun ⟨hraises, hsame⟩ => ⟨hraises, fun key flat hflat hlist => ?_⟩
    obtain ⟨⟨cols, lens⟩, hbatch⟩ := hexists.mpr hraises.1
    have hdecide := (hrepresents cols lens hbatch).mp (h.represents flats cols lens hflats hbatch)
      key flat hflat hlist
    exact ⟨hdecide, (hsame key).symm.trans hdecide⟩
  · intro h
    constructor
    · rw [orderIndependent_iff_agree horder]
      intro flats first first' hflats hfirst hfirst' hdiv hany
      have horder' : order.Perm (List.range flats.length) := by
        rwa [← (mapM_eq_ok.mp hflats).length_eq]
      refine (h flats first first' hflats hfirst hfirst' hdiv hany).agree
        (List.mem_of_head? hfirst) ?_
      exact (select_perm horder').mem_iff.mp (List.mem_of_head? hfirst')
    · intro flats cols lens hflats hbatch
      by_cases hne : batch = []
      · subst hne
        obtain rfl := Except.ok.inj hflats
        intro key flat hflat
        cases hflat
      by_cases hdiv : div = 0
      · exact absurd ⟨_, hbatch⟩ (batched_raises hne fun _ _ => hdiv)
      by_cases hany : flats.any hasTensor = true
      · have horder' : order.Perm (List.range flats.length) := by
          rwa [← (mapM_eq_ok.mp hflats).length_eq]
        obtain ⟨first, first', hfirst, hfirst'⟩ := exists_first horder' hany
        obtain ⟨hexists, hrepresents⟩ :=
          exists_batched_tensor padValueDict hne hflats hdiv hany hfirst
        refine (hrepresents cols lens hbatch).mpr ?_
        rcases h flats first first' hflats hfirst hfirst' hdiv hany with hraises | hdecide
        · exact absurd hraises.1 (hexists.mp ⟨_, hbatch⟩)
        · exact fun key flat hflat hlist => (hdecide.2 key flat hflat hlist).1
      · exact represents_of_not_hasTensor hne hflats hdiv hany hbatch

end Batch

/-! ## Two logs -/

/-- Tokens of a log. -/
def tokensMessage (tokens : List ℤ) : Message String ℤ Unit :=
  [("token_ids", .tensor ⟨"int64", "cpu", Tensor.vector tokens⟩)]

/-- An image of a log. -/
def imageMessage : Message String ℤ Unit :=
  [("images", .packed ⟨[some ⟨"float32", "cpu", Tensor.vector [7]⟩], 0, List.cons_ne_nil _ _⟩)]

/-- The flat message of tokens. -/
def tokensFlat (tokens : List ℤ) : FlatMessage String ℤ Unit :=
  [("token_ids", .tensor ⟨"int64", "cpu", Tensor.vector tokens⟩)]

theorem decision_tokensFlat {key : String} {tokens : List ℤ} :
    decision ((tokensFlat tokens).lookup key) = if key = "token_ids" then .tensor else .list := by
  rw [tokensFlat, lookup_cons]
  by_cases hkey : key = "token_ids"
  · rw [if_pos hkey, if_pos hkey]
    rfl
  · rw [if_neg hkey, if_neg hkey]
    rfl

theorem not_raises_tokensFlat {tokens tokens' tokens'' : List ℤ} :
    ¬Raises (fun d _ => d) [tokensFlat tokens, tokensFlat tokens'] (tokensFlat tokens'') := by
  rintro ⟨key, hkey⟩
  refine hkey ?_
  rw [decision_tokensFlat]
  split
  case isFalse => trivial
  case isTrue htoken =>
    subst htoken
    have hvalue : ∀ v ∈ columnValues [tokensFlat tokens, tokensFlat tokens'] "token_ids",
        ∃ l, v = some (.tensor ⟨"int64", "cpu", Tensor.vector l⟩) := by
      intro v hv
      obtain ⟨flat, hflat, rfl⟩ := mem_columnValues.mp hv
      rcases List.mem_pair.mp hflat with rfl | rfl
      · exact ⟨tokens, rfl⟩
      · exact ⟨tokens', rfl⟩
    refine ⟨?_, ?_, ?_⟩
    · intro v hv
      obtain ⟨l, hl⟩ := hvalue _ hv
      exact ⟨_, Option.some.inj hl⟩
    · intro t t' ht ht'
      obtain ⟨l, hl⟩ := hvalue _ ht
      obtain ⟨l', hl'⟩ := hvalue _ ht'
      obtain rfl := FlatValue.tensor.inj (Option.some.inj hl)
      obtain rfl := FlatValue.tensor.inj (Option.some.inj hl')
      exact ⟨rfl, rfl, rfl⟩
    · intro hnone
      obtain ⟨l, hl⟩ := hvalue _ hnone
      cases hl

/-- Two logs of tokens may be swapped. -/
theorem rowOrder_iff_tokens :
    OrderIndependent [1, 0]
      (batchedMessageLogToFlatMessage (fun d _ => d) none 1
        [[tokensMessage [1]], [tokensMessage [2, 3]]])
      (batchedMessageLogToFlatMessage (fun d _ => d) none 1
        (select [[tokensMessage [1]], [tokensMessage [2, 3]]] [1, 0])) := by
  refine (rowOrder_iff (by decide)).1.mpr ?_
  intro flats first first' hflats hfirst hfirst' _ _
  have hvalue : List.mapM (messageLogToFlatMessages fun d _ => d)
      [[tokensMessage [1]], [tokensMessage [2, 3]]] =
      .ok [tokensFlat [1], tokensFlat [2, 3]] := rfl
  obtain rfl := Except.ok.inj (hvalue.symm.trans hflats)
  obtain rfl := Option.some.inj hfirst
  obtain rfl := Option.some.inj hfirst'
  refine .inr ⟨⟨not_raises_tokensFlat, not_raises_tokensFlat⟩, fun key => ?_⟩
  rw [decision_tokensFlat, decision_tokensFlat]

/-- A log without images in front of one with an image can be flattened, but not the other way
round. -/
theorem flat_order_matters :
    ¬OrderIndependent [1, 0]
      (batchedMessageLogToFlatMessage (fun d _ => d) none 1
        [[tokensMessage [1]], [tokensMessage [2] ++ imageMessage]])
      (batchedMessageLogToFlatMessage (fun d _ => d) none 1
        (select [[tokensMessage [1]], [tokensMessage [2] ++ imageMessage]] [1, 0])) := by
  intro h
  obtain ⟨x, hx⟩ := h.returns.mp ⟨_, rfl⟩
  cases hx

end NemoRL.Data.Multimodal
