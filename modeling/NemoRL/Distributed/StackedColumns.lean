import NemoRL.Distributed.FromBatches
import NemoRL.Distributed.ColumnShardingSpec

/-!
# The rows of merged values

Values of one kind are merged row by row: the rows of the result are those of the values, one value
behind the other, and the rows of a tensor with more than one dimension are padded to the longest.
What is merged in groups first has the same rows in the end.

## Main definitions

* `Kind`, `Cell` — what the values of a key have in common, and their rows.
* `Stacked` — a value with the rows of others.

## Main results

* `exists_stackColumns` — values of one kind are stacked.
* `Stacked.flatten` — stacking in groups.
* `exists_sliceColumn` — the rows of a slice.
-/

namespace NemoRL.Distributed.FromBatches

open Lib Data.Multimodal

variable {D K V : Type}

/-! ## Kinds and rows -/

/-- What the values of a key have in common. -/
inductive Kind (D : Type)
  | list
  | packed (dimToPack : ℤ)
  | tensor (dtype : D) (device : String) (dim : ℕ) (trailing : List ℕ)

/-- A row of a value. -/
inductive Cell (D K V : Type)
  | item (v : MessageValue D K V)
  | entry (t : Option (MessageTensor D K))
  | row (t : MessageTensor D K)

/-- Pad a row of a tensor along its first dimension. -/
def Cell.padTo (len : ℕ) (padValue : K) : Cell D K V → Cell D K V
  | item v => item v
  | entry t => entry t
  | row t => row { t with value := t.value.padTo len padValue }

namespace BatchColumn

/-- The kind of a list, of packed tensors or of a tensor. -/
def kind : BatchColumn D K V → Option (Kind D)
  | list _ => some .list
  | packed t => some (.packed t.dimToPack)
  | tensor t => some (.tensor t.dtype t.device t.value.dim t.value.rowShape.tail)
  | other _ _ => none

/-- The rows of a value. -/
def cells : BatchColumn D K V → List (Cell D K V)
  | list items => items.map Cell.item
  | packed t => t.tensors.map Cell.entry
  | tensor t => t.rows.map Cell.row
  | other _ items => items.map Cell.item

/-- The length that the rows of a tensor are padded to. -/
def width : BatchColumn D K V → ℕ
  | tensor t => t.value.width
  | _ => 0

/-- The lengths that a value takes part with. A matrix takes part with each of its rows. -/
def widths : BatchColumn D K V → List ℕ
  | tensor t => if t.value.dim = 2 then t.value.rows.map Tensor.width else [t.value.width]
  | _ => []

theorem length_cells (c : BatchColumn D K V) : c.cells.length = c.length := by
  cases c <;> simp [cells, length, BatchTensor.rows]

theorem widths_of_dim_eq {t : BatchTensor D K} (h : t.value.dim = 2) :
    (tensor t : BatchColumn D K V).widths =
      List.replicate t.value.rows.length t.value.width := by
  rw [widths, if_pos h, List.eq_replicate_iff, List.length_map]
  refine ⟨rfl, fun n hn => ?_⟩
  obtain ⟨row, hrow, rfl⟩ := List.mem_map.mp hn
  exact Rect.width_rows hrow

/-- A value with rows takes part with the length of its rows. -/
theorem longest_widths {c : BatchColumn D K V} (h : c.cells ≠ []) : longest c.widths = c.width := by
  cases c with
  | list items => rfl
  | packed t => rfl
  | other type items => rfl
  | tensor t =>
    by_cases hdim : t.value.dim = 2
    · have hrows : t.value.rows.length ≠ 0 := by
        intro hzero
        exact h (by simp [cells, BatchTensor.rows, List.eq_nil_of_length_eq_zero hzero])
      rw [widths_of_dim_eq hdim, longest_replicate hrows]
      rfl
    · rw [widths, if_neg hdim]
      exact longest_replicate one_ne_zero

/-- Values of one kind and one length that have the same rows are the same. -/
theorem eq_of_cells_eq {c c' : BatchColumn D K V} {k : Kind D} (hc : c.kind = some k)
    (hc' : c'.kind = some k) (hwidth : c.width = c'.width) (hcells : c.cells = c'.cells) :
    c = c' := by
  have hitem : Function.Injective (Cell.item : MessageValue D K V → Cell D K V) :=
    fun _ _ h => Cell.item.inj h
  have hentry : Function.Injective (Cell.entry : Option (MessageTensor D K) → Cell D K V) :=
    fun _ _ h => Cell.entry.inj h
  have hrow : Function.Injective (Cell.row : MessageTensor D K → Cell D K V) :=
    fun _ _ h => Cell.row.inj h
  cases c with
  | list items =>
    cases c' with
    | list items' => rw [List.map_injective_iff.mpr hitem hcells]
    | packed t' => simp [kind, ← hc'] at hc
    | tensor t' => simp [kind, ← hc'] at hc
    | other type' items' => simp [kind] at hc'
  | packed t =>
    cases c' with
    | list items' => simp [kind, ← hc'] at hc
    | packed t' =>
      obtain ⟨tensors, dim, hne⟩ := t
      obtain ⟨tensors', dim', hne'⟩ := t'
      obtain rfl : tensors = tensors' := List.map_injective_iff.mpr hentry hcells
      obtain rfl : dim = dim' := by simpa [kind, ← hc'] using hc
      rfl
    | tensor t' => simp [kind, ← hc'] at hc
    | other type' items' => simp [kind] at hc'
  | tensor t =>
    cases c' with
    | list items' => simp [kind, ← hc'] at hc
    | packed t' => simp [kind, ← hc'] at hc
    | tensor t' =>
      obtain ⟨dtype, device, value⟩ := t
      obtain ⟨dtype', device', value'⟩ := t'
      obtain ⟨rfl, rfl, hdim, htail⟩ :
          dtype = dtype' ∧ device = device' ∧ value.dim = value'.dim ∧
            value.rowShape.tail = value'.rowShape.tail := by
        simpa [kind, ← hc'] using hc
      have hrows := List.map_injective_iff.mpr hrow hcells
      have htensor : Function.Injective fun row : Tensor K => (⟨dtype, device, row⟩ :
          MessageTensor D K) := fun _ _ h => (MessageTensor.mk.inj h).2.2
      have hvalue : value = value' :=
        Rect.ext (Rect.rowShape_eq hdim hwidth htail) (List.map_injective_iff.mpr htensor hrows)
      rw [hvalue]
    | other type' items' => simp [kind] at hc'
  | other type items => simp [kind] at hc

end BatchColumn

theorem Cell.padTo_padTo (len len' : ℕ) (padValue : K) (x : Cell D K V) :
    (x.padTo len padValue).padTo len' padValue = x.padTo (max len' len) padValue := by
  cases x with
  | item v => rfl
  | entry t => rfl
  | row t => simp only [Cell.padTo, Tensor.padTo_padTo]

/-! ## Concatenation -/

/-- Numbers of one type stay as they are. -/
structure Promotion.Lawful (promotion : Promotion D K) : Prop where
  promote_self : ∀ d, promotion.promote d d = d
  convert_self : ∀ d x, promotion.convert d d x = x

section Stacked
variable {promotion : Promotion D K}

theorem foldl_promote (hpromotion : promotion.Lawful) {dtype : D} {ts : List (BatchTensor D K)}
    (h : ∀ t ∈ ts, t.dtype = dtype) :
    ts.foldl (fun d t => promotion.promote d t.dtype) dtype = dtype := by
  induction ts with
  | nil => rfl
  | cons t ts ih =>
    rw [List.foldl_cons, h t List.mem_cons_self, hpromotion.promote_self]
    exact ih fun t' ht' => h t' (List.mem_cons_of_mem t ht')

/-- Tensors of one type, device and shape of a row are concatenated row by row. -/
theorem cat_eq (hpromotion : promotion.Lawful) {dtype : D} {device : String} {rowShape : List ℕ}
    {ts : List (BatchTensor D K)} (hne : ts ≠ [])
    (h : ∀ t ∈ ts, t.dtype = dtype ∧ t.device = device ∧ t.value.rowShape = rowShape) :
    ∃ value, cat promotion ts = .ok ⟨dtype, device, value⟩ ∧ value.rowShape = rowShape ∧
      value.rows = ts.flatMap fun t => t.value.rows := by
  cases ts with
  | nil => exact absurd rfl hne
  | cons first rest =>
    obtain ⟨hdtype, hdevice, hshape⟩ := h first List.mem_cons_self
    have hrest : ∀ t ∈ rest, t.dtype = dtype ∧ t.device = device ∧ t.value.rowShape = rowShape :=
      fun t ht => h t (List.mem_cons_of_mem first ht)
    have hpromote : rest.foldl (fun d t => promotion.promote d t.dtype) first.dtype = dtype := by
      rw [hdtype]
      exact foldl_promote hpromotion fun t ht => (hrest t ht).1
    have hdevices : ∀ t ∈ rest, t.device = first.device :=
      fun t ht => (hrest t ht).2.1.trans hdevice.symm
    have hshapes : ∀ t ∈ rest, t.value.rowShape = first.value.rowShape :=
      fun t ht => (hrest t ht).2.2.trans hshape.symm
    have hdims : ∀ t ∈ rest, t.value.dim = first.value.dim := by
      intro t ht
      rw [Rect.dim, Rect.dim, hshapes t ht]
    have hcheck : checkCat first rest = .ok () := by
      rw [checkCat, if_neg (not_not.mpr hdevices), if_neg (not_not.mpr hdims)]
      rfl
    refine ⟨Rect.concat first.value.rowShape _ (rowShape_convert promotion dtype hshapes), ?_,
      hshape, ?_⟩
    · simp only [cat, hcheck, dif_pos hshapes, hpromote, hdevice, bind, Except.bind, pure,
        Except.pure]
    · have hconvert : ∀ t ∈ first :: rest, (t.convert promotion dtype).rows = t.value.rows := by
        intro t ht
        rw [BatchTensor.convert, (h t ht).1, Rect.map_eq_self (hpromotion.convert_self dtype)]
      rw [Rect.rows_concat, List.flatMap_map]
      exact List.flatMap_congr hconvert

/-- Rows of one type and device are stacked when they have one dimension. -/
theorem padSequence_eq (hpromotion : promotion.Lawful) (padValue : K) {dtype : D} {device : String}
    {rows : List (MessageTensor D K)} (hne : rows ≠ [])
    (h : ∀ row ∈ rows, row.dtype = dtype ∧ row.device = device ∧ row.value.shape.length = 1) :
    ∃ value, padSequence promotion padValue rows = .ok ⟨dtype, device, value⟩ ∧
      value.rowShape = [longest (rows.map fun row => row.value.width)] ∧
      value.rows = rows.map fun row =>
        row.value.padTo (longest (rows.map fun row => row.value.width)) padValue := by
  cases rows with
  | nil => exact absurd rfl hne
  | cons first rest =>
    obtain ⟨hdtype, hdevice, -⟩ := h first List.mem_cons_self
    have hconvert : ((first :: rest).map fun t =>
        t.value.data.map (promotion.convert t.dtype first.dtype)) =
          (first :: rest).map fun t => t.value.data := by
      refine List.map_congr_left fun t ht => ?_
      have hid : promotion.convert t.dtype first.dtype = id := by
        funext x
        rw [(h t ht).1, hdtype, hpromotion.convert_self]
        rfl
      rw [hid, List.map_id]
    have hlen : (((first :: rest).map fun t => t.value.data).map List.length) =
        (first :: rest).map fun row => row.value.width := by
      rw [List.map_map]
      refine List.map_congr_left fun t ht => ?_
      obtain ⟨n, hn⟩ := List.length_eq_one_iff.mp (h t ht).2.2
      simp [Tensor.width, t.value.length_data, hn]
    refine ⟨padVectors padValue ((first :: rest).map fun t => t.value.data), ?_, ?_, ?_⟩
    · rw [padSequence, hconvert, hdtype, hdevice]
    · rw [rowShape_padVectors, hlen]
    · rw [rows_padVectors, hlen, List.map_map]
      refine List.map_congr_left fun t ht => ?_
      rw [Function.comp_apply, Tensor.vector_data (h t ht).2.2]

/-! ## Stacking -/

/-- A value of one kind with the rows of others, padded to the longest. -/
structure Stacked (padValue : K) (columns : List (BatchColumn D K V)) (k : Kind D)
    (c : BatchColumn D K V) : Prop where
  kind : c.kind = some k
  cells : c.cells = columns.flatMap fun c' => c'.cells.map (Cell.padTo c.width padValue)
  width : c.width = longest (columns.flatMap BatchColumn.widths)

/-- Values that all come from a function. -/
theorem exists_map_eq {α β : Type} {f : α → β} {l : List β} (h : ∀ b ∈ l, ∃ a, f a = b) :
    ∃ l' : List α, l'.map f = l := by
  have hrange : l ∈ Set.range (List.map f) := by
    rw [Set.range_list_map]
    exact h
  exact hrange

theorem mapM_map_eq {α β γ ε : Type} {f : β → Except ε γ} {g : α → β} {g' : α → γ} {l : List α}
    (h : ∀ a ∈ l, f (g a) = .ok (g' a)) : (l.map g).mapM f = .ok (l.map g') := by
  rw [mapM_eq_ok, List.forall₂_map_left_iff, List.forall₂_map_right_iff, List.forall₂_same]
  exact h

theorem longest_eq_zero {columns : List (BatchColumn D K V)} (h : ∀ c ∈ columns, c.widths = []) :
    longest (columns.flatMap BatchColumn.widths) = 0 := by
  rw [List.flatMap_eq_nil_iff.mpr h]
  rfl

theorem exists_stack_lists {padValue : K} {columns : List (BatchColumn D K V)}
    (hne : columns ≠ []) (h : ∀ c ∈ columns, c.kind = some .list) :
    ∃ c, stackColumns promotion padValue columns = .ok c ∧ Stacked padValue columns .list c := by
  have hlists : ∀ c ∈ columns, ∃ items, BatchColumn.list items = c := by
    intro c hc
    have hkind := h c hc
    cases c with
    | list items => exact ⟨items, rfl⟩
    | packed t => simp [BatchColumn.kind] at hkind
    | tensor t => simp [BatchColumn.kind] at hkind
    | other type items => simp [BatchColumn.kind] at hkind
  obtain ⟨lists, rfl⟩ := exists_map_eq hlists
  have hiterate : (lists.map BatchColumn.list).mapM BatchColumn.iterate =
      (.ok (lists.map id) : Except PyError (List (List (MessageValue D K V)))) :=
    mapM_map_eq fun items _ => rfl
  refine ⟨.list lists.flatten, ?_, rfl, ?_, ?_⟩
  · cases lists with
    | nil => exact absurd rfl hne
    | cons first rest =>
      rw [List.map_cons] at hiterate ⊢
      simp only [stackColumns, hiterate, bind, Except.bind, pure, Except.pure, List.map_id]
  · simp [BatchColumn.cells, List.flatMap, Function.comp_def, Cell.padTo]
  · refine (longest_eq_zero fun c hc => ?_).symm
    obtain ⟨items, -, rfl⟩ := List.mem_map.mp hc
    rfl

theorem exists_stack_packed {padValue : K} {columns : List (BatchColumn D K V)} {dim : ℤ}
    (hne : columns ≠ []) (h : ∀ c ∈ columns, c.kind = some (.packed dim)) :
    ∃ c, stackColumns promotion padValue columns = .ok c ∧
      Stacked padValue columns (.packed dim) c := by
  have hpacked : ∀ c ∈ columns, ∃ t, BatchColumn.packed t = c := by
    intro c hc
    have hkind := h c hc
    cases c with
    | list items => simp [BatchColumn.kind] at hkind
    | packed t => exact ⟨t, rfl⟩
    | tensor t => simp [BatchColumn.kind] at hkind
    | other type items => simp [BatchColumn.kind] at hkind
  obtain ⟨ts, rfl⟩ := exists_map_eq hpacked
  have hdim : ∀ t ∈ ts, t.dimToPack = dim := by
    intro t ht
    simpa [BatchColumn.kind] using h _ (List.mem_map_of_mem ht)
  have hasPacked : (ts.map BatchColumn.packed).mapM
      (BatchColumn.asPacked : BatchColumn D K V → _) = .ok (ts.map id) :=
    mapM_map_eq fun t _ => rfl
  have hne' : ts ≠ [] := by simpa using hne
  obtain ⟨joined, hjoined, htensors, hjoinedDim⟩ := PackedTensor.exists_concat hne' hdim
  refine ⟨.packed joined, ?_, ?_, ?_, ?_⟩
  · cases ts with
    | nil => exact absurd rfl hne
    | cons first rest =>
      rw [List.map_id] at hasPacked
      rw [List.map_cons] at hasPacked ⊢
      simp only [stackColumns, hasPacked, hjoined, bind, Except.bind, pure, Except.pure]
  · rw [BatchColumn.kind, hjoinedDim]
  · simp [BatchColumn.cells, List.flatMap_map, List.map_flatMap, htensors, Function.comp_def,
      Cell.padTo]
  · refine (longest_eq_zero fun c hc => ?_).symm
    obtain ⟨t, -, rfl⟩ := List.mem_map.mp hc
    rfl

/-- Rows of tensors that were padded to one length. -/
theorem stacked_of_rows {padValue : K} {dtype : D} {device : String} {dim : ℕ}
    {trailing : List ℕ} {ts : List (BatchTensor D K)}
    (h : ∀ t ∈ ts, t.dtype = dtype ∧ t.device = device ∧ t.value.dim = dim ∧
      t.value.rowShape.tail = trailing) {value : Rect K} (hdim : value.dim = dim)
    (htrailing : value.rowShape.tail = trailing)
    (hwidth : value.width = longest ((ts.map (BatchColumn.tensor (V := V))).flatMap
      BatchColumn.widths))
    (hrows : value.rows =
      ts.flatMap fun t => t.value.rows.map (Tensor.padTo value.width padValue)) :
    Stacked padValue (ts.map (BatchColumn.tensor (V := V))) (.tensor dtype device dim trailing)
      (.tensor ⟨dtype, device, value⟩) := by
  refine ⟨?_, ?_, hwidth⟩
  · rw [BatchColumn.kind, hdim, htrailing]
  · rw [BatchColumn.cells, BatchTensor.rows, hrows, List.map_flatMap, List.map_flatMap,
      List.flatMap_map]
    refine List.flatMap_congr fun t ht => ?_
    obtain ⟨hdtype, hdevice, -⟩ := h t ht
    rw [BatchColumn.cells, BatchTensor.rows, hdtype, hdevice]
    simp only [List.map_map]
    rfl

/-- The lengths of tensors that are no matrices. -/
theorem longest_widths_tensors {ts : List (BatchTensor D K)} (h : ∀ t ∈ ts, t.value.dim ≠ 2) :
    longest ((ts.map (BatchColumn.tensor (V := V))).flatMap BatchColumn.widths) =
      longest (ts.map fun t => t.value.width) := by
  have hwidths : ∀ t ∈ ts, (BatchColumn.tensor t : BatchColumn D K V).widths = [t.value.width] :=
    fun t ht => if_neg (h t ht)
  rw [List.flatMap_map, List.flatMap_congr hwidths, List.map_eq_flatMap]

theorem allVectors_map {dim : ℕ} {ts : List (BatchTensor D K)} (hne : ts ≠ [])
    (h : ∀ t ∈ ts, t.value.dim = dim) :
    allVectors (ts.map (BatchColumn.tensor (V := V))) = .ok (decide (dim = 1)) := by
  by_cases hdim : dim = 1
  · clear hne
    induction ts with
    | nil => simp [allVectors, hdim]
    | cons t ts ih =>
      have ht := h t List.mem_cons_self
      have hrest := ih fun t' ht' => h t' (List.mem_cons_of_mem t ht')
      simpa [allVectors, BatchColumn.ndim, bind, Except.bind, ht, hdim] using hrest
  · obtain ⟨t, rest, rfl⟩ := List.exists_cons_of_ne_nil hne
    have ht := h t List.mem_cons_self
    simp [allVectors, BatchColumn.ndim, bind, Except.bind, pure, Except.pure, ht, hdim]

theorem mapM_asTensor (ts : List (BatchTensor D K)) :
    (ts.map (BatchColumn.tensor (V := V))).mapM BatchColumn.asTensor = .ok ts := by
  have hmap : (ts.map (BatchColumn.tensor (V := V))).mapM BatchColumn.asTensor =
      .ok (ts.map id) := mapM_map_eq fun t _ => rfl
  rw [hmap, List.map_id]

/-- Tensors with more than two dimensions are padded to the longest. -/
theorem exists_catPadded (hpromotion : promotion.Lawful) (padValue : K) {dtype : D}
    {device : String} {dim : ℕ} {trailing : List ℕ} {ts : List (BatchTensor D K)} (hne : ts ≠ [])
    (hdim : 3 ≤ dim) (h : ∀ t ∈ ts, t.dtype = dtype ∧ t.device = device ∧ t.value.dim = dim ∧
      t.value.rowShape.tail = trailing) :
    ∃ value, catPadded promotion padValue (ts.map (BatchColumn.tensor (V := V))) =
        .ok ⟨dtype, device, value⟩ ∧
      Stacked padValue (ts.map (BatchColumn.tensor (V := V))) (.tensor dtype device dim trailing)
        (.tensor ⟨dtype, device, value⟩) := by
  set maxSeqLen := longest (ts.map fun t => t.value.width) with hmax
  have hshape : ∀ t ∈ ts, t.value.rowShape = t.value.width :: trailing := by
    intro t ht
    obtain ⟨-, -, htdim, htail⟩ := h t ht
    rw [← htail]
    exact Rect.rowShape_of_dim (by omega)
  have hlengths : (ts.map (BatchColumn.tensor (V := V))).mapM seqLen =
      .ok (ts.map fun t => t.value.width) := by
    refine mapM_map_eq fun t ht => ?_
    simp only [seqLen, BatchColumn.asTensor, hshape t ht, bind, Except.bind, pure, Except.pure]
  have hpadded : ∀ t ∈ ts.map fun t : BatchTensor D K =>
      { t with value := t.value.padTo maxSeqLen padValue },
      t.dtype = dtype ∧ t.device = device ∧ t.value.rowShape = maxSeqLen :: trailing := by
    intro t' ht'
    obtain ⟨t, ht, rfl⟩ := List.mem_map.mp ht'
    obtain ⟨hdtype, hdevice, htdim, htail⟩ := h t ht
    have hle : t.value.width ≤ maxSeqLen := le_longest (List.mem_map_of_mem ht)
    have hdim' : 2 ≤ (t.value.padTo maxSeqLen padValue).dim := by
      rw [Rect.dim_padTo]
      omega
    refine ⟨hdtype, hdevice, ?_⟩
    rw [Rect.rowShape_of_dim hdim', Rect.tail_padTo, htail, Rect.width_padTo (by omega),
      max_eq_left hle]
  have hne' : (ts.map fun t : BatchTensor D K =>
      { t with value := t.value.padTo maxSeqLen padValue }) ≠ [] := by simpa using hne
  obtain ⟨value, hcat, hrowShape, hrows⟩ := cat_eq hpromotion hne' hpadded
  have hwidth : value.width = maxSeqLen := by
    rw [Rect.width, hrowShape]
    rfl
  refine ⟨value, ?_, stacked_of_rows h ?_ ?_ ?_ ?_⟩
  · simp only [catPadded, hlengths, mapM_asTensor, bind, Except.bind, ← hmax, hcat]
  · obtain ⟨t, ht⟩ := List.exists_mem_of_ne_nil ts hne
    obtain ⟨-, -, htdim, -⟩ := h t ht
    rw [← htdim, Rect.dim, Rect.dim, hrowShape, hshape t ht, List.length_cons, List.length_cons]
  · rw [hrowShape]
    rfl
  · rw [hwidth, longest_widths_tensors]
    intro t ht
    have := (h t ht).2.2.1
    omega
  · rw [hrows, hwidth, List.flatMap_map]
    exact List.flatMap_congr fun t _ => Rect.rows_padTo maxSeqLen padValue t.value

/-- Matrices are taken apart into rows, which are padded to the longest. -/
theorem exists_stackRows (hpromotion : promotion.Lawful) (padValue : K) {dtype : D}
    {device : String} {trailing : List ℕ} {ts : List (BatchTensor D K)}
    (hcell : ∃ t ∈ ts, t.value.rows ≠ [])
    (h : ∀ t ∈ ts, t.dtype = dtype ∧ t.device = device ∧ t.value.dim = 2 ∧
      t.value.rowShape.tail = trailing) :
    ∃ value, stackRows promotion padValue (ts.map (BatchColumn.tensor (V := V))) =
        .ok ⟨dtype, device, value⟩ ∧
      Stacked padValue (ts.map (BatchColumn.tensor (V := V))) (.tensor dtype device 2 trailing)
        (.tensor ⟨dtype, device, value⟩) := by
  have hflat : ∀ t ∈ ts, ∀ row ∈ t.rows, row.dtype = dtype ∧ row.device = device ∧
      row.value.shape.length = 1 := by
    intro t ht row hrow
    obtain ⟨hdtype, hdevice, hdim, -⟩ := h t ht
    obtain ⟨row, hmem, rfl⟩ := List.mem_map.mp hrow
    refine ⟨hdtype, hdevice, ?_⟩
    rw [Rect.dim] at hdim
    rw [t.value.shape_rows row hmem]
    omega
  have hrowsOf : (ts.map (BatchColumn.tensor (V := V))).mapM (fun c => do
      let rows ← c.iterate
      rows.mapM flatten) = .ok (ts.map BatchTensor.rows) := by
    refine mapM_map_eq fun t ht => ?_
    have hflatten : (t.rows.map (MessageValue.tensor (V := V))).mapM flatten =
        .ok (t.rows.map id) := by
      refine mapM_map_eq fun row hrow => ?_
      rw [flatten, Tensor.vector_data (hflat t ht row hrow).2.2]
      rfl
    rw [List.map_id] at hflatten
    simp only [BatchColumn.iterate, bind, Except.bind, hflatten]
  have hne : (ts.map BatchTensor.rows).flatten ≠ [] := by
    obtain ⟨t, ht, hrows⟩ := hcell
    obtain ⟨row, hrow⟩ := List.exists_mem_of_ne_nil _ hrows
    refine List.ne_nil_of_mem (a := ⟨t.dtype, t.device, row⟩) ?_
    exact List.mem_flatten.mpr ⟨t.rows, List.mem_map_of_mem ht, List.mem_map_of_mem hrow⟩
  have hflat' : ∀ row ∈ (ts.map BatchTensor.rows).flatten, row.dtype = dtype ∧
      row.device = device ∧ row.value.shape.length = 1 := by
    intro row hrow
    obtain ⟨rows, hmem, hrow⟩ := List.mem_flatten.mp hrow
    obtain ⟨t, ht, rfl⟩ := List.mem_map.mp hmem
    exact hflat t ht row hrow
  obtain ⟨value, hpad, hrowShape, hrows⟩ := padSequence_eq hpromotion padValue hne hflat'
  -- a matrix takes part with the length of each of its rows
  have hwidths : ((ts.map BatchTensor.rows).flatten.map fun row => row.value.width) =
      (ts.map (BatchColumn.tensor (V := V))).flatMap BatchColumn.widths := by
    rw [← List.flatMap_def, List.map_flatMap, List.flatMap_map]
    refine List.flatMap_congr fun t ht => ?_
    rw [BatchColumn.widths, if_pos (h t ht).2.2.1, BatchTensor.rows, List.map_map]
    rfl
  have hwidth : value.width = longest ((ts.map (BatchColumn.tensor (V := V))).flatMap
      BatchColumn.widths) := by
    rw [Rect.width, hrowShape, ← hwidths]
    rfl
  obtain ⟨t₀, ht₀, -⟩ := hcell
  refine ⟨value, ?_, stacked_of_rows h ?_ ?_ hwidth ?_⟩
  · rw [stackRows, hrowsOf]
    exact hpad
  · rw [Rect.dim, hrowShape]
    rfl
  · obtain ⟨-, -, hdim, htail⟩ := h t₀ ht₀
    rw [hrowShape, ← htail]
    rw [Rect.dim] at hdim
    obtain ⟨n, hn⟩ := List.length_eq_one_iff.mp (by omega : t₀.value.rowShape.length = 1)
    rw [hn]
    rfl
  · rw [hrows, hwidth, hwidths, ← List.flatMap_def, List.map_flatMap]
    refine List.flatMap_congr fun t _ => ?_
    rw [BatchTensor.rows, List.map_map]
    rfl

/-- Vectors are concatenated. -/
theorem exists_catVectors (hpromotion : promotion.Lawful) (padValue : K) {dtype : D}
    {device : String} {trailing : List ℕ} {ts : List (BatchTensor D K)} (hne : ts ≠ [])
    (h : ∀ t ∈ ts, t.dtype = dtype ∧ t.device = device ∧ t.value.dim = 1 ∧
      t.value.rowShape.tail = trailing) :
    ∃ value, cat promotion ts = .ok ⟨dtype, device, value⟩ ∧
      Stacked padValue (ts.map (BatchColumn.tensor (V := V))) (.tensor dtype device 1 trailing)
        (.tensor ⟨dtype, device, value⟩) := by
  have hnil : ∀ t ∈ ts, t.value.rowShape = [] := by
    intro t ht
    have hdim := (h t ht).2.2.1
    rw [Rect.dim] at hdim
    exact List.eq_nil_of_length_eq_zero (by omega)
  obtain ⟨value, hcat, hrowShape, hrows⟩ :=
    cat_eq hpromotion hne fun t ht => ⟨(h t ht).1, (h t ht).2.1, hnil t ht⟩
  have hwidth : value.width = 0 := by rw [Rect.width, hrowShape]; rfl
  refine ⟨value, hcat, stacked_of_rows h ?_ ?_ ?_ ?_⟩
  · rw [Rect.dim, hrowShape]
    rfl
  · obtain ⟨t, ht⟩ := List.exists_mem_of_ne_nil ts hne
    rw [hrowShape, ← (h t ht).2.2.2, hnil t ht]
  · rw [hwidth, longest_widths_tensors]
    · refine (Nat.le_zero.mp (longest_le_iff.mpr ?_)).symm
      simp only [List.forall_mem_map]
      intro t ht
      rw [Rect.width, hnil t ht]
      rfl
    · intro t ht
      have := (h t ht).2.2.1
      omega
  · rw [hrows]
    refine List.flatMap_congr fun t ht => (Rect.map_padTo_of_le (.inl ?_) padValue).symm
    have := (h t ht).2.2.1
    omega

/-- Values of one kind are stacked. -/
theorem exists_stackColumns (hpromotion : promotion.Lawful) (padValue : K)
    {columns : List (BatchColumn D K V)} {k : Kind D} (h : ∀ c ∈ columns, c.kind = some k)
    (hcell : ∃ c ∈ columns, c.cells ≠ []) :
    ∃ c, stackColumns promotion padValue columns = .ok c ∧ Stacked padValue columns k c := by
  have hne : columns ≠ [] := by
    obtain ⟨c, hc, -⟩ := hcell
    exact List.ne_nil_of_mem hc
  cases k with
  | list => exact exists_stack_lists hne h
  | packed dim => exact exists_stack_packed hne h
  | tensor dtype device dim trailing =>
    have htensors : ∀ c ∈ columns, ∃ t, BatchColumn.tensor t = c := by
      intro c hc
      have hkind := h c hc
      cases c with
      | list items => simp [BatchColumn.kind] at hkind
      | packed t => simp [BatchColumn.kind] at hkind
      | tensor t => exact ⟨t, rfl⟩
      | other type items => simp [BatchColumn.kind] at hkind
    obtain ⟨ts, rfl⟩ := exists_map_eq htensors
    have hall : ∀ t ∈ ts, t.dtype = dtype ∧ t.device = device ∧ t.value.dim = dim ∧
        t.value.rowShape.tail = trailing := by
      intro t ht
      simpa [BatchColumn.kind] using h _ (List.mem_map_of_mem ht)
    have hne' : ts ≠ [] := by simpa using hne
    have hvectors := allVectors_map (V := V) hne' fun t ht => (hall t ht).2.2.1
    obtain ⟨first, rest, rfl⟩ := List.exists_cons_of_ne_nil hne'
    have hfirst := (hall first List.mem_cons_self).2.2.1
    have hpos : 1 ≤ dim := hfirst ▸ Nat.le_add_left 1 _
    rcases (by omega : dim = 1 ∨ 3 ≤ dim ∨ dim = 2) with rfl | hdim | rfl
    · obtain ⟨value, hcat, hstacked⟩ := exists_catVectors (V := V) hpromotion padValue hne' hall
      refine ⟨_, ?_, hstacked⟩
      rw [List.map_cons] at hvectors ⊢
      have hasTensor := mapM_asTensor (V := V) (first :: rest)
      rw [List.map_cons] at hasTensor
      simp only [stackColumns, hvectors, hasTensor, hcat, bind, Except.bind, pure, Except.pure,
        decide_true, if_true]
    · obtain ⟨value, hcat, hstacked⟩ :=
        exists_catPadded (V := V) hpromotion padValue hne' hdim hall
      refine ⟨_, ?_, hstacked⟩
      have hone : decide (dim = 1) = false := decide_eq_false (by omega)
      rw [List.map_cons] at hvectors hcat ⊢
      simp only [stackColumns, hvectors, hone, hfirst, if_pos hdim, hcat, bind, Except.bind, pure,
        Except.pure, Bool.false_eq_true, if_false]
    · have hrows : ∃ t ∈ first :: rest, t.value.rows ≠ [] := by
        obtain ⟨c, hc, hcells⟩ := hcell
        obtain ⟨t, ht, rfl⟩ := List.mem_map.mp hc
        refine ⟨t, ht, fun hnil => hcells ?_⟩
        simp [BatchColumn.cells, BatchTensor.rows, hnil]
      obtain ⟨value, hstack, hstacked⟩ :=
        exists_stackRows (V := V) hpromotion padValue hrows hall
      refine ⟨_, ?_, hstacked⟩
      rw [List.map_cons] at hvectors hstack ⊢
      simp only [stackColumns, hvectors, hfirst, hstack, bind, Except.bind, pure, Except.pure,
        Nat.reduceEqDiff, Nat.reduceLeDiff, decide_false, Bool.false_eq_true, if_false]

/-! ## Stacking in groups -/

section Groups
variable {padValue : K} {columns : List (BatchColumn D K V)} {k : Kind D} {c c' : BatchColumn D K V}

/-- There is one way to stack values. -/
theorem Stacked.unique (h : Stacked padValue columns k c) (h' : Stacked padValue columns k c') :
    c = c' := by
  have hwidth : c.width = c'.width := h.width.trans h'.width.symm
  refine BatchColumn.eq_of_cells_eq h.kind h'.kind hwidth ?_
  rw [h.cells, h'.cells, hwidth]

theorem Stacked.length (h : Stacked padValue columns k c) :
    c.length = (columns.map BatchColumn.length).sum := by
  rw [← BatchColumn.length_cells, h.cells, List.length_flatMap]
  simp only [List.length_map, BatchColumn.length_cells]

theorem BatchColumn.width_le_longest (hmem : c ∈ columns) (hcells : c.cells ≠ []) :
    c.width ≤ longest (columns.flatMap BatchColumn.widths) := by
  rw [longest_flatMap, ← longest_widths hcells]
  exact le_longest (List.mem_map_of_mem (f := fun c => longest (widths c)) hmem)

theorem flatMap_flatten {α β : Type} (groups : List (List α)) (f : α → List β) :
    groups.flatten.flatMap f = groups.flatMap fun group => group.flatMap f := by
  rw [← List.flatMap_id, List.flatMap_assoc]
  rfl

/-- Stacking groups of values and then the results is stacking all values. -/
theorem Stacked.flatten {groups : List (List (BatchColumn D K V))}
    {parts : List (BatchColumn D K V)}
    (hparts : List.Forall₂ (fun part group => Stacked padValue group k part) parts groups)
    (hcells : ∀ part ∈ parts, part.cells ≠ []) (h : Stacked padValue parts k c) :
    Stacked padValue groups.flatten k c := by
  have hle : ∀ part ∈ parts, part.cells ≠ [] ∧ part.width ≤ c.width := by
    intro part hpart
    refine ⟨hcells part hpart, ?_⟩
    rw [h.width]
    exact BatchColumn.width_le_longest hpart (hcells part hpart)
  have hpairs := (List.forall₂_and_left parts groups).mpr ⟨hle, hparts⟩
  refine ⟨h.kind, ?_, ?_⟩
  · rw [h.cells, flatMap_flatten]
    refine (flatMap_of_forall₂ (hpairs.imp ?_)).symm
    rintro part group ⟨⟨-, hwidth⟩, hpart⟩
    -- rows that were padded in their group are padded on
    have hpad : ∀ x : Cell D K V, (x.padTo part.width padValue).padTo c.width padValue =
        x.padTo c.width padValue := by
      intro x
      rw [Cell.padTo_padTo, max_eq_left hwidth]
    rw [hpart.cells, List.map_flatMap]
    simp only [List.map_map, Function.comp_def, hpad]
  · have hwidths : List.Forall₂ (fun part group => longest (group.flatMap BatchColumn.widths) =
        longest part.widths) parts groups := by
      refine hpairs.imp ?_
      rintro part group ⟨⟨hne, -⟩, hpart⟩
      rw [BatchColumn.longest_widths hne, hpart.width]
    rw [h.width, flatMap_flatten, longest_flatMap, longest_flatMap groups]
    congr 1
    rw [← List.forall₂_eq_eq_eq, List.forall₂_map_left_iff, List.forall₂_map_right_iff]
    exact hwidths.imp fun _ _ heq => heq.symm

end Groups

end Stacked

/-! ## Slices -/

/-- A value is sliced at the rows it has. Of packed tensors a slice has at least one row. -/
theorem exists_sliceColumn (key : String) {c : BatchColumn D K V} {k : Kind D}
    (hkind : c.kind = some k) {start stop : ℕ} (hstop : stop ≤ c.length)
    (hpacked : start < stop ∨ ∀ dim, k ≠ .packed dim) :
    ∃ s, sliceColumn key start stop c = .ok s ∧ s.kind = some k ∧
      s.cells = Lib.slice c.cells start stop := by
  cases c with
  | list items =>
    refine ⟨_, rfl, hkind, ?_⟩
    simp [BatchColumn.cells, Lib.slice, List.map_take, List.map_drop]
  | other type items => simp [BatchColumn.kind] at hkind
  | tensor t =>
    refine ⟨_, if_pos hstop, hkind, ?_⟩
    simp [BatchColumn.cells, BatchTensor.rows, Lib.slice, Rect.slice, List.map_take,
      List.map_drop]
  | packed t =>
    have hlt : start < stop := by
      refine hpacked.resolve_right fun hnot => hnot t.dimToPack ?_
      exact (Option.some.inj hkind).symm
    have hin : (start, stop).1 < (start, stop).2 ∧ (start, stop).2 ≤ t.tensors.length :=
      ⟨hlt, hstop⟩
    refine ⟨.packed ⟨_, _, slice_ne_nil hin⟩, ?_, hkind, ?_⟩
    · simp only [sliceColumn, PackedTensor.slice_eq t hin, bind, Except.bind, pure, Except.pure]
    · simp [BatchColumn.cells, Lib.slice, List.map_take, List.map_drop]

end NemoRL.Distributed.FromBatches
