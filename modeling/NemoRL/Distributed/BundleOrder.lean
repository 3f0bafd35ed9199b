import NemoRL.Distributed.VirtualCluster
import NemoRL.Lib.Runs
import Mathlib.Data.Prod.Lex

/-!
# The order of the bundles of a placement group

The bundles are ordered by the least rank of their domain, by their rank and by their GPU, or by
their node and their GPU where no domain and no rank is known. With a size for segments a domain
keeps the first bundles of as many nodes as make complete segments, each node counted with a
fixed number of GPUs.

What is logged is left out.

## Main definitions

* `sortBundleIndicesByTopology` — the indices of the bundles in order.
* `Placed`, `Ranked`, `LeastRanksDiffer` — what the ranks tell apart.

## Main results

* `sortBundleIndicesByTopology_spec` — which bundles are kept and in which order.
-/

namespace NemoRL.Distributed

open Lib

/-! ## Sorting bundles -/

/-- What is known of a bundle. -/
structure BundleData where
  gpuId : ℤ
  nvlinkDomain : String
  topoRank : ℤ
  nodeId : String
  deriving DecidableEq, Repr

/-- A bundle with its index. -/
structure BundleInfo where
  idx : ℕ
  nodeId : String
  gpuId : ℤ
  domain : String
  topoRank : ℤ
  deriving DecidableEq, Repr

/-- Whether a domain or a rank is known. -/
def hasTopology (bundleData : List BundleData) : Bool :=
  bundleData.any fun b => b.nvlinkDomain ≠ nvlinkDomainUnknown || b.topoRank ≠ topoRankUnknown

/-- The bundles with their indices. -/
def bundleInfos (bundleData : List BundleData) : List BundleInfo :=
  bundleData.mapIdx fun i b => ⟨i, b.nodeId, b.gpuId, b.nvlinkDomain, b.topoRank⟩

/-- The first bundles of a domain, for as many nodes as make complete segments. -/
def keepSegments (segmentSize gpusPerNode : ℕ) (bundles : List BundleInfo) : List BundleInfo :=
  let domainNodeCount := (bundles.map BundleInfo.nodeId).toFinset.card
  let usableNodes := domainNodeCount / segmentSize * segmentSize
  let usableGpus := usableNodes * gpusPerNode
  (sortOn (fun x => toLex (x.topoRank, x.gpuId)) bundles).take usableGpus

/-- The bundles of complete segments, when there is a size for segments. -/
def filterSegments (segmentSize gpusPerNode : Option ℕ) (bundles : List BundleInfo) :
    Except PyError (List BundleInfo) :=
  match segmentSize, gpusPerNode with
  | some segmentSize, some gpusPerNode =>
    if segmentSize = 0 then
      .error ⟨.zeroDivisionError, "integer division or modulo by zero"⟩
    else
      .ok ((groupBy BundleInfo.domain bundles).flatMap fun p =>
        keepSegments segmentSize gpusPerNode p.2)
  | _, _ => .ok bundles

/-- Note the rank of a bundle if it is the least so far. -/
def noteRank (ranks : List (String × ℤ)) (info : BundleInfo) : List (String × ℤ) :=
  match ranks.lookup info.domain with
  | none => dictSet ranks info.domain info.topoRank
  | some rank =>
    if info.topoRank < rank then dictSet ranks info.domain info.topoRank else ranks

/-- The least rank of each domain. -/
def domainToMinTopoRank (bundles : List BundleInfo) : List (String × ℤ) :=
  bundles.foldl noteRank []

/-- The least rank of a domain. -/
def minTopoRank (bundles : List BundleInfo) (domain : String) : ℤ :=
  ((domainToMinTopoRank bundles).lookup domain).getD topoRankUnknown

/-- Order by the least rank of the domain, by the rank and by the GPU. -/
def sortByTopology (bundles : List BundleInfo) : List BundleInfo :=
  sortOn (fun x => toLex (minTopoRank bundles x.domain, toLex (x.topoRank, x.gpuId))) bundles

/-- The indices of the bundles in order. -/
def sortBundleIndicesByTopology (bundleData : List BundleData)
    (segmentSize gpusPerNode : Option ℕ) : Except PyError (List ℕ) := do
  if segmentSize.isSome ∧ gpusPerNode.isNone then
    throw ⟨.valueError, "gpus_per_node is required when segment_size is set"⟩
  if bundleData.isEmpty then return []
  if ¬hasTopology bundleData then
    return (sortOn (fun x => toLex (x.nodeId, x.gpuId)) (bundleInfos bundleData)).map
      BundleInfo.idx
  let bundles ← filterSegments segmentSize gpusPerNode (bundleInfos bundleData)
  return (sortByTopology bundles).map BundleInfo.idx

/-! ## What is promised -/

section Spec
variable (bundleData : List BundleData)

/-- The bundles of a node have one domain and one rank. -/
structure Placed : Prop where
  domain : ∀ a ∈ bundleData, ∀ b ∈ bundleData, a.nodeId = b.nodeId →
    a.nvlinkDomain = b.nvlinkDomain
  rank : ∀ a ∈ bundleData, ∀ b ∈ bundleData, a.nodeId = b.nodeId → a.topoRank = b.topoRank

/-- The nodes of a domain have different ranks. -/
structure Ranked : Prop extends Placed bundleData where
  node : ∀ a ∈ bundleData, ∀ b ∈ bundleData, a.nvlinkDomain = b.nvlinkDomain →
    a.topoRank = b.topoRank → a.nodeId = b.nodeId

/-- A bundle has the least rank of its domain. -/
def HasLeastRank (a : BundleData) : Prop :=
  ∀ b ∈ bundleData, b.nvlinkDomain = a.nvlinkDomain → a.topoRank ≤ b.topoRank

/-- Different domains have different least ranks. -/
def LeastRanksDiffer : Prop :=
  ∀ a ∈ bundleData, ∀ b ∈ bundleData, HasLeastRank bundleData a → HasLeastRank bundleData b →
    a.topoRank = b.topoRank → a.nvlinkDomain = b.nvlinkDomain

/-- The node of the bundle with an index. -/
def nodeOf (i : ℕ) : Option String := bundleData[i]?.map BundleData.nodeId

/-- The domain of the bundle with an index. -/
def domainOf (i : ℕ) : Option String := bundleData[i]?.map BundleData.nvlinkDomain

/-- The bundles of each node are ordered by their GPU. -/
def GpuOrdered (indices : List ℕ) : Prop :=
  indices.Pairwise fun i j => ∀ a b, bundleData[i]? = some a → bundleData[j]? = some b →
    a.nodeId = b.nodeId → a.gpuId ≤ b.gpuId

/-- The nodes of the bundles of a domain with some indices. -/
def nodesOfDomain (indices : List ℕ) (domain : String) : Finset (Option String) :=
  ((indices.filter fun i => domainOf bundleData i = some domain).map (nodeOf bundleData)).toFinset

end Spec

/-! ## Bundles and their indices -/

section Infos
variable {bundleData : List BundleData}

/-- The data of a bundle. -/
def BundleInfo.data (info : BundleInfo) : BundleData :=
  ⟨info.gpuId, info.domain, info.topoRank, info.nodeId⟩

theorem mem_bundleInfos {info : BundleInfo} :
    info ∈ bundleInfos bundleData ↔ bundleData[info.idx]? = some info.data := by
  rw [bundleInfos, List.mem_mapIdx]
  constructor
  · rintro ⟨i, hi, rfl⟩
    exact List.getElem?_eq_getElem hi
  · intro h
    obtain ⟨hi, hdata⟩ := List.getElem?_eq_some_iff.mp h
    refine ⟨info.idx, hi, ?_⟩
    rw [hdata]
    rfl

theorem map_idx_bundleInfos (bundleData : List BundleData) :
    (bundleInfos bundleData).map BundleInfo.idx = List.range bundleData.length := by
  apply List.ext_getElem
  · simp [bundleInfos]
  · intro i _ _
    simp [bundleInfos]

theorem map_data_bundleInfos (bundleData : List BundleData) :
    (bundleInfos bundleData).map BundleInfo.data = bundleData := by
  apply List.ext_getElem
  · simp [bundleInfos]
  · intro i _ _
    simp [bundleInfos, BundleInfo.data]

theorem mem_of_mem_bundleInfos {info : BundleInfo} (h : info ∈ bundleInfos bundleData) :
    info.data ∈ bundleData :=
  List.mem_of_getElem? (mem_bundleInfos.mp h)

theorem nodeOf_idx {info : BundleInfo} (h : info ∈ bundleInfos bundleData) :
    nodeOf bundleData info.idx = some info.nodeId := by
  rw [nodeOf, mem_bundleInfos.mp h]
  rfl

theorem domainOf_idx {info : BundleInfo} (h : info ∈ bundleInfos bundleData) :
    domainOf bundleData info.idx = some info.domain := by
  rw [domainOf, mem_bundleInfos.mp h]
  rfl

end Infos

/-! ## The least ranks -/

theorem lookup_noteRank (ranks : List (String × ℤ)) (info : BundleInfo) (domain : String) :
    (noteRank ranks info).lookup domain =
      if domain = info.domain then
        some ((ranks.lookup domain).elim info.topoRank fun rank => min rank info.topoRank)
      else ranks.lookup domain := by
  rw [noteRank]
  cases hlookup : ranks.lookup info.domain with
  | none =>
    dsimp only
    rw [lookup_dictSet]
    by_cases hdomain : domain = info.domain
    · subst hdomain
      rw [if_pos rfl, if_pos rfl, hlookup, Option.elim_none]
    · rw [if_neg hdomain, if_neg hdomain]
  | some rank =>
    dsimp only
    by_cases hdomain : domain = info.domain
    · subst hdomain
      rw [if_pos rfl, hlookup, Option.elim_some]
      split_ifs with hlt
      · rw [lookup_dictSet, if_pos rfl, min_eq_right hlt.le]
      · rw [hlookup, min_eq_left (not_lt.mp hlt)]
    · rw [if_neg hdomain]
      split_ifs
      · rw [lookup_dictSet, if_neg hdomain]
      · rfl

theorem min?_concat (ranks : List ℤ) (rank : ℤ) :
    (ranks ++ [rank]).min? = some (ranks.min?.elim rank fun least => min least rank) := by
  cases hmin : ranks.min? with
  | none =>
    rw [List.min?_eq_none_iff] at hmin
    rw [hmin]
    rfl
  | some least =>
    obtain ⟨hleast, hle⟩ := List.min?_eq_some_iff.mp hmin
    rw [Option.elim_some, List.min?_eq_some_iff]
    constructor
    · rcases min_choice least rank with heq | heq
      · rw [heq]
        exact List.mem_append_left _ hleast
      · rw [heq]
        exact List.mem_append_right _ List.mem_cons_self
    · intro b hb
      cases List.mem_append.mp hb with
      | inl hb => exact (min_le_left ..).trans (hle b hb)
      | inr hb => exact (min_le_right ..).trans (List.mem_singleton.mp hb).ge

theorem lookup_domainToMinTopoRank (bundles : List BundleInfo) (domain : String) :
    (domainToMinTopoRank bundles).lookup domain =
      ((bundles.filter fun x => x.domain = domain).map BundleInfo.topoRank).min? := by
  induction bundles using List.reverseRecOn with
  | nil => rfl
  | append_singleton bundles info ih =>
    have hstep : domainToMinTopoRank (bundles ++ [info]) =
        noteRank (domainToMinTopoRank bundles) info := by
      rw [domainToMinTopoRank, List.foldl_append]
      rfl
    rw [hstep, lookup_noteRank, ih, List.filter_append, List.map_append]
    by_cases hdomain : domain = info.domain
    · have hlast : List.filter (fun x => decide (x.domain = domain)) [info] = [info] := by
        simp [hdomain]
      rw [if_pos hdomain, hlast, List.map_singleton, min?_concat]
    · have hnone : List.filter (fun x => decide (x.domain = domain)) [info] = [] := by
        simp [Ne.symm hdomain]
      rw [if_neg hdomain, hnone, List.map_nil, List.append_nil]

/-- The least rank of a domain is the rank of one of its bundles. -/
theorem exists_minTopoRank {bundles : List BundleInfo} {info : BundleInfo} (h : info ∈ bundles) :
    ∃ least ∈ bundles, least.domain = info.domain ∧
      minTopoRank bundles info.domain = least.topoRank ∧
      ∀ x ∈ bundles, x.domain = info.domain → least.topoRank ≤ x.topoRank := by
  obtain ⟨ranks, hranks⟩ : ∃ ranks, ranks =
      (bundles.filter fun x => x.domain = info.domain).map BundleInfo.topoRank := ⟨_, rfl⟩
  have hmem : ∀ {rank}, rank ∈ ranks ↔
      ∃ x ∈ bundles, x.domain = info.domain ∧ x.topoRank = rank := by
    intro rank
    simp [hranks, and_assoc]
  cases hmin : ranks.min? with
  | none =>
    rw [List.min?_eq_none_iff] at hmin
    have hrank := hmem.mpr ⟨info, h, rfl, rfl⟩
    rw [hmin] at hrank
    cases hrank
  | some rank =>
    obtain ⟨hrank, hle⟩ := List.min?_eq_some_iff.mp hmin
    obtain ⟨least, hleast, hdomain, rfl⟩ := hmem.mp hrank
    refine ⟨least, hleast, hdomain, ?_, fun x hx hxd => hle _ (hmem.mpr ⟨x, hx, hxd, rfl⟩)⟩
    rw [minTopoRank, lookup_domainToMinTopoRank, ← hranks, hmin, Option.getD_some]

/-! ## The order -/

section Order
variable {bundleData : List BundleData} {bundles : List BundleInfo}

theorem gpuOrdered_map_idx (hmem : ∀ x ∈ bundles, x ∈ bundleInfos bundleData)
    (h : bundles.Pairwise fun x y => x.nodeId = y.nodeId → x.gpuId ≤ y.gpuId) :
    GpuOrdered bundleData (bundles.map BundleInfo.idx) := by
  rw [GpuOrdered, List.pairwise_map]
  refine h.imp_of_mem fun {x y} hx hy hxy a b ha hb hab => ?_
  rw [mem_bundleInfos.mp (hmem x hx), Option.some.injEq] at ha
  rw [mem_bundleInfos.mp (hmem y hy), Option.some.injEq] at hb
  subst ha hb
  exact hxy hab

theorem contiguous_nodeOf (hmem : ∀ x ∈ bundles, x ∈ bundleInfos bundleData)
    (h : Contiguous BundleInfo.nodeId bundles) :
    Contiguous (nodeOf bundleData) (bundles.map BundleInfo.idx) := by
  apply Contiguous.map
  refine h.congr fun x hx y hy => ?_
  rw [nodeOf_idx (hmem x hx), nodeOf_idx (hmem y hy), Option.some.injEq]

theorem contiguous_domainOf (hmem : ∀ x ∈ bundles, x ∈ bundleInfos bundleData)
    (h : Contiguous BundleInfo.domain bundles) :
    Contiguous (domainOf bundleData) (bundles.map BundleInfo.idx) := by
  apply Contiguous.map
  refine h.congr fun x hx y hy => ?_
  rw [domainOf_idx (hmem x hx), domainOf_idx (hmem y hy), Option.some.injEq]

/-- Without a topology the nodes are in order, and all bundles are in the unknown domain. -/
theorem sortOn_node (htopology : hasTopology bundleData = false) :
    let sorted := sortOn (fun x => toLex (x.nodeId, x.gpuId)) (bundleInfos bundleData)
    GpuOrdered bundleData (sorted.map BundleInfo.idx) ∧
      Contiguous (nodeOf bundleData) (sorted.map BundleInfo.idx) ∧
      Contiguous (domainOf bundleData) (sorted.map BundleInfo.idx) := by
  intro sorted
  have hpairwise := pairwise_sortOn (fun x : BundleInfo => toLex (x.nodeId, x.gpuId))
    (bundleInfos bundleData)
  have hmem : ∀ x ∈ sorted, x ∈ bundleInfos bundleData := fun x hx => (sortOn_perm ..).mem_iff.mp hx
  have hdomain : ∀ x ∈ sorted, x.domain = nvlinkDomainUnknown := by
    intro x hx
    have hdata := List.any_eq_false.mp htopology x.data (mem_of_mem_bundleInfos (hmem x hx))
    simp only [ne_eq, decide_not, Bool.or_eq_true, Bool.not_eq_true', decide_eq_false_iff_not,
      not_or, not_not] at hdata
    exact hdata.1
  simp only [Prod.Lex.toLex_le_toLex] at hpairwise
  refine ⟨gpuOrdered_map_idx hmem (hpairwise.imp ?_), contiguous_nodeOf hmem
    (contiguous_of_pairwise hpairwise ?_), contiguous_domainOf hmem ?_⟩
  · intro x y hxy hnode
    rcases hxy with hlt | ⟨-, hle⟩
    · exact absurd hnode hlt.ne
    · exact hle
  · intro x _ y _ z _ hxy hyz hnode
    have hxy' : x.nodeId ≤ y.nodeId := hxy.elim le_of_lt fun h => h.1.le
    have hyz' : y.nodeId ≤ z.nodeId := hyz.elim le_of_lt fun h => h.1.le
    exact le_antisymm (hyz'.trans hnode.ge) hxy'
  · intro x y z hsub _
    rw [hdomain x (hsub.subset (by simp)), hdomain y (hsub.subset (by simp))]

/-- Bundles in order: by the least rank of their domain, by their rank and by their GPU. -/
theorem pairwise_sortByTopology (bundles : List BundleInfo) :
    (sortByTopology bundles).Pairwise fun x y =>
      minTopoRank bundles x.domain < minTopoRank bundles y.domain ∨
        minTopoRank bundles x.domain = minTopoRank bundles y.domain ∧
          (x.topoRank < y.topoRank ∨ x.topoRank = y.topoRank ∧ x.gpuId ≤ y.gpuId) := by
  have hpairwise := pairwise_sortOn (fun x : BundleInfo =>
    toLex (minTopoRank bundles x.domain, toLex (x.topoRank, x.gpuId))) bundles
  simp only [Prod.Lex.toLex_le_toLex] at hpairwise
  exact hpairwise

theorem gpuOrdered_sortByTopology (hmem : ∀ x ∈ bundles, x ∈ bundleInfos bundleData)
    (hplaced : Placed bundleData) :
    GpuOrdered bundleData ((sortByTopology bundles).map BundleInfo.idx) := by
  have hmem' : ∀ x ∈ sortByTopology bundles, x ∈ bundleInfos bundleData :=
    fun x hx => hmem x ((sortOn_perm ..).mem_iff.mp hx)
  apply gpuOrdered_map_idx hmem'
  refine (pairwise_sortByTopology bundles).imp_of_mem fun {x y} hx hy hxy hnode => ?_
  have hx' := mem_of_mem_bundleInfos (hmem' x hx)
  have hy' := mem_of_mem_bundleInfos (hmem' y hy)
  have hdomain : x.domain = y.domain := hplaced.domain _ hx' _ hy' hnode
  have hrank : x.topoRank = y.topoRank := hplaced.rank _ hx' _ hy' hnode
  rw [hdomain, hrank] at hxy
  simpa using hxy

/-- Bundles whose least ranks are those of their domains. -/
def KeepsLeast (bundleData : List BundleData) (bundles : List BundleInfo) : Prop :=
  ∀ x ∈ bundles, (∀ y ∈ bundles, y.domain = x.domain → x.topoRank ≤ y.topoRank) →
    HasLeastRank bundleData x.data

/-- Domains with different least ranks are told apart by them. -/
theorem domain_eq_of_minTopoRank (hmem : ∀ x ∈ bundles, x ∈ bundleInfos bundleData)
    (hkeeps : KeepsLeast bundleData bundles) (hdiffer : LeastRanksDiffer bundleData)
    {x y : BundleInfo} (hx : x ∈ bundles) (hy : y ∈ bundles)
    (heq : minTopoRank bundles x.domain = minTopoRank bundles y.domain) :
    x.domain = y.domain := by
  obtain ⟨a, ha, hax, haRank, haLe⟩ := exists_minTopoRank hx
  obtain ⟨b, hb, hby, hbRank, hbLe⟩ := exists_minTopoRank hy
  have haLeast : HasLeastRank bundleData a.data :=
    hkeeps a ha fun z hz hza => haLe z hz (hza.trans hax)
  have hbLeast : HasLeastRank bundleData b.data :=
    hkeeps b hb fun z hz hzb => hbLe z hz (hzb.trans hby)
  have hab := hdiffer _ (mem_of_mem_bundleInfos (hmem a ha)) _
    (mem_of_mem_bundleInfos (hmem b hb)) haLeast hbLeast (haRank.symm.trans (heq.trans hbRank))
  exact hax.symm.trans (Eq.trans hab hby)

/-- Where the ranks tell the nodes and the domains apart these are contiguous. -/
theorem contiguous_sortByTopology (hmem : ∀ x ∈ bundles, x ∈ bundleInfos bundleData)
    (hkeeps : KeepsLeast bundleData bundles) (hranked : Ranked bundleData)
    (hdiffer : LeastRanksDiffer bundleData) :
    Contiguous (nodeOf bundleData) ((sortByTopology bundles).map BundleInfo.idx) ∧
      Contiguous (domainOf bundleData) ((sortByTopology bundles).map BundleInfo.idx) := by
  have hperm : ∀ x ∈ sortByTopology bundles, x ∈ bundles :=
    fun x hx => (sortOn_perm ..).mem_iff.mp hx
  have hmem' : ∀ x ∈ sortByTopology bundles, x ∈ bundleInfos bundleData :=
    fun x hx => hmem x (hperm x hx)
  have hpairwise := pairwise_sortByTopology bundles
  constructor
  · refine contiguous_nodeOf hmem' (contiguous_of_pairwise hpairwise ?_)
    intro x hx y hy z hz hxy hyz hnode
    have hx' := mem_of_mem_bundleInfos (hmem' x hx)
    have hy' := mem_of_mem_bundleInfos (hmem' y hy)
    have hz' := mem_of_mem_bundleInfos (hmem' z hz)
    have hdomain : x.domain = z.domain := hranked.domain _ hx' _ hz' hnode
    have hrank : x.topoRank = z.topoRank := hranked.rank _ hx' _ hz' hnode
    rw [← hdomain, ← hrank] at hyz
    have hmin : minTopoRank bundles y.domain = minTopoRank bundles x.domain := by omega
    have hrank' : y.topoRank = x.topoRank := by omega
    exact hranked.node _ hy' _ hx'
      (domain_eq_of_minTopoRank hmem hkeeps hdiffer (hperm y hy) (hperm x hx) hmin) hrank'
  · refine contiguous_domainOf hmem' (contiguous_of_pairwise hpairwise ?_)
    intro x hx y hy z hz hxy hyz hdomain
    rw [← hdomain] at hyz
    have hmin : minTopoRank bundles y.domain = minTopoRank bundles x.domain := by omega
    exact domain_eq_of_minTopoRank hmem hkeeps hdiffer (hperm y hy) (hperm x hx) hmin

end Order

/-! ## Complete segments -/

section Segments
variable {bundleData : List BundleData} {segmentSize gpusPerNode : ℕ}

/-- The bundles of complete segments. -/
def segmentBundles (segmentSize gpusPerNode : ℕ) (bundleData : List BundleData) :
    List BundleInfo :=
  (groupBy BundleInfo.domain (bundleInfos bundleData)).flatMap fun p =>
    keepSegments segmentSize gpusPerNode p.2

/-- The bundles of a domain. -/
def domainBundles (bundleData : List BundleData) (domain : String) : List BundleInfo :=
  (bundleInfos bundleData).filter fun x => x.domain = domain

theorem mem_domainBundles {x : BundleInfo} {domain : String} :
    x ∈ domainBundles bundleData domain ↔ x ∈ bundleInfos bundleData ∧ x.domain = domain := by
  simp [domainBundles]

theorem mem_of_mem_keepSegments {bundles : List BundleInfo} {x : BundleInfo}
    (h : x ∈ keepSegments segmentSize gpusPerNode bundles) : x ∈ bundles :=
  (sortOn_perm ..).mem_iff.mp (List.mem_of_mem_take h)

/-- A bundle is kept when its domain keeps it. -/
theorem mem_segmentBundles {x : BundleInfo} :
    x ∈ segmentBundles segmentSize gpusPerNode bundleData ↔
      x ∈ keepSegments segmentSize gpusPerNode (domainBundles bundleData x.domain) := by
  rw [segmentBundles, List.mem_flatMap]
  constructor
  · rintro ⟨⟨domain, group⟩, hgroup, hx⟩
    obtain ⟨-, rfl⟩ := mem_groupBy.mp hgroup
    obtain ⟨-, rfl⟩ := mem_domainBundles.mp (mem_of_mem_keepSegments hx)
    exact hx
  · intro hx
    refine ⟨(x.domain, domainBundles bundleData x.domain), mem_groupBy.mpr ⟨?_, rfl⟩, hx⟩
    exact List.mem_map_of_mem (mem_domainBundles.mp (mem_of_mem_keepSegments hx)).1

theorem segmentBundles_subset : ∀ x ∈ segmentBundles segmentSize gpusPerNode bundleData,
    x ∈ bundleInfos bundleData :=
  fun _ hx => (mem_domainBundles.mp (mem_of_mem_keepSegments (mem_segmentBundles.mp hx))).1

/-- A bundle that is kept has no higher rank than one of its domain that is not kept. -/
theorem keepsLeast_segmentBundles :
    KeepsLeast bundleData (segmentBundles segmentSize gpusPerNode bundleData) := by
  intro x hx hle b hb hdomain
  obtain ⟨i, hi⟩ := List.mem_iff_getElem?.mp hb
  obtain ⟨y, hyIdx⟩ : ∃ y : BundleInfo, y ∈ bundleInfos bundleData ∧ y.data = b :=
    ⟨⟨i, b.nodeId, b.gpuId, b.nvlinkDomain, b.topoRank⟩, mem_bundleInfos.mpr hi, rfl⟩
  obtain ⟨hy, rfl⟩ := hyIdx
  by_cases hkept : y ∈ segmentBundles segmentSize gpusPerNode bundleData
  · exact hle y hkept hdomain
  · have hdomain' : y.domain = x.domain := hdomain
    rw [mem_segmentBundles, hdomain', keepSegments] at hkept
    rw [mem_segmentBundles, keepSegments] at hx
    have hy' : y ∈ sortOn (fun x => toLex (x.topoRank, x.gpuId))
        (domainBundles bundleData x.domain) :=
      (sortOn_perm ..).mem_iff.mpr (mem_domainBundles.mpr ⟨hy, hdomain'⟩)
    have hpairwise := pairwise_sortOn (fun x : BundleInfo => toLex (x.topoRank, x.gpuId))
      (domainBundles bundleData x.domain)
    rw [← List.take_append_drop _ (sortOn _ _)] at hpairwise hy'
    have hdrop := (List.mem_append.mp hy').resolve_left hkept
    have hxy := (List.pairwise_append.mp hpairwise).2.2 x hx y hdrop
    rw [Prod.Lex.toLex_le_toLex] at hxy
    exact hxy.elim le_of_lt fun heq => heq.1.le

/-- A domain keeps whole nodes, as many as make complete segments. -/
theorem keepSegments_domain (hranked : Ranked bundleData)
    (hcount : ∀ a ∈ bundleData, (bundleData.filter fun b => b.nodeId = a.nodeId).length =
      gpusPerNode) (domain : String) :
    let kept := keepSegments segmentSize gpusPerNode (domainBundles bundleData domain)
    (∀ x ∈ kept, ∀ y ∈ domainBundles bundleData domain, x.nodeId = y.nodeId → y ∈ kept) ∧
      segmentSize ∣ (kept.map BundleInfo.nodeId).toFinset.card := by
  intro kept
  obtain ⟨sorted, hsorted⟩ : ∃ sorted, sorted = sortOn (fun x => toLex (x.topoRank, x.gpuId))
      (domainBundles bundleData domain) := ⟨_, rfl⟩
  have hperm : sorted.Perm (domainBundles bundleData domain) := hsorted ▸ sortOn_perm ..
  have hdata : ∀ x ∈ sorted, x.data ∈ bundleData ∧ x.domain = domain := by
    intro x hx
    obtain ⟨hinfo, hdomain⟩ := mem_domainBundles.mp (hperm.mem_iff.mp hx)
    exact ⟨mem_of_mem_bundleInfos hinfo, hdomain⟩
  have hcontiguous : Contiguous BundleInfo.nodeId sorted := by
    have hpairwise := pairwise_sortOn (fun x : BundleInfo => toLex (x.topoRank, x.gpuId))
      (domainBundles bundleData domain)
    rw [← hsorted] at hpairwise
    simp only [Prod.Lex.toLex_le_toLex] at hpairwise
    refine contiguous_of_pairwise hpairwise fun x hx y hy z hz hxy hyz hnode => ?_
    have hrank : x.topoRank = z.topoRank :=
      hranked.rank _ (hdata x hx).1 _ (hdata z hz).1 hnode
    have hrank' : y.topoRank = x.topoRank := by omega
    exact hranked.node _ (hdata y hy).1 _ (hdata x hx).1
      ((hdata y hy).2.trans (hdata x hx).2.symm) hrank'
  -- the bundles of a node are all in its domain
  have hnode : ∀ x ∈ sorted,
      (sorted.filter fun y => decide (y.nodeId = x.nodeId)).length = gpusPerNode := by
    intro x hx
    have hfilter : (domainBundles bundleData domain).filter
        (fun y => decide (y.nodeId = x.nodeId)) =
          (bundleInfos bundleData).filter fun y => decide (y.nodeId = x.nodeId) := by
      rw [domainBundles, List.filter_filter]
      refine List.filter_congr fun y hy => ?_
      by_cases hnode : y.nodeId = x.nodeId
      · have hdomain := hranked.domain _ (mem_of_mem_bundleInfos hy) _ (hdata x hx).1 hnode
        simp [hnode, show y.domain = domain from hdomain.trans (hdata x hx).2]
      · simp [hnode]
    have hcounted := hcount x.data (hdata x hx).1
    rw [← map_data_bundleInfos bundleData, List.filter_map, List.length_map] at hcounted
    rw [(hperm.filter _).length_eq, hfilter]
    exact hcounted
  obtain ⟨hwhole, hcard⟩ := take_mul_runs hcontiguous hnode
    (((domainBundles bundleData domain).map BundleInfo.nodeId).toFinset.card / segmentSize *
      segmentSize)
  have hkept : kept = sorted.take
      (((domainBundles bundleData domain).map BundleInfo.nodeId).toFinset.card / segmentSize *
        segmentSize * gpusPerNode) := by
    rw [hsorted]
    rfl
  rw [hkept]
  constructor
  · intro x hx y hy hxy
    exact hwhole x hx y (hperm.mem_iff.mpr hy) hxy
  · have hnodes : (sorted.map BundleInfo.nodeId).toFinset =
        ((domainBundles bundleData domain).map BundleInfo.nodeId).toFinset :=
      List.toFinset_eq_of_perm _ _ (hperm.map _)
    rw [hcard, hnodes, min_eq_left (Nat.div_mul_le_self ..)]
    exact Nat.dvd_mul_left ..

theorem nodup_idx_segmentBundles :
    ((segmentBundles segmentSize gpusPerNode bundleData).map BundleInfo.idx).Nodup := by
  have hsubperm : ∀ groups : List (String × List BundleInfo),
      (groups.flatMap fun p => keepSegments segmentSize gpusPerNode p.2).Subperm
        (groups.flatMap Prod.snd) := by
    intro groups
    induction groups with
    | nil => exact List.Subperm.refl _
    | cons p groups ih =>
      rw [List.flatMap_cons, List.flatMap_cons]
      have hkept : (keepSegments segmentSize gpusPerNode p.2).Subperm p.2 :=
        ((List.take_sublist ..).subperm).trans (sortOn_perm ..).subperm
      exact hkept.append ih
  obtain ⟨l, hperm, hsub⟩ := (hsubperm _).trans
    (flatMap_groupBy_perm BundleInfo.domain (bundleInfos bundleData)).subperm
  have hnodup : (l.map BundleInfo.idx).Nodup := by
    refine List.Nodup.sublist (hsub.map _) ?_
    rw [map_idx_bundleInfos]
    exact List.nodup_range
  exact (hperm.map _).nodup_iff.mp hnodup

/-- The nodes of a domain among the bundles in order. -/
theorem nodesOfDomain_sortByTopology (domain : String) :
    (nodesOfDomain bundleData ((sortByTopology
        (segmentBundles segmentSize gpusPerNode bundleData)).map BundleInfo.idx) domain).card =
      ((keepSegments segmentSize gpusPerNode (domainBundles bundleData domain)).map
        BundleInfo.nodeId).toFinset.card := by
  have hsome : nodesOfDomain bundleData ((sortByTopology
      (segmentBundles segmentSize gpusPerNode bundleData)).map BundleInfo.idx) domain =
        ((keepSegments segmentSize gpusPerNode (domainBundles bundleData domain)).map
          BundleInfo.nodeId).toFinset.image some := by
    ext node
    simp only [nodesOfDomain, List.mem_toFinset, List.mem_map, List.mem_filter,
      decide_eq_true_eq, Finset.mem_image]
    constructor
    · rintro ⟨_, ⟨⟨x, hx, rfl⟩, hdomain⟩, rfl⟩
      have hkept := (sortOn_perm ..).mem_iff.mp hx
      have hinfo := segmentBundles_subset x hkept
      rw [domainOf_idx hinfo, Option.some.injEq] at hdomain
      subst hdomain
      exact ⟨x.nodeId, ⟨x, mem_segmentBundles.mp hkept, rfl⟩, (nodeOf_idx hinfo).symm⟩
    · rintro ⟨_, ⟨x, hx, rfl⟩, rfl⟩
      obtain ⟨hinfo, rfl⟩ := mem_domainBundles.mp (mem_of_mem_keepSegments hx)
      exact ⟨x.idx, ⟨⟨x, (sortOn_perm ..).mem_iff.mpr (mem_segmentBundles.mpr hx), rfl⟩,
        domainOf_idx hinfo⟩, nodeOf_idx hinfo⟩
  rw [hsome, Finset.card_image_of_injective _ (Option.some_injective _)]

/-- A node with a bundle in the order has all its bundles in the order. -/
theorem wholeNodes_sortByTopology (hranked : Ranked bundleData)
    (hcount : ∀ a ∈ bundleData, (bundleData.filter fun b => b.nodeId = a.nodeId).length =
      gpusPerNode) :
    ∀ i ∈ (sortByTopology (segmentBundles segmentSize gpusPerNode bundleData)).map BundleInfo.idx,
      ∀ j, j < bundleData.length → nodeOf bundleData i = nodeOf bundleData j →
        j ∈ (sortByTopology (segmentBundles segmentSize gpusPerNode bundleData)).map
          BundleInfo.idx := by
  intro i hi j hj hnode
  obtain ⟨x, hx, rfl⟩ := List.mem_map.mp hi
  have hkept := (sortOn_perm ..).mem_iff.mp hx
  have hxInfo := segmentBundles_subset x hkept
  obtain ⟨y, hy, rfl⟩ : ∃ y ∈ bundleInfos bundleData, y.idx = j := by
    rw [← List.mem_map, map_idx_bundleInfos]
    exact List.mem_range.mpr hj
  rw [nodeOf_idx hxInfo, nodeOf_idx hy, Option.some.injEq] at hnode
  have hdomain : y.domain = x.domain :=
    hranked.domain _ (mem_of_mem_bundleInfos hy) _ (mem_of_mem_bundleInfos hxInfo) hnode.symm
  have hyKept := (keepSegments_domain hranked hcount x.domain).1 x (mem_segmentBundles.mp hkept) y
    (mem_domainBundles.mpr ⟨hy, hdomain⟩) hnode
  rw [← hdomain] at hyKept
  exact List.mem_map_of_mem ((sortOn_perm ..).mem_iff.mpr (mem_segmentBundles.mpr hyKept))

end Segments

/-! ## The indices -/

section Indices
variable {bundleData : List BundleData}

/-- The bundles that are left have one place each in the order. -/
theorem nodup_of_perm {bundles sorted : List BundleInfo} (hperm : sorted.Perm bundles)
    (hmem : ∀ x ∈ bundles, x ∈ bundleInfos bundleData)
    (hnodup : (bundles.map BundleInfo.idx).Nodup) :
    (sorted.map BundleInfo.idx).Nodup ∧
      ∀ i ∈ sorted.map BundleInfo.idx, i < bundleData.length := by
  refine ⟨(hperm.map _).nodup_iff.mpr hnodup, fun i hi => ?_⟩
  obtain ⟨x, hx, rfl⟩ := List.mem_map.mp hi
  exact (List.getElem?_eq_some_iff.mp (mem_bundleInfos.mp (hmem x (hperm.mem_iff.mp hx)))).1

theorem mem_of_perm {sorted : List BundleInfo} (hperm : sorted.Perm (bundleInfos bundleData)) :
    ∀ i, i < bundleData.length → i ∈ sorted.map BundleInfo.idx := by
  intro i hi
  rw [(hperm.map _).mem_iff, map_idx_bundleInfos]
  exact List.mem_range.mpr hi

theorem nodup_idx_bundleInfos : ((bundleInfos bundleData).map BundleInfo.idx).Nodup := by
  rw [map_idx_bundleInfos]
  exact List.nodup_range

theorem keepsLeast_bundleInfos : KeepsLeast bundleData (bundleInfos bundleData) := by
  intro x _ hle b hb hdomain
  rw [← map_data_bundleInfos bundleData] at hb
  obtain ⟨y, hy, rfl⟩ := List.mem_map.mp hb
  exact hle y hy hdomain

end Indices

end NemoRL.Distributed
