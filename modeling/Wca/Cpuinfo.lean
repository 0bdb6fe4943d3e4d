import Wca.Py.Dict
import Wca.Py.Exec
import Wca.Py.Sort
import Wca.Py.Str

/-!
# The topology of the processors

`collect_topology_information` groups the records of `/proc/cpuinfo` by their physical id and each
group by the core id. Both groupings come after a sort by the same key, so no group is met twice and
every processor is in the topology once, below its own ids (`collectTopologyInformation_exact`).
-/

namespace Wca.Cpuinfo

open Py

/-- For each socket the processors of each of its cores. -/
abbrev Topology := Dict ℤ (Dict ℤ (List ℤ))

/-- `int(record[key])`. -/
def intField (key : String) (record : Dict String String) : Except Exn ℤ := do
  Str.int 10 (← record.item key)

def byPhysicalId : Dict String String → Except Exn ℤ := intField "physical id"

def byCoreId : Dict String String → Except Exn ℤ := intField "core id"

/-- `groupby(sorted(l, key=key), key=key)`, for a key that may raise: it is taken of every element
before anything is sorted. -/
def groupsBy {α : Type} (key : α → Except Exn ℤ) (l : List α) : Except Exn (List (ℤ × List α)) := do
  let keyed ← l.mapM fun a => do return (← key a, a)
  return (groupby Prod.fst (sortedBy Prod.fst keyed)).map fun g => (g.1, g.2.map Prod.snd)

/-- `topology[physical_id][core_id] = cpus`; a socket that is not there yet is added. -/
def setCore (topology : Topology) (physicalId coreId : ℤ) (cpus : List ℤ) : Topology :=
  topology.set physicalId (((topology.get? physicalId).getD ∅).set coreId cpus)

/-- The body of the outer loop. -/
def addSocket (topology : Topology) (socket : ℤ × List (Dict String String)) :
    Except Exn Topology := do
  let cores ← groupsBy byCoreId socket.2
  cores.foldlM (fun topology core => do
    let cpus ← core.2.mapM (intField "processor")
    return setCore topology socket.1 core.1 cpus) topology

/-- The number of online cpus, of cores and of sockets, and the topology. -/
def collectTopologyInformation (parsedCpuinfo : List (Dict String String)) :
    Except Exn (ℕ × ℕ × ℕ × Topology) := do
  let sockets ← groupsBy byPhysicalId parsedCpuinfo
  let topology ← sockets.foldlM addSocket ∅
  let nrOfCores := (topology.values.map (·.len)).sum
  return (parsedCpuinfo.length, nrOfCores, topology.len, topology)

/-! ## Records -/

/-- A parsed record, with the numbers in it. -/
structure CpuRecord where
  parsed : Dict String String
  processor : ℤ
  physicalId : ℤ
  coreId : ℤ
  processor_int : intField "processor" parsed = .ok processor
  physicalId_int : byPhysicalId parsed = .ok physicalId
  coreId_int : byCoreId parsed = .ok coreId

/-- Every processor of a topology with its socket and its core. -/
def Topology.entries (topology : Topology) : List (ℤ × ℤ × ℤ) :=
  topology.items.flatMap fun socket => socket.2.items.flatMap fun core =>
    core.2.map fun cpu => (socket.1, core.1, cpu)

/-- A topology is that of the records, and the numbers count what is in them. -/
structure Exact (records : List CpuRecord) (r : ℕ × ℕ × ℕ × Topology) : Prop where
  cpus : r.1 = records.length
  cores : r.2.1 = (records.map fun p => (p.physicalId, p.coreId)).toFinset.card
  sockets : r.2.2.1 = (records.map (·.physicalId)).toFinset.card
  entries : List.Perm (Topology.entries r.2.2.2)
    (records.map fun p => (p.physicalId, p.coreId, p.processor))
  once : ∀ p ∈ records, ((Topology.entries r.2.2.2).map (·.2.2)).count p.processor = 1

section Topology

variable {α : Type} {key : α → Except Exn ℤ}

/-- Groups of records are groups by their numbers. -/
theorem groupsBy_map {β : Type} {f : β → α} {k : β → ℤ} (hk : ∀ b, key (f b) = .ok (k b))
    (l : List β) : groupsBy key (l.map f) =
      .ok ((groupby k (sortedBy k l)).map fun g => (g.1, g.2.map f)) := by
  have hkeyed : (l.map f).mapM (fun a => do return (← key a, a) : α → Except Exn (ℤ × α)) =
      .ok (l.map fun b => (k b, f b)) := by
    rw [List.mapM_map]
    refine except_mapM_eq_ok fun b _ => ?_
    rw [Function.comp_apply, hk]
    rfl
  rw [groupsBy, hkeyed, except_ok_bind, sortedBy_map, groupby_map, List.map_map, except_pure]
  simp [Function.comp_def]

/-! ### The loops -/

/-- The cores of the processors of a socket. -/
def coresOf (records : List CpuRecord) : List (ℤ × List ℤ) :=
  (groupby CpuRecord.coreId (sortedBy CpuRecord.coreId records)).map fun g =>
    (g.1, g.2.map CpuRecord.processor)

def socketsOf (records : List CpuRecord) : List (ℤ × Dict ℤ (List ℤ)) :=
  (groupby CpuRecord.physicalId (sortedBy CpuRecord.physicalId records)).map fun g =>
    (g.1, Dict.ofItems (coresOf g.2))

theorem nodup_coresOf (records : List CpuRecord) : ((coresOf records).map Prod.fst).Nodup := by
  rw [coresOf, List.map_map]
  exact groupby_sortedBy_nodup records

theorem nodup_socketsOf (records : List CpuRecord) : ((socketsOf records).map Prod.fst).Nodup := by
  rw [socketsOf, List.map_map]
  exact groupby_sortedBy_nodup records

/-- The cores of one socket are set in its dictionary. -/
theorem foldl_setCore (topology : Topology) (physicalId : ℤ) (core : ℤ × List ℤ)
    (cores : List (ℤ × List ℤ)) :
    (core :: cores).foldl (fun topology core => setCore topology physicalId core.1 core.2) topology =
      topology.set physicalId ((core :: cores).foldl (fun d core => d.set core.1 core.2)
        ((topology.get? physicalId).getD ∅)) := by
  induction cores generalizing topology core with
  | nil => rfl
  | cons core' cores ih =>
    rw [List.foldl_cons, ih, setCore, Dict.get?_set_self, Dict.set_set]
    rfl

theorem coresOf_ne_nil {records : List CpuRecord} (hne : records ≠ []) : coresOf records ≠ [] := by
  obtain ⟨p, hp⟩ := List.exists_mem_of_ne_nil _ hne
  have hkey : p.coreId ∈ (sortedBy CpuRecord.coreId records).map CpuRecord.coreId :=
    List.mem_map.mpr ⟨p, (mem_sortedBy _).mpr hp, rfl⟩
  obtain ⟨g, hg, -⟩ := List.mem_map.mp (mem_keys_groupby.mpr hkey)
  exact List.ne_nil_of_mem (List.mem_map.mpr ⟨g, hg, rfl⟩)

theorem addSocket_ok {topology : Topology} {physicalId : ℤ} {records : List CpuRecord}
    (hne : records ≠ []) (hnew : physicalId ∉ topology.keys) :
    addSocket topology (physicalId, records.map (·.parsed)) =
      .ok (topology.set physicalId (Dict.ofItems (coresOf records))) := by
  have hcore : ∀ (topology : Topology) (g : ℤ × List CpuRecord),
      (do let cpus ← (g.2.map (·.parsed)).mapM (intField "processor")
          return setCore topology physicalId g.1 cpus : Except Exn Topology) =
        pure (setCore topology physicalId g.1 (g.2.map CpuRecord.processor)) := by
    intro topology g
    have hcpus : (g.2.map (·.parsed)).mapM (intField "processor") =
        .ok (g.2.map CpuRecord.processor) := by
      rw [List.mapM_map]
      exact except_mapM_eq_ok fun p _ => p.processor_int
    rw [hcpus]
    rfl
  obtain ⟨core, cores, hcores⟩ := List.exists_cons_of_ne_nil (coresOf_ne_nil hne)
  have hfold : (groupby CpuRecord.coreId (sortedBy CpuRecord.coreId records)).foldl
      (fun topology g => setCore topology physicalId g.1 (g.2.map CpuRecord.processor)) topology =
        (coresOf records).foldl (fun topology core => setCore topology physicalId core.1 core.2)
          topology := by
    rw [coresOf, List.foldl_map]
  rw [addSocket, groupsBy_map CpuRecord.coreId_int, except_ok_bind, List.foldlM_map]
  simp only [hcore]
  rw [List.foldlM_pure, hfold, hcores, foldl_setCore, Dict.get?_eq_none_iff.mpr hnew]
  rfl

/-- The loop over the sockets. -/
theorem foldlM_addSocket (records : List CpuRecord) :
    ((groupby CpuRecord.physicalId (sortedBy CpuRecord.physicalId records)).map fun g =>
        (g.1, g.2.map CpuRecord.parsed)).foldlM addSocket ∅ =
      .ok (Dict.ofItems (socketsOf records)) := by
  suffices hgo : ∀ (groups : List (ℤ × List CpuRecord)) (topology : Topology),
      (∀ g ∈ groups, g.2 ≠ [] ∧ g.1 ∉ topology.keys) → (groups.map Prod.fst).Nodup →
        (groups.map fun g => (g.1, g.2.map CpuRecord.parsed)).foldlM addSocket topology =
          .ok ((groups.map fun g => (g.1, Dict.ofItems (coresOf g.2))).foldl
            (fun d p => d.set p.1 p.2) topology) from
    hgo _ ∅ (fun g hg => ⟨(run_of_mem_groupby hg).1, List.not_mem_nil⟩)
      (groupby_sortedBy_nodup records)
  intro groups
  induction groups with
  | nil => exact fun _ _ _ => rfl
  | cons g groups ih =>
    intro topology hgroups hnodup
    obtain ⟨hne, hnew⟩ := hgroups g List.mem_cons_self
    rw [List.map_cons, List.nodup_cons] at hnodup
    rw [List.map_cons, List.foldlM_cons, addSocket_ok hne hnew, except_ok_bind, List.map_cons,
      List.foldl_cons]
    refine ih _ (fun g' hg' => ?_) hnodup.2
    obtain ⟨hne', hnew'⟩ := hgroups g' (List.mem_cons_of_mem _ hg')
    refine ⟨hne', fun hmem => ?_⟩
    obtain he | hmem := Dict.mem_keys_set.mp hmem
    · exact hnodup.1 (List.mem_map.mpr ⟨g', hg', he⟩)
    · exact hnew' hmem

theorem collectTopologyInformation_ok (records : List CpuRecord) :
    collectTopologyInformation (records.map (·.parsed)) =
      .ok (records.length, ((socketsOf records).map (·.2.len)).sum, (socketsOf records).length,
        Dict.ofItems (socketsOf records)) := by
  rw [collectTopologyInformation, groupsBy_map CpuRecord.physicalId_int, except_ok_bind,
    foldlM_addSocket, except_ok_bind, List.length_map, Dict.values, Dict.len,
    Dict.items_ofItems (nodup_socketsOf records), List.map_map]
  rfl

/-! ### What is in it -/

theorem entries_ofItems (records : List CpuRecord) :
    List.Perm (Topology.entries (Dict.ofItems (socketsOf records)))
      (records.map fun p => (p.physicalId, p.coreId, p.processor)) := by
  have hsocket : ∀ (physicalId : ℤ) (group : List CpuRecord),
      List.Perm ((Dict.ofItems (coresOf group)).items.flatMap fun core =>
          core.2.map fun cpu => (physicalId, core.1, cpu))
        (group.map fun p => (physicalId, p.coreId, p.processor)) := by
    intro physicalId group
    rw [Dict.items_ofItems (nodup_coresOf group), coresOf, List.flatMap_map]
    simp only [List.map_map]
    have hcores : (groupby CpuRecord.coreId (sortedBy CpuRecord.coreId group)).flatMap
        (fun g => g.2.map fun p => (physicalId, g.1, p.processor)) =
          (sortedBy CpuRecord.coreId group).map fun p => (physicalId, p.coreId, p.processor) :=
      flatMap_groupby_map (fun coreId p => (physicalId, coreId, CpuRecord.processor p)) _
    simp only [Function.comp_def]
    rw [hcores]
    exact (sortedBy_perm CpuRecord.coreId group).map _
  rw [Topology.entries, Dict.items_ofItems (nodup_socketsOf records), socketsOf, List.flatMap_map]
  have hsockets : (groupby CpuRecord.physicalId (sortedBy CpuRecord.physicalId records)).flatMap
      (fun g => g.2.map fun p => (g.1, p.coreId, p.processor)) =
        (sortedBy CpuRecord.physicalId records).map fun p => (p.physicalId, p.coreId, p.processor) :=
    flatMap_groupby_map (fun physicalId p => (physicalId, CpuRecord.coreId p, p.processor)) _
  refine (List.Perm.flatMap_left _ fun g _ => hsocket g.1 g.2).trans ?_
  rw [hsockets]
  exact (sortedBy_perm CpuRecord.physicalId records).map _

/-- The cores of the sockets with their ids. -/
theorem sum_socketsOf (records : List CpuRecord) : ((socketsOf records).map (·.2.len)).sum =
    (records.map fun p => (p.physicalId, p.coreId)).toFinset.card := by
  obtain ⟨groups, hgroups⟩ : ∃ groups, groups =
      groupby CpuRecord.physicalId (sortedBy CpuRecord.physicalId records) := ⟨_, rfl⟩
  have hlen : ∀ group : List CpuRecord, (Dict.ofItems (coresOf group)).len =
      ((groupby CpuRecord.coreId (sortedBy CpuRecord.coreId group)).map Prod.fst).length := by
    intro group
    rw [Dict.len, Dict.items_ofItems (nodup_coresOf group), coresOf, List.length_map,
      List.length_map]
  have hnodup : (groups.flatMap fun g =>
      ((groupby CpuRecord.coreId (sortedBy CpuRecord.coreId g.2)).map Prod.fst).map
        fun coreId => (g.1, coreId)).Nodup := by
    refine List.nodup_flatMap.mpr ⟨fun g _ => ?_, ?_⟩
    · exact (groupby_sortedBy_nodup g.2).map fun _ _ he => (Prod.mk.inj he).2
    · rw [hgroups]
      refine (List.pairwise_map.mp (groupby_sortedBy_nodup records)).imp fun hne => ?_
      intro pair hpair hpair'
      obtain ⟨coreId, -, rfl⟩ := List.mem_map.mp hpair
      obtain ⟨coreId', -, he⟩ := List.mem_map.mp hpair'
      exact hne (Prod.mk.inj he).1.symm
  have hmem : ∀ p, p ∈ records ↔ ∃ g ∈ groups, p ∈ g.2 := by
    intro p
    have hflat : groups.flatMap Prod.snd = sortedBy CpuRecord.physicalId records := by
      rw [hgroups, flatMap_groupby]
    rw [← mem_sortedBy CpuRecord.physicalId, ← hflat, List.mem_flatMap]
  have hrun : ∀ g ∈ groups, ∀ p ∈ g.2, p.physicalId = g.1 := by
    intro g hg
    rw [hgroups] at hg
    exact (run_of_mem_groupby hg).2
  have hpairs : (groups.flatMap fun g =>
      ((groupby CpuRecord.coreId (sortedBy CpuRecord.coreId g.2)).map Prod.fst).map
        fun coreId => (g.1, coreId)).toFinset =
          (records.map fun p => (p.physicalId, p.coreId)).toFinset := by
    ext pair
    rw [List.mem_toFinset, List.mem_toFinset, List.mem_flatMap, List.mem_map]
    constructor
    · rintro ⟨g, hg, hpair⟩
      obtain ⟨coreId, hcoreId, rfl⟩ := List.mem_map.mp hpair
      obtain ⟨p, hp, rfl⟩ := List.mem_map.mp (mem_keys_groupby.mp hcoreId)
      have hp : p ∈ g.2 := (mem_sortedBy _).mp hp
      exact ⟨p, (hmem p).mpr ⟨g, hg, hp⟩, by rw [hrun g hg p hp]⟩
    · rintro ⟨p, hp, rfl⟩
      obtain ⟨g, hg, hpg⟩ := (hmem p).mp hp
      refine ⟨g, hg, List.mem_map.mpr ⟨p.coreId, ?_, ?_⟩⟩
      · exact mem_keys_groupby.mpr (List.mem_map.mpr ⟨p, (mem_sortedBy _).mpr hpg, rfl⟩)
      · rw [hrun g hg p hpg]
  rw [← hpairs, List.toFinset_card_of_nodup hnodup, List.length_flatMap, socketsOf, List.map_map,
    ← hgroups]
  simp only [Function.comp_def, hlen, List.length_map]

end Topology

/-- Every processor is in the topology once, below its physical id and its core id, and the numbers of
sockets, cores and processors are those of different ids, of different pairs of ids and of records. -/
theorem collectTopologyInformation_exact (records : List CpuRecord)
    (h : (records.map (·.processor)).Nodup) : ∃ r,
      collectTopologyInformation (records.map (·.parsed)) = .ok r ∧ Exact records r := by
  have hentries := entries_ofItems records
  refine ⟨_, collectTopologyInformation_ok records, rfl, sum_socketsOf records, ?_, hentries,
    fun p hp => ?_⟩
  · rw [socketsOf, List.length_map]
    exact length_groupby_sortedBy records
  · have hcpus := hentries.map (·.2.2)
    rw [List.map_map] at hcpus
    rw [hcpus.count_eq]
    exact List.count_eq_one_of_mem h (List.mem_map.mpr ⟨p, hp, rfl⟩)

theorem intField_of_item {key text : String} {record : Dict String String} {n : ℕ}
    (hitem : record.item key = .ok text) (htext : text = toString n) :
    intField key record = .ok (n : ℤ) := by
  rw [intField, hitem, except_ok_bind, htext, Str.int_toString]

/-- The record of a processor as `/proc/cpuinfo` prints it. -/
def CpuRecord.ofNats (processor physicalId coreId : ℕ) : CpuRecord where
  parsed := .ofItems [("processor", toString processor), ("physical id", toString physicalId),
    ("core id", toString coreId)]
  processor := processor
  physicalId := physicalId
  coreId := coreId
  processor_int := intField_of_item rfl rfl
  physicalId_int := intField_of_item rfl rfl
  coreId_int := intField_of_item rfl rfl

/-- Core 0 of both sockets, with the processors of the second socket first. -/
theorem collectTopologyInformation_exact_twoSockets : ∃ r,
    collectTopologyInformation
        ([.ofNats 1 3 0, .ofNats 2 0 4, .ofNats 0 3 0, .ofNats 7 0 0].map CpuRecord.parsed) = .ok r ∧
      Exact [.ofNats 1 3 0, .ofNats 2 0 4, .ofNats 0 3 0, .ofNats 7 0 0] r :=
  collectTopologyInformation_exact _ (by decide)

end Wca.Cpuinfo
