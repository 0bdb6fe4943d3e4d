import Wca.Refusals
import Wca.Relocation

/-!
# Initialising RDT

Before its first iteration the allocation runner prepares the root group: it may remove every other group
(`cleanup_resctrl`), and it writes the configured rows, or the largest ones, to the schemata file of the
root group. Removing a directory gives its identifiers back, so a run keeps how many there are in all
(`Resctrl.closids`, `Resctrl.rmids`). The outcome is `Prepared`, or nothing was touched.
-/

namespace Wca

open Py Resctrl

/-- What the runner is configured with, as far as RDT goes. -/
structure RdtConfiguration where
  rdtMbControlRequired : Bool
  rdtCacheControlRequired : Bool
  removeAllResctrlGroups : Bool
  defaultRdtL3 : Option String
  defaultRdtMb : Option String

/-- How the kernel serves the file system: the order in which it lists a directory, and the lines that it
takes for the root group. -/
structure ResctrlMount where
  listdir : SetOrder String
  accepts : String → Bool

/-! ## The code -/

/-- The largest rows for cache and memory bandwidth, where they can be controlled. -/
def getMaxRdtValues (cbmMask : Option String) (platformSockets : ℕ)
    (rdtMbControlEnabled rdtCacheControlEnabled : Bool) : Option String × Option String :=
  let domIds := (List.range platformSockets).map toString
  (if rdtCacheControlEnabled then
      some ("L3:" ++ Str.join ';' (domIds.map fun domId => itemText (domId, cbmMask.getD "None")))
    else none,
   if rdtMbControlEnabled then
      some ("MB:" ++ Str.join ';' (domIds.map fun domId => itemText (domId, "100")))
    else none)

namespace ResctrlMount

variable (mount : ResctrlMount)

/-- `_remove_folders` of the mon groups of the root group. -/
def removeMonFolders : EStateM Exc Resctrl Unit := do
  let r ← get
  match r.groups.get? RESCTRL_ROOT_NAME with
  | none => throw (.builtin (.FileNotFoundError "mon_groups"))
  | some root =>
    set ((mount.listdir.order root.monGroups).foldl (fun r m => rmdirMonGroup RESCTRL_ROOT_NAME m r) r)

/-- `_remove_folders` of the control groups. What else there is in the directory has no tasks file. -/
def removeCtrlFolders : EStateM Exc Resctrl Unit :=
  modify fun r => (mount.listdir.order (r.groups.keys.filter (· ≠ RESCTRL_ROOT_NAME))).foldl
    (fun r name => rmdirCtrlGroup name r) r

/-- One line for the root group. A line that the kernel refuses is still in the buffer when the file is
closed, and what comes out is the error of that second write, not `InvalidAllocations`. -/
def writeRootSchemata (line : String) : EStateM Exc Resctrl Unit := do
  let r ← get
  if RESCTRL_ROOT_NAME ∉ r.groups then throw (.builtin (.FileNotFoundError "schemata"))
  else if mount.accepts line then set (writeLine RESCTRL_ROOT_NAME line r)
  else throw (.builtin (.OSError line))

def cleanupResctrl (rootRdtL3 rootRdtMb : Option String) (resetResctrl : Bool) :
    EStateM Exc Resctrl Unit := do
  doIf (resetResctrl = true) (do mount.removeMonFolders; mount.removeCtrlFolders)
  forM rootRdtL3.toList mount.writeRootSchemata
  forM rootRdtMb.toList mount.writeRootSchemata

end ResctrlMount

/-- The rows are checked before anything is touched; the one for the bandwidth is rounded. -/
def checkRootValues (i : RDTInformation) (sockets : ℕ) (rootRdtL3 rootRdtMb : Option String) :
    Except Exc (Option String) := do
  forM rootRdtL3.toList fun l3 => validateL3String l3 sockets i.cbmMask i.minCbmBits
  match rootRdtMb with
  | none => pure none
  | some mb => some <$> normalizeMbString mb sockets i.mbMinBandwidth i.mbBandwidthGran

/-- `_initialize_rdt`. -/
def RdtConfiguration.initializeRdt (config : RdtConfiguration) (mount : ResctrlMount) (platform : Platform) :
    EStateM Exc Resctrl Bool :=
  match platform.rdtInformation with
  | none => throw (.builtin (.AttributeError "rdt_information"))
  | some i =>
    if config.rdtCacheControlRequired ∧ ¬ i.rdtCacheControlEnabled then pure false
    else if config.rdtMbControlRequired ∧ ¬ i.rdtMbControlEnabled then pure false
    else
      let (maxRdtL3, maxRdtMb) := getMaxRdtValues i.cbmMask platform.sockets i.rdtMbControlEnabled
        i.rdtCacheControlEnabled
      let rootRdtL3 := if config.defaultRdtL3.isSome ∧ i.rdtCacheControlEnabled then config.defaultRdtL3
        else maxRdtL3
      let rootRdtMb := if config.defaultRdtMb.isSome ∧ i.rdtMbControlEnabled then config.defaultRdtMb
        else maxRdtMb
      tryCatch (do
          let normalizedRootRdtMb ← Py.liftExcept (checkRootValues i platform.sockets rootRdtL3 rootRdtMb)
          mount.cleanupResctrl rootRdtL3 normalizedRootRdtMb config.removeAllResctrlGroups
          pure true)
        fun e => if e.isInvalidAllocations then pure false else throw e

/-! ## Identifiers -/

namespace Resctrl

variable {r r' r'' : Resctrl} {name m : String}

/-- How many classes of service there are, in use or free. -/
def closids (r : Resctrl) : ℕ := r.freeClosids + r.groups.items.length

/-- How many monitoring ids there are: every group has one, and every mon group in it. -/
def rmids (r : Resctrl) : ℕ :=
  r.freeRmids + (r.groups.items.map fun p => 1 + p.2.monGroups.length).sum

/-- What removing directories keeps. -/
structure Recycles (r r' : Resctrl) : Prop where
  wellFormed : r'.WellFormed
  kinds : kinds r' = kinds r
  closids : r'.closids = r.closids
  rmids : r'.rmids = r.rmids

theorem Recycles.refl (hwf : r.WellFormed) : Recycles r r := ⟨hwf, rfl, rfl, rfl⟩

theorem Recycles.trans (h : Recycles r r') (h' : Recycles r' r'') : Recycles r r'' :=
  ⟨h'.wellFormed, h'.kinds.trans h.kinds, h'.closids.trans h.closids, h'.rmids.trans h.rmids⟩

/-- What a group takes of the identifiers apart from its own. -/
theorem idents_of_get? {g : CtrlGroup} (hg : r.groups.get? name = some g) :
    r.groups.items.length = (r.groups.erase name).items.length + 1 ∧
      (r.groups.items.map fun p => 1 + p.2.monGroups.length).sum =
        (1 + g.monGroups.length) +
          ((r.groups.erase name).items.map fun p => 1 + p.2.monGroups.length).sum := by
  have hitems := Dict.perm_items_of_get? hg
  refine ⟨hitems.length_eq, ?_⟩
  rw [(hitems.map fun p : String × CtrlGroup => 1 + p.2.monGroups.length).sum_eq, List.map_cons,
    List.sum_cons]

theorem WellFormed.recycles_rmdirCtrlGroup (hwf : r.WellFormed) (hname : name ≠ RESCTRL_ROOT_NAME) :
    Recycles r (Resctrl.rmdirCtrlGroup name r) := by
  cases hg : r.groups.get? name with
  | none =>
    rw [show Resctrl.rmdirCtrlGroup name r = r by simp only [Resctrl.rmdirCtrlGroup, hg]]
    exact .refl hwf
  | some g =>
    obtain ⟨hlength, hsum⟩ := idents_of_get? hg
    refine ⟨hwf.rmdirCtrlGroup hname, kinds_rmdirCtrlGroup, ?_, ?_⟩
    · rw [rmdirCtrlGroup_of_get? hg, Resctrl.closids, Resctrl.closids, hlength]
      dsimp only
      omega
    · rw [rmdirCtrlGroup_of_get? hg, Resctrl.rmids, Resctrl.rmids, hsum]
      dsimp only
      omega

theorem rmdirMonGroup_of_get? {g : CtrlGroup} (hg : r.groups.get? name = some g) (hm : m ∈ g.monGroups) :
    Resctrl.rmdirMonGroup name m r = { r with
      groups := r.groups.set name { g with monGroups := g.monGroups.filter (· ≠ m) }
      procs := movePids (fun p => p.ctrlGroup = name ∧ p.monGroup = some m)
        (fun p => { p with monGroup := none }) r.procs
      freeRmids := r.freeRmids + 1 } := by
  simp only [Resctrl.rmdirMonGroup, hg, if_pos hm]

theorem rmdirMonGroup_eq_self (h : ¬ ∃ g, r.groups.get? name = some g ∧ m ∈ g.monGroups) :
    Resctrl.rmdirMonGroup name m r = r := by
  unfold Resctrl.rmdirMonGroup
  split
  · rfl
  · rename_i g hg
    exact if_neg fun hm => h ⟨g, hg, hm⟩

theorem WellFormed.recycles_rmdirMonGroup (hwf : r.WellFormed) :
    Recycles r (Resctrl.rmdirMonGroup name m r) := by
  by_cases hthere : ∃ g, r.groups.get? name = some g ∧ m ∈ g.monGroups
  · obtain ⟨g, hg, hm⟩ := hthere
    obtain ⟨hlength, hsum⟩ := idents_of_get? hg
    have hset := Dict.perm_items_set (d := r.groups) (k := name)
      (v := { g with monGroups := g.monGroups.filter (· ≠ m) })
    have hone : (g.monGroups.filter (· ≠ m)).length + 1 = g.monGroups.length := by
      rw [← List.length_erase_add_one hm, (hwf.nodup name g hg).erase_eq_filter]
      have hfilter : g.monGroups.filter (· ≠ m) = g.monGroups.filter (· != m) :=
        List.filter_congr fun x _ => by by_cases hx : x = m <;> simp [hx]
      rw [hfilter]
    refine ⟨hwf.rmdirMonGroup, kinds_rmdirMonGroup, ?_, ?_⟩
    · rw [rmdirMonGroup_of_get? hg hm, Resctrl.closids, Resctrl.closids, hlength]
      dsimp only
      rw [hset.length_eq, List.length_cons]
    · rw [rmdirMonGroup_of_get? hg hm, Resctrl.rmids, Resctrl.rmids, hsum]
      dsimp only
      rw [(hset.map fun p : String × CtrlGroup => 1 + p.2.monGroups.length).sum_eq, List.map_cons,
        List.sum_cons]
      dsimp only
      omega
  · rw [rmdirMonGroup_eq_self hthere]
    exact .refl hwf

/-! ## Removing all directories -/

/-- The mon groups of the root group go, and their processes stay in it. -/
theorem foldl_rmdirMonGroup (hwf : r.WellFormed) (names : List String) :
    Recycles r (names.foldl (fun r m => Resctrl.rmdirMonGroup RESCTRL_ROOT_NAME m r) r) ∧
      (∀ name, (names.foldl (fun r m => Resctrl.rmdirMonGroup RESCTRL_ROOT_NAME m r) r).groups.get? name =
        (r.groups.get? name).map fun g =>
          if name = RESCTRL_ROOT_NAME then { g with monGroups := g.monGroups.filter (· ∉ names) } else g) ∧
      ∀ pid, place? (names.foldl (fun r m => Resctrl.rmdirMonGroup RESCTRL_ROOT_NAME m r) r) pid =
        (place? r pid).map fun p =>
          if p.1 = RESCTRL_ROOT_NAME ∧ ∃ m ∈ names, p.2 = some m then (RESCTRL_ROOT_NAME, none) else p := by
  induction names generalizing r with
  | nil => exact ⟨.refl hwf, by simp, by simp⟩
  | cons m names ih =>
    have hstep : Recycles r (Resctrl.rmdirMonGroup RESCTRL_ROOT_NAME m r) := hwf.recycles_rmdirMonGroup
    obtain ⟨hrecycles, hgroups, hplace⟩ := ih hstep.wellFormed
    refine ⟨hstep.trans hrecycles, fun name => ?_, fun pid => ?_⟩
    · rw [List.foldl_cons, hgroups, get?_rmdirMonGroup, Option.map_map]
      congr 1
      funext g
      by_cases hname : name = RESCTRL_ROOT_NAME
      · simp only [Function.comp_apply, hname, if_true, List.filter_filter]
        congr 1
        refine List.filter_congr fun x _ => ?_
        by_cases hx : x = m <;> simp [hx]
      · simp [hname]
    · rw [List.foldl_cons, hplace, hwf.place?_rmdirMonGroup, Option.map_map]
      congr 1
      funext p
      obtain ⟨name, x⟩ := p
      by_cases hm : name = RESCTRL_ROOT_NAME ∧ x = some m
      · obtain ⟨rfl, rfl⟩ := hm
        simp
      · by_cases hname : name = RESCTRL_ROOT_NAME
        · have hx : x ≠ some m := fun hx => hm ⟨hname, hx⟩
          simp [hname, hx]
        · simp [hname]

/-- The control groups go, and their processes to the root group. -/
theorem foldl_rmdirCtrlGroup (hwf : r.WellFormed) {names : List String} (hnames : RESCTRL_ROOT_NAME ∉ names) :
    Recycles r (names.foldl (fun r name => Resctrl.rmdirCtrlGroup name r) r) ∧
      (∀ name, (names.foldl (fun r name => Resctrl.rmdirCtrlGroup name r) r).groups.get? name =
        if name ∈ names then none else r.groups.get? name) ∧
      ∀ pid, place? (names.foldl (fun r name => Resctrl.rmdirCtrlGroup name r) r) pid =
        (place? r pid).map fun p => if p.1 ∈ names then (RESCTRL_ROOT_NAME, none) else p := by
  induction names generalizing r with
  | nil => exact ⟨.refl hwf, by simp, by simp⟩
  | cons name names ih =>
    obtain ⟨hne, hnames⟩ := not_or.mp (mt List.mem_cons.mpr hnames)
    have hstep := hwf.recycles_rmdirCtrlGroup (Ne.symm hne)
    obtain ⟨hrecycles, hgroups, hplace⟩ := ih hstep.wellFormed hnames
    refine ⟨hstep.trans hrecycles, fun name' => ?_, fun pid => ?_⟩
    · rw [List.foldl_cons, hgroups, get?_rmdirCtrlGroup]
      by_cases he : name' = name <;> by_cases hin : name' ∈ names <;> simp [he, hin]
    · rw [List.foldl_cons, hplace, hwf.place?_rmdirCtrlGroup, Option.map_map]
      congr 1
      funext p
      by_cases he : p.1 = name <;> by_cases hin : p.1 ∈ names <;> simp [he, hin, hnames]

/-! ## The outcome -/

/-- What the schemata file of the root group shows for a resource. -/
def rootRow (r : Resctrl) (resource : String) : Option Row :=
  (r.groups.get? RESCTRL_ROOT_NAME).bind fun g => g.schemata.get? resource

/-- Everything runs in the root group and outside of any mon group; there are no other groups, and all
identifiers but those of the root group are free. -/
structure Cleared (r r' : Resctrl) : Prop where
  root : ∃ g, r'.groups.get? RESCTRL_ROOT_NAME = some g ∧ g.monGroups = []
  group : ∀ name, name ≠ RESCTRL_ROOT_NAME → r'.groups.get? name = none
  place : ∀ pid, place? r' pid = (place? r pid).map fun _ => (RESCTRL_ROOT_NAME, none)
  kinds : kinds r' = kinds r
  freeClosids : r'.freeClosids + 1 = r.closids
  freeRmids : r'.freeRmids + 1 = r.rmids

/-- Nothing but the rows of the root group has changed. -/
structure Rewritten (r r' : Resctrl) : Prop where
  root : (r'.groups.get? RESCTRL_ROOT_NAME).map CtrlGroup.monGroups =
    (r.groups.get? RESCTRL_ROOT_NAME).map CtrlGroup.monGroups
  group : ∀ name, name ≠ RESCTRL_ROOT_NAME → r'.groups.get? name = r.groups.get? name
  procs : r'.procs = r.procs
  freeClosids : r'.freeClosids = r.freeClosids
  freeRmids : r'.freeRmids = r.freeRmids

theorem Rewritten.refl (r : Resctrl) : Rewritten r r := ⟨rfl, fun _ _ => rfl, rfl, rfl, rfl⟩

theorem Rewritten.trans (h : Rewritten r r') (h' : Rewritten r' r'') : Rewritten r r'' :=
  ⟨h'.root.trans h.root, fun name hname => (h'.group name hname).trans (h.group name hname),
    h'.procs.trans h.procs, h'.freeClosids.trans h.freeClosids, h'.freeRmids.trans h.freeRmids⟩

theorem Cleared.rewritten (h : Cleared r r') (h' : Rewritten r' r'') : Cleared r r'' := by
  obtain ⟨g, hg, hmon⟩ := h.root
  have hroot := h'.root
  rw [hg, Option.map_some, Option.map_eq_some_iff] at hroot
  obtain ⟨g', hg', hmon'⟩ := hroot
  refine ⟨⟨g', hg', hmon'.trans hmon⟩, fun name hname => (h'.group name hname).trans (h.group name hname),
    fun pid => ?_, ?_, ?_, ?_⟩
  · rw [place?, h'.procs]
    exact h.place pid
  · rw [Resctrl.kinds, h'.procs]
    exact h.kinds
  · rw [h'.freeClosids, h.freeClosids]
  · rw [h'.freeRmids, h.freeRmids]

/-- What the runner may do to the tree before it writes. -/
def Tidied (reset : Bool) (r r' : Resctrl) : Prop :=
  if reset = true then Cleared r r' else Rewritten r r'

theorem Tidied.rewritten {reset : Bool} (h : Tidied reset r r') (h' : Rewritten r' r'') :
    Tidied reset r r'' := by
  unfold Tidied at h ⊢
  split
  · rename_i hreset
    exact (if_pos hreset ▸ h).rewritten h'
  · rename_i hreset
    exact (if_neg hreset ▸ h).trans h'

/-- A row is laid over what is shown for a resource, if there is one to write. -/
def overlay (row? : Option Row) (shown : Option Row) : Option Row :=
  row?.elim shown fun row => some ((shown.getD ∅).update row)

/-- The tree was tidied, and the root group shows the rows. -/
structure Prepared (reset : Bool) (l3 mb : Option Row) (r r' : Resctrl) : Prop where
  tree : Tidied reset r r'
  l3 : r'.rootRow "L3" = overlay l3 (r.rootRow "L3")
  mb : r'.rootRow "MB" = overlay mb (r.rootRow "MB")
  other : ∀ resource, resource ≠ "L3" → resource ≠ "MB" → r'.rootRow resource = r.rootRow resource

theorem rootRow_writeLine {resource rest : String} {row : Row} (hroot : RESCTRL_ROOT_NAME ∈ r.groups)
    (hresource : ':' ∉ resource.toList) (hparse : parseSchemataFileRow (resource ++ ":" ++ rest) = .ok row)
    (shown : String) : (writeLine RESCTRL_ROOT_NAME (resource ++ ":" ++ rest) r).rootRow shown =
      overlay (if shown = resource then some row else none) (r.rootRow shown) := by
  obtain ⟨g, hg⟩ := Dict.mem_keys_iff_get?.mp hroot
  have hfirst : Str.beforeFirst ':' (resource ++ ":" ++ rest) = resource :=
    Str.beforeFirst_of_not_mem hresource
  rw [rootRow, rootRow, get?_writeLine, if_pos rfl, hg, Option.map_some, Option.bind_some, Option.bind_some]
  simp only [writeRow, hparse, hfirst]
  rw [Dict.get?_set]
  split
  · rename_i he
    rw [he]
    rfl
  · rfl

theorem rewritten_writeLine (line : String) (r : Resctrl) :
    Rewritten r (writeLine RESCTRL_ROOT_NAME line r) := by
  have htree := writeLine_sameTree RESCTRL_ROOT_NAME line r
  refine ⟨htree.monGroups _, fun name hname => ?_, htree.procs, ?_, ?_⟩
  · rw [get?_writeLine, if_neg hname]
  all_goals
    unfold writeLine
    split <;> rfl

end Resctrl

namespace ResctrlMount

variable {mount : ResctrlMount} {r r' : Resctrl}

variable (mount) in
theorem removeMonFolders_run (hwf : r.WellFormed) {root : CtrlGroup}
    (hroot : r.groups.get? RESCTRL_ROOT_NAME = some root) :
    ∃ r', mount.removeMonFolders.run r = .ok () r' ∧ Recycles r r' ∧
      r'.groups.get? RESCTRL_ROOT_NAME = some { root with monGroups := [] } ∧
      ∀ pid, place? r' pid = (place? r pid).map fun p =>
        if p.1 = RESCTRL_ROOT_NAME then (RESCTRL_ROOT_NAME, none) else p := by
  obtain ⟨hrecycles, hgroups, hplace⟩ := foldl_rmdirMonGroup hwf (mount.listdir.order root.monGroups)
  refine ⟨_, ?_, hrecycles, ?_, fun pid => ?_⟩
  · rw [removeMonFolders, bind_of_ok (get_run r), hroot]
    rfl
  · have hnil : root.monGroups.filter (· ∉ mount.listdir.order root.monGroups) = [] :=
      List.filter_eq_nil_iff.mpr fun m hm => by simp [mount.listdir.mem_order.mpr hm]
    rw [hgroups, hroot, Option.map_some, if_pos rfl, hnil]
  · rw [hplace]
    cases hp : place? r pid with
    | none => rfl
    | some p =>
      obtain ⟨name, x⟩ := p
      rw [Option.map_some, Option.map_some]
      by_cases hname : name = RESCTRL_ROOT_NAME
      · subst hname
        cases x with
        | none => simp
        | some m =>
          -- a process in a mon group is in one that is listed
          obtain ⟨g, hg, hmem⟩ := hwf.place pid _ _ hp
          rw [hroot] at hg
          cases hg
          have hlisted := mount.listdir.mem_order.mpr (hmem m rfl)
          simp [hlisted]
      · simp [hname]

variable (mount) in
theorem removeCtrlFolders_run (hwf : r.WellFormed) :
    ∃ r', mount.removeCtrlFolders.run r = .ok () r' ∧ Recycles r r' ∧
      (∀ name, r'.groups.get? name = if name = RESCTRL_ROOT_NAME then r.groups.get? name else none) ∧
      ∀ pid, place? r' pid = (place? r pid).map fun p =>
        if p.1 = RESCTRL_ROOT_NAME then p else (RESCTRL_ROOT_NAME, none) := by
  have hmem : ∀ name, name ∈ mount.listdir.order (r.groups.keys.filter (· ≠ RESCTRL_ROOT_NAME)) ↔
      name ∈ r.groups.keys ∧ name ≠ RESCTRL_ROOT_NAME := fun name => by
    rw [SetOrder.mem_order, List.mem_filter, decide_eq_true_eq]
  obtain ⟨hrecycles, hgroups, hplace⟩ := foldl_rmdirCtrlGroup hwf fun hin => ((hmem _).mp hin).2 rfl
  refine ⟨_, rfl, hrecycles, fun name => ?_, fun pid => ?_⟩
  · rw [hgroups]
    by_cases hname : name = RESCTRL_ROOT_NAME
    · rw [if_pos hname, if_neg fun hin => ((hmem _).mp hin).2 hname]
    · rw [if_neg hname]
      split
      · rfl
      · rename_i hout
        exact Option.eq_none_iff_forall_ne_some.mpr fun g hg =>
          hout ((hmem name).mpr ⟨Dict.mem_keys_iff_get?.mpr ⟨g, hg⟩, hname⟩)
  · rw [hplace]
    cases hp : place? r pid with
    | none => rfl
    | some p =>
      obtain ⟨g, hg, -⟩ := hwf.place pid p.1 p.2 hp
      rw [Option.map_some, Option.map_some]
      by_cases hname : p.1 = RESCTRL_ROOT_NAME
      · rw [if_pos hname, if_neg fun hin => ((hmem _).mp hin).2 hname]
      · rw [if_neg hname, if_pos ((hmem _).mpr ⟨Dict.mem_keys_iff_get?.mpr ⟨g, hg⟩, hname⟩)]

variable (mount) in
/-- The sweep of the whole tree leaves the rows of the root group as they are. -/
theorem removeFolders_run (hwf : r.WellFormed) :
    ∃ r', (do mount.removeMonFolders; mount.removeCtrlFolders : EStateM Exc Resctrl Unit).run r = .ok () r' ∧
      Cleared r r' ∧ ∀ resource, r'.rootRow resource = r.rootRow resource := by
  obtain ⟨root, hroot⟩ := hwf.root
  obtain ⟨r₁, hrun₁, hrecycles₁, hroot₁, hplace₁⟩ := removeMonFolders_run mount hwf hroot
  obtain ⟨r₂, hrun₂, hrecycles₂, hgroups₂, hplace₂⟩ := removeCtrlFolders_run mount hrecycles₁.wellFormed
  have hrecycles := hrecycles₁.trans hrecycles₂
  have hroot₂ : r₂.groups.get? RESCTRL_ROOT_NAME = some { root with monGroups := [] } := by
    rw [hgroups₂, if_pos rfl, hroot₁]
  have hgone : ∀ name, name ≠ RESCTRL_ROOT_NAME → r₂.groups.get? name = none := fun name hname => by
    rw [hgroups₂, if_neg hname]
  have hrest : (r₂.groups.erase RESCTRL_ROOT_NAME).items = [] :=
    List.eq_nil_iff_forall_not_mem.mpr fun p hp => by
      obtain ⟨hname, hp⟩ := Dict.mem_items_erase.mp hp
      have hget := Dict.get?_eq_some_iff.mpr hp
      rw [hgone p.1 hname] at hget
      cases hget
  obtain ⟨hlength, hsum⟩ := idents_of_get? hroot₂
  rw [hrest] at hlength hsum
  refine ⟨r₂, by rw [bind_of_ok hrun₁, hrun₂], ⟨⟨_, hroot₂, rfl⟩, hgone, fun pid => ?_,
    hrecycles.kinds, ?_, ?_⟩,
    fun resource => ?_⟩
  · rw [hplace₂, hplace₁, Option.map_map]
    congr 1
    funext p
    by_cases hname : p.1 = RESCTRL_ROOT_NAME <;> simp [hname]
  · rw [← hrecycles.closids, Resctrl.closids, hlength]
    rfl
  · rw [← hrecycles.rmids, Resctrl.rmids, hsum]
    rfl
  · rw [rootRow, rootRow, hroot₂, hroot]
    rfl

/-- The line is one for the resource, with this row. -/
def IsLine (resource line : String) (row : Row) : Prop :=
  ∃ rest, line = resource ++ ":" ++ rest ∧ parseSchemataFileRow line = .ok row

/-- A row that is to be written is laid over what the root group shows, unless the kernel refuses it. -/
theorem writeRows_wp {resource : String} (hresource : ':' ∉ resource.toList) {line? : Option String}
    {row? : Option Row} (hroot : RESCTRL_ROOT_NAME ∈ r.groups)
    (hline : Option.Rel (IsLine resource) line? row?) :
    wp (forM line?.toList mount.writeRootSchemata)
      (fun _ r' => Rewritten r r' ∧ ∀ shown, r'.rootRow shown =
        overlay (if shown = resource then row? else none) (r.rootRow shown))
      (fun e r' => r' = r ∧ ∃ line, line? = some line ∧ mount.accepts line = false ∧
        e = .builtin (.OSError line)) r := by
  cases hline with
  | none =>
    refine (wp_pure).mpr ⟨.refl r, fun shown => ?_⟩
    rw [ite_self]
    rfl
  | @some line row h =>
    obtain ⟨rest, rfl, hparse⟩ := h
    rw [Option.toList_some, List.forM_cons, wp_bind, writeRootSchemata, wp_bind, wp_get, wp_ite]
    refine ⟨fun hnot => absurd hroot hnot, fun _ => ?_⟩
    rw [wp_ite]
    refine ⟨fun haccepts => ?_, fun hrefuses => ?_⟩
    · exact ⟨rewritten_writeLine _ r, rootRow_writeLine hroot hresource hparse⟩
    · exact ⟨rfl, _, rfl, Bool.eq_false_iff.mpr hrefuses, rfl⟩

variable {rootRdtL3 rootRdtMb : Option String} {l3 mb : Option Row}

theorem cleanupResctrl_wp (hwf : r.WellFormed) (hl3 : Option.Rel (IsLine "L3") rootRdtL3 l3)
    (hmb : Option.Rel (IsLine "MB") rootRdtMb mb) (resetResctrl : Bool) :
    wp (mount.cleanupResctrl rootRdtL3 rootRdtMb resetResctrl)
      (fun _ r' => Prepared resetResctrl l3 mb r r')
      (fun e r' => Tidied resetResctrl r r' ∧ ∃ line, (rootRdtL3 = some line ∨ rootRdtMb = some line) ∧
        mount.accepts line = false ∧ e = .builtin (.OSError line)) r := by
  -- what is there once the groups were removed, if they were
  have htidy : wp (doIf (resetResctrl = true) (do mount.removeMonFolders; mount.removeCtrlFolders))
      (fun _ r₁ => Tidied resetResctrl r r₁ ∧ RESCTRL_ROOT_NAME ∈ r₁.groups ∧
        ∀ resource, r₁.rootRow resource = r.rootRow resource) (fun _ _ => False) r := by
    rw [wp_doIf]
    refine ⟨fun hreset => ?_, fun hkeep => ?_⟩
    · obtain ⟨r₁, hrun, hcleared, hrows⟩ := removeFolders_run mount hwf
      rw [wp, hrun]
      obtain ⟨g, hg, -⟩ := hcleared.root
      exact ⟨(if_pos hreset).mpr hcleared, Dict.mem_keys_iff_get?.mpr ⟨g, hg⟩, hrows⟩
    · exact ⟨(if_neg hkeep).mpr (.refl r), Dict.mem_keys_iff_get?.mpr hwf.root, fun _ => rfl⟩
  rw [cleanupResctrl, wp_bind]
  refine htidy.mono (fun _ r₁ h => ?_) (fun _ _ h => h.elim)
  obtain ⟨htidied, hroot₁, hrows₁⟩ := h
  rw [wp_bind]
  refine (writeRows_wp (by decide) hroot₁ hl3).mono (fun _ r₂ h => ?_) (fun e r₂ h => ?_)
  · obtain ⟨hrewritten₂, hrows₂⟩ := h
    have hroot₂ : RESCTRL_ROOT_NAME ∈ r₂.groups := by
      obtain ⟨g, hg⟩ := Dict.mem_keys_iff_get?.mp hroot₁
      have hmap := hrewritten₂.root
      rw [hg, Option.map_some, Option.map_eq_some_iff] at hmap
      obtain ⟨g', hg', -⟩ := hmap
      exact Dict.mem_keys_iff_get?.mpr ⟨g', hg'⟩
    refine (writeRows_wp (by decide) hroot₂ hmb).mono (fun _ r' h => ?_) (fun e r' h => ?_)
    · obtain ⟨hrewritten, hrows⟩ := h
      refine ⟨(htidied.rewritten hrewritten₂).rewritten hrewritten, ?_, ?_, fun resource hl3 hmb => ?_⟩
      · rw [hrows, if_neg (by decide), hrows₂, if_pos rfl, hrows₁]
        rfl
      · rw [hrows, if_pos rfl, hrows₂, if_neg (by decide), hrows₁]
        rfl
      · rw [hrows, if_neg hmb, hrows₂, if_neg hl3, hrows₁]
        rfl
    · obtain ⟨rfl, line, hline, hrefused, he⟩ := h
      exact ⟨htidied.rewritten hrewritten₂, line, .inr hline, hrefused, he⟩
  · obtain ⟨rfl, line, hline, hrefused, he⟩ := h
    exact ⟨htidied, line, .inl hline, hrefused, he⟩

end ResctrlMount

/-! ## The rows that are asked for -/

def largestL3 (cbmMask : Option String) (sockets : ℕ) : String :=
  "L3:" ++ Str.join ';' (((List.range sockets).map toString).map
    fun domId => itemText (domId, cbmMask.getD "None"))

def largestMb (sockets : ℕ) : String :=
  "MB:" ++ Str.join ';' (((List.range sockets).map toString).map fun domId => itemText (domId, "100"))

namespace RdtConfiguration

variable (config : RdtConfiguration) (i : RDTInformation) (sockets : ℕ)

/-- The row for the cache: the configured one, or else the largest. -/
def requestedL3 : Option String :=
  if i.rdtCacheControlEnabled then some (config.defaultRdtL3.getD (largestL3 i.cbmMask sockets)) else none

/-- The row for the bandwidth, before it is rounded. -/
def requestedMb : Option String :=
  if i.rdtMbControlEnabled then some (config.defaultRdtMb.getD (largestMb sockets)) else none

/-- The controls that are required are there. -/
def Supported : Prop :=
  (config.rdtCacheControlRequired = true → i.rdtCacheControlEnabled = true) ∧
    (config.rdtMbControlRequired = true → i.rdtMbControlEnabled = true)

variable {config i sockets}

/-- The initialisation without the reading of the platform and the choice of the rows. -/
theorem initializeRdt_eq {platform : Platform} (hrdt : platform.rdtInformation = some i)
    (mount : ResctrlMount) (hsupported : config.Supported i) :
    config.initializeRdt mount platform = tryCatch (do
        let normalizedRootRdtMb ← Py.liftExcept (checkRootValues i platform.sockets
          (config.requestedL3 i platform.sockets) (config.requestedMb i platform.sockets))
        mount.cleanupResctrl (config.requestedL3 i platform.sockets) normalizedRootRdtMb
          config.removeAllResctrlGroups
        pure true)
      fun e => if e.isInvalidAllocations then pure false else throw e := by
  have hcache : ¬ (config.rdtCacheControlRequired = true ∧ ¬ i.rdtCacheControlEnabled = true) :=
    fun h => h.2 (hsupported.1 h.1)
  have hmb : ¬ (config.rdtMbControlRequired = true ∧ ¬ i.rdtMbControlEnabled = true) :=
    fun h => h.2 (hsupported.2 h.1)
  have hl3 : (if config.defaultRdtL3.isSome ∧ i.rdtCacheControlEnabled then config.defaultRdtL3
      else (getMaxRdtValues i.cbmMask platform.sockets i.rdtMbControlEnabled i.rdtCacheControlEnabled).1) =
      config.requestedL3 i platform.sockets := by
    rw [requestedL3, getMaxRdtValues]
    cases config.defaultRdtL3 <;> cases i.rdtCacheControlEnabled <;> simp [largestL3]
  have hmb' : (if config.defaultRdtMb.isSome ∧ i.rdtMbControlEnabled then config.defaultRdtMb
      else (getMaxRdtValues i.cbmMask platform.sockets i.rdtMbControlEnabled i.rdtCacheControlEnabled).2) =
      config.requestedMb i platform.sockets := by
    rw [requestedMb, getMaxRdtValues]
    cases config.defaultRdtMb <;> cases i.rdtMbControlEnabled <;> simp [largestMb]
  rw [initializeRdt, hrdt]
  dsimp only
  rw [if_neg hcache, if_neg hmb, hl3, hmb']

theorem initializeRdt_unsupported {platform : Platform} (hrdt : platform.rdtInformation = some i)
    (mount : ResctrlMount) (hsupported : ¬ config.Supported i) :
    config.initializeRdt mount platform = pure false := by
  rw [initializeRdt, hrdt]
  dsimp only
  split
  · rfl
  · rename_i hcache
    split
    · rfl
    · rename_i hmb
      exact absurd ⟨fun h => not_not.mp fun hn => hcache ⟨h, hn⟩, fun h => not_not.mp fun hn => hmb ⟨h, hn⟩⟩
        hsupported

end RdtConfiguration

/-! ## What passes -/

theorem isLine_of_validateL3String {l3 : String} {sockets : ℕ} {cbmMask minCbmBits : Option String}
    (h : validateL3String l3 sockets cbmMask minCbmBits = .ok ()) :
    ∃ row, ResctrlMount.IsLine "L3" l3 row := by
  cases cbmMask with
  | none => cases h
  | some cbmMask =>
    cases minCbmBits with
    | none => cases h
    | some minCbmBits =>
      cases hstarts : Str.startsWith "L3:" l3 with
      | false =>
        rw [validateL3String_of_not_startsWith hstarts] at h
        cases h
      | true =>
        rw [validateL3String_of_startsWith hstarts, except_bind_ok_iff] at h
        obtain ⟨row, hparse, -⟩ := h
        obtain ⟨rest, rfl⟩ := Str.exists_of_startsWith hstarts
        exact ⟨row, rest, rfl, liftM_ok_iff.mp hparse⟩

/-- A row of bandwidths as it is asked for and as it is written. -/
def Rounds (gran : ℤ) (line : String) (row : Row) : Prop :=
  ∃ row₀, parseSchemataFileRow line = .ok row₀ ∧ List.Forall₂ (NormalizedItem gran) row₀.items row.items

theorem isLine_of_normalizeMbString {mb norm : String} {sockets : ℕ} {minBandwidth? gran? : Option ℤ}
    {gran : ℤ} (hgran : gran? = some gran) (hpos : 0 < gran)
    (h : normalizeMbString mb sockets minBandwidth? gran? = .ok norm) :
    ∃ row, ResctrlMount.IsLine "MB" norm row ∧ Rounds gran mb row := by
  obtain ⟨rest, row, items, hmb, hparse, -, hnorm⟩ := normalizeMbString_ok hgran hpos h
  obtain ⟨row', hparse', hall⟩ := givesLeastMultiples_normalizeMbString hgran hpos h hparse
  exact ⟨row', ⟨_, hnorm, hparse'⟩, row, hparse, hall⟩

theorem checkRootValues_ok_iff {i : RDTInformation} {sockets : ℕ} {l3 mb norm : Option String} :
    checkRootValues i sockets l3 mb = .ok norm ↔
      (∀ line, l3 = some line → validateL3String line sockets i.cbmMask i.minCbmBits = .ok ()) ∧
        Option.Rel (fun mb norm => normalizeMbString mb sockets i.mbMinBandwidth i.mbBandwidthGran = .ok norm)
          mb norm := by
  have hmb : (match mb with
      | none => pure none
      | some mb => some <$> normalizeMbString mb sockets i.mbMinBandwidth i.mbBandwidthGran) = .ok norm ↔
      Option.Rel (fun mb norm => normalizeMbString mb sockets i.mbMinBandwidth i.mbBandwidthGran = .ok norm)
        mb norm := by
    cases mb with
    | none => cases norm <;> simp
    | some mb =>
      dsimp only
      cases hnorm : normalizeMbString mb sockets i.mbMinBandwidth i.mbBandwidthGran with
      | ok n => cases norm <;> simp [hnorm]
      | error e => cases norm <;> simp [hnorm]
  unfold checkRootValues
  rw [except_seq_ok_iff, except_forM_ok_iff, hmb]
  simp only [Option.mem_toList]

/-- What an initialisation that returns has made of the tree: the rows are those that were asked for, the
one for the bandwidth rounded up. -/
structure RdtConfiguration.Initialized (config : RdtConfiguration) (i : RDTInformation) (sockets : ℕ)
    (l3 mb : Option Row) (r r' : Resctrl) : Prop where
  cache : Option.Rel (fun line row => parseSchemataFileRow line = .ok row) (config.requestedL3 i sockets) l3
  bandwidth : Option.Rel (fun line row => ∀ gran, i.mbBandwidthGran = some gran → Rounds gran line row)
    (config.requestedMb i sockets) mb
  prepared : Prepared config.removeAllResctrlGroups l3 mb r r'

section Initialize

variable {config : RdtConfiguration} {i : RDTInformation} {mount : ResctrlMount} {platform : Platform}
  {r : Resctrl}

/-- The rows that pass the check are the ones that the root group shows in the end. -/
theorem cleanupResctrl_of_check {sockets : ℕ} {norm : Option String}
    (hgran : i.rdtMbControlEnabled = true → ∃ gran, i.mbBandwidthGran = some gran ∧ 0 < gran)
    (hwf : r.WellFormed)
    (hok : checkRootValues i sockets (config.requestedL3 i sockets) (config.requestedMb i sockets) =
      .ok norm) :
    wp (mount.cleanupResctrl (config.requestedL3 i sockets) norm config.removeAllResctrlGroups)
      (fun _ r' => ∃ l3 mb, config.Initialized i sockets l3 mb r r')
      (fun e r' => Tidied config.removeAllResctrlGroups r r' ∧ ∃ line, mount.accepts line = false ∧
        e = .builtin (.OSError line)) r := by
  obtain ⟨hl3, hmb⟩ := checkRootValues_ok_iff.mp hok
  obtain ⟨l3, hl3, hparse⟩ : ∃ l3, Option.Rel (ResctrlMount.IsLine "L3") (config.requestedL3 i sockets) l3 ∧
      Option.Rel (fun line row => parseSchemataFileRow line = .ok row) (config.requestedL3 i sockets) l3 := by
    cases hline : config.requestedL3 i sockets with
    | none => exact ⟨none, .none, .none⟩
    | some line =>
      obtain ⟨row, hrow⟩ := isLine_of_validateL3String (hl3 line hline)
      exact ⟨some row, .some hrow, .some hrow.choose_spec.2⟩
  obtain ⟨mb, hmb, hrounds⟩ : ∃ mb, Option.Rel (ResctrlMount.IsLine "MB") norm mb ∧
      Option.Rel (fun line row => ∀ gran, i.mbBandwidthGran = some gran → Rounds gran line row)
        (config.requestedMb i sockets) mb := by
    cases hline : config.requestedMb i sockets with
    | none =>
      rw [hline] at hmb
      cases hmb
      exact ⟨none, .none, .none⟩
    | some line =>
      rw [hline] at hmb
      cases hmb with
      | some hnorm =>
        have hon : i.rdtMbControlEnabled = true := by
          by_contra hoff
          rw [RdtConfiguration.requestedMb, if_neg hoff] at hline
          cases hline
        obtain ⟨gran, hgran, hpos⟩ := hgran hon
        obtain ⟨row, hrow, hrounds⟩ := isLine_of_normalizeMbString hgran hpos hnorm
        refine ⟨some row, .some hrow, .some fun gran' hgran' => ?_⟩
        rw [hgran] at hgran'
        cases hgran'
        exact hrounds
  refine (ResctrlMount.cleanupResctrl_wp hwf hl3 hmb config.removeAllResctrlGroups).mono
    (fun _ r' hprepared => ⟨l3, mb, hparse, hrounds, hprepared⟩) (fun e r' h => ?_)
  obtain ⟨htidied, line, -, hrefused, rfl⟩ := h
  exact ⟨htidied, line, hrefused, rfl⟩

/-- The rows are checked first, so whatever does not pass leaves the tree alone. -/
theorem initializeRdt_prepares (hrdt : platform.rdtInformation = some i)
    (hgran : i.rdtMbControlEnabled = true → ∃ gran, i.mbBandwidthGran = some gran ∧ 0 < gran)
    (hwf : r.WellFormed) :
    wp (config.initializeRdt mount platform)
      (fun done r' => (done = false → r' = r) ∧
        (done = true → ∃ l3 mb, config.Initialized i platform.sockets l3 mb r r'))
      (fun e r' => r' = r ∨ Tidied config.removeAllResctrlGroups r r' ∧ ∃ line, mount.accepts line = false ∧
        e = .builtin (.OSError line)) r := by
  by_cases hsupported : config.Supported i
  · rw [RdtConfiguration.initializeRdt_eq hrdt mount hsupported, wp_tryCatch, wp_bind, wp_liftExcept]
    refine ⟨fun norm hok => ?_, fun e he => ?_⟩
    · rw [wp_bind]
      refine (cleanupResctrl_of_check hgran hwf hok).mono (fun _ r' hinit => ?_) (fun e r' h => ?_)
      · exact ⟨fun h => (nomatch h), fun _ => hinit⟩
      · obtain ⟨htidied, line, hrefused, rfl⟩ := h
        exact .inr ⟨htidied, line, hrefused, rfl⟩
    · cases hinvalid : e.isInvalidAllocations with
      | true => exact ⟨fun _ => rfl, fun h => (nomatch h)⟩
      | false => exact .inl rfl
  · rw [RdtConfiguration.initializeRdt_unsupported hrdt mount hsupported]
    exact ⟨fun _ => rfl, fun h => (nomatch h)⟩

/-! ### When it is which -/

/-- A line for the cache that passes. -/
def PassesL3 (sockets k : ℕ) (minCbmBits : ℤ) (l3 : String) : Prop :=
  Str.startsWith "L3:" l3 = true ∧ ∃ row, parseSchemataFileRow l3 = .ok row ∧
    (∀ domain ∈ row.keys, DomainInRange sockets domain) ∧ ∀ mask ∈ row.values, MaskOk k minCbmBits mask

/-- A line for the bandwidth that passes. -/
def PassesMb (sockets : ℕ) (minBandwidth : ℤ) (mb : String) : Prop :=
  Str.startsWith "MB:" mb = true ∧ ∃ row, parseSchemataFileRow mb = .ok row ∧
    (∀ domain ∈ row.keys, DomainInRange sockets domain) ∧
    ∀ value ∈ row.values, ∃ n, Str.int 10 value = .ok n ∧ minBandwidth ≤ n

/-- What the kernel shows of the resources that it controls: the mask of the cache is one run of ones that
is long enough, and the whole bandwidth may be asked for. -/
structure RDTInformation.Reported (i : RDTInformation) (k : ℕ) (minCbmBits minBandwidth gran : ℤ) : Prop where
  cache : i.rdtCacheControlEnabled = true → ∃ mask bits, i.cbmMask = some mask ∧ IsHex mask ∧
    hexValue mask = 2 ^ k - 1 ∧ i.minCbmBits = some bits ∧ Str.int 10 bits = .ok minCbmBits ∧ minCbmBits ≤ k
  mb : i.rdtMbControlEnabled = true → i.mbMinBandwidth = some minBandwidth ∧ minBandwidth ≤ 100 ∧
    i.mbBandwidthGran = some gran ∧ 0 < gran

variable {k : ℕ} {minCbmBits minBandwidth gran : ℤ}

theorem normalizeMbString_returns_iff {mb : String} {sockets : ℕ} (hgran : 0 < gran) :
    (∃ norm, normalizeMbString mb sockets (some minBandwidth) (some gran) = .ok norm) ↔
      PassesMb sockets minBandwidth mb := by
  have hitem : ∀ item : String × String,
      (∃ text, normalizeMbDomain minBandwidth gran item.1 item.2 = .ok text) ↔
        ∃ n, Str.int 10 item.2 = .ok n ∧ minBandwidth ≤ n := fun item => by
    simp only [normalizeMbDomain_ok_iff hgran]
    exact ⟨fun ⟨_, n, hn, hle, _⟩ => ⟨n, hn, hle⟩, fun ⟨n, hn, hle⟩ => ⟨_, n, hn, hle, rfl⟩⟩
  simp only [normalizeMbString]
  cases hstarts : Str.startsWith "MB:" mb with
  | false =>
    rw [doIf_of (by simp)]
    simp [PassesMb, hstarts, invalid]
  | true =>
    rw [doIf_of_not (by simp), except_pure, except_ok_bind]
    constructor
    · rintro ⟨norm, h⟩
      obtain ⟨row, hparse, h⟩ := except_bind_ok_iff.mp h
      obtain ⟨hdomains, h⟩ := except_seq_ok_iff.mp h
      obtain ⟨texts, htexts, -⟩ := except_bind_ok_iff.mp h
      refine ⟨hstarts, row, liftM_ok_iff.mp hparse, validateDomains_ok_iff.mp hdomains,
        fun value hvalue => ?_⟩
      obtain ⟨domain, hin⟩ := Dict.mem_values.mp hvalue
      obtain ⟨text, htext⟩ := forall₂_exists_right (except_mapM_ok_iff.mp htexts) hin
      exact (hitem (domain, value)).mp ⟨text, htext.2⟩
    · rintro ⟨-, row, hparse, hdomains, hvalues⟩
      obtain ⟨texts, htexts⟩ := except_mapM_returns (l := row.items) fun item hin =>
        (hitem item).mpr (hvalues item.2 (Dict.mem_values.mpr ⟨item.1, hin⟩))
      refine ⟨"MB:" ++ Str.join ';' texts, except_bind_ok_iff.mpr ⟨row, liftM_ok_iff.mpr hparse, ?_⟩⟩
      exact except_seq_ok_iff.mpr ⟨validateDomains_ok_iff.mpr hdomains,
        except_bind_ok_iff.mpr ⟨texts, htexts, rfl⟩⟩

theorem toString_ne_empty (n : ℕ) : toString n ≠ "" := by
  intro hempty
  have hlist := congrArg String.toList hempty
  rw [Str.toList_toString] at hlist
  exact Nat.toDigits_ne_nil hlist

/-- The largest row for the cache gives every socket the whole mask, which passes. -/
theorem passes_largestL3 {mask : String} {sockets : ℕ} (hsockets : 0 < sockets) (hhex : IsHex mask)
    (hmask : hexValue mask = 2 ^ k - 1) (hbits : minCbmBits ≤ k) :
    IsL3 (largestL3 (some mask) sockets) sockets k minCbmBits := by
  have hdecimal : ∀ n : ℕ, IsDecimal (toString n) := fun n =>
    ⟨toString_ne_empty n, fun c hc => Str.isDigit_of_mem_toString hc⟩
  have hvalue : ∀ n : ℕ, decimalValue (toString n) = n := fun n => by
    have hint := (hdecimal n).int
    rw [Str.int_toString] at hint
    exact (Int.ofNat_inj.mp (Except.ok.inj hint)).symm
  refine ⟨(List.range sockets).map fun n => (toString n, mask), ⟨?_, ?_, ?_, ?_⟩, ?_⟩
  · simpa using hsockets.ne'
  · intro item hitem
    obtain ⟨n, hn, rfl⟩ := List.mem_map.mp hitem
    exact ⟨hdecimal n, (hvalue n).symm ▸ List.mem_range.mp hn⟩
  · simp only [List.map_map, Function.comp_def, hvalue, List.map_id']
    exact List.nodup_range
  · intro item hitem
    obtain ⟨n, -, rfl⟩ := List.mem_map.mp hitem
    refine ⟨hhex, ?_, k, ⟨0, ?_⟩, hbits⟩
    · rw [hmask, Nat.and_self]
    · rw [hmask, pow_zero, Nat.mul_one]
  · simp only [largestL3, List.map_map, Function.comp_def, Option.getD_some]

/-- The largest row for the bandwidth asks for all of it. -/
theorem passes_largestMb {sockets : ℕ} (hsockets : 0 < sockets) (hmin : minBandwidth ≤ 100) :
    PassesMb sockets minBandwidth (largestMb sockets) := by
  have hkeys : (((List.range sockets).map fun n => (toString n, "100")).map Prod.fst).Nodup := by
    rw [List.map_map]
    refine List.Nodup.map_on (fun a _ b _ hab => ?_) List.nodup_range
    have hint := congrArg (Str.int 10) hab
    simp only [Function.comp_apply, Str.int_toString] at hint
    exact Int.ofNat_inj.mp (Except.ok.inj hint)
  have hparse : parseSchemataFileRow (largestMb sockets) =
      .ok ⟨(List.range sockets).map fun n => (toString n, "100"), hkeys⟩ := by
    have hlarge : largestMb sockets = "MB" ++ ":" ++ Str.join ';'
        (((List.range sockets).map fun n => (toString n, "100")).map itemText) := by
      simp only [largestMb, List.map_map, Function.comp_def]
      rfl
    rw [hlarge]
    refine parse_join (by decide) (by simpa using hsockets.ne') hkeys (fun item hitem => ?_)
      fun item hitem => ?_
    all_goals
      obtain ⟨n, -, rfl⟩ := List.mem_map.mp hitem
    · exact ⟨toString_ne_empty n, by simp, Str.not_mem_toString (by decide)⟩
    · exact ⟨Str.not_mem_toString (by decide), by simp⟩
  have hundred : Str.int 10 "100" = .ok 100 := by decide
  refine ⟨Str.startsWith_append _ _, _, hparse, fun domain hdomain => ?_, fun value hvalue => ?_⟩
  · obtain ⟨item, hitem, rfl⟩ := List.mem_map.mp hdomain
    obtain ⟨n, hn, rfl⟩ := List.mem_map.mp hitem
    exact ⟨n, Str.int_toString n, Int.natCast_nonneg n, by exact_mod_cast List.mem_range.mp hn⟩
  · obtain ⟨item, hitem, rfl⟩ := List.mem_map.mp hvalue
    obtain ⟨n, -, rfl⟩ := List.mem_map.mp hitem
    exact ⟨100, hundred, hmin⟩

variable (mount) in
/-- With a kernel that takes every row, what is decided is decided by the check of the rows. -/
theorem initializeRdt_run (hrdt : platform.rdtInformation = some i)
    (hgran : i.rdtMbControlEnabled = true → ∃ gran, i.mbBandwidthGran = some gran ∧ 0 < gran)
    (haccepts : ∀ line, mount.accepts line = true) (hwf : r.WellFormed) (hsupported : config.Supported i) :
    ((∃ r', (config.initializeRdt mount platform).run r = .ok true r') ↔
      ∃ norm, checkRootValues i platform.sockets (config.requestedL3 i platform.sockets)
        (config.requestedMb i platform.sockets) = .ok norm) ∧
    ((∃ e r', (config.initializeRdt mount platform).run r = .error e r') ↔
      Breaks (checkRootValues i platform.sockets (config.requestedL3 i platform.sockets)
        (config.requestedMb i platform.sockets))) := by
  rw [RdtConfiguration.initializeRdt_eq hrdt mount hsupported]
  cases hcheck : checkRootValues i platform.sockets (config.requestedL3 i platform.sockets)
      (config.requestedMb i platform.sockets) with
  | ok norm =>
    have hreturns : wp (config.initializeRdt mount platform) (fun done _ => done = true)
      (fun _ _ => False) r := by
      rw [RdtConfiguration.initializeRdt_eq hrdt mount hsupported, wp_tryCatch,
        wp_bind, hcheck, wp_liftExcept]
      refine ⟨fun norm' hok => ?_, fun e he => (nomatch he)⟩
      cases hok
      rw [wp_bind]
      refine (cleanupResctrl_of_check hgran hwf hcheck).mono (fun _ _ _ => rfl) (fun e r' h => ?_)
      obtain ⟨-, line, hrefused, -⟩ := h
      rw [haccepts] at hrefused
      cases hrefused
    rw [RdtConfiguration.initializeRdt_eq hrdt mount hsupported, hcheck] at hreturns
    obtain ⟨done, r', hrun, rfl⟩ := hreturns.returns
    refine ⟨iff_of_true ⟨r', hrun⟩ ⟨norm, rfl⟩, iff_of_false ?_ not_breaks_ok⟩
    rintro ⟨e, r'', herror⟩
    cases hrun.symm.trans herror
  | error e =>
    have hrun : (tryCatch (do
          let normalizedRootRdtMb ← Py.liftExcept (.error e)
          mount.cleanupResctrl (config.requestedL3 i platform.sockets) normalizedRootRdtMb
            config.removeAllResctrlGroups
          pure true)
        fun e => if e.isInvalidAllocations then pure false else throw e : EStateM Exc Resctrl Bool).run r =
        (if e.isInvalidAllocations then pure false else throw e : EStateM Exc Resctrl Bool).run r := rfl
    rw [hrun]
    cases hinvalid : e.isInvalidAllocations with
    | true =>
      refine ⟨iff_of_false (fun ⟨r', h⟩ => (nomatch h)) fun ⟨norm, h⟩ => (nomatch h),
        iff_of_false (fun ⟨e', r', h⟩ => (nomatch h)) ?_⟩
      rintro ⟨e', he, hbreaks⟩
      cases he
      rw [hinvalid] at hbreaks
      cases hbreaks
    | false =>
      exact ⟨iff_of_false (fun ⟨r', h⟩ => (nomatch h)) fun ⟨norm, h⟩ => (nomatch h),
        iff_of_true ⟨e, r, rfl⟩ ⟨e, rfl, hinvalid⟩⟩

/-- The rows that were configured pass; those that were not are the largest, which pass anyway. -/
structure RdtConfiguration.Granted (config : RdtConfiguration) (i : RDTInformation) (sockets k : ℕ)
    (minCbmBits minBandwidth : ℤ) : Prop where
  supported : config.Supported i
  l3 : i.rdtCacheControlEnabled = true → ∀ l3, config.defaultRdtL3 = some l3 →
    PassesL3 sockets k minCbmBits l3
  mb : i.rdtMbControlEnabled = true → ∀ mb, config.defaultRdtMb = some mb → PassesMb sockets minBandwidth mb

/-- A configured row cannot be read, and the row that is checked before it passes. -/
structure RdtConfiguration.Garbled (config : RdtConfiguration) (i : RDTInformation) (sockets k : ℕ)
    (minCbmBits : ℤ) : Prop where
  supported : config.Supported i
  row : (i.rdtCacheControlEnabled = true ∧ ∃ l3, config.defaultRdtL3 = some l3 ∧ UnreadableL3 sockets i l3) ∨
    (i.rdtCacheControlEnabled = true → ∀ l3, config.defaultRdtL3 = some l3 →
      PassesL3 sockets k minCbmBits l3) ∧
      i.rdtMbControlEnabled = true ∧ ∃ mb, config.defaultRdtMb = some mb ∧ UnreadableMb mb

theorem RDTInformation.Reported.limited (hi : i.Reported k minCbmBits minBandwidth gran) : i.Limited where
  cache hon := by
    obtain ⟨mask, bits, hmask, hhex, -, hbits, hint, -⟩ := hi.cache hon
    exact ⟨mask, bits, _, _, hmask, hbits, hhex.int, hint⟩
  mb hon := by
    obtain ⟨hmin, -, hgran, -⟩ := hi.mb hon
    exact ⟨_, _, hmin, hgran⟩

variable (config) in
/-- The row for the cache passes if it is the largest, or one that may pass. -/
theorem requestedL3_passes_iff (hi : i.Reported k minCbmBits minBandwidth gran) {sockets : ℕ}
    (hsockets : 0 < sockets) :
    (∀ line, config.requestedL3 i sockets = some line →
      validateL3String line sockets i.cbmMask i.minCbmBits = .ok ()) ↔
      (i.rdtCacheControlEnabled = true → ∀ l3, config.defaultRdtL3 = some l3 →
        PassesL3 sockets k minCbmBits l3) := by
  cases hon : i.rdtCacheControlEnabled with
  | false => simp [RdtConfiguration.requestedL3, hon]
  | true =>
    obtain ⟨mask, bits, hmask, hhex, hvalue, hbits, hint, hways⟩ := hi.cache hon
    have hcbm : Str.int 16 mask = .ok (2 ^ k - 1) := by
      rw [hhex.int, hvalue, Nat.cast_sub Nat.one_le_two_pow]
      push_cast
      rfl
    rw [hmask, hbits]
    cases hconfigured : config.defaultRdtL3 with
    | none =>
      have hlargest := (passes_largestL3 hsockets hhex hvalue hways).returns hcbm hint
      simp [RdtConfiguration.requestedL3, hon, hconfigured, hmask, hlargest]
    | some l3 =>
      simp [RdtConfiguration.requestedL3, hon, hconfigured, validateL3String_ok_iff hcbm hint, PassesL3]

variable (config) in
theorem requestedMb_passes_iff (hi : i.Reported k minCbmBits minBandwidth gran) {sockets : ℕ}
    (hsockets : 0 < sockets) :
    (∃ norm, Option.Rel (fun mb norm =>
      normalizeMbString mb sockets i.mbMinBandwidth i.mbBandwidthGran = .ok norm)
        (config.requestedMb i sockets) norm) ↔
      (i.rdtMbControlEnabled = true → ∀ mb, config.defaultRdtMb = some mb →
        PassesMb sockets minBandwidth mb) := by
  cases hon : i.rdtMbControlEnabled with
  | false =>
    rw [RdtConfiguration.requestedMb, hon]
    exact iff_of_true ⟨none, .none⟩ fun h => (nomatch h)
  | true =>
    obtain ⟨hmin, hwhole, hgran, hpos⟩ := hi.mb hon
    have hsome : ∀ mb, (∃ norm, Option.Rel (fun mb norm =>
        normalizeMbString mb sockets i.mbMinBandwidth i.mbBandwidthGran = .ok norm) (some mb) norm) ↔
          PassesMb sockets minBandwidth mb := fun mb => by
      rw [hmin, hgran, ← normalizeMbString_returns_iff hpos]
      constructor
      · rintro ⟨norm, hrel⟩
        cases hrel with
        | some h => exact ⟨_, h⟩
      · rintro ⟨norm, h⟩
        exact ⟨some norm, .some h⟩
    rw [RdtConfiguration.requestedMb, if_pos hon, hsome]
    cases hconfigured : config.defaultRdtMb with
    | none => simpa using passes_largestMb hsockets hwhole
    | some mb => simp

theorem breaks_checkRootValues_iff {sockets : ℕ} {l3 mb : Option String} :
    Breaks (checkRootValues i sockets l3 mb) ↔
      (∃ line, l3 = some line ∧ Breaks (validateL3String line sockets i.cbmMask i.minCbmBits)) ∨
        (∀ line, l3 = some line → validateL3String line sockets i.cbmMask i.minCbmBits = .ok ()) ∧
          ∃ line, mb = some line ∧ Breaks
            (normalizeMbString line sockets i.mbMinBandwidth i.mbBandwidthGran) := by
  have hmb : Breaks (match mb with
      | none => pure none
      | some mb => some <$> normalizeMbString mb sockets i.mbMinBandwidth i.mbBandwidthGran) ↔
      ∃ line, mb = some line ∧ Breaks
        (normalizeMbString line sockets i.mbMinBandwidth i.mbBandwidthGran) := by
    cases mb with
    | none => exact iff_of_false not_breaks_ok fun ⟨line, h, _⟩ => (nomatch h)
    | some mb =>
      simp only [Option.some.injEq, exists_eq_left']
      exact breaks_map_iff
  have hl3 : Breaks (forM l3.toList fun l3 => validateL3String l3 sockets i.cbmMask i.minCbmBits) ↔
      ∃ line, l3 = some line ∧ Breaks (validateL3String line sockets i.cbmMask i.minCbmBits) := by
    cases l3 with
    | none => exact iff_of_false not_breaks_ok fun ⟨line, h, _⟩ => (nomatch h)
    | some l3 =>
      rw [Option.toList_some, List.forM_cons, breaks_seq_iff]
      simp
  unfold checkRootValues
  rw [breaks_seq_iff, hl3, except_forM_ok_iff, hmb]
  simp only [Option.mem_toList]

/-- The largest row is no row that breaks. -/
theorem requestedL3_breaks_iff (hi : i.Reported k minCbmBits minBandwidth gran) {sockets : ℕ}
    (hsockets : 0 < sockets) :
    (∃ line, config.requestedL3 i sockets = some line ∧
      Breaks (validateL3String line sockets i.cbmMask i.minCbmBits)) ↔
      i.rdtCacheControlEnabled = true ∧ ∃ l3, config.defaultRdtL3 = some l3 ∧ UnreadableL3 sockets i l3 := by
  have hpasses := requestedL3_passes_iff config hi hsockets
  cases hon : i.rdtCacheControlEnabled with
  | false => simp [RdtConfiguration.requestedL3, hon]
  | true =>
    cases hconfigured : config.defaultRdtL3 with
    | none =>
      simp only [RdtConfiguration.requestedL3, hon, hconfigured, if_true, Option.getD_none, Option.some.injEq,
        forall_eq', reduceCtorEq, false_implies, implies_true, iff_true] at hpasses
      simp [RdtConfiguration.requestedL3, hon, hconfigured, hpasses]
    | some l3 =>
      simp [RdtConfiguration.requestedL3, hon, hconfigured, breaks_validateL3String_iff hi.limited hon]

theorem requestedMb_breaks_iff (hi : i.Reported k minCbmBits minBandwidth gran) {sockets : ℕ}
    (hsockets : 0 < sockets) :
    (∃ line, config.requestedMb i sockets = some line ∧
      Breaks (normalizeMbString line sockets i.mbMinBandwidth i.mbBandwidthGran)) ↔
      i.rdtMbControlEnabled = true ∧ ∃ mb, config.defaultRdtMb = some mb ∧ UnreadableMb mb := by
  cases hon : i.rdtMbControlEnabled with
  | false => simp [RdtConfiguration.requestedMb, hon]
  | true =>
    cases hconfigured : config.defaultRdtMb with
    | none =>
      obtain ⟨hmin, hwhole, hgran, hpos⟩ := hi.mb hon
      obtain ⟨norm, hnorm⟩ := (normalizeMbString_returns_iff hpos).mpr (passes_largestMb hsockets hwhole)
      simp [RdtConfiguration.requestedMb, hon, hconfigured, hmin, hgran, hnorm]
    | some mb =>
      simp [RdtConfiguration.requestedMb, hon, hconfigured, breaks_normalizeMbString_iff hi.limited hon]

/-- On a kernel that takes every row, the configuration decides: the initialisation succeeds when the
required controls are there and the configured rows pass, raises when a row cannot be read, and is
declined otherwise. -/
theorem initializeRdt_decides (hrdt : platform.rdtInformation = some i)
    (hi : i.Reported k minCbmBits minBandwidth gran) (hsockets : 0 < platform.sockets)
    (haccepts : ∀ line, mount.accepts line = true) (hwf : r.WellFormed) :
    ((∃ r', (config.initializeRdt mount platform).run r = .ok true r') ↔
      config.Granted i platform.sockets k minCbmBits minBandwidth) ∧
    ((∃ e r', (config.initializeRdt mount platform).run r = .error e r') ↔
      config.Garbled i platform.sockets k minCbmBits) := by
  by_cases hsupported : config.Supported i
  · have hgran : i.rdtMbControlEnabled = true → ∃ gran, i.mbBandwidthGran = some gran ∧ 0 < gran := fun hon =>
      ⟨gran, (hi.mb hon).2.2⟩
    obtain ⟨htrue, hraises⟩ := initializeRdt_run mount hrdt hgran haccepts hwf hsupported
    have hl3 := requestedL3_passes_iff config hi hsockets
    have hmb := requestedMb_passes_iff config hi hsockets
    constructor
    · rw [htrue]
      simp only [checkRootValues_ok_iff, exists_and_left, hl3, hmb]
      exact ⟨fun h => ⟨hsupported, h.1, h.2⟩, fun h => ⟨h.l3, h.mb⟩⟩
    · rw [hraises, breaks_checkRootValues_iff, hl3, requestedL3_breaks_iff hi hsockets,
        requestedMb_breaks_iff hi hsockets]
      exact ⟨fun h => ⟨hsupported, h⟩, fun h => h.row⟩
  · rw [RdtConfiguration.initializeRdt_unsupported hrdt mount hsupported]
    exact ⟨iff_of_false (fun ⟨r', h⟩ => (nomatch h)) fun h => hsupported h.supported,
      iff_of_false (fun ⟨e, r', h⟩ => (nomatch h)) fun h => hsupported h.supported⟩

end Initialize

section

open SmallHost

def mountOf (listdir : SetOrder String) : ResctrlMount := ⟨listdir, fun _ => true⟩

/-- Half of the cache for the root group, after a sweep. -/
def halfOfCache : RdtConfiguration where
  rdtMbControlRequired := false
  rdtCacheControlRequired := true
  removeAllResctrlGroups := true
  defaultRdtL3 := some "L3:0=3f"
  defaultRdtMb := none

theorem wellFormed_small : (host [("t1", "a")]).resctrl.WellFormed :=
  wellFormed_of_items (by decide) (by decide) (by decide)

theorem initializeRdt_prepares_half : ∃ r',
    (halfOfCache.initializeRdt (mountOf ⟨id, .refl⟩) platform).run (host [("t1", "a")]).resctrl =
      .ok true r' ∧
      ∃ l3 mb, halfOfCache.Initialized rdtInformation 1 l3 mb (host [("t1", "a")]).resctrl r' := by
  obtain ⟨done, r', hrun, hdone⟩ := exists_of_returnsSuch
    (r := (halfOfCache.initializeRdt (mountOf ⟨id, .refl⟩) platform).run (host [("t1", "a")]).resctrl)
    (p := fun done _ => done) (by decide +kernel)
  subst hdone
  exact ⟨r', hrun, ((initializeRdt_prepares rfl (fun _ => ⟨10, rfl, by decide⟩)
    wellFormed_small).ok hrun).2 rfl⟩

theorem reported_small : rdtInformation.Reported 12 1 10 10 where
  cache _ := by
    have hall : "fff".toList.all (· ∈ Str.hexDigits) = true := by decide
    exact ⟨"fff", "1", rfl, ⟨by decide, fun c hc => of_decide_eq_true (List.all_eq_true.mp hall c hc)⟩,
      by decide, rfl, by decide, by decide⟩
  mb _ := ⟨rfl, by decide, rfl, by decide⟩

theorem initializeRdt_decides_half :
    ((∃ r', (halfOfCache.initializeRdt (mountOf ⟨id, .refl⟩) platform).run (host [("t1", "a")]).resctrl =
        .ok true r') ↔ halfOfCache.Granted rdtInformation 1 12 1 10) ∧
    ((∃ e r', (halfOfCache.initializeRdt (mountOf ⟨id, .refl⟩) platform).run (host [("t1", "a")]).resctrl =
        .error e r') ↔ halfOfCache.Garbled rdtInformation 1 12 1) :=
  initializeRdt_decides rfl reported_small (by decide) (fun _ => rfl) wellFormed_small

end

end Wca
