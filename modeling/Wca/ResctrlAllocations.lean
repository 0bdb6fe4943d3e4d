import Wca.CgroupsAllocations
import Mathlib.Data.Finset.Card

/-!
# RDT allocation values

`RDTGroups` is shared by all values that one `create` makes: a value holds a reference to it, and
`Heap` is where the reference leads. It counts the groups that were validated and remembers the
groups whose schemata were written.
-/

namespace Wca

open Py Host

structure RDTGroups where
  closidsLimit : ℤ
  alreadyExecutedResgroupNames : Finset String := ∅
  existingGroups : Finset String := ∅
  deriving DecidableEq

/-- A reference to an `RDTGroups`. -/
abbrev Ref := Nat

/-- The `RDTGroups` made so far, those below `next`. -/
structure Heap where
  next : Ref
  cell : Ref → RDTGroups

namespace Heap

def put (h : Heap) (ref : Ref) (g : RDTGroups) : Heap :=
  { h with cell := fun r => if r = ref then g else h.cell r }

@[simp] theorem next_put (h : Heap) (ref : Ref) (g : RDTGroups) : (h.put ref g).next = h.next := rfl

@[simp] theorem cell_put_self (h : Heap) (ref : Ref) (g : RDTGroups) :
    (h.put ref g).cell ref = g := if_pos rfl

theorem cell_put_of_ne {h : Heap} {ref r : Ref} {g : RDTGroups} (hr : r ≠ ref) :
    (h.put ref g).cell r = h.cell r := if_neg hr

theorem put_cell_self (h : Heap) (ref : Ref) : h.put ref (h.cell ref) = h := by
  cases h with
  | mk next cell =>
    simp only [put, mk.injEq, true_and]
    funext r
    split
    · rename_i hr; rw [hr]
    · rfl

/-- A new object. -/
def alloc (g : RDTGroups) : EStateM Exc Heap Ref := do
  let h ← get
  set { h.put h.next g with next := h.next + 1 }
  pure h.next

end Heap

/-- Everything a running agent works on: its shared objects and the kernel. -/
structure World where
  heap : Heap
  host : Host
  /-- the calls of `migrate_pages` so far -/
  pageMigrations : List PageMigration

namespace World

def onHeap {α : Type} : EStateM Exc Heap α → EStateM Exc World α :=
  zoom heap fun h w => { w with heap := h }

def onHost {α : Type} : EStateM Exc Host α → EStateM Exc World α :=
  zoom host fun h w => { w with host := h }

def onResctrl {α : Type} (x : EStateM Exc Resctrl α) : EStateM Exc World α :=
  onHost (Host.onResctrl x)

end World

open World (onHeap)

/-- An RDT allocation with the group it acts on. -/
structure RDTAllocationValue where
  containerName : String
  rdtAllocation : RDTAllocation
  resgroup : Option ResGroup
  /-- whose pids the provider `get_pids` returns -/
  getPids : Container
  platformSockets : Nat
  rdtInformation : RDTInformation
  rdtGroups : Ref
  /-- the group to leave, if the value moves to another one -/
  sourceResgroup : Option ResGroup := none
  deriving DecidableEq

namespace RDTAllocationValue

variable (self : RDTAllocationValue)

/-- The name that is set, or else that of the container. -/
def getResgroupName : String := self.rdtAllocation.name.getD self.containerName

def copy (rdtAllocation : RDTAllocation) (sourceResgroup resgroup : Option ResGroup) :
    RDTAllocationValue :=
  { self with
    rdtAllocation := rdtAllocation
    resgroup := if resgroup.isSome then resgroup else self.resgroup
    sourceResgroup := sourceResgroup }

/-! ## Comparison -/

/-- `a or b` of two texts that may be missing. -/
def orElse (a b : Option String) : Option String := if truthy a then a else b

/-- The value moves from a group to the one it names. -/
def moveFrom (source : String) : RDTAllocationValue × Option RDTAllocationValue :=
  (self, some (self.copy self.rdtAllocation (some ⟨source⟩) (some ⟨self.getResgroupName⟩)))

/-- The comparison with a value of the same group. -/
def mergeInto (current : RDTAllocationValue) :
    Except Exc (RDTAllocationValue × Option RDTAllocationValue) := do
  let target := current.copy {
    name := current.rdtAllocation.name
    l3 := orElse self.rdtAllocation.l3 current.rdtAllocation.l3
    mb := orElse self.rdtAllocation.mb current.rdtAllocation.mb } none none
  let l3Changed ← isRdtSuballocationChanged current.rdtAllocation.l3 self.rdtAllocation.l3
  let newL3 := if l3Changed then self.rdtAllocation.l3 else none
  let mbChanged ← isRdtSuballocationChanged current.rdtAllocation.mb self.rdtAllocation.mb
  let newMb := if mbChanged then self.rdtAllocation.mb else none
  -- something is returned only if the schemata differ
  pure (target,
    if truthy newL3 ∨ truthy newMb then
      some (current.copy { name := self.rdtAllocation.name, l3 := newL3, mb := newMb } none none)
    else none)

def calculateChangeset (current : Option RDTAllocationValue) :
    Except Exc (RDTAllocationValue × Option RDTAllocationValue) :=
  match current with
  | none => .ok (self.moveFrom RESCTRL_ROOT_NAME)
  | some current =>
    if current.getResgroupName ≠ self.getResgroupName then
      .ok (self.moveFrom current.getResgroupName)
    else self.mergeInto current

/-! ## Validation -/

/-- The l3 line, if there is one, against the features of the platform. -/
def checkL3 (sockets : Nat) (i : RDTInformation) (l3 : Option String) : Except Exc Unit :=
  doIf (truthy l3 = true) do
    doIf (¬ i.rdtCacheControlEnabled) (invalid .cacheControlNotEnabled)
    validateL3String (l3.getD "") sockets i.cbmMask i.minCbmBits

/-- The mb line, if there is one. The normalized line goes into a copy that is dropped. -/
def checkMb (sockets : Nat) (i : RDTInformation) (mb : Option String) : Except Exc Unit :=
  doIf (truthy mb = true) do
    doIf (¬ i.rdtMbControlEnabled) (invalid .mbControlNotEnabled)
    let _ ← normalizeMbString (mb.getD "") sockets i.mbMinBandwidth i.mbBandwidthGran
    pure ()

def validateLines : Except Exc Unit := do
  checkL3 self.platformSockets self.rdtInformation self.rdtAllocation.l3
  checkMb self.platformSockets self.rdtInformation self.rdtAllocation.mb

end RDTAllocationValue

namespace RDTGroups

/-- Count the group and refuse it when there are too many. -/
def validate (ref : Ref) (value : RDTAllocationValue) : EStateM Exc Heap Unit := do
  let h ← get
  let g := h.cell ref
  let g := { g with existingGroups := insert value.getResgroupName g.existingGroups }
  set (h.put ref g)
  doIf ((g.existingGroups.card : ℤ) > g.closidsLimit) (throw (.InvalidAllocations .tooManyGroups))

/-- Whether the schemata of the group are still to be written; the answer is yes once. -/
def shouldPerformSchemataWrite (ref : Ref) (value : RDTAllocationValue) : EStateM Exc Heap Bool := do
  let h ← get
  let g := h.cell ref
  if value.getResgroupName ∈ g.alreadyExecutedResgroupNames then pure false
  else
    set (h.put ref { g with
      alreadyExecutedResgroupNames := insert value.getResgroupName g.alreadyExecutedResgroupNames })
    pure true

end RDTGroups

namespace RDTAllocationValue

variable (self : RDTAllocationValue)

def validate : EStateM Exc Heap Unit := do
  self.validateLines
  RDTGroups.validate self.rdtGroups self

/-! ## Performing -/

/-- A method of the group was called, and there is none. -/
def noResgroup : Exc := .builtin (.AttributeError "'NoneType' object has no attribute")

/-- Move the pids to the group, and remove the one they were in if one mon group is left there. -/
def moveToGroup (source : ResGroup) : EStateM Exc Resctrl Unit :=
  match self.resgroup with
  | none => throw noResgroup
  | some resgroup => do
    let r ← get
    resgroup.addPids (self.getPids.getPids true r) self.containerName
    let r ← get
    let monGroups ← source.getMonGroups r
    doIf (monGroups.length = 1) (source.remove self.containerName)

/-- The lines of the controls that are enabled. -/
def schemataLines : List String :=
  (if truthy self.rdtAllocation.l3 ∧ self.rdtInformation.rdtCacheControlEnabled then
    self.rdtAllocation.l3.toList else []) ++
  (if truthy self.rdtAllocation.mb ∧ self.rdtInformation.rdtMbControlEnabled then
    self.rdtAllocation.mb.toList else [])

/-- Update the schemata file. -/
def writeLines : EStateM Exc Resctrl Unit :=
  doIf (self.schemataLines ≠ []) <|
    match self.resgroup with
    | none => throw noResgroup
    | some resgroup => resgroup.writeSchemata self.containerName self.schemataLines

/-- Nothing is moved when there is no group to leave. -/
def moveIfAsked : EStateM Exc Resctrl Unit :=
  match self.sourceResgroup with
  | some source => self.moveToGroup source
  | none => pure ()

def performAllocations : EStateM Exc World Unit := do
  World.onResctrl self.moveIfAsked
  let write ← onHeap (RDTGroups.shouldPerformSchemataWrite self.rdtGroups self)
  doIf (write = true) (World.onResctrl self.writeLines)

end RDTAllocationValue

end Wca
