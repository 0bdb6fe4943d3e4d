import Wca.Schemata

/-!
# The resctrl file system and `ResGroup`

`Resctrl` is the tree under `/sys/fs/resctrl` together with the group every process is in. A
process is in one control group, and in at most one of that group's mon groups: writing a pid to a
tasks file takes it out of the group it was in, removing a control group removes its mon groups and
returns its processes to the root group. The root group has the empty name.
-/

namespace Wca

open Py

abbrev Pid := Nat

/-- A process, with the cgroup it runs in. Threads are the processes that are no leaders. -/
structure Proc where
  cgroup : String
  leader : Bool
  ctrlGroup : String
  monGroup : Option String
  deriving DecidableEq

/-- A directory of a control group. The schemata file has one row for each resource. -/
structure CtrlGroup where
  monGroups : List String
  schemata : Dict String Row
  deriving DecidableEq

/-- A line that was written to the schemata file of a group, and for which container. -/
structure SchemataWrite where
  containerName : String
  group : String
  line : String
  deriving DecidableEq

structure Resctrl where
  groups : Dict String CtrlGroup
  procs : Dict Pid Proc
  /-- what the schemata file of a new control group shows -/
  defaultSchemata : Dict String Row
  freeClosids : Nat
  freeRmids : Nat
  /-- the lines written so far, which no program reads -/
  schemataWrites : List SchemataWrite
  deriving DecidableEq

def RESCTRL_ROOT_NAME : String := ""

/-- The names that are taken in the directory of control groups, or lead out of it. -/
def reservedNames : List String :=
  ["info", "mon_groups", "mon_data", "schemata", "tasks", "cpus", "cpus_list", "mode", "size", ".", ".."]

/-- A name that the kernel accepts for a new control group. -/
def LegalGroupName (name : String) : Prop :=
  name ∉ reservedNames ∧ '/' ∉ name.toList ∧ '\n' ∉ name.toList ∧ '\x00' ∉ name.toList ∧
    name.utf8ByteSize ≤ 255

instance (name : String) : Decidable (LegalGroupName name) :=
  inferInstanceAs (Decidable (_ ∧ _ ∧ _ ∧ _ ∧ _))

namespace Resctrl

/-! ## The kernel -/

/-- The processes that a test holds of are put to another place of the tree. -/
def movePids (p : Proc → Bool) (dest : Proc → Proc) (procs : Dict Pid Proc) : Dict Pid Proc :=
  procs.map fun _ proc => if p proc then dest proc else proc

/-- `rmdir` of a control group. -/
def rmdirCtrlGroup (name : String) (r : Resctrl) : Resctrl :=
  match r.groups.get? name with
  | none => r
  | some g =>
    { r with
      groups := r.groups.erase name
      procs := movePids (·.ctrlGroup = name) (fun p => { p with ctrlGroup := "", monGroup := none })
        r.procs
      freeClosids := r.freeClosids + 1
      freeRmids := r.freeRmids + 1 + g.monGroups.length }

/-- `rmdir` of a mon group. -/
def rmdirMonGroup (name mongroupName : String) (r : Resctrl) : Resctrl :=
  match r.groups.get? name with
  | none => r
  | some g =>
    if mongroupName ∈ g.monGroups then
      { r with
        groups := r.groups.set name { g with monGroups := g.monGroups.filter (· ≠ mongroupName) }
        procs := movePids (fun p => p.ctrlGroup = name ∧ p.monGroup = some mongroupName)
          (fun p => { p with monGroup := none }) r.procs
        freeRmids := r.freeRmids + 1 }
    else r

/-- Write one pid to the tasks file of a control group or of one of its mon groups. `none` is a
write that fails: the process is gone, there is no such group, or the process is in another control
group than the mon group. -/
def writePid (name : String) (mongroupName : Option String) (pid : Pid) (r : Resctrl) :
    Option Resctrl :=
  match r.groups.get? name, r.procs.get? pid, mongroupName with
  | some _, some p, none =>
    some { r with procs := r.procs.set pid { p with ctrlGroup := name, monGroup := none } }
  | some g, some p, some m =>
    if m ∈ g.monGroups ∧ p.ctrlGroup = name then
      some { r with procs := r.procs.set pid { p with monGroup := some m } }
    else none
  | _, _, _ => none

/-- Write one line to the schemata file of a group; a line that is no row is not accepted. -/
def writeLine (name line : String) (r : Resctrl) : Resctrl :=
  match r.groups.get? name, parseSchemataFileRow line with
  | some g, .ok row =>
    let resource := Str.beforeFirst ':' line
    let old := (g.schemata.get? resource).getD ∅
    { r with groups := r.groups.set name { g with schemata := g.schemata.set resource (old.update row) } }
  | _, _ => r

/-- The text of a row as the schemata file shows it. -/
def showRow (resource : String) (row : Row) : String :=
  resource ++ ":" ++ Str.join ';' (row.items.map fun p => p.1 ++ "=" ++ p.2)

/-- The pids in a mon group. -/
def monGroupPids (name mongroupName : String) (r : Resctrl) : List Pid :=
  (r.procs.items.filter fun p => p.2.ctrlGroup = name ∧ p.2.monGroup = some mongroupName).map
    Prod.fst

end Resctrl

open Resctrl

/-! ## `ResGroup` -/

/-- A resource control group; the default group when the name is empty. -/
structure ResGroup where
  name : String
  deriving DecidableEq

namespace ResGroup

variable (self : ResGroup)

/-- `_add_pids_to_tasks_file`: the first write that fails ends the loop, and is only logged. -/
def addPidsToTasksFile (mongroupName : Option String) : List Pid → Resctrl → Resctrl
  | [], r => r
  | pid :: pids, r =>
    match writePid self.name mongroupName pid r with
    | some r => addPidsToTasksFile mongroupName pids r
    | none => r

/-- `_create_controlgroup_directory`. -/
def createControlgroupDirectory : EStateM Exc Resctrl Unit := do
  let r ← get
  if self.name ∈ r.groups then pure ()
  else if ¬ LegalGroupName self.name then
    throw (.builtin (.OSError ("mkdir " ++ self.name)))
  else if r.freeClosids = 0 ∨ r.freeRmids = 0 then
    throw .OutOfClosidsException
  else
    set { r with
      groups := r.groups.set self.name { monGroups := [], schemata := r.defaultSchemata }
      freeClosids := r.freeClosids - 1
      freeRmids := r.freeRmids - 1 }

/-- The directory of a mon group, unless it is there. -/
def createMongroupDirectory (mongroupName : String) : EStateM Exc Resctrl Unit := do
  let r ← get
  match r.groups.get? self.name with
  | none => throw (.builtin (.FileNotFoundError self.name))
  | some g =>
    if mongroupName ∈ g.monGroups then pure ()
    else if r.freeRmids = 0 then
      throw (.Exception "Limit of workloads reached! (Out of available CLoSes/RMIDs!)")
    else
      set { r with
        groups := r.groups.set self.name { g with monGroups := g.monGroups ++ [mongroupName] }
        freeRmids := r.freeRmids - 1 }

/-- Add the pids to the group and to a mon group in it; both are made when they are not there. -/
def addPids (pids : List Pid) (mongroupName : String) : EStateM Exc Resctrl Unit := do
  assert (mongroupName ≠ "") "mongroup_name cannot be empty"
  doIf (self.name ≠ RESCTRL_ROOT_NAME) (createControlgroupDirectory self)
  modify (addPidsToTasksFile self none pids)
  createMongroupDirectory self mongroupName
  modify (addPidsToTasksFile self (some mongroupName) pids)

/-- The names of the containers under `mon_groups`. -/
def getMonGroups (r : Resctrl) : Except Exc (List String) :=
  match r.groups.get? self.name with
  | none => .error (.builtin (.FileNotFoundError self.name))
  | some g => .ok g.monGroups

/-- Remove the control group, or just the mon group if this is root or not the last one. A
directory that is not there is passed over. -/
def remove (mongroupName : String) : EStateM Exc Resctrl Unit := do
  if self.name = RESCTRL_ROOT_NAME then
    modify (rmdirMonGroup self.name mongroupName)
  else
    let r ← get
    let monGroups ← getMonGroups self r
    if monGroups.length = 1 then modify (rmdirCtrlGroup self.name)
    else modify (rmdirMonGroup self.name mongroupName)

/-- The allocation that the schemata file shows. -/
def getAllocations (r : Resctrl) : Except Exc RDTAllocation :=
  match r.groups.get? self.name with
  | none => .error (.MissingAllocationException self.name)
  | some g =>
    .ok {
      name := some self.name
      l3 := (g.schemata.get? "L3").map (showRow "L3")
      mb := (g.schemata.get? "MB").map (showRow "MB") }

/-- Write the lines to the schemata file; an error of a write is only logged. -/
def writeSchemata (containerName : String) (lines : List String) : EStateM Exc Resctrl Unit := do
  let r ← get
  if self.name ∈ r.groups then
    set (lines.foldl (fun r line =>
      { writeLine self.name line r with
        schemataWrites := r.schemataWrites ++ [⟨containerName, self.name, line⟩] }) r)
  else throw (.builtin (.FileNotFoundError self.name))

end ResGroup

/-! ## Sweeping the file system -/

/-- From control groups to their mon groups, the root group first. -/
def readMonGroupsRelation (r : Resctrl) : Except Exc (Dict String (List String)) :=
  match r.groups.get? RESCTRL_ROOT_NAME with
  | none => .error (.builtin (.AssertionError ""))
  | some root =>
    .ok (((∅ : Dict String (List String)).set RESCTRL_ROOT_NAME root.monGroups).update
      (r.groups.map fun _ g => g.monGroups))

/-- The body of the inner loop of `clean_taskless_groups`. -/
def cleanMonGroup (ctrlGroup : String) (monGroups : List String) (monGroup : String) :
    EStateM Exc Resctrl Unit := do
  let r ← get
  match r.groups.get? ctrlGroup with
  | none => throw (.builtin (.FileNotFoundError ctrlGroup))
  | some g =>
    doIf (monGroup ∉ g.monGroups) (throw (.builtin (.FileNotFoundError monGroup)))
    -- the list of mon groups to remove starts anew for each mon group
    let monGroupsToRemove := if monGroupPids ctrlGroup monGroup r = [] then [monGroup] else []
    doIf (monGroupsToRemove ≠ []) <|
      if ctrlGroup ≠ "" ∧ monGroupsToRemove.length = monGroups.length then
        set (rmdirCtrlGroup ctrlGroup r)
      else
        set (monGroupsToRemove.foldl (fun r m => rmdirMonGroup ctrlGroup m r) r)

/-- Remove the groups without tasks, out of those listed in the relation. -/
def cleanTasklessGroups (monGroupsRelation : Dict String (List String)) :
    EStateM Exc Resctrl Unit :=
  forM monGroupsRelation.items fun p => forM p.2 (cleanMonGroup p.1 p.2)

end Wca
