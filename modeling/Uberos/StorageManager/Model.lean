import Uberos.Library.Run
import Uberos.PodArray
import Uberos.String
/-!
# The names of drives

`allocate_name`, `release_name`, `set_allocation_id` and
`find_drive_by_name` of `drivers/StorageManager.cpp`. A name is its
characters: the storage that the pointer `allocate_name` returns points
into, and what the arrays delete when they grow, are not followed.
-/

namespace Uberos

open Library

/-- A prefix, and how many drives were named by it. -/
structure DriveName where
  namePrefix : List Char
  count : ℕ
  deriving DecidableEq, Repr

/-- A drive; a released one has no controller. -/
structure Drive where
  name : List Char
  controller : Option ℕ
  index : ℕ
  isSystemMapping : Bool
  deriving DecidableEq, Repr

/-- `StorageManager::AllocationOptions`. -/
structure AllocationOptions where
  namePrefix : List Char
  systemMapping : Bool := false
  singular : Bool := false
  deriving DecidableEq, Repr

/-- The two arrays. -/
structure StorageManager where
  driveNames : List DriveName
  drives : List Drive
  deriving DecidableEq, Repr

namespace StorageManager

variable (T : Target)

/-- As the kernel starts. -/
def new : StorageManager := ⟨[], []⟩

/-- `find_drive_by_name`. -/
def findDriveByName (s : StorageManager) (name : List Char) : Option ℕ :=
  s.drives.findIdx? fun drive => String8.Equals drive.name name

/-- The search of `allocate_name` for its prefix, and `count++` of what it
finds or adds. -/
def countUp (namePrefix : List Char) : List DriveName → ℕ × List DriveName
  | [] => (0, [⟨String8.new namePrefix, 1⟩])
  | existing :: driveNames =>
    if String8.Equals existing.namePrefix namePrefix then
      (existing.count, { existing with count := (existing.count + 1) % 2 ^ 32 } :: driveNames)
    else
      let (id, driveNames) := countUp namePrefix driveNames
      (id, existing :: driveNames)

/-- `allocate_name`: the name it returns, with the address of the buffer
the name is given where it has to leave its own. -/
def allocateName (s : StorageManager) (options : AllocationOptions) (controller index buffer : ℕ) :
    List Char × StorageManager :=
  let (id, driveNames) := countUp options.namePrefix s.driveNames
  let name := String8.new options.namePrefix
  let name :=
    if id > 0 ∨ options.singular = false then String8.append T buffer name (utoa ((id + 1) % 2 ^ 32))
    else name
  (cString name,
    { driveNames := driveNames
      drives := PodArray.pushBack s.drives ⟨name, some controller, index, options.systemMapping⟩ })

/-- The first drive of the name is changed. -/
def changeFirst (name : List Char) (change : Drive → Drive) : List Drive → List Drive
  | [] => []
  | drive :: drives =>
    if String8.Equals drive.name name then change drive :: drives
    else drive :: changeFirst name change drives

/-- `release_name`. -/
def releaseName (s : StorageManager) (name : List Char) : StorageManager :=
  { s with drives := changeFirst name (fun drive => { drive with controller := none }) s.drives }

/-- `set_allocation_id`, which fails where there is no such drive. -/
def setAllocationId (s : StorageManager) (name : List Char) (driveId : ℕ) : StorageManager :=
  { s with drives := changeFirst name (fun drive => { drive with index := driveId }) s.drives }

/-! ## Runs of calls -/

/-- A call of `allocate_name`: its prefix, the digits it appended and what
it returned. -/
structure Issue where
  namePrefix : List Char
  number : List Char
  returned : List Char
  deriving DecidableEq, Repr

/-- The manager, and the names it returned so far. -/
structure Usage where
  manager : StorageManager
  issues : List Issue
  deriving DecidableEq, Repr

/-- What is asked of the manager. -/
inductive Op
  | allocate (options : AllocationOptions) (controller index buffer : ℕ)
  | release (name : List Char)
  | setId (name : List Char) (driveId : ℕ)
  deriving DecidableEq, Repr

/-- The digits a call appends. -/
def number (s : StorageManager) (options : AllocationOptions) : List Char :=
  let id := (countUp options.namePrefix s.driveNames).1
  if id > 0 ∨ options.singular = false then utoa ((id + 1) % 2 ^ 32) else []

/-- One call. -/
def step (u : Usage) : Op → Usage
  | .allocate options controller index buffer =>
    let (returned, manager) := u.manager.allocateName T options controller index buffer
    ⟨manager, u.issues ++ [⟨cString options.namePrefix, u.manager.number options, returned⟩]⟩
  | .release name => ⟨u.manager.releaseName name, u.issues⟩
  | .setId name driveId => ⟨u.manager.setAllocationId name driveId, u.issues⟩

/-!
## What is asked of a drive

The queries of `drivers/StorageManager.cpp` by the index of a drive. Each
checks the index, and then the controller: all but one make the `Failure`
of that check and go on. What a controller answers is not followed, only
which is asked, and of which of its drives.
-/

/-- The method of a `StorageController` that a query calls. -/
inductive Method
  | description | size | model | serialNumber | isPresent | isRemovable | eject
  deriving DecidableEq, Repr

/-- How a query ends: with a `Failure`, with what a method of a controller
answers, where that is a null pointer if there is none, or with a value. -/
inductive Outcome
  | failure (message : String)
  | call (method : Method) (controller : Option ℕ) (index : ℕ)
  | controller (controller : Option ℕ)
  | number (value : ℕ)
  deriving DecidableEq, Repr

/-- `Failure{"drive not present"}`. -/
def notPresent : Outcome := .failure "drive not present"

variable (s : StorageManager)

/-- `if(index>=drives.length) return Failure{..}`, and the rest of a query. -/
def atIndex (index : ℕ) (rest : Drive → Outcome) : Outcome :=
  match s.drives[index]? with
  | none => notPresent
  | some drive => rest drive

/-- `if(!drive.controller) Failure{..}`, which returns nothing, and the rest. -/
def unreturned (drive : Drive) (rest : Outcome) : Outcome :=
  if drive.controller = none then
    let _failure := notPresent
    rest
  else rest

/-- `if(!drive.controller) return Failure{..}`, and the rest. -/
def returned (drive : Drive) (rest : Outcome) : Outcome :=
  if drive.controller = none then notPresent else rest

/-- A method of the drive's controller. -/
def ask (method : Method) (drive : Drive) : Outcome :=
  .call method drive.controller drive.index

/-- `get_drive_description`. -/
def getDriveDescription (index : ℕ) : Outcome :=
  s.atIndex index fun drive => unreturned drive (ask .description drive)

/-- `get_drive_size`. -/
def getDriveSize (index : ℕ) : Outcome :=
  s.atIndex index fun drive => unreturned drive (ask .size drive)

/-- `get_drive_model`. -/
def getDriveModel (index : ℕ) : Outcome :=
  s.atIndex index fun drive => unreturned drive (ask .model drive)

/-- `get_drive_serialNumber`. -/
def getDriveSerialNumber (index : ℕ) : Outcome :=
  s.atIndex index fun drive => unreturned drive (ask .serialNumber drive)

/-- `get_drive_controller`. -/
def getDriveController (index : ℕ) : Outcome :=
  s.atIndex index fun drive => unreturned drive (.controller drive.controller)

/-- `get_drive_controller_index`. -/
def getDriveControllerIndex (index : ℕ) : Outcome :=
  s.atIndex index fun drive => unreturned drive (.number drive.index)

/-- `get_drive_systemId`, which looks for a mapping of the same drive. -/
def getDriveSystemId (index : ℕ) : Outcome :=
  s.atIndex index fun drive => unreturned drive <|
    match s.drives.findIdx? fun existingDrive => existingDrive.isSystemMapping ∧
      existingDrive.controller = drive.controller ∧ existingDrive.index = drive.index with
    | some i => .number i
    | none => .failure "system drive not found"

/-- `is_drive_present`. -/
def isDrivePresent (index : ℕ) : Outcome :=
  s.atIndex index fun drive => returned drive (ask .isPresent drive)

/-- `is_drive_removable`. -/
def isDriveRemovable (index : ℕ) : Outcome :=
  s.atIndex index fun drive => unreturned drive (ask .isRemovable drive)

/-- `eject_drive`. -/
def ejectDrive (index : ℕ) : Outcome :=
  s.atIndex index fun drive => unreturned drive (ask .eject drive)

/-- The queries. -/
inductive Query
  | description | size | model | serialNumber | controller | controllerIndex | systemId
  | isPresent | isRemovable | eject
  deriving DecidableEq, Repr

/-- A query of a drive. -/
def query : Query → ℕ → Outcome
  | .description => s.getDriveDescription
  | .size => s.getDriveSize
  | .model => s.getDriveModel
  | .serialNumber => s.getDriveSerialNumber
  | .controller => s.getDriveController
  | .controllerIndex => s.getDriveControllerIndex
  | .systemId => s.getDriveSystemId
  | .isPresent => s.isDrivePresent
  | .isRemovable => s.isDriveRemovable
  | .eject => s.ejectDrive

/-! ## What the drives were allocated for -/

/-- What a drive was allocated with, and whether it was released. -/
structure Allocation where
  controller : ℕ
  index : ℕ
  isSystemMapping : Bool
  released : Bool
  deriving DecidableEq, Repr

/-- The manager, and what its drives were allocated for. -/
structure Catalogue where
  manager : StorageManager
  allocations : List Allocation
  deriving DecidableEq, Repr

/-- What was allocated to the first drive of the name is changed. -/
def changeNamed (s : StorageManager) (name : List Char) (change : Allocation → Allocation)
    (allocations : List Allocation) : List Allocation :=
  match s.findDriveByName name with
  | some i => allocations.modify i change
  | none => allocations

/-- One call, beside what it does to the allocations. -/
def record (T : Target) (c : Catalogue) : Op → Catalogue
  | .allocate options controller index buffer =>
    ⟨(c.manager.allocateName T options controller index buffer).2,
      c.allocations ++ [⟨controller, index, options.systemMapping, false⟩]⟩
  | .release name =>
    ⟨c.manager.releaseName name,
      changeNamed c.manager name (fun a => { a with released := true }) c.allocations⟩
  | .setId name driveId =>
    ⟨c.manager.setAllocationId name driveId,
      changeNamed c.manager name (fun a => { a with index := driveId }) c.allocations⟩

end StorageManager

end Uberos
