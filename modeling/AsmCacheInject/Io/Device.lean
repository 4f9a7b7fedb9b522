import AsmCacheInject.Data.Command
import AsmCacheInject.Error

namespace AsmCacheInject.Io

open AsmCacheInject.Data

/-! Opening a device.  The descriptor table belongs to the whole process: other
code opens and closes descriptors of its own in between. -/

/-- How `open` chooses a number.  Nothing depends on which it takes, as long as
it is not in use. -/
structure Numbering where
  next : List Nat → Nat
  next_not_mem : ∀ inUse, next inUse ∉ inUse

def lowestFree (inUse : List Nat) : Nat :=
  ((List.range (inUse.length + 1)).find? (· ∉ inUse)).getD 0

theorem lowestFree_not_mem (inUse : List Nat) : lowestFree inUse ∉ inUse := by
  unfold lowestFree
  cases hfind : (List.range (inUse.length + 1)).find? (· ∉ inUse) with
  | some fd =>
      have hfree := List.find?_some hfind
      simpa using hfree
  | none =>
      have hall : List.range (inUse.length + 1) ⊆ inUse := by
        intro fd hfd
        have htaken := List.find?_eq_none.mp hfind fd hfd
        simpa using htaken
      have hlength := (List.nodup_range.subperm hall).length_le
      rw [List.length_range] at hlength
      omega

def Numbering.lowest : Numbering := ⟨lowestFree, lowestFree_not_mem⟩

/-- The descriptor numbers in use, and how often a number was closed that was
not. -/
structure Descriptors where
  numbering : Numbering
  inUse : List Nat
  strays : Nat

def Descriptors.opened (descriptors : Descriptors) : Nat × Descriptors :=
  let fd := descriptors.numbering.next descriptors.inUse
  (fd, { descriptors with inUse := fd :: descriptors.inUse })

/-- `close`; its result is ignored everywhere. -/
def Descriptors.close (fd : Nat) (descriptors : Descriptors) : Descriptors :=
  if fd ∈ descriptors.inUse then
    { descriptors with inUse := descriptors.inUse.erase fd }
  else { descriptors with strays := descriptors.strays + 1 }

/-- The metadata of a device; the model name is only printed and left out. -/
structure DeviceInfo where
  path : String
  totalBytes : UInt64
  sectorSize : UInt64
  sectorCount : UInt64

structure Probe where
  present : Bool
  isBlockDevice : Except OsError Bool
  openReadOnly : Except OsError Unit
  size : Except OsError UInt64
  sectorSize : Except OsError Int32
  openDirect : Except OsError Unit

abbrev Opening (Value : Type) := Command Descriptors CacheError Value

def asked {Value : Type} (operation : String) (answer : Except OsError Value) :
    Opening Value :=
  .ofStep fun descriptors => (answer.mapError (.ofIo operation), descriptors)

def openFd (operation : String) (answer : Except OsError Unit) : Opening Nat :=
  .ofStep fun descriptors =>
    match answer with
    | .error source => (.error (.ofIo operation source), descriptors)
    | .ok () => (.ok descriptors.opened.1, descriptors.opened.2)

def cString (message path : String) : Opening Unit :=
  if '\x00' ∈ path.toList then throw (.config (message ++ path)) else pure ()

def openReadonly (path : String) (probe : Probe) : Opening Nat := do
  cString "path contains null byte: " path
  openFd "open (read-only)" probe.openReadOnly

def closeFd (fd : Nat) : Opening Unit :=
  .ofStep fun descriptors => (.ok (), descriptors.close fd)

def ioctlGetSize (probe : Probe) : Opening UInt64 :=
  asked "ioctl BLKGETSIZE64" probe.size

/-- The kernel fills in a `c_int`, which is sign-extended. -/
def ioctlGetSectorSize (probe : Probe) : Opening UInt64 := do
  let size ← asked "ioctl BLKSSZGET" probe.sectorSize
  return size.toInt64.toUInt64

/-- `DeviceInfo::query`.  A failed `ioctl` returns before `close_fd`. -/
def DeviceInfo.query (path : String) (probe : Probe) : Opening DeviceInfo := do
  if probe.present then pure () else throw (.deviceNotFound path)
  let isBlockDevice ← asked "stat" probe.isBlockDevice
  if isBlockDevice then pure () else throw (.notBlockDevice path)
  let fd ← openReadonly path probe
  let totalBytes ← ioctlGetSize probe
  let sectorSize ← ioctlGetSectorSize probe
  closeFd fd
  let sectorCount := if sectorSize = 0 then 0 else totalBytes / sectorSize
  return { path, totalBytes, sectorSize, sectorCount }

structure BlockDevice where
  fd : Nat
  info : DeviceInfo

def BlockDevice.new (path : String) (probe : Probe) : Opening BlockDevice := do
  let info ← DeviceInfo.query path probe
  cString "device path contains null byte: " path
  let fd ← openFd "open (O_DIRECT)" probe.openDirect
  return { fd, info }

/-! What is left open depends on the answers only. -/

def Probe.reachesIoctl (path : String) (probe : Probe) : Bool :=
  probe.present && probe.isBlockDevice.toOption = some true &&
    '\x00' ∉ path.toList && probe.openReadOnly.isOk

/-- The lookup gets a descriptor and loses it to a failed `ioctl`. -/
def Probe.leaks (path : String) (probe : Probe) : Bool :=
  probe.reachesIoctl path && !(probe.size.isOk && probe.sectorSize.isOk)

theorem Descriptors.close_opened (descriptors : Descriptors) :
    descriptors.opened.2.close descriptors.opened.1 = descriptors := by
  simp [Descriptors.close, Descriptors.opened]

theorem cString_of_nul (message : String) {path : String}
    (hnul : '\x00' ∈ path.toList) :
    cString message path = throw (.config (message ++ path)) :=
  if_pos hnul

theorem cString_of_not_nul (message : String) {path : String}
    (hnul : '\x00' ∉ path.toList) : cString message path = pure () :=
  if_neg hnul

section Queries

variable (path : String) (probe : Probe) (descriptors : Descriptors)

theorem DeviceInfo.query_cases :
    (∃ error, probe.reachesIoctl path = false ∧
      (DeviceInfo.query path probe).exec descriptors =
        (.error error, descriptors)) ∨
    (∃ error, probe.leaks path = true ∧
      (DeviceInfo.query path probe).exec descriptors =
        (.error error, descriptors.opened.2)) ∨
    (∃ info, probe.reachesIoctl path = true ∧ probe.leaks path = false ∧
      (DeviceInfo.query path probe).exec descriptors =
        (.ok info, descriptors)) := by
  unfold Probe.leaks Probe.reachesIoctl DeviceInfo.query
  cases hpresent : probe.present with
  | false =>
      left
      exact ⟨.deviceNotFound path, rfl, rfl⟩
  | true =>
      cases hblock : probe.isBlockDevice with
      | error source =>
          left
          exact ⟨.ofIo "stat" source, rfl, rfl⟩
      | ok isBlockDevice =>
          cases isBlockDevice with
          | false =>
              left
              exact ⟨.notBlockDevice path, rfl, rfl⟩
          | true =>
              by_cases hnul : '\x00' ∈ path.toList
              · left
                refine ⟨.config ("path contains null byte: " ++ path),
                  by simp [hnul], ?_⟩
                unfold openReadonly
                rw [cString_of_nul _ hnul]
                rfl
              · unfold openReadonly
                rw [cString_of_not_nul _ hnul]
                cases hopen : probe.openReadOnly with
                | error source =>
                    left
                    exact ⟨.ofIo "open (read-only)" source,
                      by simp [Except.isOk, Except.toBool], rfl⟩
                | ok taken =>
                    right
                    unfold ioctlGetSize ioctlGetSectorSize
                    cases hsize : probe.size with
                    | error source =>
                        left
                        refine ⟨.ofIo "ioctl BLKGETSIZE64" source, ?_, rfl⟩
                        simp [hnul, Except.toOption, Except.isOk, Except.toBool]
                    | ok totalBytes =>
                        cases hsector : probe.sectorSize with
                        | error source =>
                            left
                            refine ⟨.ofIo "ioctl BLKSSZGET" source, ?_, rfl⟩
                            simp [hnul, Except.toOption, Except.isOk,
                              Except.toBool]
                        | ok sectorSize =>
                            right
                            refine ⟨⟨path, totalBytes, sectorSize.toInt64.toUInt64,
                              if sectorSize.toInt64.toUInt64 = 0 then 0
                              else totalBytes / sectorSize.toInt64.toUInt64⟩, ?_, ?_, ?_⟩
                            · simp [hnul, Except.toOption, Except.isOk, Except.toBool]
                            · simp [Except.isOk, Except.toBool]
                            · exact congrArg (Prod.mk _) descriptors.close_opened

theorem BlockDevice.new_cases :
    (∃ device, probe.leaks path = false ∧
      device.fd = descriptors.opened.1 ∧
      (BlockDevice.new path probe).exec descriptors =
        (.ok device, descriptors.opened.2)) ∨
    (∃ error, (BlockDevice.new path probe).exec descriptors =
      (.error error,
        if probe.leaks path then descriptors.opened.2 else descriptors)) := by
  unfold BlockDevice.new
  rw [Command.exec_bind]
  rcases DeviceInfo.query_cases path probe descriptors with
    ⟨error, hearly, hquery⟩ | ⟨error, hleaks, hquery⟩ |
    ⟨info, hreaches, hkept, hquery⟩
  · have hkept : probe.leaks path = false := by simp [Probe.leaks, hearly]
    right
    exact ⟨error, by simp [hquery, hkept]⟩
  · right
    exact ⟨error, by simp [hquery, hleaks]⟩
  · have hnul : '\x00' ∉ path.toList := by
      simp only [Probe.reachesIoctl, Bool.and_eq_true] at hreaches
      exact of_decide_eq_true hreaches.1.2
    simp only [hquery, hkept, cString_of_not_nul _ hnul, pure_bind]
    rw [Command.exec_bind]
    cases hopen : probe.openDirect with
    | error source =>
        right
        exact ⟨.ofIo "open (O_DIRECT)" source, rfl⟩
    | ok taken =>
        left
        exact ⟨⟨descriptors.opened.1, info⟩, trivial, rfl, rfl⟩

end Queries

/-! The life of a process.  Devices are opened by the engine and by the
benchmarks and closed when they are dropped; `info` only looks one up. -/

inductive Use
  | info (path : String) (probe : Probe)
  | openDevice (path : String) (probe : Probe)
  | dropDevice (index : Nat)
  | othersOpen
  | othersClose (index : Nat)

structure Process where
  descriptors : Descriptors
  devices : List BlockDevice
  others : List Nat

namespace Process

def start (numbering : Numbering) (others : List Nat) : Process :=
  ⟨⟨numbering, others, 0⟩, [], others⟩

def step (process : Process) : Use → Process
  | .info path probe =>
      { process with
        descriptors := ((DeviceInfo.query path probe).exec process.descriptors).2 }
  | .openDevice path probe =>
      match (BlockDevice.new path probe).exec process.descriptors with
      | (.ok device, descriptors) =>
          { process with descriptors, devices := device :: process.devices }
      | (.error _, descriptors) => { process with descriptors }
  | .dropDevice index =>
      match process.devices[index]? with
      | none => process
      | some device =>
          { process with
            descriptors := process.descriptors.close device.fd
            devices := process.devices.eraseIdx index }
  | .othersOpen =>
      { process with
        descriptors := process.descriptors.opened.2
        others := process.descriptors.opened.1 :: process.others }
  | .othersClose index =>
      match process.others[index]? with
      | none => process
      | some fd =>
          { process with
            descriptors := process.descriptors.close fd
            others := process.others.eraseIdx index }

def run (process : Process) (uses : List Use) : Process :=
  uses.foldl step process

end Process

def Use.leaks : Use → Bool
  | .info path probe => probe.leaks path
  | .openDevice path probe => probe.leaks path
  | _ => false

def Probe.noSectorSize : Probe where
  present := true
  isBlockDevice := .ok true
  openReadOnly := .ok ()
  size := .ok 4194304
  sectorSize := .error ⟨.other, "Inappropriate ioctl for device (os error 25)"⟩
  openDirect := .ok ()

namespace Process

/-- The descriptors that somebody will close. -/
def owned (process : Process) : List Nat :=
  process.devices.map BlockDevice.fd ++ process.others

/-- Every descriptor in use has one owner or was lost, and no number was closed
that was not open. -/
structure Accounted (leaks : Nat) (process : Process) : Prop where
  nodup : process.descriptors.inUse.Nodup
  ledger : ∃ lost : List Nat, lost.length = leaks ∧
    process.descriptors.inUse.Perm (process.owned ++ lost)
  strays : process.descriptors.strays = 0

variable {process : Process} {leaks : Nat}

theorem Accounted.start (numbering : Numbering) {others : List Nat}
    (hnodup : others.Nodup) : (Process.start numbering others).Accounted 0 where
  nodup := hnodup
  ledger := ⟨[], rfl, by simp [owned, Process.start]⟩
  strays := rfl

theorem Accounted.take (haccounted : process.Accounted leaks) {next : Process}
    (hdescriptors : next.descriptors = process.descriptors.opened.2)
    (howned : next.owned.Perm (process.descriptors.opened.1 :: process.owned)) :
    next.Accounted leaks := by
  obtain ⟨lost, hlost, hperm⟩ := haccounted.ledger
  refine ⟨?_, ⟨lost, hlost, ?_⟩, ?_⟩
  · rw [hdescriptors]
    exact List.nodup_cons.mpr
      ⟨process.descriptors.numbering.next_not_mem _, haccounted.nodup⟩
  · rw [hdescriptors]
    exact (hperm.cons _).trans (howned.append_right lost).symm
  · rw [hdescriptors]
    exact haccounted.strays

theorem Accounted.lose (haccounted : process.Accounted leaks) {next : Process}
    (hdescriptors : next.descriptors = process.descriptors.opened.2)
    (howned : next.owned = process.owned) : next.Accounted (leaks + 1) := by
  obtain ⟨lost, hlost, hperm⟩ := haccounted.ledger
  refine ⟨?_, ⟨process.descriptors.opened.1 :: lost, by simp [hlost], ?_⟩, ?_⟩
  · rw [hdescriptors]
    exact List.nodup_cons.mpr
      ⟨process.descriptors.numbering.next_not_mem _, haccounted.nodup⟩
  · rw [hdescriptors, howned]
    exact (hperm.cons _).trans List.perm_middle.symm
  · rw [hdescriptors]
    exact haccounted.strays

theorem Accounted.release (haccounted : process.Accounted leaks) {next : Process}
    {fd : Nat} (hdescriptors : next.descriptors = process.descriptors.close fd)
    (howned : process.owned.Perm (fd :: next.owned)) : next.Accounted leaks := by
  obtain ⟨lost, hlost, hperm⟩ := haccounted.ledger
  have hsplit : process.descriptors.inUse.Perm (fd :: (next.owned ++ lost)) :=
    hperm.trans (howned.append_right lost)
  have hmem : fd ∈ process.descriptors.inUse :=
    hsplit.mem_iff.mpr List.mem_cons_self
  have hclosed : next.descriptors = { process.descriptors with
      inUse := process.descriptors.inUse.erase fd } := by
    rw [hdescriptors, Descriptors.close, if_pos hmem]
  refine ⟨?_, ⟨lost, hlost, ?_⟩, ?_⟩
  · rw [hclosed]
    exact haccounted.nodup.erase fd
  · rw [hclosed]
    have herased := hsplit.erase fd
    rwa [List.erase_cons_head] at herased
  · rw [hclosed]
    exact haccounted.strays

theorem perm_eraseIdx {Owner : Type} {owners : List Owner} {index : Nat}
    {owner : Owner} (hindex : owners[index]? = some owner) :
    owners.Perm (owner :: owners.eraseIdx index) := by
  obtain ⟨hlt, heq⟩ := List.getElem?_eq_some_iff.mp hindex
  rw [← heq]
  exact (List.getElem_cons_eraseIdx_perm hlt).symm

theorem Accounted.step (haccounted : process.Accounted leaks) (use : Use) :
    (process.step use).Accounted (leaks + if use.leaks then 1 else 0) := by
  cases use with
  | info path probe =>
      rcases DeviceInfo.query_cases path probe process.descriptors with
        ⟨_, hearly, hquery⟩ | ⟨_, hleaks, hquery⟩ | ⟨_, _, hkept, hquery⟩
      · have hkept : probe.leaks path = false := by simp [Probe.leaks, hearly]
        simpa [Process.step, Use.leaks, hkept, hquery] using haccounted
      · simp only [Process.step, Use.leaks, hleaks, hquery, if_true]
        exact haccounted.lose rfl rfl
      · simpa [Process.step, Use.leaks, hkept, hquery] using haccounted
  | openDevice path probe =>
      rcases BlockDevice.new_cases path probe process.descriptors with
        ⟨device, hkept, hfd, hnew⟩ | ⟨_, hnew⟩
      · simp only [Process.step, Use.leaks, hkept, hnew]
        apply haccounted.take rfl
        rw [← hfd]
        exact List.Perm.refl _
      · cases hleaks : probe.leaks path with
        | false => simpa [Process.step, Use.leaks, hleaks, hnew] using haccounted
        | true =>
            simp only [Process.step, Use.leaks, hleaks, hnew, if_true]
            exact haccounted.lose rfl rfl
  | dropDevice index =>
      simp only [Process.step, Use.leaks]
      cases hindex : process.devices[index]? with
      | none => exact haccounted
      | some device =>
          apply haccounted.release rfl
          have hdropped := (perm_eraseIdx hindex).map BlockDevice.fd
          exact hdropped.append_right process.others
  | othersOpen =>
      apply haccounted.take rfl
      exact List.perm_middle
  | othersClose index =>
      simp only [Process.step, Use.leaks]
      cases hindex : process.others[index]? with
      | none => exact haccounted
      | some fd =>
          apply haccounted.release rfl
          exact ((perm_eraseIdx hindex).append_left _).trans List.perm_middle

theorem Accounted.run (haccounted : process.Accounted leaks) (uses : List Use) :
    (process.run uses).Accounted (leaks + uses.countP Use.leaks) := by
  induction uses generalizing process leaks with
  | nil => simpa [Process.run] using haccounted
  | cons use rest ih =>
      have hrest := ih (haccounted.step use)
      rw [List.countP_cons, Nat.add_comm (rest.countP _), ← Nat.add_assoc]
      exact hrest

/-- Over the whole life of a process, whatever the system answers and whoever
else opens and closes descriptors: the devices that are alive and the other
owners hold different descriptors, all of them still open; a descriptor is only
ever closed while it is open; and beyond those held, exactly one descriptor is
left open for each lookup whose `ioctl` failed. -/
theorem descriptors_accounted (numbering : Numbering) {others : List Nat}
    (hnodup : others.Nodup) (uses : List Use) :
    ((start numbering others).run uses).owned.Nodup ∧
      (∀ fd ∈ ((start numbering others).run uses).owned,
        fd ∈ ((start numbering others).run uses).descriptors.inUse) ∧
      ((start numbering others).run uses).descriptors.strays = 0 ∧
      ((start numbering others).run uses).descriptors.inUse.length =
        ((start numbering others).run uses).owned.length +
          uses.countP Use.leaks := by
  have haccounted := (Accounted.start numbering hnodup).run uses
  obtain ⟨lost, hlost, hperm⟩ := haccounted.ledger
  have hdistinct := hperm.nodup_iff.mp haccounted.nodup
  refine ⟨hdistinct.of_append_left, ?_, haccounted.strays, ?_⟩
  · intro fd hfd
    exact hperm.mem_iff.mpr (List.mem_append_left lost hfd)
  · rw [hperm.length_eq, List.length_append, hlost, Nat.zero_add]

/-- Two failed attempts leave two descriptors open beside the standard three. -/
theorem failedLookups_accounted :
    ((start .lowest [0, 1, 2]).run [.openDevice "/dev/sda" .noSectorSize,
      .info "/dev/sda" .noSectorSize]).descriptors.inUse.length = 3 + 2 :=
  (descriptors_accounted .lowest (show [0, 1, 2].Nodup by decide) _).2.2.2

end Process

end AsmCacheInject.Io
