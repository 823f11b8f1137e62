import Chip8.Proofs.Cycle
import Chip8.Proofs.Step

/-! # Sessions

A session is any series of calls to a virtual machine on which nothing is hooked. What every
single change of the machine keeps holds at the end of every session, and wherever a step began in
it.
-/

namespace Chip8

inductive Call
  | loadRom (rom : Bytes)
  | loadRomFile (files : Files) (path : String)
  | loadProfile (files : Files) (path : String)
  | setProfile (profile : Profile)
  | setFlags (flags : Flags)
  | setBreak (addr : UInt16)
  | unsetBreak (addr : UInt16)
  | setKey (key : Nat) (down : Bool)
  | takeAction (action : Nat)
  | cycle
  | frame
  | nextFrame
  | readVariable (name : String)
  | takeOutputChanged
  | reset

def Call.resets : Call → Bool
  | .reset => true
  | _ => false

inductive Reply
  | done
  | failed (e : Error)
  | frame (frame : Frame)
  | value (value : UInt32)
  | changed (changed : Bool)
deriving DecidableEq

namespace Reply

def ofResult : Except Error Unit → Reply
  | .ok () => done
  | .error e => failed e

def ofFrame : Except Error Frame → Reply
  | .ok f => frame f
  | .error e => failed e

def ofValue : Except Error UInt32 → Reply
  | .ok v => value v
  | .error e => failed e

end Reply

namespace Vm

variable {σ : Type}

def call (vm : Vm σ) : Call → Reply × Vm σ
  | .loadRom rom => (vm.loadRom rom).map .ofResult id
  | .loadRomFile files path => (vm.loadRomFile files path).map .ofResult id
  | .loadProfile files path => (vm.loadProfile files path).map .ofResult id
  | .setProfile profile => (.done, vm.setProfile profile)
  | .setFlags flags => (.done, { vm with flags })
  | .setBreak addr => (.done, { vm with rig := vm.rig.setBreak addr })
  | .unsetBreak addr => (.done, { vm with rig := vm.rig.unsetBreak addr })
  | .setKey key down => (vm.setKey key down).map .ofResult id
  | .takeAction action => (vm.takeAction action).map .ofResult id
  | .cycle => vm.cycle.map .ofResult id
  | .frame => vm.frame.map .ofFrame id
  | .nextFrame => vm.nextFrame.map .ofFrame id
  | .readVariable name => (.ofValue (vm.readVariable name), vm)
  | .takeOutputChanged => vm.machine.takeOutputChanged.map .changed vm.setMachine
  | .reset => (.done, vm.reset)

def session : List Call → Vm σ → List Reply × Vm σ
  | [], vm => ([], vm)
  | call :: calls, vm =>
    let (reply, vm) := vm.call call
    let (replies, vm) := session calls vm
    (reply :: replies, vm)

/-! What a call can move beside its answer. -/

theorem loadRom_leaves (vm : Vm σ) (rom : Bytes) : ∃ rig, (vm.loadRom rom).2 = { vm with rig } := by
  unfold loadRom
  cases vm.machine.loadRom rom with
  | error e => exact ⟨vm.rig, rfl⟩
  | ok machine => exact ⟨_, rfl⟩

theorem loadRomFile_leaves (vm : Vm σ) (files : Files) (path : String) :
    ∃ rig, (vm.loadRomFile files path).2 = { vm with rig } := by
  unfold loadRomFile
  cases files.read path with
  | error e => exact ⟨_, rfl⟩
  | ok rom => exact loadRom_leaves _ rom

theorem loadProfile_leaves (vm : Vm σ) (files : Files) (path : String) :
    ∃ rig profile, (vm.loadProfile files path).2 = { vm with rig, profile } := by
  unfold loadProfile
  cases Profile.load files path with
  | error e => exact ⟨vm.rig, vm.profile, rfl⟩
  | ok profile =>
    obtain ⟨rig, hrig⟩ :=
      (vm.record (.profileLoaded path)).loadRomFile_leaves files profile.rom
    match hloaded : (vm.record (.profileLoaded path)).loadRomFile files profile.rom with
    | (.ok (), after) =>
      rw [hloaded] at hrig
      obtain rfl : after = { vm with rig } := hrig
      simp only [hloaded, Outcome.ok_andThen]
      exact ⟨rig, some profile, rfl⟩
    | (.error e, after) =>
      rw [hloaded] at hrig
      obtain rfl : after = { vm with rig } := hrig
      simp only [hloaded, Outcome.error_andThen]
      exact ⟨rig, vm.profile, rfl⟩

theorem setKey_leaves (vm : Vm σ) (key : Nat) (down : Bool) :
    ∃ rig, (vm.setKey key down).2 = { vm with rig } := by
  unfold setKey
  cases vm.machine.setKey key down with
  | error e => exact ⟨vm.rig, rfl⟩
  | ok machine => exact ⟨_, rfl⟩

theorem frame_leaves (vm : Vm σ) : ∃ rig, vm.frame.2 = { vm with rig } := by
  unfold frame
  cases vm.readVariables with
  | error e => exact ⟨vm.rig, rfl⟩
  | ok values => exact ⟨_, rfl⟩

theorem nextFrame_leaves (vm : Vm σ) : ∃ rig, vm.nextFrame.2 = { vm.cycle.2 with rig } := by
  unfold nextFrame
  match vm.cycle with
  | (.ok (), after) => exact after.frame_leaves
  | (.error e, after) => exact ⟨after.rig, rfl⟩

/-- The rig on which the steps of the next cycle run, if its key exists. -/
def pressed? (vm : Vm σ) : Option (Rig σ) :=
  match vm.queue with
  | [] => some vm.rig
  | key :: _ =>
    if h : key < Layout.keyCount then some (vm.rig.hold (some ⟨key, h⟩) true) else none

theorem pressed?_of_pops {vm : Vm σ} {key? : Option (Fin Layout.keyCount)} {queue : List Nat}
    (hpop : Pops vm.queue key? queue) : vm.pressed? = some (vm.rig.hold key? true) := by
  obtain ⟨rig, flags, profile, before, cycles⟩ := vm
  cases hpop with
  | idle => rfl
  | front key => simp [pressed?]

theorem pressed?_of_refused {vm : Vm σ} {key : Nat} {queue : List Nat}
    (hqueue : vm.queue = key :: queue) (hkey : Layout.keyCount ≤ key) : vm.pressed? = none := by
  simp [pressed?, hqueue, Nat.not_lt.mpr hkey]

def cycleStarts (vm : Vm σ) : List (Rig σ) :=
  match vm.pressed? with
  | some rig => Rig.starts vm.flags.ipc rig
  | none => []

def callStarts (vm : Vm σ) : Call → List (Rig σ)
  | .cycle | .nextFrame => vm.cycleStarts
  | _ => []

/-- The rigs at which the steps of a session begin. -/
def starts : List Call → Vm σ → List (Rig σ)
  | [], _ => []
  | call :: calls, vm => vm.callStarts call ++ starts calls (vm.call call).2

def cycleVisited (vm : Vm σ) : List Machine := vm.cycleStarts.map Rig.machine

def callVisited (vm : Vm σ) (call : Call) : List Machine := (vm.callStarts call).map Rig.machine

/-- The machines at which the steps of a session begin. -/
def visited (calls : List Call) (vm : Vm σ) : List Machine := (vm.starts calls).map Rig.machine

theorem cycleVisited_of_pops {vm : Vm σ} {key? : Option (Fin Layout.keyCount)} {queue : List Nat}
    (hpop : Pops vm.queue key? queue) :
    vm.cycleVisited = Rig.visited vm.flags.ipc (vm.rig.hold key? true) := by
  rw [cycleVisited, cycleStarts, pressed?_of_pops hpop]
  rfl

theorem cycleVisited_of_refused {vm : Vm σ} {key : Nat} {queue : List Nat}
    (hqueue : vm.queue = key :: queue) (hkey : Layout.keyCount ≤ key) : vm.cycleVisited = [] := by
  rw [cycleVisited, cycleStarts, pressed?_of_refused hqueue hkey]
  rfl

theorem visited_cons (call : Call) (calls : List Call) (vm : Vm σ) :
    vm.visited (call :: calls) = vm.callVisited call ++ (vm.call call).2.visited calls :=
  List.map_append

end Vm

/-- Every change that a session makes to a machine keeps `P`. -/
structure Machine.Kept (P : Machine → Prop) : Prop where
  powerOn : P .powerOn
  loaded : ∀ m memory, P m → P { m with memory }
  stepped : ∀ m roll, P m → P (m.step roll).2
  held : ∀ m key? down, P m → P (m.hold key? down)
  timed : ∀ m, P m → P m.timed
  asked : ∀ m, P m → P m.takeOutputChanged.2

theorem Machine.kept_true : Kept fun _ => True :=
  ⟨trivial, fun _ _ _ => trivial, fun _ _ _ => trivial, fun _ _ _ _ => trivial, fun _ _ => trivial,
    fun _ _ => trivial⟩

namespace Vm

variable {σ : Type} {P : Machine → Prop}

/-- Nothing is hooked, and the machine has a property. -/
structure Plain (P : Machine → Prop) (vm : Vm σ) : Prop where
  hooks : vm.rig.hooks = .empty
  machine : P vm.machine

theorem plain_loadRom (hload : ∀ m memory, P m → P { m with memory }) {vm : Vm σ}
    (hvm : vm.Plain P) (rom : Bytes) : (vm.loadRom rom).2.Plain P := by
  unfold loadRom
  cases hrom : vm.machine.loadRom rom with
  | error e => exact hvm
  | ok machine =>
    obtain ⟨memory, -, hmachine⟩ := bind_eq_ok.mp hrom
    cases hmachine
    exact ⟨hvm.hooks, hload _ memory hvm.machine⟩

theorem plain_loadRomFile (hload : ∀ m memory, P m → P { m with memory }) {vm : Vm σ}
    (hvm : vm.Plain P) (files : Files) (path : String) : (vm.loadRomFile files path).2.Plain P := by
  have hrecord : (vm.record (.readingFile path)).Plain P := ⟨hvm.hooks, hvm.machine⟩
  unfold loadRomFile
  cases hread : files.read path with
  | error e => exact hrecord
  | ok rom => exact plain_loadRom hload hrecord rom

theorem plain_loadProfile (hload : ∀ m memory, P m → P { m with memory }) {vm : Vm σ}
    (hvm : vm.Plain P) (files : Files) (path : String) : (vm.loadProfile files path).2.Plain P := by
  unfold loadProfile
  cases hprofile : Profile.load files path with
  | error e => exact hvm
  | ok profile =>
    have hrecord : (vm.record (.profileLoaded path)).Plain P := ⟨hvm.hooks, hvm.machine⟩
    have hrom := plain_loadRomFile hload hrecord files profile.rom
    match hloaded : (vm.record (.profileLoaded path)).loadRomFile files profile.rom with
    | (.ok (), after) =>
      rw [hloaded] at hrom
      simpa [hloaded] using (⟨hrom.hooks, hrom.machine⟩ : (after.setProfile profile).Plain P)
    | (.error e, after) =>
      rw [hloaded] at hrom
      simpa [hloaded] using hrom

theorem plain_setKey (hhold : ∀ m key? down, P m → P (m.hold key? down)) {vm : Vm σ}
    (hvm : vm.Plain P) (key : Nat) (down : Bool) : (vm.setKey key down).2.Plain P := by
  unfold setKey
  obtain hkey | hkey := Nat.lt_or_ge key Layout.keyCount
  · have hset := Machine.setKey_fin vm.machine ⟨key, hkey⟩ down
    simp only [hset]
    exact ⟨hvm.hooks, hhold _ (some ⟨key, hkey⟩) down hvm.machine⟩
  · rw [Machine.setKey_eq_error hkey]
    exact hvm

theorem plain_takeAction {vm : Vm σ} (hvm : vm.Plain P) (action : Nat) :
    (vm.takeAction action).2.Plain P := by
  unfold takeAction
  match vm.actionKey action with
  | .ok (some key) => exact ⟨hvm.hooks, hvm.machine⟩
  | .ok none => exact hvm
  | .error e => exact hvm

theorem plain_frame (hkept : Machine.Kept P) {vm : Vm σ} (hvm : vm.Plain P) :
    vm.frame.2.Plain P := by
  unfold frame
  cases vm.readVariables with
  | error e => exact hvm
  | ok values => exact ⟨hvm.hooks, hkept.asked _ hvm.machine⟩

theorem plain_cycle (hkept : Machine.Kept P) {vm : Vm σ} (hvm : vm.Plain P) :
    vm.cycle.2.Plain P ∧ ∀ m ∈ vm.cycleVisited, P m := by
  obtain ⟨key?, queue, hpop⟩ | ⟨key, queue, hqueue, hkey⟩ := pops_or_refused vm.queue
  · have hhooks : (vm.rig.hold key? true).hooks = .empty := hvm.hooks
    have hlast := Rig.hooks_steps vm.flags.ipc hhooks
    obtain ⟨hmachine, hvisited⟩ := Rig.steps_keep hkept.stepped vm.flags.ipc hhooks
      (hkept.held _ _ _ hvm.machine)
    rw [cycle_of_pops hpop, cycleVisited_of_pops hpop]
    refine ⟨?_, hvisited⟩
    match hsteps : Rig.steps vm.flags.ipc (vm.rig.hold key? true) with
    | (.ok (), last) =>
      rw [hsteps] at hlast hmachine
      exact ⟨hlast, hkept.held _ _ _ (hkept.timed _ hmachine)⟩
    | (.error e, last) =>
      rw [hsteps] at hlast hmachine
      exact ⟨hlast, hkept.held _ _ _ hmachine⟩
  · rw [cycle_of_refused hqueue hkey, cycleVisited_of_refused hqueue hkey]
    exact ⟨⟨hvm.hooks, hvm.machine⟩, by simp⟩

theorem plain_nextFrame (hkept : Machine.Kept P) {vm : Vm σ} (hvm : vm.Plain P) :
    vm.nextFrame.2.Plain P := by
  have hcycle := (plain_cycle hkept hvm).1
  unfold nextFrame
  match hafter : vm.cycle with
  | (.ok (), after) =>
    rw [hafter] at hcycle
    exact plain_frame hkept hcycle
  | (.error e, after) =>
    rw [hafter] at hcycle
    exact hcycle

theorem plain_reset (hkept : Machine.Kept P) {vm : Vm σ} (hvm : vm.Plain P) :
    vm.reset.Plain P := by
  simp only [reset, record, Rig.record, setMachine]
  exact ⟨hvm.hooks, hkept.powerOn⟩

theorem plain_call (hkept : Machine.Kept P) {vm : Vm σ} (hvm : vm.Plain P) (call : Call) :
    (vm.call call).2.Plain P := by
  cases call with
  | loadRom rom => exact plain_loadRom hkept.loaded hvm rom
  | loadRomFile files path => exact plain_loadRomFile hkept.loaded hvm files path
  | loadProfile files path => exact plain_loadProfile hkept.loaded hvm files path
  | setProfile | setFlags | unsetBreak => exact ⟨hvm.hooks, hvm.machine⟩
  | setBreak addr =>
    simp only [Vm.call, Rig.setBreak]
    split
    · exact hvm
    · exact ⟨hvm.hooks, hvm.machine⟩
  | setKey key down => exact plain_setKey hkept.held hvm key down
  | takeAction action => exact plain_takeAction hvm action
  | cycle => exact (plain_cycle hkept hvm).1
  | frame => exact plain_frame hkept hvm
  | nextFrame => exact plain_nextFrame hkept hvm
  | readVariable => exact hvm
  | takeOutputChanged => exact ⟨hvm.hooks, hkept.asked _ hvm.machine⟩
  | reset => exact plain_reset hkept hvm

theorem visited_call (hkept : Machine.Kept P) {vm : Vm σ} (hvm : vm.Plain P) (call : Call) :
    ∀ m ∈ vm.callVisited call, P m := by
  cases call with
  | cycle | nextFrame => exact (plain_cycle hkept hvm).2
  | _ => simp [callVisited, callStarts]

/-- What all changes of a machine keep holds at the end of a session and wherever one of its steps
began. -/
theorem plain_session (hkept : Machine.Kept P) (calls : List Call) {vm : Vm σ}
    (hvm : vm.Plain P) : (vm.session calls).2.Plain P ∧ ∀ m ∈ vm.visited calls, P m := by
  induction calls generalizing vm with
  | nil => exact ⟨hvm, by simp [visited, starts]⟩
  | cons call calls ih =>
    obtain ⟨hlast, hlater⟩ := ih (plain_call hkept hvm call)
    refine ⟨hlast, fun m hm => ?_⟩
    rw [visited_cons, List.mem_append] at hm
    obtain hhere | hafter := hm
    · exact visited_call hkept hvm call m hhere
    · exact hlater m hafter

end Vm

end Chip8
