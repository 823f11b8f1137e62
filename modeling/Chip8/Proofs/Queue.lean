import Chip8.Proofs.Acts
import Chip8.Proofs.Keys

/-! # The queue of keys

An action queues the key that the profile of that moment names for it. A cycle takes the key at
the front of the queue, whether or not it is complete in the end, and holds it down for all that
it executes. So the keys that cycles have taken and those that wait are the keys that actions have
asked for, in their order.
-/

namespace Chip8

def Profile.key? (profile : Profile) : Nat → Option Nat
  | 0 => none
  | index + 1 => ((profile.actions.getD [])[index]?).map UInt64.toNat

namespace Vm

variable {σ : Type}

theorem currentProfile_eq_ok_iff {vm : Vm σ} {profile : Profile} :
    vm.currentProfile = .ok profile ↔ vm.profile = some profile := by
  unfold currentProfile
  cases vm.profile <;> simp

theorem actions_eq_ok_iff {vm : Vm σ} {keys : List UInt64} : vm.actions = .ok keys ↔
    ∃ profile, vm.profile = some profile ∧ profile.actions = some keys := by
  simp only [actions, bind_eq_ok, currentProfile_eq_ok_iff]
  refine exists_congr fun profile => and_congr_right fun _ => ?_
  cases profile.actions <;> simp [pure, Except.pure, throw, throwThe, MonadExceptOf.throw]

/-- The ends of an action, each with what it answers and what it leaves. -/
inductive ActionEnd (vm : Vm σ) : Nat → Except Error Unit → Vm σ → Prop
  | idle : ActionEnd vm 0 (.ok ()) vm
  | queued {profile : Profile} {index key : Nat} (hprofile : vm.profile = some profile)
      (hkey : profile.key? (index + 1) = some key) :
      ActionEnd vm (index + 1) (.ok ()) { vm with queue := vm.queue ++ [key] }
  | refused (action : Nat) (e : Error) : ActionEnd vm action (.error e) vm

theorem takeAction_end (vm : Vm σ) (action : Nat) :
    ActionEnd vm action (vm.takeAction action).1 (vm.takeAction action).2 := by
  unfold takeAction
  match hkey : vm.actionKey action with
  | .error e => exact .refused action e
  | .ok key? =>
    obtain ⟨keys, hkeys, hkey⟩ := bind_eq_ok.mp hkey
    obtain ⟨profile, hprofile, hactions⟩ := actions_eq_ok_iff.mp hkeys
    cases action with
    | zero =>
      cases hkey
      exact .idle
    | succ index =>
      cases hget : keys[index]? with
      | none => simp [hget, throw, throwThe, MonadExceptOf.throw] at hkey
      | some key =>
        simp only [hget] at hkey
        cases hkey
        refine .queued hprofile ?_
        rw [Profile.key?, hactions, Option.getD_some, hget, Option.map_some]

theorem takeAction_of_key {vm : Vm σ} {profile : Profile} {index key : Nat}
    (hprofile : vm.profile = some profile) (hkey : profile.key? (index + 1) = some key) :
    vm.takeAction (index + 1) = (.ok (), { vm with queue := vm.queue ++ [key] }) := by
  obtain ⟨word, hget, rfl⟩ := Option.map_eq_some_iff.mp hkey
  cases hactions : profile.actions with
  | none => simp [hactions] at hget
  | some keys =>
    rw [hactions, Option.getD_some] at hget
    have hkeys : vm.actions = .ok keys := actions_eq_ok_iff.mpr ⟨profile, hprofile, hactions⟩
    have haction : vm.actionKey (index + 1) = .ok (some word.toNat) :=
      bind_eq_ok.mpr ⟨keys, hkeys, by simp only [hget]; rfl⟩
    rw [takeAction, haction]

/-- What the steps of the next cycle execute. -/
def cycleActs (vm : Vm σ) : List Act :=
  match vm.pressed? with
  | some rig => rig.acts vm.flags.ipc
  | none => []

/-- A cycle that takes a key runs its steps with the key down and lets it go behind them, and its
acts lead from the machine with the key down to the one that the steps leave. -/
structure Ran (vm : Vm σ) (key? : Option (Fin Layout.keyCount)) (rest : List Nat) : Prop where
  cycle : vm.cycle = vm.close key? rest (Rig.steps vm.flags.ipc (vm.rig.hold key? true))
  acts : Leads vm.rig.hooks (vm.machine.hold key? true) vm.cycleActs
    (Rig.steps vm.flags.ipc (vm.rig.hold key? true)).2.machine

theorem ran_of_pops {vm : Vm σ} {key? : Option (Fin Layout.keyCount)} {rest : List Nat}
    (hpop : Pops vm.queue key? rest) : vm.Ran key? rest := by
  refine ⟨cycle_of_pops hpop, ?_⟩
  rw [cycleActs, pressed?_of_pops hpop]
  exact Rig.leads_acts vm.flags.ipc (vm.rig.hold key? true)

theorem Ran.held {vm : Vm σ} {key : Fin Layout.keyCount} {rest : List Nat}
    (h : vm.Ran (some key) rest) : HeldIn key vm.cycleActs :=
  h.acts.held ((Machine.down_hold vm.machine (some key) true key).trans (if_pos rfl))

theorem hooked_cycleActs {vm : Vm σ} (hhooks : vm.rig.hooks = .empty) :
    ∀ act ∈ vm.cycleActs, act.hooked = false := by
  obtain ⟨key?, rest, hpop⟩ | ⟨key, rest, hqueue, hkey⟩ := pops_or_refused vm.queue
  · apply (ran_of_pops hpop).acts.plain
    intro op
    rw [hhooks, HookTable.hook?_empty]
  · rw [cycleActs, pressed?_of_refused hqueue hkey]
    simp

theorem Pops.tail {queue rest : List Nat} {key? : Option (Fin Layout.keyCount)}
    (hpop : Pops queue key? rest) : queue.tail = rest := by
  cases hpop <;> rfl

theorem queue_cycle (vm : Vm σ) : vm.cycle.2.queue = vm.queue.tail := by
  obtain ⟨key?, queue, hpop⟩ | ⟨key, queue, hqueue, hkey⟩ := pops_or_refused vm.queue
  · rw [cycle_of_pops hpop, hpop.tail]
    match Rig.steps vm.flags.ipc (vm.rig.hold key? true) with
    | (.ok (), last) => rfl
    | (.error e, last) => rfl
  · rw [cycle_of_refused hqueue hkey, hqueue, List.tail_cons]

theorem queue_nextFrame (vm : Vm σ) : vm.nextFrame.2.queue = vm.queue.tail := by
  obtain ⟨rig, hframe⟩ := vm.nextFrame_leaves
  rw [hframe]
  exact vm.queue_cycle

/-- What a call asks for: the key that the present profile names for an action that succeeds. -/
def asks (vm : Vm σ) : Call → List Nat
  | .takeAction action =>
    match (vm.takeAction action).1 with
    | .ok () => (vm.profile.bind fun profile => profile.key? action).toList
    | .error _ => []
  | _ => []

def takes (vm : Vm σ) : Call → List Nat
  | .cycle | .nextFrame => vm.queue.take 1
  | _ => []

theorem queue_takeAction (vm : Vm σ) (action : Nat) :
    (vm.takeAction action).2.queue = vm.queue ++ vm.asks (.takeAction action) := by
  have hend := vm.takeAction_end action
  rw [asks]
  match vm.takeAction action, hend with
  | (_, _), .idle =>
    cases vm.profile <;> simp [Profile.key?]
  | (_, _), .queued hprofile hkey => simp [hprofile, hkey]
  | (_, _), .refused _ _ => simp

theorem queue_call (vm : Vm σ) {call : Call} (hcall : call.resets = false) :
    vm.takes call ++ (vm.call call).2.queue = vm.queue ++ vm.asks call := by
  have hkeep : ∀ {after : Vm σ} {rig profile}, after = { vm with rig, profile } →
      [] ++ after.queue = vm.queue ++ [] := by
    intro after rig profile hafter
    rw [hafter, List.nil_append, List.append_nil]
  have htail : vm.queue.take 1 ++ vm.queue.tail = vm.queue ++ [] := by
    cases vm.queue <;> simp
  cases call with
  | loadRom rom =>
    obtain ⟨rig, hafter⟩ := vm.loadRom_leaves rom
    exact hkeep hafter
  | loadRomFile files path =>
    obtain ⟨rig, hafter⟩ := vm.loadRomFile_leaves files path
    exact hkeep hafter
  | loadProfile files path =>
    obtain ⟨rig, profile, hafter⟩ := vm.loadProfile_leaves files path
    exact hkeep hafter
  | setKey key down =>
    obtain ⟨rig, hafter⟩ := vm.setKey_leaves key down
    exact hkeep hafter
  | frame =>
    obtain ⟨rig, hafter⟩ := vm.frame_leaves
    exact hkeep hafter
  | setProfile | setFlags | setBreak | unsetBreak | readVariable | takeOutputChanged =>
    exact (List.append_nil vm.queue).symm
  | takeAction action => exact vm.queue_takeAction action
  | cycle =>
    rw [← vm.queue_cycle] at htail
    exact htail
  | nextFrame =>
    rw [← vm.queue_nextFrame] at htail
    exact htail
  | reset => cases hcall

def asked : List Call → Vm σ → List Nat
  | [], _ => []
  | call :: calls, vm => vm.asks call ++ asked calls (vm.call call).2

def taken : List Call → Vm σ → List Nat
  | [], _ => []
  | call :: calls, vm => vm.takes call ++ taken calls (vm.call call).2

theorem queue_session {calls : List Call} (hcalls : ∀ call ∈ calls, call.resets = false)
    (vm : Vm σ) : vm.taken calls ++ (vm.session calls).2.queue = vm.queue ++ vm.asked calls := by
  induction calls generalizing vm with
  | nil => exact (List.append_nil vm.queue).symm
  | cons call calls ih =>
    have hcall := vm.queue_call (hcalls call List.mem_cons_self)
    have hlater := ih (fun other hother => hcalls other (List.mem_cons_of_mem call hother))
      (vm.call call).2
    calc
      _ = vm.takes call ++
          ((vm.call call).2.taken calls ++ ((vm.call call).2.session calls).2.queue) :=
        List.append_assoc _ _ _
      _ = (vm.takes call ++ (vm.call call).2.queue) ++ (vm.call call).2.asked calls := by
        rw [hlater, List.append_assoc]
      _ = vm.queue ++ vm.asked (call :: calls) := by
        rw [hcall, asked, List.append_assoc]

/-- What becomes of the keys in the queue, wherever a series of calls has led. -/
structure Delivered (vm : Vm σ) (calls : List Call) : Prop where
  inOrder : vm.taken calls ++ (vm.session calls).2.queue = vm.queue ++ vm.asked calls
  queued : ∀ index after, (vm.session calls).2.takeAction (index + 1) = (.ok (), after) ↔
    ∃ profile key, (vm.session calls).2.profile = some profile ∧
      profile.key? (index + 1) = some key ∧
      after = { (vm.session calls).2 with queue := (vm.session calls).2.queue ++ [key] }
  unchanged : ∀ action result after, (vm.session calls).2.takeAction action = (result, after) →
    action = 0 ∨ result ≠ .ok () → after = (vm.session calls).2
  one : (vm.session calls).2.cycle.2.queue = (vm.session calls).2.queue.tail
  refused : ∀ key rest, (vm.session calls).2.queue = key :: rest → Layout.keyCount ≤ key →
    (vm.session calls).2.cycle =
      (.error (.invalidKey key), { (vm.session calls).2 with queue := rest })
  ran : ∀ key? rest, Pops (vm.session calls).2.queue key? rest → (vm.session calls).2.Ran key? rest
  /-- The key in front is down for all that the cycle executes, unless a handler has let it go. -/
  held : ∀ key : Fin Layout.keyCount, (vm.session calls).2.queue.head? = some key.val →
    HeldIn key (vm.session calls).2.cycleActs
  plain : (vm.session calls).2.rig.hooks = .empty →
    ∀ act ∈ (vm.session calls).2.cycleActs, act.hooked = false

/-- Keys are delivered in the order in which they were asked for, each in one cycle. -/
theorem session_delivered (vm : Vm σ) {calls : List Call}
    (hcalls : ∀ call ∈ calls, call.resets = false) : vm.Delivered calls := by
  refine ⟨queue_session hcalls vm, ?_, ?_, queue_cycle _, ?_, ?_, ?_, hooked_cycleActs⟩
  · intro index after
    constructor
    · intro haction
      have hend := (vm.session calls).2.takeAction_end (index + 1)
      rw [haction] at hend
      cases hend with
      | queued hprofile hkey => exact ⟨_, _, hprofile, hkey, rfl⟩
    · rintro ⟨profile, key, hprofile, hkey, rfl⟩
      exact takeAction_of_key hprofile hkey
  · intro action result after haction hidle
    have hend := (vm.session calls).2.takeAction_end action
    rw [haction] at hend
    cases hend with
    | idle | refused => rfl
    | queued =>
      obtain hzero | hfailed := hidle
      · exact absurd hzero (Nat.succ_ne_zero _)
      · exact absurd rfl hfailed
  · intro key rest hqueue hkey
    exact cycle_of_refused hqueue hkey
  · intro key? rest hpop
    exact ran_of_pops hpop
  · intro key hhead
    obtain ⟨rest, hqueue⟩ := List.head?_eq_some_iff.mp hhead
    have hpop : Pops (vm.session calls).2.queue (some key) rest := by
      rw [hqueue]
      exact .front key rest
    exact (ran_of_pops hpop).held

/-- The profile is replaced while a key that the first one names still waits. -/
def swapProfiles : List Call :=
  [.setProfile ⟨"", .empty, some [4]⟩, .takeAction 1, .setProfile ⟨"", .empty, some [7]⟩,
    .takeAction 1, .cycle]

/-- Three instructions a cycle, which loop until key 7 is found down. -/
def seeking : Vm Unit :=
  ofRig ⟨false, 3, 60⟩ { Rig.powerOn ⟨fun _ => 0, 0⟩ () (.empty .off) with
    machine := { Machine.powerOn with
      memory := Memory.powerOn.overlay Layout.programStart
        [0x60, 0x07, 0xe0, 0x9e, 0x12, 0x00, 0x12, 0x06] } }

theorem swapProfiles_delivered : (∀ call ∈ swapProfiles, call.resets = false) ∧
    seeking.taken swapProfiles = [4] ∧ (seeking.session swapProfiles).2.queue = [7] ∧
    (seeking.session swapProfiles).2.machine.pc = 0x200 ∧
    (seeking.session swapProfiles).2.cycle.2.machine.pc = 0x206 ∧
    (seeking.session swapProfiles).2.cycleActs.length = 3 ∧
    ∀ act ∈ (seeking.session swapProfiles).2.cycleActs, act.before.down 7 = true := by
  have hcalls : ∀ call ∈ swapProfiles, call.resets = false := by
    simp [swapProfiles, Call.resets]
  have hdelivered : seeking.Delivered swapProfiles := session_delivered seeking hcalls
  have htaken : seeking.taken swapProfiles = [4] := by decide +kernel
  have horder : [4] ++ (seeking.session swapProfiles).2.queue = [] ++ [4, 7] := by
    rw [← htaken, hdelivered.inOrder]
    decide +kernel
  have hqueue := List.append_cancel_left horder
  obtain ⟨hpc, hlength⟩ : (seeking.session swapProfiles).2.machine.pc = 0x200 ∧
      (seeking.session swapProfiles).2.cycleActs.length = 3 := by
    decide +kernel
  have hhooks : (seeking.session swapProfiles).2.rig.hooks = .empty :=
    (plain_session Machine.kept_true swapProfiles ⟨rfl, trivial⟩).1.hooks
  have hafter : (seeking.session swapProfiles).2.cycle.2.machine.pc = 0x206 := by decide +kernel
  refine ⟨hcalls, htaken, hqueue, hpc, hafter, hlength, ?_⟩
  intro act hact
  obtain ⟨earlier, later, hsplit⟩ := List.append_of_mem hact
  have hheld := hdelivered.held 7 (by rw [hqueue]; rfl) earlier act later hsplit
  obtain hdown | ⟨other, hmem, hgone⟩ := hheld
  · exact hdown
  · -- Nothing is hooked, so nothing has let the key go.
    have hown := hdelivered.plain hhooks other (by simp [hsplit, hmem])
    exact absurd hgone.1 (ne_true_of_eq_false hown)

end Vm

end Chip8
