import Chip8.Proofs.Hooks
import Chip8.Proofs.Profiles
import Chip8.Proofs.Queue

/-! # Accepted profiles keep the scheduler going

A profile that was read from a text or a file names only keys that exist. If every profile that a
virtual machine is given was read so, its queue holds only keys that exist, whatever is called and
hooked in whatever order, and so no cycle fails for the key that it presses or lets go.
-/

namespace Chip8

/-- A profile as it was accepted, from a text or from a file. -/
inductive Profile.Accepted : Profile → Prop
  | ofJson {text : String} {profile : Profile} (h : Profile.ofJson text = .ok profile) :
      Profile.Accepted profile
  | load {files : Files} {path : String} {profile : Profile}
      (h : Profile.load files path = .ok profile) : Profile.Accepted profile

theorem Profile.actions_relocate (profile : Profile) (path : String) :
    (profile.relocate path).actions = profile.actions := by
  unfold relocate
  split <;> rfl

theorem Profile.Accepted.keysExist {profile : Profile} (h : profile.Accepted) :
    profile.KeysExist := by
  cases h with
  | ofJson h => exact (ofJson_eq_ok_iff.mp h).2
  | load h =>
    -- Only the path of the program is another one than in the text.
    obtain ⟨text, -, h⟩ := bind_eq_ok.mp h
    obtain ⟨parsed, hparsed, h⟩ := bind_eq_ok.mp h
    cases h
    rw [KeysExist, actions_relocate]
    exact (ofJson_eq_ok_iff.mp hparsed).2

theorem Profile.KeysExist.key_lt {profile : Profile} (h : profile.KeysExist) {action key : Nat}
    (hkey : profile.key? action = some key) : key < Layout.keyCount := by
  cases action with
  | zero => cases hkey
  | succ index =>
    obtain ⟨word, hword, rfl⟩ := Option.map_eq_some_iff.mp hkey
    exact h word (List.mem_of_getElem? hword)

/-- A profile that a call hands over was accepted. What a call loads is accepted by itself. -/
def Call.HandsAccepted : Call → Prop
  | .setProfile profile => profile.Accepted
  | _ => True

def HookOp.HandsAccepted {σ : Type} : HookOp σ → Prop
  | .call c => c.HandsAccepted
  | _ => True

namespace Vm

variable {σ : Type}

theorem profile_cycle (vm : Vm σ) : vm.cycle.2.profile = vm.profile := by
  obtain ⟨key?, queue, hpop⟩ | ⟨key, queue, hqueue, hkey⟩ := pops_or_refused vm.queue
  · rw [cycle_of_pops hpop]
    match Rig.steps vm.flags.ipc (vm.rig.hold key? true) with
    | (.ok (), last) => rfl
    | (.error e, last) => rfl
  · rw [cycle_of_refused hqueue hkey]

theorem profile_nextFrame (vm : Vm σ) : vm.nextFrame.2.profile = vm.profile := by
  obtain ⟨rig, hframe⟩ := vm.nextFrame_leaves
  rw [hframe]
  exact vm.profile_cycle

theorem profile_takeAction (vm : Vm σ) (action : Nat) :
    (vm.takeAction action).2.profile = vm.profile := by
  have hend := vm.takeAction_end action
  match vm.takeAction action, hend with
  | (_, _), .idle => rfl
  | (_, _), .queued _ _ => rfl
  | (_, _), .refused _ _ => rfl

theorem profile_loadProfile (vm : Vm σ) (files : Files) (path : String) :
    (vm.loadProfile files path).2.profile = vm.profile ∨
      ∃ profile, profile.Accepted ∧ (vm.loadProfile files path).2.profile = some profile := by
  unfold loadProfile
  cases hload : Profile.load files path with
  | error e => exact .inl rfl
  | ok profile =>
    obtain ⟨rig, hrig⟩ :=
      (vm.record (.profileLoaded path)).loadRomFile_leaves files profile.rom
    match hloaded : (vm.record (.profileLoaded path)).loadRomFile files profile.rom with
    | (.ok (), after) =>
      simp only [hloaded, Outcome.ok_andThen]
      exact .inr ⟨profile, .load hload, rfl⟩
    | (.error e, after) =>
      rw [hloaded] at hrig
      obtain rfl : after = { vm with rig } := hrig
      left
      simp only [hloaded, Outcome.error_andThen]

/-- A call leaves the profile as it was, or puts an accepted one in its place. -/
theorem profile_call (vm : Vm σ) {call : Call} (hcall : call.HandsAccepted) :
    (vm.call call).2.profile = vm.profile ∨
      ∃ profile, profile.Accepted ∧ (vm.call call).2.profile = some profile := by
  have hkeep : ∀ {after : Vm σ} {rig}, after = { vm with rig } → after.profile = vm.profile := by
    rintro after rig rfl
    rfl
  cases call with
  | loadRom rom =>
    obtain ⟨rig, hafter⟩ := vm.loadRom_leaves rom
    exact .inl (hkeep hafter)
  | loadRomFile files path =>
    obtain ⟨rig, hafter⟩ := vm.loadRomFile_leaves files path
    exact .inl (hkeep hafter)
  | loadProfile files path => exact vm.profile_loadProfile files path
  | setProfile profile => exact .inr ⟨profile, hcall, rfl⟩
  | setKey key down =>
    obtain ⟨rig, hafter⟩ := vm.setKey_leaves key down
    exact .inl (hkeep hafter)
  | takeAction action => exact .inl (vm.profile_takeAction action)
  | cycle => exact .inl vm.profile_cycle
  | frame =>
    obtain ⟨rig, hafter⟩ := vm.frame_leaves
    exact .inl (hkeep hafter)
  | nextFrame => exact .inl vm.profile_nextFrame
  | reset =>
    left
    simp only [Vm.call, reset, record, setMachine]
  | setFlags | setBreak | unsetBreak | readVariable | takeOutputChanged => exact .inl rfl

/-- All keys exist that wait in the queue and that the profile lets a controller press. -/
structure KeysExist (vm : Vm σ) : Prop where
  queue : ∀ key ∈ vm.queue, key < Layout.keyCount
  profile : ∀ profile, vm.profile = some profile → profile.KeysExist

theorem KeysExist.asks {vm : Vm σ} (h : vm.KeysExist) {call : Call} {key : Nat}
    (hkey : key ∈ vm.asks call) : key < Layout.keyCount := by
  cases call with
  | takeAction action =>
    rw [Vm.asks] at hkey
    split at hkey
    case h_1 =>
      rw [Option.mem_toList, Option.bind_eq_some_iff] at hkey
      obtain ⟨profile, hprofile, hkey⟩ := hkey
      exact (h.profile profile hprofile).key_lt hkey
    case h_2 => cases hkey
  | _ => cases hkey

theorem KeysExist.call {vm : Vm σ} (h : vm.KeysExist) {call : Call} (hcall : call.HandsAccepted) :
    (vm.call call).2.KeysExist := by
  constructor
  · intro key hkey
    cases hreset : call.resets with
    | true =>
      cases call with
      | reset => cases hkey
      | _ => cases hreset
    | false =>
      have hmem : key ∈ vm.queue ++ vm.asks call := by
        rw [← queue_call vm hreset]
        exact List.mem_append_right _ hkey
      obtain hbefore | hasked := List.mem_append.mp hmem
      · exact h.queue key hbefore
      · exact h.asks hasked
  · intro profile hprofile
    obtain hsame | ⟨other, haccepted, hother⟩ := vm.profile_call hcall
    · exact h.profile profile (hsame ▸ hprofile)
    · cases hother.symm.trans hprofile
      exact haccepted.keysExist

theorem KeysExist.hookOp {vm : Vm σ} (h : vm.KeysExist) {op : HookOp σ} (hop : op.HandsAccepted) :
    (vm.hookOp op).KeysExist := by
  cases op with
  | set | unset | unsetAll => exact ⟨h.queue, h.profile⟩
  | call call => exact h.call hop

theorem KeysExist.hookOps {ops : List (HookOp σ)} (hops : ∀ op ∈ ops, op.HandsAccepted)
    {vm : Vm σ} (h : vm.KeysExist) : (vm.hookOps ops).KeysExist := by
  induction ops generalizing vm with
  | nil => exact h
  | cons op ops ih =>
    obtain ⟨hop, hlater⟩ := List.forall_mem_cons.mp hops
    exact ih hlater (h.hookOp hop)

theorem takeAction_eq_ok_iff (vm : Vm σ) (action : Nat) : (vm.takeAction action).1 = .ok () ↔
    ∃ count, vm.actionCount = .ok count ∧ action < count := by
  have hkey : (vm.takeAction action).1 = .ok () ↔ ∃ key?, vm.actionKey action = .ok key? := by
    unfold takeAction
    match vm.actionKey action with
    | .ok (some key) => simp
    | .ok none => simp
    | .error e => simp
  rw [hkey]
  unfold actionKey actionCount
  cases vm.actions with
  | error e => simp [bind, Except.bind]
  | ok keys =>
    cases action with
    | zero => simp [bind, Except.bind, pure, Except.pure]
    | succ index =>
      obtain hindex | hindex := Nat.lt_or_ge index keys.length
      · simp [bind, Except.bind, pure, Except.pure, hindex]
      · simp [bind, Except.bind, pure, Except.pure, throw, throwThe, MonadExceptOf.throw,
          Nat.not_lt.mpr hindex]

/-- The scheduler never fails for a key of the queue. -/
structure Runs (vm : Vm σ) : Prop where
  queue : ∀ key ∈ vm.queue, key < Layout.keyCount
  /-- The key in front can be pressed, and let go after the instructions, whatever these do. -/
  moves : ∀ key queue, vm.queue = key :: queue →
    ∃ pressed released, setKey key true { vm with queue } = (.ok (), pressed) ∧
      setKey key false pressed.burst.2 = (.ok (), released)
  /-- So a cycle fails exactly if an instruction does, and with the same error. -/
  answers : ∃ rig, vm.pressed? = some rig ∧ vm.cycle.1 = (Rig.steps vm.flags.ipc rig).1
  actions : ∀ action, (vm.takeAction action).1 = .ok () ↔
    ∃ count, vm.actionCount = .ok count ∧ action < count

theorem setKey_of_lt (vm : Vm σ) {key : Nat} (hkey : key < Layout.keyCount) (down : Bool) :
    ∃ after, vm.setKey key down = (.ok (), after) := by
  have hset := Machine.setKey_fin vm.machine ⟨key, hkey⟩ down
  refine ⟨vm.setMachine (vm.machine.hold (some ⟨key, hkey⟩) down), ?_⟩
  simp only [setKey, hset]

theorem KeysExist.runs {vm : Vm σ} (h : vm.KeysExist) : vm.Runs := by
  refine ⟨h.queue, ?_, ?_, vm.takeAction_eq_ok_iff⟩
  · intro key queue hqueue
    have hkey : key < Layout.keyCount := h.queue key (hqueue ▸ List.mem_cons_self)
    obtain ⟨pressed, hpressed⟩ := setKey_of_lt { vm with queue } hkey true
    obtain ⟨released, hreleased⟩ := setKey_of_lt pressed.burst.2 hkey false
    exact ⟨pressed, released, hpressed, hreleased⟩
  · obtain ⟨key?, queue, hpop⟩ | ⟨key, queue, hqueue, hkey⟩ := pops_or_refused vm.queue
    · refine ⟨vm.rig.hold key? true, ?_, ?_⟩
      · exact pressed?_of_pops hpop
      · rw [cycle_of_pops hpop]
        match Rig.steps vm.flags.ipc (vm.rig.hold key? true) with
        | (.ok (), last) => rfl
        | (.error e, last) => rfl
    · have hlt := h.queue key (hqueue ▸ List.mem_cons_self)
      exact absurd hlt (Nat.not_lt.mpr hkey)

/-- As long as every profile that is handed over was accepted, the scheduler runs, wherever a
history has led. A text is accepted for a profile whose keys exist, and else refused for the first
that does not. -/
theorem accepted_history_runs (flags : Flags) (rig : Rig σ) {ops : List (HookOp σ)}
    (hops : ∀ op ∈ ops, op.HandsAccepted) :
    ((ofRig flags rig).hookOps ops).Runs ∧ ∀ text,
      (∀ profile, Profile.ofJson text = .ok profile ↔
        Json.readAll Profile.readJson text = .ok profile ∧ profile.KeysExist) ∧
      ∀ missing, Profile.ofJson text = .error (.invalidKey missing) ↔
        ∃ profile before key after, Json.readAll Profile.readJson text = .ok profile ∧
          profile.actions = some (before ++ key :: after) ∧
          (∀ other ∈ before, other.toNat < Layout.keyCount) ∧ Layout.keyCount ≤ key.toNat ∧
          missing = key.toNat := by
  have hnew : (ofRig flags rig).KeysExist := by
    constructor
    · intro key hkey
      cases hkey
    · intro profile hprofile
      cases hprofile
  refine ⟨(hnew.hookOps hops).runs, ?_⟩
  intro text
  constructor
  · intro profile
    exact Profile.ofJson_eq_ok_iff
  · intro missing
    exact Profile.ofJson_eq_invalidKey_iff

theorem swapProfiles_runs :
    (∀ op ∈ swapProfiles.map HookOp.call, HookOp.HandsAccepted (σ := Unit) op) ∧
      (untouched.hookOps (swapProfiles.map .call)).queue = [7] ∧
      (untouched.hookOps (swapProfiles.map .call)).Runs := by
  have haccepted : ∀ key : UInt64, key.toNat < Layout.keyCount →
      (⟨"", .empty, some [key]⟩ : Profile).Accepted := by
    intro key hkey
    exact .ofJson (Profile.ofJson_toJson_of_keysExist (List.forall_mem_singleton.mpr hkey))
  have hops : ∀ op ∈ swapProfiles.map HookOp.call, HookOp.HandsAccepted (σ := Unit) op := by
    simp only [swapProfiles, List.map_cons, List.map_nil, List.forall_mem_cons]
    refine ⟨haccepted _ (by decide), trivial, haccepted _ (by decide), trivial, trivial, ?_⟩
    rintro op ⟨⟩
  have hqueue : (untouched.hookOps (swapProfiles.map .call)).queue = [7] := by
    simp only [swapProfiles, List.map_cons, List.map_nil, hookOps, List.foldl_cons, List.foldl_nil,
      hookOp, Vm.call, Prod.map_snd, id, queue_cycle]
    rfl
  exact ⟨hops, hqueue, (accepted_history_runs _ _ hops).1⟩

end Vm

end Chip8
