import Chip8.Proofs.Session

/-! # Two virtual machines side by side

A likeness is a relation between rigs that whatever a call does to them from outside keeps, and
under which they show the same. A call that runs nothing then has the same answer on both sides and
leaves them alike. A call that runs does so too if single steps do. What is looked at of an answer
is left open, since rigs that are alike may differ in the changes that they have to report.
-/

namespace Chip8

/-- What a call does to a rig beside running it. -/
inductive Change
  | powerOn
  | load (memory : Memory)
  | hold (key? : Option (Fin Layout.keyCount)) (down : Bool)
  | tick
  | ask
  | setBreak (addr : UInt16)
  | unsetBreak (addr : UInt16)
  | record (event : Event)

def Call.runs : Call → Bool
  | .cycle | .nextFrame => true
  | _ => false

/-- The same result, and related states that it leaves. -/
def Outcome.Both {α β : Type} (R : α → β → Prop) (first : Outcome α) (second : Outcome β) : Prop :=
  first.1 = second.1 ∧ R first.2 second.2

namespace Outcome.Both

variable {α β : Type} {R : α → β → Prop} {first : Outcome α} {second : Outcome β}

theorem exists_eq (h : Both R first second) :
    ∃ result a b, first = (result, a) ∧ second = (result, b) ∧ R a b :=
  ⟨first.1, first.2, second.2, rfl, Prod.ext h.1.symm rfl, h.2⟩

theorem andThen {next : α → Outcome α} {other : β → Outcome β} (h : Both R first second)
    (hnext : ∀ {a b}, R a b → Both R (next a) (other b)) :
    Both R (first.andThen next) (second.andThen other) := by
  obtain ⟨result, a, b, rfl, rfl, hab⟩ := h.exists_eq
  cases result with
  | ok _ => exact hnext hab
  | error e => exact ⟨rfl, hab⟩

end Outcome.Both

theorem Variable.read_congr {m n : Machine} (hmemory : m.memory = n.memory) (hv : m.v = n.v)
    (var : Variable) : var.read m = var.read n := by
  unfold read Machine.register
  rw [hmemory, hv]

theorem Profile.readAll_congr {m n : Machine} (hmemory : m.memory = n.memory) (hv : m.v = n.v)
    (profile : Profile) : profile.readAll m = profile.readAll n := by
  have hread : ∀ var : Variable, var.read m = var.read n := Variable.read_congr hmemory hv
  simp only [readAll, hread]

namespace Rig

variable {σ τ : Type}

def change (rig : Rig σ) : Change → Rig σ
  | .powerOn => { rig with machine := .powerOn }
  | .load memory => { rig with machine := { rig.machine with memory } }
  | .hold key? down => rig.hold key? down
  | .tick => rig.timed
  | .ask => { rig with machine := rig.machine.takeOutputChanged.2 }
  | .setBreak addr => rig.setBreak addr
  | .unsetBreak addr => rig.unsetBreak addr
  | .record event => rig.record event

structure Likeness (S : Rig σ → Rig τ → Prop) (look : Reply → Reply) : Prop where
  change : ∀ {r s}, S r s → ∀ c, S (r.change c) (s.change c)
  memory : ∀ {r s}, S r s → r.machine.memory = s.machine.memory
  registers : ∀ {r s}, S r s → r.machine.v = s.machine.v
  screen : ∀ {r s}, S r s → r.machine.display.screen = s.machine.display.screen
  sound : ∀ {r s}, S r s → r.machine.sound = s.machine.sound
  asked : ∀ {r s}, S r s → look (.changed r.machine.takeOutputChanged.1) =
    look (.changed s.machine.takeOutputChanged.1)
  framed : ∀ {r s}, S r s → ∀ cycle screen buzzer values,
    look (.frame ⟨cycle, screen, buzzer, r.machine.takeOutputChanged.1, values⟩) =
      look (.frame ⟨cycle, screen, buzzer, s.machine.takeOutputChanged.1, values⟩)

theorem steps_both {S : Rig σ → Rig τ → Prop}
    (hstep : ∀ {r s}, S r s → Outcome.Both S r.step s.step) (count : Nat) {r : Rig σ} {s : Rig τ}
    (h : S r s) : Outcome.Both S (steps count r) (steps count s) := by
  induction count generalizing r s with
  | zero => exact ⟨rfl, h⟩
  | succ count ih => exact (hstep h).andThen ih

theorem checkBreak_both {S : Rig σ → Rig τ → Prop} {r : Rig σ} {s : Rig τ} (h : S r s)
    (hpc : r.machine.pc = s.machine.pc) (hmemory : r.machine.memory = s.machine.memory)
    (hbreaks : r.breakpoints = s.breakpoints) : Outcome.Both S r.checkBreak s.checkBreak := by
  unfold checkBreak wordAt
  rw [hpc, hmemory, hbreaks]
  by_cases hhit : s.machine.pc ∈ s.breakpoints
  · simpa only [hhit, if_true] using ⟨rfl, h⟩
  · simpa only [hhit, if_false] using ⟨rfl, h⟩

/-- Two names for one rig that has a property. -/
structure Same (P : Rig σ → Prop) (r s : Rig σ) : Prop where
  eq : r = s
  keeps : P r

theorem same_likeness {P : Rig σ → Prop} (hchange : ∀ r c, P r → P (r.change c)) :
    Likeness (Same P) id := by
  constructor
  case change =>
    rintro r _ ⟨rfl, hr⟩ c
    exact ⟨rfl, hchange r c hr⟩
  all_goals
    rintro r _ ⟨rfl, -⟩
    intros
    rfl

/-- Two rigs without hooks at the same point of the same dice, with machines that are related. -/
structure Tied (M : Machine → Machine → Prop) (r : Rig σ) (s : Rig τ) : Prop where
  machine : M r.machine s.machine
  bare : r.hooks = .empty
  plain : s.hooks = .empty
  breakpoints : r.breakpoints = s.breakpoints
  dice : r.dice = s.dice

/-- Rigs stay tied in a step if their machines do: nothing else decides what the step does. -/
theorem Tied.step {M : Machine → Machine → Prop} {r : Rig σ} {s : Rig τ} (h : Tied M r s)
    (hread : ∀ {m n}, M m n → m.pc = n.pc ∧ m.memory = n.memory)
    (hrolls : r.machine.rolls = s.machine.rolls)
    (hstep : Outcome.Both M (r.machine.step r.dice.top) (s.machine.step r.dice.top)) :
    Outcome.Both (Tied M) r.step s.step := by
  obtain ⟨journal, hr⟩ := step_eq h.bare
  obtain ⟨journal', hs⟩ := step_eq h.plain
  have hstepped : Tied M (r.stepped journal) (s.stepped journal') := by
    refine ⟨?_, h.bare, h.plain, h.breakpoints, ?_⟩
    · simpa only [stepped, ← h.dice] using hstep.2
    · simp only [stepped, hrolls, h.dice]
  have hboth : Outcome.Both (Tied M) ((r.machine.step r.dice.top).1, r.stepped journal)
      ((s.machine.step s.dice.top).1, s.stepped journal') := by
    rw [← h.dice]
    exact ⟨hstep.1, hstepped⟩
  rw [hr, hs]
  refine hboth.andThen ?_
  intro a b hab
  obtain ⟨hpc, hmemory⟩ := hread hab.machine
  exact checkBreak_both hab hpc hmemory hab.breakpoints

end Rig

namespace Vm

variable {σ τ : Type} {S : Rig σ → Rig τ → Prop} {look : Reply → Reply}

/-- Two virtual machines that are the same but for their rigs, which are related. -/
structure Alike (S : Rig σ → Rig τ → Prop) (v : Vm σ) (w : Vm τ) : Prop where
  rig : S v.rig w.rig
  flags : v.flags = w.flags
  profile : v.profile = w.profile
  queue : v.queue = w.queue
  cycles : v.cycles = w.cycles

/-- Answers that look the same, and virtual machines that are alike. -/
def AlikeReplies (S : Rig σ → Rig τ → Prop) (look : Reply → Reply) (first : Reply × Vm σ)
    (second : Reply × Vm τ) : Prop :=
  look first.1 = look second.1 ∧ Alike S first.2 second.2

theorem alikeReplies_of_both {first : Outcome (Vm σ)} {second : Outcome (Vm τ)}
    (h : Outcome.Both (Alike S) first second) :
    AlikeReplies S look (first.map .ofResult id) (second.map .ofResult id) :=
  ⟨congrArg (fun result => look (.ofResult result)) h.1, h.2⟩

namespace Alike

variable {v : Vm σ} {w : Vm τ}

theorem withRig (h : Alike S v w) {r : Rig σ} {s : Rig τ} (hrig : S r s) :
    Alike S { v with rig := r } { w with rig := s } :=
  ⟨hrig, h.flags, h.profile, h.queue, h.cycles⟩

theorem change (hS : Rig.Likeness S look) (h : Alike S v w) (c : Change) :
    Alike S { v with rig := v.rig.change c } { w with rig := w.rig.change c } :=
  h.withRig (hS.change h.rig c)

theorem loadRom (hS : Rig.Likeness S look) (h : Alike S v w) (rom : Bytes) :
    Outcome.Both (Alike S) (v.loadRom rom) (w.loadRom rom) := by
  have hmemory : v.machine.memory = w.machine.memory := hS.memory h.rig
  unfold Vm.loadRom Machine.loadRom
  rw [hmemory]
  cases w.machine.memory.load rom with
  | error e => exact ⟨rfl, h⟩
  | ok memory => exact ⟨rfl, (h.change hS (.load memory)).change hS (.record _)⟩

theorem loadRomFile (hS : Rig.Likeness S look) (h : Alike S v w) (files : Files) (path : String) :
    Outcome.Both (Alike S) (v.loadRomFile files path) (w.loadRomFile files path) := by
  have hread := h.change hS (.record (.readingFile path))
  unfold Vm.loadRomFile
  cases files.read path with
  | error e => exact ⟨rfl, hread⟩
  | ok rom => exact hread.loadRom hS rom

theorem loadProfile (hS : Rig.Likeness S look) (h : Alike S v w) (files : Files) (path : String) :
    Outcome.Both (Alike S) (v.loadProfile files path) (w.loadProfile files path) := by
  unfold Vm.loadProfile
  cases Profile.load files path with
  | error e => exact ⟨rfl, h⟩
  | ok profile =>
    have hnamed := h.change hS (.record (.profileLoaded path))
    refine (hnamed.loadRomFile hS files profile.rom).andThen ?_
    intro v w h
    exact ⟨rfl, h.rig, h.flags, rfl, h.queue, h.cycles⟩

theorem setKey (hS : Rig.Likeness S look) (h : Alike S v w) (key : Nat) (down : Bool) :
    Outcome.Both (Alike S) (v.setKey key down) (w.setKey key down) := by
  unfold Vm.setKey
  obtain hkey | hkey := Nat.lt_or_ge key Layout.keyCount
  · rw [Machine.setKey_fin v.machine ⟨key, hkey⟩, Machine.setKey_fin w.machine ⟨key, hkey⟩]
    exact ⟨rfl, h.change hS (.hold (some ⟨key, hkey⟩) down)⟩
  · rw [Machine.setKey_eq_error hkey, Machine.setKey_eq_error hkey]
    exact ⟨rfl, h⟩

theorem takeAction (h : Alike S v w) (action : Nat) :
    Outcome.Both (Alike S) (v.takeAction action) (w.takeAction action) := by
  have hkey : v.actionKey action = w.actionKey action := by
    simp only [actionKey, actions, currentProfile, h.profile]
  unfold Vm.takeAction
  rw [hkey]
  match w.actionKey action with
  | .ok (some key) =>
    exact ⟨rfl, h.rig, h.flags, h.profile, congrArg (· ++ [key]) h.queue, h.cycles⟩
  | .ok none => exact ⟨rfl, h⟩
  | .error e => exact ⟨rfl, h⟩

theorem readVariable (hS : Rig.Likeness S look) (h : Alike S v w) (name : String) :
    v.readVariable name = w.readVariable name := by
  have hread : ∀ var : Variable, var.read v.machine = var.read w.machine :=
    Variable.read_congr (hS.memory h.rig) (hS.registers h.rig)
  simp only [Vm.readVariable, currentProfile, h.profile, hread]

theorem frame (hS : Rig.Likeness S look) (h : Alike S v w) :
    AlikeReplies S look (v.frame.map .ofFrame id) (w.frame.map .ofFrame id) := by
  have hvalues : v.readVariables = w.readVariables := by
    have hread : ∀ profile : Profile, profile.readAll v.machine = profile.readAll w.machine :=
      Profile.readAll_congr (hS.memory h.rig) (hS.registers h.rig)
    simp only [readVariables, h.profile, hread]
  unfold Vm.frame
  rw [hvalues]
  cases w.readVariables with
  | error e => exact ⟨rfl, h⟩
  | ok values =>
    refine ⟨?_, h.change hS .ask⟩
    have hscreen : v.machine.takeOutputChanged.2.display.screen =
        w.machine.takeOutputChanged.2.display.screen := hS.screen h.rig
    have hbuzzer : v.machine.takeOutputChanged.2.buzzer = w.machine.takeOutputChanged.2.buzzer :=
      congrArg (· != 0) (hS.sound h.rig)
    simp only [Prod.map_fst, Reply.ofFrame, hscreen, hbuzzer, h.cycles]
    exact hS.framed h.rig _ _ _ _

theorem nextFrame (hS : Rig.Likeness S look) (hcycle : Outcome.Both (Alike S) v.cycle w.cycle) :
    AlikeReplies S look (v.nextFrame.map .ofFrame id) (w.nextFrame.map .ofFrame id) := by
  obtain ⟨result, v', w', hv, hw, h⟩ := hcycle.exists_eq
  unfold Vm.nextFrame
  rw [hv, hw]
  cases result with
  | ok _ => exact h.frame hS
  | error e => exact ⟨rfl, h⟩

/-- A call that runs nothing. -/
theorem call (hS : Rig.Likeness S look) (h : Alike S v w) {call : Call}
    (hruns : call.runs = false) : AlikeReplies S look (v.call call) (w.call call) := by
  cases call with
  | loadRom rom => exact alikeReplies_of_both (h.loadRom hS rom)
  | loadRomFile files path => exact alikeReplies_of_both (h.loadRomFile hS files path)
  | loadProfile files path => exact alikeReplies_of_both (h.loadProfile hS files path)
  | setProfile profile => exact ⟨rfl, h.rig, h.flags, rfl, h.queue, h.cycles⟩
  | setFlags flags => exact ⟨rfl, h.rig, rfl, h.profile, h.queue, h.cycles⟩
  | setBreak addr => exact ⟨rfl, h.change hS (.setBreak addr)⟩
  | unsetBreak addr => exact ⟨rfl, h.change hS (.unsetBreak addr)⟩
  | setKey key down => exact alikeReplies_of_both (h.setKey hS key down)
  | takeAction action => exact alikeReplies_of_both (h.takeAction action)
  | frame => exact h.frame hS
  | readVariable name =>
    exact ⟨congrArg (fun value => look (.ofValue value)) (h.readVariable hS name), h⟩
  | takeOutputChanged => exact ⟨hS.asked h.rig, h.change hS .ask⟩
  | reset =>
    have hoff := hS.change (hS.change h.rig .powerOn) (.record .reset)
    simp only [Vm.call, reset, setMachine, record]
    exact ⟨rfl, hoff, h.flags, h.profile, rfl, rfl⟩
  | cycle | nextFrame => cases hruns

/-- A cycle leaves the sides alike in the way in which its steps do. -/
theorem cycle_of_steps {R : Rig σ → Rig τ → Prop} (hS : Rig.Likeness S look) (h : Alike R v w)
    (hsteps : ∀ {key? queue}, Pops w.queue key? queue →
      Outcome.Both S (Rig.steps w.flags.ipc (v.rig.hold key? true))
        (Rig.steps w.flags.ipc (w.rig.hold key? true)))
    (hrefused : w.pressed? = none → S v.rig w.rig) :
    Outcome.Both (Alike S) v.cycle w.cycle := by
  obtain ⟨key?, queue, hpop⟩ | ⟨key, queue, hqueue, hkey⟩ := pops_or_refused w.queue
  · have hpop' : Pops v.queue key? queue := h.queue ▸ hpop
    obtain ⟨result, r, s, hr, hs, hlast⟩ := (hsteps hpop).exists_eq
    rw [cycle_of_pops hpop, cycle_of_pops hpop', h.flags, hr, hs]
    cases result with
    | ok _ =>
      have hdone := hS.change (hS.change hlast .tick) (.hold key? false)
      exact ⟨rfl, hdone, h.flags, h.profile, rfl, congrArg (· + 1) h.cycles⟩
    | error e =>
      exact ⟨rfl, hS.change hlast (.hold key? false), h.flags, h.profile, rfl, h.cycles⟩
  · have hnone := pressed?_of_refused hqueue hkey
    rw [cycle_of_refused hqueue hkey, cycle_of_refused (h.queue.trans hqueue) hkey]
    exact ⟨rfl, hrefused hnone, h.flags, h.profile, rfl, h.cycles⟩

theorem cycle (hS : Rig.Likeness S look) (hstep : ∀ {r s}, S r s → Outcome.Both S r.step s.step)
    (h : Alike S v w) : Outcome.Both (Alike S) v.cycle w.cycle :=
  h.cycle_of_steps hS
    (fun _ => Rig.steps_both hstep w.flags.ipc (hS.change h.rig (.hold _ true))) fun _ => h.rig

theorem anyCall (hS : Rig.Likeness S look) (hstep : ∀ {r s}, S r s → Outcome.Both S r.step s.step)
    (h : Alike S v w) (call : Call) : AlikeReplies S look (v.call call) (w.call call) := by
  cases hruns : call.runs with
  | false => exact h.call hS hruns
  | true =>
    cases call with
    | cycle => exact alikeReplies_of_both (h.cycle hS hstep)
    | nextFrame => exact nextFrame hS (h.cycle hS hstep)
    | _ => cases hruns

theorem session (hS : Rig.Likeness S look) (hstep : ∀ {r s}, S r s → Outcome.Both S r.step s.step)
    (h : Alike S v w) (calls : List Call) :
    (v.session calls).1.map look = (w.session calls).1.map look ∧
      Alike S (v.session calls).2 (w.session calls).2 := by
  induction calls generalizing v w with
  | nil => exact ⟨rfl, h⟩
  | cons call calls ih =>
    obtain ⟨hreply, hafter⟩ := h.anyCall hS hstep call
    obtain ⟨hreplies, hlast⟩ := ih hafter
    exact ⟨List.cons_eq_cons.mpr ⟨hreply, hreplies⟩, hlast⟩

end Alike

/-- What the changes and the steps of a rig keep, every call keeps. -/
theorem kept_call {P : Rig σ → Prop} (hchange : ∀ r c, P r → P (r.change c))
    (hstep : ∀ r, P r → P r.step.2) {vm : Vm σ} (hvm : P vm.rig) (call : Call) :
    P (vm.call call).2.rig := by
  have hsame : Alike (Rig.Same P) vm vm := ⟨⟨rfl, hvm⟩, rfl, rfl, rfl, rfl⟩
  have hboth : ∀ {r s}, Rig.Same P r s → Outcome.Both (Rig.Same P) r.step s.step := by
    rintro r _ ⟨rfl, hr⟩
    exact ⟨rfl, rfl, hstep r hr⟩
  exact (hsame.anyCall (Rig.same_likeness hchange) hboth call).2.rig.keeps

end Vm

end Chip8
