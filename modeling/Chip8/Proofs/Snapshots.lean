import Chip8.Proofs.Likeness
import Chip8.Proofs.Loading
import Chip8.Proofs.Output

/-! # Two frames in a row

A frame reports whether the output changed since the frame before. Whatever happens between two
frames, the report can only be wrong in one way: the screen was not blank in the first one, the
buzzer was steady, and a blank screen was cleared that stayed blank up to the second one.
-/

namespace Chip8

/-- Whether an answer reports, and so forgets, a change of the output. -/
def Reply.reports : Reply → Bool
  | .frame _ | .changed _ => true
  | _ => false

namespace Machine

theorem output_hold (m : Machine) (key? : Option (Fin Layout.keyCount)) (down : Bool) :
    (m.hold key? down).output = m.output := by
  cases key? <;> rfl

theorem output_timed (m : Machine) : m.timed.output = m.output.apply .tick := by
  rw [← tickTimers_eq, output_tickTimers]

end Machine

namespace Vm

variable {σ : Type}

/-- What the next cycle does to the output. The timers only tick if no step fails. -/
def cycleOps (vm : Vm σ) : List OutputOp :=
  vm.cycleVisited.flatMap Machine.outputOps ++
    match vm.cycle.1 with
    | .ok () => [.tick]
    | .error _ => []

def callOps (vm : Vm σ) : Call → List OutputOp
  | .cycle | .nextFrame => vm.cycleOps
  | _ => []

def outputOps : List Call → Vm σ → List OutputOp
  | [], _ => []
  | call :: calls, vm => vm.callOps call ++ outputOps calls (vm.call call).2

/-- A session in which no change is reported and nothing is reset. -/
structure Quiet (vm : Vm σ) (calls : List Call) : Prop where
  keeps : ∀ call ∈ calls, call.resets = false
  replies : ∀ reply ∈ (vm.session calls).1, reply.reports = false

/-- Two frames of a machine without hooks, with a quiet session between them. -/
structure Snapshots (vm : Vm σ) (calls : List Call) (first second : Frame) : Prop where
  hooks : vm.rig.hooks = .empty
  first : (vm.call .frame).1 = .frame first
  quiet : (vm.call .frame).2.Quiet calls
  second : (((vm.call .frame).2.session calls).2.call .frame).1 = .frame second

theorem output_cycle {vm : Vm σ} (hhooks : vm.rig.hooks = .empty) :
    vm.cycle.2.machine.output = Output.applyAll vm.cycleOps vm.machine.output := by
  unfold cycleOps
  obtain ⟨key?, queue, hpop⟩ | ⟨key, queue, hqueue, hkey⟩ := pops_or_refused vm.queue
  · have hpressed : (vm.rig.hold key? true).hooks = .empty := hhooks
    have hsteps := Rig.output_steps vm.flags.ipc hpressed
    have hstart : (vm.rig.hold key? true).machine.output = vm.machine.output :=
      Machine.output_hold _ _ _
    rw [cycle_of_pops hpop, cycleVisited_of_pops hpop, Output.applyAll_append, ← hstart,
      ← hsteps]
    match Rig.steps vm.flags.ipc (vm.rig.hold key? true) with
    | (.ok (), last) => exact (Machine.output_hold _ _ _).trans (Machine.output_timed _)
    | (.error e, last) => exact Machine.output_hold _ _ _
  · rw [cycle_of_refused hqueue hkey, cycleVisited_of_refused hqueue hkey]
    rfl

theorem frame_eq_of_error {vm : Vm σ} {e : Error} (h : vm.frame.1 = .error e) :
    vm.frame.2 = vm := by
  unfold frame at h ⊢
  cases hvalues : vm.readVariables with
  | error other => rfl
  | ok values => simp [hvalues] at h

theorem reports_ofFrame {result : Except Error Frame} (h : (Reply.ofFrame result).reports = false) :
    ∃ e, result = .error e := by
  cases result with
  | error e => exact ⟨e, rfl⟩
  | ok f => cases h

theorem output_nextFrame {vm : Vm σ} (hhooks : vm.rig.hooks = .empty)
    (hquiet : (Reply.ofFrame vm.nextFrame.1).reports = false) :
    vm.nextFrame.2.machine.output = Output.applyAll vm.cycleOps vm.machine.output := by
  rw [← output_cycle hhooks]
  unfold nextFrame at hquiet ⊢
  match hcycle : vm.cycle with
  | (.ok (), after) =>
    simp only [hcycle] at hquiet
    obtain ⟨e, he⟩ := reports_ofFrame hquiet
    simp only [frame_eq_of_error he]
  | (.error e, after) => rfl

theorem output_load (vm : Vm σ) (files : Files) (load : Load) :
    (vm.load files load).2.machine.output = vm.machine.output := by
  obtain ⟨e, h⟩ | ⟨rom, profile?, h⟩ := load.fails_or_gives files
  · obtain ⟨journal, hload⟩ := load_of_fails h vm
    rw [hload]
    rfl
  · obtain ⟨journal, hload⟩ := load_of_gives h vm
    rw [hload]
    rfl

theorem output_setKey (vm : Vm σ) (key : Nat) (down : Bool) :
    (vm.setKey key down).2.machine.output = vm.machine.output := by
  unfold setKey
  obtain hkey | hkey := Nat.lt_or_ge key Layout.keyCount
  · simp only [Machine.setKey_fin vm.machine ⟨key, hkey⟩ down]
    exact vm.machine.output_hold (some ⟨key, hkey⟩) down
  · rw [Machine.setKey_eq_error hkey]

theorem output_takeAction (vm : Vm σ) (action : Nat) :
    (vm.takeAction action).2.machine.output = vm.machine.output := by
  unfold takeAction
  match vm.actionKey action with
  | .ok (some key) => rfl
  | .ok none => rfl
  | .error e => rfl

/-- Only what runs, resets or reports can move the output. -/
theorem output_call_rests {vm : Vm σ} {call : Call} (hrests : call.runs = false)
    (hreset : call.resets = false) (hquiet : (vm.call call).1.reports = false) :
    (vm.call call).2.machine.output = vm.machine.output := by
  cases call with
  | loadRom rom => exact vm.output_load (fun _ => .error .notFound) (.rom rom)
  | loadRomFile files path => exact vm.output_load files (.romFile path)
  | loadProfile files path => exact vm.output_load files (.profile path)
  | setProfile | setFlags | unsetBreak | readVariable => rfl
  | setBreak addr =>
    simp only [Vm.call, Rig.setBreak]
    split <;> rfl
  | setKey key down => exact vm.output_setKey key down
  | takeAction action => exact vm.output_takeAction action
  | frame =>
    obtain ⟨e, he⟩ := reports_ofFrame hquiet
    exact congrArg (fun after : Vm σ => after.machine.output) (frame_eq_of_error he)
  | takeOutputChanged => cases hquiet
  | cycle | nextFrame => cases hrests
  | reset => cases hreset

theorem callOps_rests (vm : Vm σ) {call : Call} (hrests : call.runs = false) :
    vm.callOps call = [] := by
  cases call with
  | cycle | nextFrame => cases hrests
  | _ => rfl

theorem output_call {vm : Vm σ} (hhooks : vm.rig.hooks = .empty) {call : Call}
    (hreset : call.resets = false) (hquiet : (vm.call call).1.reports = false) :
    (vm.call call).2.machine.output = Output.applyAll (vm.callOps call) vm.machine.output := by
  cases hruns : call.runs with
  | false =>
    rw [callOps_rests vm hruns]
    exact output_call_rests hruns hreset hquiet
  | true =>
    cases call with
    | cycle => exact output_cycle hhooks
    | nextFrame => exact output_nextFrame hhooks hquiet
    | _ => cases hruns

theorem output_session {calls : List Call} {vm : Vm σ} (hhooks : vm.rig.hooks = .empty)
    (hquiet : vm.Quiet calls) : (vm.session calls).2.machine.output =
      Output.applyAll (vm.outputOps calls) vm.machine.output := by
  induction calls generalizing vm with
  | nil => rfl
  | cons call calls ih =>
    obtain ⟨hreset, hreplies⟩ := hquiet
    have hcall := output_call hhooks (hreset call (List.mem_cons_self ..))
      (hreplies _ (List.mem_cons_self ..))
    have hplain := plain_call Machine.kept_true ⟨hhooks, trivial⟩ call
    have hlater : (vm.call call).2.Quiet calls :=
      ⟨fun other hother => hreset other (List.mem_cons_of_mem _ hother),
        fun reply hreply => hreplies reply (List.mem_cons_of_mem _ hreply)⟩
    rw [outputOps, Output.applyAll_append, ← hcall]
    exact ih hplain.hooks hlater

theorem call_frame {vm : Vm σ} {f : Frame} (h : (vm.call .frame).1 = .frame f) :
    f.screen = vm.machine.output.screen ∧ f.buzzer = vm.machine.output.buzzer ∧
      f.changed = (vm.machine.output.soundChanged || vm.machine.output.display.changed) ∧
      (vm.call .frame).2 = vm.setMachine vm.machine.takeOutputChanged.2 := by
  simp only [Vm.call, frame] at h ⊢
  cases hvalues : vm.readVariables with
  | error e =>
    rw [hvalues] at h
    cases h
  | ok values =>
    rw [hvalues] at h
    cases h
    exact ⟨rfl, rfl, rfl, rfl⟩

/-- The second of two frames reports that the output differs from the first one, unless just this
was forgotten. -/
theorem snapshots_report_iff {vm : Vm σ} {calls : List Call} {first second : Frame}
    (h : Snapshots vm calls first second) :
    (second.screen ≠ first.screen ∨ second.buzzer ≠ first.buzzer → second.changed = true) ↔
      ¬ (first.screen ≠ Display.blankScreen ∧
        Output.Constant Output.buzzer ((vm.call .frame).2.outputOps calls)
          (vm.call .frame).2.machine.output ∧
        Output.Forgets ((vm.call .frame).2.outputOps calls)
          (vm.call .frame).2.machine.output) := by
  obtain ⟨hhooks, hfirst, hquiet, hsecond⟩ := h
  obtain ⟨hscreen, hbuzzer, -, hafter⟩ := call_frame hfirst
  obtain ⟨hscreen', hbuzzer', hchanged', -⟩ := call_frame hsecond
  have hplain := plain_call Machine.kept_true ⟨hhooks, trivial⟩ .frame
  have hstart : (vm.call .frame).2.machine.output.soundChanged = false := by rw [hafter]; rfl
  have hsame : first.screen = (vm.call .frame).2.machine.output.screen := by
    rw [hscreen, hafter]
    rfl
  have hsound : first.buzzer = (vm.call .frame).2.machine.output.buzzer := by
    rw [hbuzzer, hafter]
    rfl
  rw [hscreen', hbuzzer', hchanged', hsame, hsound, output_session hplain.hooks hquiet]
  exact Output.reports_iff hstart

/-! ## A change that is forgotten -/

/-- Draws one row of pixels, clears the screen twice, and stops. -/
def clearsTwice : Bytes := [0xa0, 0x50, 0xd0, 0x01, 0x00, 0xe0, 0x00, 0xe0, 0x12, 0x08]

/-- A machine that has drawn and will clear, with two instructions in each cycle. -/
def drawn : Vm Unit :=
  ((ofRig ⟨false, 2, 60⟩ (.powerOn ⟨fun _ => 0, 0⟩ () (.empty .off))).session
    [.loadRom clearsTwice, .cycle]).2

def litFrame : Frame := ⟨1, Display.blankScreen.set 0 0xf000000000000000, false, true, []⟩

def darkFrame : Frame := ⟨2, Display.blankScreen, false, false, []⟩

theorem snapshots_drawn : Snapshots drawn [.cycle] litFrame darkFrame := by
  have hhooks : drawn.rig.hooks = .empty := by
    rw [drawn]
    exact (plain_session Machine.kept_true _ ⟨rfl, trivial⟩).1.hooks
  have hreplies : (drawn.call .frame).1 = .frame litFrame ∧
      (∀ reply ∈ ((drawn.call .frame).2.session [.cycle]).1, reply.reports = false) ∧
      (((drawn.call .frame).2.session [.cycle]).2.call .frame).1 = .frame darkFrame := by
    decide +kernel
  obtain ⟨hfirst, hquiet, hsecond⟩ := hreplies
  exact ⟨hhooks, hfirst, ⟨by decide, hquiet⟩, hsecond⟩

/-- The screen goes dark between the two frames, and the second one does not say so. -/
theorem unreported_change : Snapshots drawn [.cycle] litFrame darkFrame ∧
    darkFrame.screen ≠ litFrame.screen ∧ darkFrame.changed = false :=
  ⟨snapshots_drawn, by decide, rfl⟩

/-- Between the two frames the screen was cleared once more when it was blank already. -/
theorem drawn_forgets : litFrame.screen ≠ Display.blankScreen ∧
    Output.Constant Output.buzzer ((drawn.call .frame).2.outputOps [.cycle])
      (drawn.call .frame).2.machine.output ∧
    Output.Forgets ((drawn.call .frame).2.outputOps [.cycle])
      (drawn.call .frame).2.machine.output := by
  have hunreported : ¬ (darkFrame.screen ≠ litFrame.screen ∨ darkFrame.buzzer ≠ litFrame.buzzer →
      darkFrame.changed = true) := by decide
  exact Classical.byContradiction fun hkept =>
    hunreported ((snapshots_report_iff snapshots_drawn).mpr hkept)

end Vm

end Chip8
