import Chip8.Proofs.Fault
import Chip8.Proofs.Session

/-! # Keys by hand and from the queue

A key line can be moved by hand, and a cycle presses and lets go the line whose turn it is in the
queue. No instruction moves a line. So a line is as the last call for it has put it, unless a
cycle has pressed it since: that lets go a line that somebody holds.
-/

namespace Chip8

/-- How a line was moved: by hand, or by a cycle that pressed it and let it go. -/
inductive Touch
  | byHand (down : Bool)
  | byQueue
deriving DecidableEq

namespace Touch

def leaves : Touch → Bool
  | byHand down => down
  | byQueue => false

def byHand? : Touch → Option Bool
  | byHand down => some down
  | byQueue => none

theorem leaves_last_iff (touches : List Touch) :
    (((touches.getLast?.map leaves).getD false = true ↔
      touches.reverse.findSome? byHand? = some true) ↔
    ¬ (touches.reverse.findSome? byHand? = some true ∧ touches.getLast? = some byQueue)) := by
  rw [← List.head?_reverse]
  cases touches.reverse with
  | nil => simp
  | cons last earlier =>
    cases last with
    | byHand down => simp [List.findSome?_cons, leaves, byHand?]
    | byQueue => simp [List.findSome?_cons, leaves, byHand?]

end Touch

/-- What a call makes of a line by hand. Switching off and on lets go every line. -/
def Call.moves? (key : Fin Layout.keyCount) : Call → Option Bool
  | .setKey other down => if other = key.val then some down else none
  | .reset => some false
  | _ => none

def lastMove (key : Fin Layout.keyCount) (calls : List Call) : Option Bool :=
  calls.reverse.findSome? (Call.moves? key)

namespace Machine

theorem down_powerOn (key : Fin Layout.keyCount) : powerOn.down key = false :=
  Vector.getElem_replicate key.isLt

theorem keypad_step (m : Machine) (roll : UInt8) : (m.step roll).2.keypad = m.keypad := by
  have hend := m.step_end roll
  generalize m.step roll = outcome at hend
  cases hend with
  | done _ hexec => exact (exec_leaves hexec).keypad
  | outside | unknown | failed => rfl

end Machine

namespace Vm

variable {σ : Type}

theorem head?_of_pops {queue rest : List Nat} {key? : Option (Fin Layout.keyCount)}
    (hpop : Pops queue key? rest) : queue.head? = key?.map Fin.val := by
  cases hpop <;> rfl

theorem down_cycle {vm : Vm σ} (hhooks : vm.rig.hooks = .empty) (key : Fin Layout.keyCount) :
    vm.cycle.2.machine.down key =
      if vm.queue.head? = some key.val then false else vm.machine.down key := by
  obtain ⟨key?, queue, hpop⟩ | ⟨other, queue, hqueue, hother⟩ := pops_or_refused vm.queue
  · have hpressed : (vm.rig.hold key? true).hooks = .empty := hhooks
    have hkept : (Rig.steps vm.flags.ipc (vm.rig.hold key? true)).2.machine.keypad =
        (vm.machine.hold key? true).keypad :=
      (Rig.steps_keep (fun m roll hm => (m.keypad_step roll).trans hm) _ hpressed rfl).1
    have hlast : (Rig.steps vm.flags.ipc (vm.rig.hold key? true)).2.machine.down key =
        if key? = some key then true else vm.machine.down key := by
      rw [← Machine.down_hold]
      exact Machine.ext_down.mp hkept key
    have hrelease : ∀ m : Machine, m.down key =
        (if key? = some key then true else vm.machine.down key) → (m.hold key? false).down key =
          if vm.queue.head? = some key.val then false else vm.machine.down key := by
      intro m hm
      have hhead : vm.queue.head? = some key.val ↔ key? = some key := by
        rw [head?_of_pops hpop]
        cases key? <;> simp [Fin.ext_iff]
      rw [Machine.down_hold, hm]
      by_cases hkey : key? = some key <;> simp [hkey, hhead]
    rw [cycle_of_pops hpop]
    -- The key is let go whether or not a step fails. Only the timers differ.
    match hsteps : Rig.steps vm.flags.ipc (vm.rig.hold key? true) with
    | (.ok (), last) =>
      rw [hsteps] at hlast
      exact hrelease last.timed.machine hlast
    | (.error e, last) =>
      rw [hsteps] at hlast
      exact hrelease last.machine hlast
  · rw [cycle_of_refused hqueue hother]
    have hne : vm.queue.head? ≠ some key.val := by
      have hkey := key.isLt
      rw [hqueue]
      simp
      omega
    rw [if_neg hne]
    rfl

theorem keypad_frame (vm : Vm σ) : vm.frame.2.machine.keypad = vm.machine.keypad := by
  unfold frame
  cases vm.readVariables <;> rfl

theorem down_nextFrame {vm : Vm σ} (hhooks : vm.rig.hooks = .empty)
    (key : Fin Layout.keyCount) : vm.nextFrame.2.machine.down key =
      if vm.queue.head? = some key.val then false else vm.machine.down key := by
  rw [← down_cycle hhooks]
  unfold nextFrame
  match vm.cycle with
  | (.ok (), after) => exact Machine.ext_down.mp after.keypad_frame key
  | (.error e, after) => rfl

theorem down_setKey (vm : Vm σ) (other : Nat) (down : Bool) (key : Fin Layout.keyCount) :
    (vm.setKey other down).2.machine.down key =
      if other = key.val then down else vm.machine.down key := by
  unfold setKey
  obtain hlt | hge := Nat.lt_or_ge other Layout.keyCount
  · have hset := Machine.setKey_fin vm.machine ⟨other, hlt⟩ down
    simp only [hset]
    refine (vm.machine.down_hold (some ⟨other, hlt⟩) down key).trans ?_
    simp [Fin.ext_iff]
  · rw [Machine.setKey_eq_error hge, if_neg (by have := key.isLt; omega)]

def touch? (key : Fin Layout.keyCount) (vm : Vm σ) (call : Call) : Option Touch :=
  match call with
  | .cycle | .nextFrame => if vm.queue.head? = some key.val then some .byQueue else none
  | _ => (call.moves? key).map .byHand

def touches (key : Fin Layout.keyCount) : List Call → Vm σ → List Touch
  | [], _ => []
  | call :: calls, vm => (vm.touch? key call).toList ++ touches key calls (vm.call call).2

theorem down_call {vm : Vm σ} (hhooks : vm.rig.hooks = .empty) (call : Call)
    (key : Fin Layout.keyCount) : (vm.call call).2.machine.down key =
      ((vm.touch? key call).map Touch.leaves).getD (vm.machine.down key) := by
  have hvm : vm.Plain fun m => m.keypad = vm.machine.keypad := ⟨hhooks, rfl⟩
  have hload : ∀ (m : Machine) memory, m.keypad = vm.machine.keypad →
      { m with memory }.keypad = vm.machine.keypad := fun _ _ h => h
  cases call with
  | loadRom rom => exact Machine.ext_down.mp (plain_loadRom hload hvm rom).machine key
  | loadRomFile files path =>
    exact Machine.ext_down.mp (plain_loadRomFile hload hvm files path).machine key
  | loadProfile files path =>
    exact Machine.ext_down.mp (plain_loadProfile hload hvm files path).machine key
  | takeAction action => exact Machine.ext_down.mp (plain_takeAction hvm action).machine key
  | frame => exact Machine.ext_down.mp vm.keypad_frame key
  | setProfile | setFlags | unsetBreak | readVariable | takeOutputChanged => rfl
  | setBreak addr =>
    simp only [Vm.call, Rig.setBreak]
    split <;> rfl
  | setKey other down =>
    refine (down_setKey vm other down key).trans ?_
    by_cases h : other = key.val <;> simp [touch?, Call.moves?, h, Touch.leaves]
  | cycle =>
    refine (down_cycle hhooks key).trans ?_
    by_cases h : vm.queue.head? = some key.val <;> simp [touch?, h, Touch.leaves]
  | nextFrame =>
    refine (down_nextFrame hhooks key).trans ?_
    by_cases h : vm.queue.head? = some key.val <;> simp [touch?, h, Touch.leaves]
  | reset => exact Machine.down_powerOn key

theorem byHand?_touch? (key : Fin Layout.keyCount) (vm : Vm σ) (call : Call) :
    (vm.touch? key call).bind Touch.byHand? = call.moves? key := by
  unfold touch?
  split
  · split <;> rfl
  · split <;> rfl
  · cases call.moves? key <;> rfl

theorem byHand?_touches (key : Fin Layout.keyCount) (calls : List Call) (vm : Vm σ) :
    (vm.touches key calls).reverse.findSome? Touch.byHand? = lastMove key calls := by
  unfold lastMove
  induction calls generalizing vm with
  | nil => rfl
  | cons call calls ih =>
    rw [touches, List.reverse_append, List.findSome?_append, ih, List.reverse_cons,
      List.findSome?_append]
    congr 1
    rw [List.findSome?_singleton, ← byHand?_touch? key vm call]
    cases vm.touch? key call with
    | none => rfl
    | some touch => cases touch <;> rfl

theorem down_session {calls : List Call} {vm : Vm σ} (hhooks : vm.rig.hooks = .empty)
    (key : Fin Layout.keyCount) : (vm.session calls).2.machine.down key =
      ((vm.touches key calls).getLast?.map Touch.leaves).getD (vm.machine.down key) := by
  induction calls generalizing vm with
  | nil => rfl
  | cons call calls ih =>
    have hplain := plain_call Machine.kept_true ⟨hhooks, trivial⟩ call
    refine (ih hplain.hooks).trans ?_
    -- The first call counts only if no later one touches the line.
    rw [down_call hhooks, touches, List.getLast?_append]
    cases (touches key calls (vm.call call).2).getLast? with
    | none => cases vm.touch? key call <;> rfl
    | some touch => rfl

/-- New, or just switched off and on, with nothing hooked. -/
inductive Fresh : Vm σ → Prop
  | built (flags : Flags) (dice : Dice) (memo : σ) (journal : Journal) :
    Fresh (ofRig flags (.powerOn dice memo journal))
  | reset {vm : Vm σ} (hhooks : vm.rig.hooks = .empty) : Fresh vm.reset

theorem Fresh.hooks {vm : Vm σ} (h : vm.Fresh) : vm.rig.hooks = .empty := by
  cases h with
  | built => rfl
  | reset hhooks =>
    simp only [Vm.reset, record, Rig.record, setMachine]
    exact hhooks

theorem Fresh.machine {vm : Vm σ} (h : vm.Fresh) : vm.machine = .powerOn := by
  cases h <;> rfl

structure KeysAfter (vm : Vm σ) (calls : List Call) : Prop where
  /-- A line is down exactly if the last call that moved it has put it down, unless the line was
  pressed from the queue after that call. -/
  held : ∀ key, ((vm.session calls).2.machine.down key = true ↔ lastMove key calls = some true) ↔
    ¬ (lastMove key calls = some true ∧ (vm.touches key calls).getLast? = some .byQueue)
  /-- A cycle leaves its trace on the keypad exactly if the line that it presses is down already. -/
  traceless : (vm.session calls).2.cycle.2.machine.keypad = (vm.session calls).2.machine.keypad ↔
    ∀ key : Fin Layout.keyCount, (vm.session calls).2.queue.head? = some key.val →
      (vm.session calls).2.machine.down key = false

theorem keys_session {vm : Vm σ} (hfresh : vm.Fresh) (calls : List Call) :
    vm.KeysAfter calls := by
  constructor
  · intro key
    rw [down_session hfresh.hooks, hfresh.machine, Machine.down_powerOn,
      ← byHand?_touches key calls vm]
    exact Touch.leaves_last_iff _
  · have hplain := (plain_session Machine.kept_true calls ⟨hfresh.hooks, trivial⟩).1
    rw [Machine.ext_down]
    constructor
    · intro hkept key hhead
      rw [← hkept key, down_cycle hplain.hooks, if_pos hhead]
    · intro hup key
      rw [down_cycle hplain.hooks]
      by_cases hhead : (vm.session calls).2.queue.head? = some key.val
      · rw [if_pos hhead, hup key hhead]
      · rw [if_neg hhead]

/-! ## A key that is let go -/

def untouched : Vm Unit := ofRig ⟨false, 1, 60⟩ (.powerOn ⟨fun _ => 0, 0⟩ () (.empty .off))

theorem fresh_untouched : untouched.Fresh :=
  .built ⟨false, 1, 60⟩ ⟨fun _ => 0, 0⟩ () (.empty .off)

/-- Somebody holds key 4 while a controller presses it for one cycle. -/
def holdAndPress : List Call :=
  [.setKey 4 true, .setProfile ⟨"", .empty, some [4]⟩, .takeAction 1, .cycle]

theorem down_holdAndPress : (untouched.session holdAndPress).2.machine.down 4 = false := by
  decide +kernel

theorem key_let_go : untouched.Fresh ∧ lastMove 4 holdAndPress = some true ∧
    (untouched.session holdAndPress).2.machine.down 4 = false :=
  ⟨fresh_untouched, rfl, down_holdAndPress⟩

theorem key_let_go_by_queue : untouched.Fresh ∧
    (untouched.touches 4 holdAndPress).getLast? = some .byQueue := by
  have hkeys : untouched.KeysAfter holdAndPress := keys_session fresh_untouched holdAndPress
  have hbroken : ¬ ((untouched.session holdAndPress).2.machine.down 4 = true ↔
      lastMove 4 holdAndPress = some true) := by
    rw [down_holdAndPress]
    decide
  have htouched := Classical.not_not.mp fun h => hbroken ((hkeys.held 4).mpr h)
  exact ⟨fresh_untouched, htouched.2⟩

end Vm

end Chip8
