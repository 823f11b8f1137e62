import Chip8.Proofs.Fault
import Chip8.Proofs.Likeness

/-! # What runs cannot see

The flags that tell of changes and the slots of the stack that are not live are state that nothing
reads but a caller who asks for changes. Machines that agree on all the rest agree on it after every
instruction, so sessions without hooks differ in no answer but those that tell of changes. Asking
for frames and for changes in between does not matter either.
-/

namespace Chip8

namespace Display

variable {d e : Display}

theorem drawByte_congr (h : d.screen = e.screen) (x y : UInt64) (byte : UInt8) :
    (d.drawByte x y byte).1 = (e.drawByte x y byte).1 ∧
      (d.drawByte x y byte).2.screen = (e.drawByte x y byte).2.screen := by
  unfold drawByte
  split
  case isTrue => simp only [h, and_self]
  case isFalse => exact ⟨rfl, h⟩

theorem drawSprite_congr (h : d.screen = e.screen) (x y : UInt64) (sprite : List UInt8) :
    (d.drawSprite x y sprite).1 = (e.drawSprite x y sprite).1 ∧
      (d.drawSprite x y sprite).2.screen = (e.drawSprite x y sprite).2.screen := by
  induction sprite generalizing d e y with
  | nil => exact ⟨rfl, h⟩
  | cons byte rest ih =>
    obtain ⟨hhit, hscreen⟩ := drawByte_congr h x y byte
    obtain ⟨hhits, hlast⟩ := ih hscreen (y + 1)
    simp only [drawSprite, hhit, hhits, hlast, and_self]

end Display

namespace CallStack

variable {s t : CallStack}

theorem depth_congr (h : s.toList = t.toList) : s.depth = t.depth := by
  have hlength := congrArg List.length h
  rwa [length_toList, length_toList] at hlength

theorem push?_congr (h : s.toList = t.toList) (addr : UInt16) :
    (s.push? addr = none ∧ t.push? addr = none) ∨
      ∃ s' t', s.push? addr = some s' ∧ t.push? addr = some t' ∧ s'.toList = t'.toList := by
  have hnone : s.push? addr = none ↔ t.push? addr = none := by
    rw [push?_eq_none_iff, push?_eq_none_iff, depth_congr h]
  cases hs : s.push? addr with
  | none => exact .inl ⟨rfl, hnone.mp hs⟩
  | some s' =>
    cases ht : t.push? addr with
    | none => cases hs.symm.trans (hnone.mpr ht)
    | some t' => exact .inr ⟨s', t', rfl, rfl, by rw [toList_push? hs, toList_push? ht, h]⟩

theorem pop?_congr (h : s.toList = t.toList) :
    (s.pop? = none ∧ t.pop? = none) ∨ ∃ addr s' t',
      s.pop? = some (addr, s') ∧ t.pop? = some (addr, t') ∧ s'.toList = t'.toList := by
  have hnone : s.pop? = none ↔ t.pop? = none := by
    rw [pop?_eq_none_iff, pop?_eq_none_iff, depth_congr h]
  cases hs : s.pop? with
  | none => exact .inl ⟨rfl, hnone.mp hs⟩
  | some top =>
    cases ht : t.pop? with
    | none => cases hs.symm.trans (hnone.mpr ht)
    | some top' =>
      obtain ⟨addr, s'⟩ := top
      obtain ⟨addr', t'⟩ := top'
      have hlast : s'.toList ++ [addr] = t'.toList ++ [addr'] := by
        rw [← toList_pop? hs, h, toList_pop? ht]
      obtain ⟨hlive, haddr⟩ := List.append_inj' hlast rfl
      cases haddr
      exact .inr ⟨addr, s', t', rfl, rfl, hlive⟩

end CallStack

namespace Machine

/-- Two machines that differ at most in the flags of changes and in slots that are not live. -/
structure Agree (m n : Machine) : Prop where
  memory : m.memory = n.memory
  live : m.stack.toList = n.stack.toList
  v : m.v = n.v
  i : m.i = n.i
  pc : m.pc = n.pc
  delay : m.delay = n.delay
  sound : m.sound = n.sound
  keypad : m.keypad = n.keypad
  screen : m.display.screen = n.display.screen

/-- The same error, or machines that agree. -/
inductive AgreeOr : Except Error Machine → Except Error Machine → Prop
  | ok {m n : Machine} (h : Agree m n) : AgreeOr (.ok m) (.ok n)
  | error (e : Error) : AgreeOr (.error e) (.error e)

def veil (m : Machine) (stack : CallStack) (shown heard : Bool) : Machine :=
  { m with stack, display := ⟨m.display.screen, shown⟩, soundChanged := heard }

namespace Agree

variable {m n : Machine}

theorem refl (m : Machine) : Agree m m := ⟨rfl, rfl, rfl, rfl, rfl, rfl, rfl, rfl, rfl⟩

theorem eq_veil (h : Agree m n) : ∃ stack shown heard,
    m.stack.toList = stack.toList ∧ n = m.veil stack shown heard := by
  refine ⟨n.stack, n.display.changed, n.soundChanged, h.live, ?_⟩
  unfold veil
  rw [h.memory, h.v, h.i, h.pc, h.delay, h.sound, h.keypad, h.screen]

theorem withPc (h : Agree m n) (pc : UInt16) : Agree { m with pc } { n with pc } :=
  { h with pc := rfl }

theorem withIndex (h : Agree m n) (i : UInt16) : Agree { m with i } { n with i } :=
  { h with i := rfl }

theorem withV (h : Agree m n) (v : Registers) : Agree { m with v } { n with v } :=
  { h with v := rfl }

theorem withDisplay (h : Agree m n) {d e : Display} (hscreen : d.screen = e.screen) :
    Agree { m with display := d } { n with display := e } :=
  { h with screen := hscreen }

theorem setV (h : Agree m n) (r : Reg) (value : UInt8) : Agree (m.setV r value) (n.setV r value) :=
  { h with v := congrArg (·.set r value) h.v }

theorem setResult (h : Agree m n) (r : Reg) (value : UInt8) (flag : Bool) :
    Agree (m.setResult r value flag) (n.setResult r value flag) :=
  (h.setV r value).setV _ _

theorem skipIf (h : Agree m n) (condition : Bool) :
    Agree (m.skipIf condition) (n.skipIf condition) := by
  rw [skipIf_eq, skipIf_eq, h.pc]
  exact h.withPc _

theorem setSound (h : Agree m n) (value : UInt8) : Agree (m.setSound value) (n.setSound value) :=
  { h with sound := rfl }

theorem write (h : Agree m n) (addr : Nat) (data : List UInt8) :
    AgreeOr (m.write addr data) (n.write addr data) := by
  unfold Machine.write
  rw [h.memory]
  cases n.memory.write addr data with
  | ok memory => exact .ok { h with memory := rfl }
  | error e => exact .error e

/-- Nothing that an instruction reads is hidden. -/
theorem exec (h : Agree m n) (roll : UInt8) (instr : Instr) :
    AgreeOr (m.exec roll instr) (n.exec roll instr) := by
  obtain ⟨stack, shown, heard, hlive, rfl⟩ := h.eq_veil
  -- What an instruction reads of either machine is now the same term but for these three.
  cases instr with
  | clearScreen => exact .ok { h with screen := rfl }
  | ret =>
    simp only [Machine.exec, veil]
    obtain ⟨hm, hn⟩ | ⟨addr, s, t, hm, hn, hlive⟩ := CallStack.pop?_congr hlive
    · rw [hm, hn]
      exact .error _
    · rw [hm, hn]
      exact .ok { h with live := hlive, pc := rfl }
  | sys addr => exact .ok h
  | jump addr => exact .ok (h.withPc _)
  | call addr =>
    simp only [Machine.exec, veil]
    obtain ⟨hm, hn⟩ | ⟨s, t, hm, hn, hlive⟩ := CallStack.push?_congr hlive m.pc
    · rw [hm, hn]
      exact .error _
    · rw [hm, hn]
      exact .ok { h with live := hlive, pc := rfl }
  | skipEqualByte x byte | skipUnequalByte x byte | skipEqual x y | skipUnequal x y =>
    exact .ok (h.skipIf _)
  | skipKeyDown x | skipKeyUp x =>
    simp only [Machine.exec, veil]
    cases m.keypad.line (m.v.get x).toNat with
    | ok down => exact .ok (h.skipIf _)
    | error e => exact .error e
  | loadByte x byte | addByte x byte | copy x y | or x y | and x y | xor x y | random x byte
  | readDelay x => exact .ok (h.setV _ _)
  | add x y | sub x y | shiftRight x | subFrom x y | shiftLeft x => exact .ok (h.setResult _ _ _)
  | loadIndex addr | glyph x => exact .ok (h.withIndex _)
  | jumpOffset addr => exact .ok (h.withPc _)
  | draw x y rows =>
    simp only [Machine.exec, veil]
    cases m.memory.read m.i.toNat rows with
    | ok sprite =>
      obtain ⟨hhit, hscreen⟩ := Display.drawSprite_congr h.screen (m.v.get x).toUInt64
        (m.v.get y).toUInt64 sprite
      have hdrawn := Agree.withDisplay h hscreen
      exact .ok (hhit ▸ hdrawn.setV _ _)
    | error e => exact .error e
  | waitKey x =>
    simp only [Machine.exec, veil]
    cases m.keypad.lowest? with
    | some key => exact .ok (h.setV _ _)
    | none => exact .ok (h.withPc _)
  | setDelay x => exact .ok { h with delay := rfl }
  | setSound x => exact .ok (h.setSound _)
  | addIndex x => exact .ok ((h.withIndex _).setV _ _)
  | storeDecimal x | storeRegisters x => exact h.write _ _
  | loadRegisters x =>
    simp only [Machine.exec, veil]
    cases m.memory.read m.i.toNat (x + 1) with
    | ok bytes => exact .ok (h.withV _)
    | error e => exact .error e

theorem hold (h : Agree m n) (key? : Option (Fin Layout.keyCount)) (down : Bool) :
    Agree (m.hold key? down) (n.hold key? down) := by
  cases key? with
  | none => exact h
  | some key =>
    have hset : m.keypad.lines.set key.val down key.isLt =
        n.keypad.lines.set key.val down key.isLt := by rw [h.keypad]
    exact { h with keypad := congrArg Keypad.mk hset }

theorem timed (h : Agree m n) : Agree m.timed n.timed :=
  { h with
    delay := congrArg (fun timer : UInt8 => UInt8.ofNat (timer.toNat - 1)) h.delay
    sound := congrArg (fun timer : UInt8 => UInt8.ofNat (timer.toNat - 1)) h.sound }

theorem asked (h : Agree m n) : Agree m.takeOutputChanged.2 n := { h with screen := h.screen }

theorem fetched (h : Agree m n) : Agree m.fetched n.fetched := by
  unfold Machine.fetched
  rw [h.pc]
  exact h.withPc _

theorem fetch (h : Agree m n) : (∃ e, m.fetch = .error e ∧ n.fetch = .error e) ∨
    ∃ word, m.fetch = .ok (word, m.fetched) ∧ n.fetch = .ok (word, n.fetched) := by
  cases hfetch : m.fetch with
  | error e =>
    rw [fetch_eq_error_iff, h.pc, ← fetch_eq_error_iff] at hfetch
    exact .inl ⟨e, rfl, hfetch⟩
  | ok result =>
    obtain ⟨word, next⟩ := result
    obtain ⟨hword, rfl⟩ := fetch_eq_ok_iff.mp hfetch
    rw [h.memory, h.pc] at hword
    exact .inr ⟨word, rfl, fetch_eq_ok_iff.mpr ⟨hword, rfl⟩⟩

theorem step (h : Agree m n) (roll : UInt8) : Outcome.Both Agree (m.step roll) (n.step roll) := by
  obtain ⟨e, hm, hn⟩ | ⟨word, hm, hn⟩ := h.fetch
  · simp only [Machine.step, hm, hn]
    exact ⟨rfl, h⟩
  · cases hinstr : Instr.decode? word with
    | none =>
      simp only [Machine.step, hm, hn, hinstr]
      exact ⟨rfl, h.fetched⟩
    | some instr =>
      have hexec := h.fetched.exec roll instr
      simp only [Machine.step, hm, hn, hinstr]
      generalize m.fetched.exec roll instr = first at hexec
      generalize n.fetched.exec roll instr = second at hexec
      cases hexec with
      | ok hnext => exact ⟨rfl, hnext⟩
      | error e => exact ⟨rfl, h.fetched⟩

theorem rolls (h : Agree m n) : m.rolls = n.rolls := by
  unfold Machine.rolls
  obtain ⟨e, hm, hn⟩ | ⟨word, hm, hn⟩ := h.fetch
  · rw [hm, hn]
  · rw [hm, hn]

end Agree

end Machine

/-- An answer without what it tells of changes. -/
def Reply.unflagged : Reply → Reply
  | .frame f => .frame { f with changed := false }
  | .changed _ => .changed false
  | reply => reply

namespace Rig

variable {σ τ : Type}

/-- Two rigs without hooks whose machines agree, at the same point of the same dice. -/
abbrev Agree : Rig σ → Rig τ → Prop := Tied Machine.Agree

namespace Agree

variable {r : Rig σ} {s : Rig τ}

theorem setBreak (h : Agree r s) (addr : UInt16) : Agree (r.setBreak addr) (s.setBreak addr) := by
  unfold Rig.setBreak
  rw [h.breakpoints]
  split
  case isTrue => exact h
  case isFalse => exact { h with breakpoints := rfl }

theorem change (h : Agree r s) (c : Change) : Agree (r.change c) (s.change c) := by
  cases c with
  | powerOn =>
    simp only [Rig.change]
    exact { h with machine := .refl _ }
  | load memory => exact { h with machine := { h.machine with memory := rfl } }
  | hold key? down => exact { h with machine := h.machine.hold key? down }
  | tick => exact { h with machine := h.machine.timed }
  | ask => exact { h with machine := { h.machine with screen := h.machine.screen } }
  | setBreak addr => exact h.setBreak addr
  | unsetBreak addr =>
    exact { h with breakpoints := congrArg (List.filter (· ≠ addr)) h.breakpoints }
  | record event => exact { h with }

theorem likeness : Likeness (Agree : Rig σ → Rig τ → Prop) Reply.unflagged where
  change := change
  memory h := h.machine.memory
  registers h := h.machine.v
  screen h := h.machine.screen
  sound h := h.machine.sound
  asked _ := rfl
  framed _ _ _ _ _ := rfl

theorem step (h : Agree r s) : Outcome.Both Agree r.step s.step :=
  Tied.step h (fun hmachine => ⟨hmachine.pc, hmachine.memory⟩) h.machine.rolls
    (h.machine.step r.dice.top)

end Agree

end Rig

/-- A call that asks for what is shown, or whether it changed. -/
def Call.polls : Call → Bool
  | .frame | .takeOutputChanged => true
  | _ => false

namespace Vm

variable {σ τ : Type} {v : Vm σ} {w : Vm τ}

/-- The answers to the calls of a session that are no polls. -/
def answers (calls : List Call) (vm : Vm σ) : List Reply :=
  ((calls.zip (vm.session calls).1).filter fun answered => !answered.1.polls).map Prod.snd

def quiet (calls : List Call) : List Call := calls.filter fun call => !call.polls

theorem answers_cons (call : Call) (calls : List Call) (vm : Vm σ) :
    vm.answers (call :: calls) =
      if call.polls then (vm.call call).2.answers calls
      else (vm.call call).1 :: (vm.call call).2.answers calls := by
  simp only [answers, session, List.zip_cons_cons, List.filter_cons]
  cases call.polls <;> rfl

/-- Asking leaves all but the flags of changes as it is. -/
theorem Alike.polled (h : Alike Rig.Agree v w) {call : Call} (hpolls : call.polls = true) :
    Alike Rig.Agree (v.call call).2 w := by
  have hasked : Alike Rig.Agree (v.setMachine v.machine.takeOutputChanged.2) w :=
    { h with rig := { h.rig with machine := h.rig.machine.asked } }
  cases call with
  | frame =>
    simp only [Vm.call, Vm.frame]
    cases v.readVariables with
    | ok values => exact hasked
    | error e => exact h
  | takeOutputChanged => exact hasked
  | _ => cases hpolls

theorem unpolled (calls : List Call) (h : Alike Rig.Agree v w) :
    (v.answers calls).map Reply.unflagged = (w.session (quiet calls)).1.map Reply.unflagged ∧
      Alike Rig.Agree (v.session calls).2 (w.session (quiet calls)).2 := by
  induction calls generalizing v w with
  | nil => exact ⟨rfl, h⟩
  | cons call calls ih =>
    rw [answers_cons, quiet, List.filter_cons]
    cases hpolls : call.polls with
    | true => exact ih (h.polled hpolls)
    | false =>
      obtain ⟨hreply, hafter⟩ := h.anyCall Rig.Agree.likeness Rig.Agree.step call
      obtain ⟨hreplies, hlast⟩ := ih hafter
      exact ⟨List.cons_eq_cons.mpr ⟨hreply, hreplies⟩, hlast⟩

structure Indistinct (v : Vm σ) (w : Vm τ) (calls : List Call) : Prop where
  replies : (v.session calls).1.map Reply.unflagged = (w.session calls).1.map Reply.unflagged
  after : Alike Rig.Agree (v.session calls).2 (w.session calls).2
  /-- The polls of a session may as well be left out. -/
  answers : (v.answers calls).map Reply.unflagged = (w.session (quiet calls)).1.map Reply.unflagged
  unpolled : Alike Rig.Agree (v.session calls).2 (w.session (quiet calls)).2

theorem hidden_indistinct (h : Alike Rig.Agree v w) (calls : List Call) : Indistinct v w calls := by
  obtain ⟨hreplies, hafter⟩ := h.session Rig.Agree.likeness Rig.Agree.step calls
  obtain ⟨hanswers, hunpolled⟩ := unpolled calls h
  exact ⟨hreplies, hafter, hanswers, hunpolled⟩

/-- Calls a subroutine that returns, and stops. -/
def calling : Vm Unit :=
  ofRig .standard { Rig.powerOn ⟨fun _ => 0, 0⟩ () (.empty .off) with
    machine := { Machine.powerOn with
      memory := Memory.powerOn.overlay Layout.programStart [0x22, 0x04, 0x12, 0x02, 0x00, 0xee] } }

/-- The same with all flags up and addresses left over in the stack. -/
def stale : Vm Unit :=
  calling.setMachine (calling.machine.veil ⟨.replicate _ 0x202, 0, Nat.zero_le _⟩ true true)

theorem stale_indistinct : Alike Rig.Agree calling stale ∧
    (calling.call .takeOutputChanged).1 ≠ (stale.call .takeOutputChanged).1 ∧
    Indistinct calling stale [.frame, .cycle, .takeOutputChanged, .cycle] := by
  have hmachine : calling.machine.Agree stale.machine :=
    ⟨rfl, by decide, rfl, rfl, rfl, rfl, rfl, rfl, rfl⟩
  have halike : Alike Rig.Agree calling stale :=
    ⟨⟨hmachine, rfl, rfl, rfl, rfl⟩, rfl, rfl, rfl, rfl⟩
  exact ⟨halike, by decide, hidden_indistinct halike _⟩

end Vm

end Chip8
