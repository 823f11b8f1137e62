import Chip8.Proofs.Breakpoints
import Chip8.Proofs.Choices
import Chip8.Proofs.Loading
import Chip8.Proofs.Numbering

/-! # The account of a run

The runner asks for one frame after the other, as often as it was told to, or until an answer is
neither a frame nor a breakpoint. It counts how often it asks, and the virtual machine counts its
cycles. Only an answer that is a frame moves both counts, so the number at the end is the number of
the frames that were shown.
-/

namespace Chip8

theorem Variable.read_ne_breakpointHit {var : Variable} {m : Machine} {addr word : UInt16} :
    var.read m ≠ .error (.breakpointHit addr word) := by
  intro h
  obtain ⟨kind, index⟩ := var
  cases kind with
  | decimal =>
    obtain ⟨-, hother⟩ := read_decimal_eq_error_iff.mp h
    cases hother
  | register =>
    unfold read Machine.register at h
    simp only at h
    split at h
    case isTrue => cases h
    case isFalse => cases h

namespace Rig

variable {σ : Type} {addr : UInt16}

theorem mem_setBreak (rig : Rig σ) (other : UInt16) :
    addr ∈ (rig.setBreak other).breakpoints ↔ addr = other ∨ addr ∈ rig.breakpoints := by
  rw [breakpoints_setBreak]
  split
  case isTrue hmem => exact (or_iff_right_of_imp fun heq => heq ▸ hmem).symm
  case isFalse => rw [List.mem_append, List.mem_singleton, or_comm]

theorem mem_setBreaks (addrs : List UInt16) (rig : Rig σ) :
    addr ∈ (addrs.foldl setBreak rig).breakpoints ↔ addr ∈ addrs ∨ addr ∈ rig.breakpoints := by
  induction addrs generalizing rig with
  | nil => simp only [List.foldl_nil, List.not_mem_nil, false_or]
  | cons other addrs ih =>
    rw [List.foldl_cons, ih, mem_setBreak, List.mem_cons, or_left_comm, or_assoc]

end Rig

abbrev Answer := Except Error Frame

namespace Answer

def frame? : Answer → Option Frame
  | .ok f => some f
  | .error _ => none

/-- The breakpoint that was hit, and the word there. -/
def hit? : Answer → Option (UInt16 × UInt16)
  | .error (.breakpointHit addr word) => some (addr, word)
  | _ => none

/-- Why nobody should ask again. -/
def failure? : Answer → Option Error
  | .ok _ => none
  | .error (.breakpointHit ..) => none
  | .error e => some e

/-- Each answer is one of the three, and not two of them. -/
inductive Kind : Answer → Prop
  | frame {answer : Answer} (f : Frame) (heq : answer = .ok f) (hframe : answer.frame? = some f)
      (hhit : answer.hit? = none) (hfailure : answer.failure? = none) : Kind answer
  | hit {answer : Answer} (addr word : UInt16) (heq : answer = .error (.breakpointHit addr word))
      (hframe : answer.frame? = none) (hhit : answer.hit? = some (addr, word))
      (hfailure : answer.failure? = none) : Kind answer
  | failure {answer : Answer} (e : Error) (heq : answer = .error e) (hframe : answer.frame? = none)
      (hhit : answer.hit? = none) (hfailure : answer.failure? = some e) : Kind answer

theorem kind (answer : Answer) : answer.Kind := by
  cases answer with
  | ok f => exact .frame f rfl rfl rfl rfl
  | error e =>
    cases e with
    | breakpointHit addr word => exact .hit addr word rfl rfl rfl rfl
    | _ => exact .failure _ rfl rfl rfl rfl

theorem of_failure? {answer : Answer} {e : Error} (h : answer.failure? = some e) :
    answer.frame? = none ∧ answer.hit? = none := by
  cases answer.kind with
  | frame _ _ _ _ hfailure | hit _ _ _ _ _ hfailure => cases hfailure.symm.trans h
  | failure _ _ hframe hhit => exact ⟨hframe, hhit⟩

theorem length_eq (answers : List Answer) : (answers.filterMap frame?).length +
    (answers.filterMap hit?).length + (answers.filterMap failure?).length = answers.length := by
  induction answers with
  | nil => rfl
  | cons answer answers ih =>
    cases answer.kind with
    | frame _ _ hframe hhit hfailure | hit _ _ _ hframe hhit hfailure
    | failure _ _ hframe hhit hfailure =>
      simp only [List.filterMap_cons, hframe, hhit, hfailure, List.length_cons]
      omega

end Answer

namespace Vm

variable {σ : Type} {vm next last : Vm σ}

/-- A breakpoint stops a cycle before it counts. -/
theorem cycles_of_hit {addr word : UInt16}
    (h : vm.nextFrame = (.error (.breakpointHit addr word), next)) : next.cycles = vm.cycles := by
  rw [nextFrame_of_error h, cycles_cycle, completes]
  unfold nextFrame at h
  generalize vm.cycle = middle at h ⊢
  obtain ⟨result, middle⟩ := middle
  cases result with
  | error e => rfl
  | ok _ =>
    -- The variables, which are read after the cycle has counted, hit no breakpoint.
    have hread := frame_eq_error_iff.mp (congrArg Prod.fst h)
    unfold readVariables at hread
    split at hread
    case h_1 =>
      obtain ⟨_, _, var, _, _, hvar, _⟩ := Profile.first_of_readAll hread
      exact absurd hvar Variable.read_ne_breakpointHit
    case h_2 => cases hread

theorem display_of_nextFrame {f : Frame} (h : vm.nextFrame = (.ok f, next)) :
    next.machine.display = ⟨f.screen, false⟩ := by
  unfold nextFrame at h
  generalize vm.cycle = middle at h
  obtain ⟨result, middle⟩ := middle
  cases result with
  | error e => cases h
  | ok _ =>
    change middle.frame = _ at h
    obtain ⟨values, hvalues, -⟩ := frame_eq_ok_iff.mp (congrArg Prod.fst h)
    rw [frame_of_ok hvalues] at h
    cases h
    rfl

/-- The answers to somebody who asks for frames in a row, at most so many, and goes on after a frame
or a breakpoint only. -/
inductive Asks : Nat → Vm σ → List Answer → Vm σ → Prop
  | enough (vm : Vm σ) : Asks 0 vm [] vm
  | goesOn {count : Nat} {vm next last : Vm σ} {answer : Answer} {answers : List Answer}
      (hanswer : vm.nextFrame = (answer, next)) (hgoes : answer.failure? = none)
      (hrest : Asks count next answers last) : Asks (count + 1) vm (answer :: answers) last
  | stops {count : Nat} {vm last : Vm σ} {answer : Answer} {e : Error}
      (hanswer : vm.nextFrame = (answer, last)) (hstops : answer.failure? = some e) :
      Asks (count + 1) vm [answer] last

/-- Asks in a row, and keeps the answers. -/
def askUpTo : Nat → Vm σ → List Answer × Vm σ
  | 0, vm => ([], vm)
  | count + 1, vm =>
    let (answer, next) := vm.nextFrame
    if (Answer.failure? answer).isSome then ([answer], next)
    else
      let (answers, last) := next.askUpTo count
      (answer :: answers, last)

theorem asks_askUpTo (vm : Vm σ) (count : Nat) :
    vm.Asks count (vm.askUpTo count).1 (vm.askUpTo count).2 := by
  induction count generalizing vm with
  | zero => exact .enough vm
  | succ count ih =>
    obtain ⟨⟨answer, next⟩, hanswer⟩ : ∃ outcome, vm.nextFrame = outcome := ⟨_, rfl⟩
    simp only [askUpTo, hanswer]
    cases hfailure : Answer.failure? answer with
    | none => exact .goesOn hanswer hfailure (ih next)
    | some e => exact .stops hanswer hfailure

variable {count : Nat} {answers : List Answer}

theorem Asks.length_le (h : vm.Asks count answers last) : answers.length ≤ count := by
  induction h with
  | enough vm => exact Nat.le_refl 0
  | goesOn hanswer hgoes hrest ih => exact Nat.succ_le_succ ih
  | stops hanswer hstops => exact Nat.succ_le_succ (Nat.zero_le _)

theorem Asks.length_eq (h : vm.Asks count answers last)
    (hnone : answers.filterMap Answer.failure? = []) : answers.length = count := by
  induction h with
  | enough vm => rfl
  | goesOn hanswer hgoes hrest ih =>
    rw [List.filterMap_cons_none hgoes] at hnone
    rw [List.length_cons, ih hnone]
  | stops hanswer hstops =>
    rw [List.filterMap_cons_some hstops] at hnone
    cases hnone

theorem Asks.unique {others : List Answer} {after : Vm σ} (h : vm.Asks count answers last)
    (hother : vm.Asks count others after) : answers = others ∧ last = after := by
  induction h generalizing others with
  | enough vm =>
    cases hother
    exact ⟨rfl, rfl⟩
  | goesOn hanswer hgoes hrest ih =>
    cases hother with
    | goesOn hanswer' hgoes' hrest' =>
      obtain ⟨rfl, rfl⟩ := Prod.mk.inj (hanswer.symm.trans hanswer')
      obtain ⟨rfl, rfl⟩ := ih hrest'
      exact ⟨rfl, rfl⟩
    | stops hanswer' hstops =>
      obtain ⟨rfl, rfl⟩ := Prod.mk.inj (hanswer.symm.trans hanswer')
      cases hstops.symm.trans hgoes
  | stops hanswer hstops =>
    cases hother with
    | goesOn hanswer' hgoes' hrest' =>
      obtain ⟨rfl, rfl⟩ := Prod.mk.inj (hanswer.symm.trans hanswer')
      cases hstops.symm.trans hgoes'
    | stops hanswer' hstops' =>
      obtain ⟨rfl, rfl⟩ := Prod.mk.inj (hanswer.symm.trans hanswer')
      exact ⟨rfl, rfl⟩

/-- The frame that was shown last carries the count of all of them. -/
theorem Asks.number (h : vm.Asks count answers last) {f : Frame}
    (hlast : (answers.filterMap Answer.frame?).getLast? = some f) :
    f.cycle = vm.cycles + (answers.filterMap Answer.frame?).length := by
  induction h with
  | enough vm => cases hlast
  | @goesOn count vm next last answer answers hanswer hgoes hrest ih =>
    cases answer.kind with
    | frame shown heq hframe =>
      subst heq
      obtain ⟨hfirst, hnext⟩ := number_of_nextFrame hanswer
      rw [List.filterMap_cons_some hframe] at hlast ⊢
      rw [List.length_cons]
      -- The frame that was shown last is this one only if no other follows.
      cases hlater : answers.filterMap Answer.frame? with
      | nil =>
        rw [hlater] at hlast
        cases hlast
        exact hfirst
      | cons other later =>
        rw [hlater, List.getLast?_cons_cons, ← hlater] at hlast
        rw [← hlater, ih hlast, hnext]
        omega
    | hit addr word heq hframe =>
      subst heq
      -- A breakpoint adds to neither count.
      rw [List.filterMap_cons_none hframe] at hlast ⊢
      rw [ih hlast, cycles_of_hit hanswer]
    | failure e _ _ _ hfailure => cases hfailure.symm.trans hgoes
  | stops hanswer hstops =>
    rw [List.filterMap_cons_none (Answer.of_failure? hstops).1] at hlast
    cases hlast

end Vm

namespace Cli.Runner

open Text

/-- What is reported of an answer. -/
def tells (screen : Bool) : Answer → List Report
  | .ok f => if screen && f.changed then [.screen ⟨f.screen, false⟩] else []
  | .error (.breakpointHit addr word) => [.breakpoint addr word]
  | .error e => [.failure e]

theorem tells_of_failure? (screen : Bool) {answer : Answer} {e : Error}
    (h : answer.failure? = some e) : tells screen answer = [.failure e] := by
  cases answer with
  | ok f => cases h
  | error other => cases other <;> cases h <;> rfl

/-- A runner that has had an answer. -/
def hear (runner : Runner) (answer : Answer) (vm : Vm Unit) : Runner :=
  { runner with
    vm
    turns := runner.turns + 1
    last := answer.frame?.or runner.last
    reports := (tells runner.screen answer).reverse ++ runner.reports }

theorem turn_eq {runner : Runner} (hchance : runner.chance = none) {answer : Answer} {vm : Vm Unit}
    (hanswer : runner.vm.nextFrame = (answer, vm)) :
    runner.turn = (answer.failure?.isNone, runner.hear answer vm) := by
  obtain ⟨before, chance, screen, dump, turns, shown, reports⟩ := runner
  obtain rfl : chance = none := hchance
  have hframe : before.nextFrame = (answer, vm) := hanswer
  cases answer with
  | ok f =>
    simp only [turn, act, hframe, Vm.display_of_nextFrame hframe]
    cases hshown : screen && f.changed with
    | true =>
      simp only [hear, tells, hshown, if_true]
      rfl
    | false =>
      simp only [hear, tells, hshown]
      rfl
  | error e =>
    simp only [turn, act, hframe]
    cases e <;> rfl

/-- What a runner has become that has had some answers. -/
def hearAll (runner : Runner) (answers : List Answer) (vm : Vm Unit) : Runner :=
  { runner with
    vm
    turns := runner.turns + answers.length
    last := (answers.filterMap Answer.frame?).getLast?.or runner.last
    reports := (answers.flatMap (tells runner.screen)).reverse ++ runner.reports }

theorem hearAll_hear (runner : Runner) (answer : Answer) (answers : List Answer)
    (vm last : Vm Unit) :
    (runner.hear answer vm).hearAll answers last = runner.hearAll (answer :: answers) last := by
  have hturns : runner.turns + 1 + answers.length = runner.turns + (answer :: answers).length := by
    rw [List.length_cons]
    omega
  have hlast : (answers.filterMap Answer.frame?).getLast?.or (answer.frame?.or runner.last) =
      ((answer :: answers).filterMap Answer.frame?).getLast?.or runner.last := by
    cases hframe : answer.frame? with
    | none => rw [List.filterMap_cons_none hframe, Option.none_or]
    | some f =>
      rw [List.filterMap_cons_some hframe, List.getLast?_cons]
      cases (answers.filterMap Answer.frame?).getLast? <;> rfl
  have hreports : (answers.flatMap (tells runner.screen)).reverse ++
        ((tells runner.screen answer).reverse ++ runner.reports) =
      ((answer :: answers).flatMap (tells runner.screen)).reverse ++ runner.reports := by
    rw [List.flatMap_cons, List.reverse_append, List.append_assoc]
  simp only [hear, hearAll, hturns, hlast, hreports]

theorem turnsUpTo_eq {runner : Runner} (hchance : runner.chance = none) (count : Nat) :
    ∃ answers last, runner.vm.Asks count answers last ∧
      turnsUpTo count runner = runner.hearAll answers last := by
  induction count generalizing runner with
  | zero => exact ⟨[], runner.vm, .enough runner.vm, rfl⟩
  | succ count ih =>
    match hanswer : runner.vm.nextFrame with
    | (answer, vm) =>
      rw [turnsUpTo, turn_eq hchance hanswer]
      cases hfailure : Answer.failure? answer with
      | none =>
        obtain ⟨answers, last, hasks, hrest⟩ := @ih (runner.hear answer vm) hchance
        refine ⟨answer :: answers, last, .goesOn hanswer hfailure hasks, ?_⟩
        rw [← hearAll_hear]
        exact hrest
      | some e =>
        exact ⟨[answer], vm, .stops hanswer hfailure, hearAll_hear runner answer [] vm vm⟩

/-! ## What is written -/

def hitLine : UInt16 × UInt16 → String
  | (addr, word) => "Breakpoint hit: " ++ Hex.lowerBlank 3 addr.toNat ++ " (" ++
      Hex.lowerBlank 4 word.toNat ++ ")\n"

def failureLine (e : Error) : String := Style.alarm.paint e.message ++ "\n"

/-- How many frames there were, and the variables of the last. -/
def summaryOf (frames : List Frame) : String :=
  match frames.getLast? with
  | none => ""
  | some f => toString frames.length ++ " frames\n" ++
      String.join (f.values.map fun (name, value) => name ++ ": " ++ toString value ++ "\n")

theorem out_tells (screen : Bool) (answers : List Answer) :
    String.join ((answers.flatMap (tells screen)).map Report.out) =
      String.join (((answers.filterMap Answer.frame?).filter fun f => screen && f.changed).map
        fun f => Display.braille ⟨f.screen, false⟩) := by
  induction answers with
  | nil => rfl
  | cons answer answers ih =>
    rw [List.flatMap_cons, List.map_append, String.join_append, ih]
    cases answer.kind with
    | frame f heq hframe =>
      rw [List.filterMap_cons_some hframe, List.filter_cons, heq, tells]
      cases screen && f.changed <;> simp [Report.out]
    | hit addr word heq hframe =>
      rw [List.filterMap_cons_none hframe, heq]
      rfl
    | failure e heq hframe _ hfailure =>
      rw [List.filterMap_cons_none hframe, tells_of_failure? screen hfailure]
      rfl

/-- A failure is told last, since nobody asks after it. -/
theorem err_tells (screen : Bool) {count : Nat} {vm last : Vm Unit} {answers : List Answer}
    (h : vm.Asks count answers last) :
    String.join ((answers.flatMap (tells screen)).map Report.err) =
      String.join ((answers.filterMap Answer.hit?).map hitLine) ++
        String.join ((answers.filterMap Answer.failure?).map failureLine) := by
  induction h with
  | enough vm => rfl
  | @goesOn count vm next last answer answers hanswer hgoes hrest ih =>
    rw [List.flatMap_cons, List.map_append, String.join_append, ih]
    cases answer.kind with
    | frame f heq _ hhit hfailure =>
      have hsilent : String.join ((tells screen answer).map Report.err) = "" := by
        rw [heq, tells]
        split <;> rfl
      rw [List.filterMap_cons_none hhit, List.filterMap_cons_none hfailure, hsilent,
        String.empty_append]
    | hit addr word heq _ hhit hfailure =>
      rw [List.filterMap_cons_some hhit, List.filterMap_cons_none hfailure, heq, List.map_cons,
        String.join_cons, String.append_assoc]
      rfl
    | failure e _ _ _ hfailure => cases hfailure.symm.trans hgoes
  | @stops count vm last answer e hanswer hstops =>
    obtain ⟨-, hhit⟩ := Answer.of_failure? hstops
    rw [List.filterMap_cons_none hhit, List.filterMap_cons_some hstops, List.flatMap_singleton,
      tells_of_failure? screen hstops]
    rfl

theorem result_tell (runner : Runner) (report : Report) : (runner.tell report).result =
    ⟨0, runner.result.out ++ report.out, runner.result.err ++ report.err⟩ := by
  simp only [result, tell, List.reverse_cons, List.map_append, List.map_singleton,
    String.join_append, String.join_cons, String.join_nil, String.append_empty]

@[simp] theorem Report.err_registers (m : Machine) : (registers m).err = "" := rfl

@[simp] theorem Report.err_summary (f : Frame) : (summary f).err = "" := rfl

theorem result_finish (runner : Runner) : runner.finish.result =
    ⟨0, runner.result.out ++ (if runner.dump then runner.vm.machine.dump else "") ++
        (match runner.last with | some f => Report.summaryText f | none => ""),
      runner.result.err⟩ := by
  let told := if runner.dump then runner.tell (.registers runner.vm.machine) else runner
  have htold : told.result =
      ⟨0, runner.result.out ++ (if runner.dump then runner.vm.machine.dump else ""),
        runner.result.err⟩ := by
    unfold told
    cases runner.dump with
    | true =>
      simp only [if_true, result_tell, Report.out, Report.err_registers, String.append_empty]
    | false =>
      simp only [Bool.false_eq_true, if_false, String.append_empty]
      rfl
  have hlast : told.last = runner.last := by
    unfold told
    cases runner.dump <;> rfl
  change (match told.last with | some f => told.tell (.summary f) | none => told).result = _
  rw [hlast]
  cases runner.last with
  | none => simp only [htold, String.append_empty]
  | some f => simp only [result_tell, htold, Report.out, Report.err_summary, String.append_empty]

/-! ## From the command line to the account -/

def withBreaks (addrs : List UInt16) (vm : Vm Unit) : Vm Unit :=
  { vm with rig := addrs.foldl Rig.setBreak vm.rig }

theorem loadedFrom_load {files : Files} {file : String} {vm loaded : Vm Unit}
    (h : load files file vm = (.ok (), loaded)) :
    ∃ rom profile?, loaded.LoadedFrom vm rom profile? := by
  obtain ⟨way, hway⟩ : ∃ way, vm.load files way = load files file vm := by
    unfold load
    split
    case isTrue => exact ⟨.profile file, rfl⟩
    case isFalse => exact ⟨.romFile file, rfl⟩
  obtain ⟨rom, profile?, hgives⟩ := Vm.load_eq_ok_iff.mp (congrArg Prod.fst (hway.trans h))
  obtain ⟨journal, hloaded⟩ := Vm.load_of_gives hgives vm
  obtain rfl := congrArg Prod.snd (h.symm.trans (hway.symm.trans hloaded))
  exact ⟨rom, profile?, Vm.loadedFrom hgives.fits vm profile? journal⟩

/-- What a run has to show that was told to ask for frames, and how it asked for them. -/
structure Account (settings : Settings) (vm : Vm Unit) (answers : List Answer) (last : Vm Unit)
    (result : CommandResult) : Prop where
  watched : ∀ addr, addr ∈ vm.rig.breakpoints ↔ addr ∈ settings.breakpoints
  asks : vm.Asks settings.frames answers last
  atMost : answers.length ≤ settings.frames
  code : result.code = 0
  /-- The screens of the frames that count as changed, if screens are wanted, and the number of all
  frames with the variables of the last. -/
  out : result.out =
    String.join (((answers.filterMap Answer.frame?).filter fun f => settings.screen && f.changed).map
      fun f => Display.braille ⟨f.screen, false⟩) ++
    (if settings.dump then last.machine.dump else "") ++ summaryOf (answers.filterMap Answer.frame?)
  err : result.err = String.join ((answers.filterMap Answer.hit?).map hitLine) ++
    String.join ((answers.filterMap Answer.failure?).map failureLine)
  complete : answers.filterMap Answer.failure? = [] →
    (answers.filterMap Answer.frame?).length + (answers.filterMap Answer.hit?).length =
      settings.frames

theorem summaryText_last {count : Nat} {vm last : Vm Unit} {answers : List Answer}
    (h : vm.Asks count answers last) (hfresh : vm.cycles = 0) :
    (match (answers.filterMap Answer.frame?).getLast? with
      | some f => Report.summaryText f
      | none => "") = summaryOf (answers.filterMap Answer.frame?) := by
  unfold summaryOf
  cases hlast : (answers.filterMap Answer.frame?).getLast? with
  | none => rfl
  | some f =>
    -- The text has the count of the virtual machine, which began with none.
    have hnumber := h.number hlast
    rw [hfresh, Nat.zero_add] at hnumber
    simp only [Report.summaryText, hnumber]

/-- A runner that is ready to ask for frames, without a random agent. -/
def ready (settings : Settings) (vm : Vm Unit) : Runner :=
  ⟨withBreaks settings.breakpoints vm, none, settings.screen, settings.dump, 0, none, []⟩

theorem account_ready {settings : Settings} {vm : Vm Unit} (hfresh : vm.cycles = 0)
    (hunwatched : vm.rig.breakpoints = []) : ∃ answers last,
      Account settings (withBreaks settings.breakpoints vm) answers last
        (turnsUpTo settings.frames (ready settings vm)).finish.result := by
  obtain ⟨answers, last, hasks, hplayed⟩ :=
    turnsUpTo_eq (rfl : (ready settings vm).chance = none) settings.frames
  have hreports : ((ready settings vm).hearAll answers last).result =
      ⟨0, String.join ((answers.flatMap (tells settings.screen)).map Report.out),
        String.join ((answers.flatMap (tells settings.screen)).map Report.err)⟩ := by
    simp only [result, hearAll, ready, List.append_nil, List.reverse_reverse]
  refine ⟨answers, last, ?_⟩
  rw [hplayed, result_finish, hreports]
  constructor
  case watched =>
    intro addr
    refine (Rig.mem_setBreaks settings.breakpoints vm.rig).trans ?_
    simp only [hunwatched, List.not_mem_nil, or_false]
  case asks => exact hasks
  case atMost => exact hasks.length_le
  case code => rfl
  case out =>
    simp only [out_tells, hearAll, ready, Option.or_none]
    rw [← summaryText_last hasks hfresh]
  case err => exact err_tells settings.screen hasks
  case complete =>
    intro hnone
    have hlength := Answer.length_eq answers
    rw [hnone, hasks.length_eq hnone] at hlength
    exact hlength

/-- A line that spells choices is read as they are meant. Whatever line is read, a file that loads
gives a run whose account is right, unless a random agent is asked for. -/
theorem run_accounted (self : String) (args : List String) (files : Files) (dice : Dice)
    (chance : Nat → Nat) :
    (∀ before file behind, Spells args before file behind →
      command.read self args = .ok (file, chosen (before ++ behind))) ∧
    ∀ file settings vm, command.read self args = .ok (file, settings) → settings.random = false →
      load files file (Vm.ofRig settings.flags (.powerOn dice () (.empty .off))) = (.ok (), vm) →
      ∃ answers last, Account settings (withBreaks settings.breakpoints vm) answers last
        (run self args files dice chance) := by
  constructor
  · intro before file behind h
    exact h.read self
  · intro file settings vm hread hrandom hload
    obtain ⟨rom, profile?, hloaded⟩ := loadedFrom_load hload
    obtain ⟨memory, journal, hvm⟩ := hloaded.rest
    have hready : ofSettings settings file files dice chance = .ok (ready settings vm) := by
      simp only [ofSettings, hload, hrandom]
      rfl
    have hrun : run self args files dice chance =
        (turnsUpTo settings.frames (ready settings vm)).finish.result := by
      simp only [run, hread, hready]
    rw [hrun]
    exact account_ready (congrArg Vm.cycles hvm) (congrArg (·.rig.breakpoints) hvm)

/-- A digit is drawn, three instructions leave the screen alone, and there is nowhere to return. -/
def drawing : Files := fun _ =>
  .ok [0xa0, 0x50, 0xd0, 0x05, 0x60, 0x00, 0x60, 0x00, 0x60, 0x00, 0x00, 0xee]

def drawingWords : List String :=
  ["--frames", "9", "--speed", "2", "a", "--break", "206", "--screen"]

def drawingSettings : Settings := chosen ([.frames 9, .speed 2] ++ [.stopAt 0x206, .screen])

def zeroDice : Dice := ⟨fun _ => 0, 0⟩

def drawingVm : Vm Unit :=
  ((Vm.ofRig drawingSettings.flags (.powerOn zeroDice () (.empty .off))).loadRomFile drawing "a").2

/-- A frame whose screen is shown, a breakpoint and a frame whose screen is not, and then nothing to
return to. -/
theorem drawing_accounted :
    Spells drawingWords [.frames 9, .speed 2] "a" [.stopAt 0x206, .screen] ∧
    command.read "runner" drawingWords = .ok ("a", drawingSettings) ∧
    drawingSettings.screen = true ∧ drawingSettings.random = false ∧
    load drawing "a" (Vm.ofRig drawingSettings.flags (.powerOn zeroDice () (.empty .off))) =
      (.ok (), drawingVm) ∧
    ∃ answers last, Account drawingSettings (withBreaks [0x206] drawingVm) answers last
        (run "runner" drawingWords drawing zeroDice fun _ => 0) ∧
      (answers.filterMap Answer.frame?).map Frame.changed = [true, false] ∧
      answers.filterMap Answer.hit? = [(0x206, 0x6000)] ∧
      answers.filterMap Answer.failure? = [.stackUnderflow 0x20c] := by
  let unloaded := Vm.ofRig drawingSettings.flags (.powerOn zeroDice () (.empty .off))
  have hspells : Spells drawingWords [.frames 9, .speed 2] "a" [.stopAt 0x206, .screen] := by
    refine ⟨by decide +kernel, by decide, ?_⟩
    simp [Choice.Fits, sizeMax, UInt64.size]
  obtain ⟨hlines, haccounts⟩ :=
    run_accounted "runner" drawingWords drawing zeroDice fun _ => 0
  have hread : command.read "runner" drawingWords = .ok ("a", drawingSettings) :=
    hlines _ _ _ hspells
  have hextension : Path.extension? "a" = none := by decide +kernel
  have hway : load drawing "a" unloaded = unloaded.loadRomFile drawing "a" := by
    simp only [load, hextension, reduceCtorEq, if_false]
  obtain ⟨journal, hrom⟩ := Vm.loadRomFile_of_le (rfl : drawing "a" = .ok _) (by decide) unloaded
  have hok : (unloaded.loadRomFile drawing "a").1 = .ok () := by rw [hrom]
  have hload : load drawing "a" unloaded = (.ok (), drawingVm) := hway.trans (Prod.ext hok rfl)
  let asked := ((withBreaks [0x206] drawingVm).askUpTo 9).1
  have hasked : (asked.filterMap Answer.frame?).map Frame.changed = [true, false] ∧
      asked.filterMap Answer.hit? = [(0x206, 0x6000)] ∧
      asked.filterMap Answer.failure? = [.stackUnderflow 0x20c] := by
    decide +kernel
  obtain ⟨answers, last, haccount⟩ := haccounts "a" drawingSettings drawingVm hread rfl hload
  have hsame : answers = asked := (haccount.asks.unique (Vm.asks_askUpTo _ 9)).1
  rw [← hsame] at hasked
  exact ⟨hspells, hread, rfl, rfl, hload, answers, last, haccount, hasked⟩

end Cli.Runner

end Chip8
