import Chip8.Proofs.Variables
import Chip8.Vm.Stream
import Mathlib.Data.Nat.Find

/-! # The numbers of frames

Every cycle that is complete counts, whether it was asked for alone, for a frame or for a stream of
frames. So a stream numbers its frames from the count that it finds, and its first error ends it.
That error comes from the cycle itself, which then does not count, or from a variable that cannot be
read after a complete cycle.
-/

namespace Chip8

/-- What a history does to the count of cycles: it runs a cycle, or begins anew. -/
inductive Mark
  | cycle (complete : Bool)
  | reset
deriving DecidableEq

def Mark.tally (cycles : Nat) : Mark → Nat
  | cycle true => cycles + 1
  | cycle false => cycles
  | reset => 0

theorem Mark.foldl_tally_of_unreset {marks : List Mark} (h : reset ∉ marks) (cycles : Nat) :
    marks.foldl tally cycles = cycles + marks.count (cycle true) := by
  induction marks generalizing cycles with
  | nil => rfl
  | cons mark marks ih =>
    obtain ⟨hmark, hmarks⟩ := List.ne_and_not_mem_of_not_mem_cons h
    rw [List.foldl_cons, ih hmarks]
    cases mark with
    | reset => exact absurd rfl hmark
    | cycle complete =>
      cases complete with
      | true =>
        rw [List.count_cons_self, tally]
        omega
      | false =>
        rw [List.count_cons_of_ne (by decide)]
        rfl

theorem Mark.foldl_tally_of_reset (earlier later : List Mark) (cycles : Nat) :
    (earlier ++ reset :: later).foldl tally cycles = later.foldl tally 0 := by
  rw [List.foldl_append, List.foldl_cons]
  rfl

namespace Vm

variable {σ : Type}

def completes (vm : Vm σ) : Bool := vm.cycle.1.isOk

theorem cycles_cycle (vm : Vm σ) :
    vm.cycle.2.cycles = Mark.tally vm.cycles (.cycle vm.completes) := by
  unfold completes
  match hcycle : vm.cycle with
  | (.ok (), after) =>
    cases cycle_eq_iff.mp hcycle with
    | complete => rfl
  | (.error e, after) =>
    cases cycle_eq_iff.mp hcycle with
    | refused => rfl
    | stopped => rfl

theorem cycles_nextFrame (vm : Vm σ) : vm.nextFrame.2.cycles = vm.cycle.2.cycles := by
  obtain ⟨rig, hframe⟩ := vm.nextFrame_leaves
  rw [hframe]

/-- A frame that is shown carries the number of its cycle. -/
theorem number_of_nextFrame {vm after : Vm σ} {f : Frame} (h : vm.nextFrame = (.ok f, after)) :
    f.cycle = vm.cycles + 1 ∧ after.cycles = vm.cycles + 1 := by
  have hcount := vm.cycles_nextFrame
  rw [h, cycles_cycle, completes] at hcount
  have hframe : vm.nextFrame.1 = .ok f := by rw [h]
  unfold nextFrame at hframe
  match hcycle : vm.cycle with
  | (.ok (), middle) =>
    rw [hcycle] at hframe hcount
    obtain ⟨values, -, rfl⟩ := frame_eq_ok_iff.mp hframe
    cases cycle_eq_iff.mp hcycle with
    | complete => exact ⟨rfl, hcount⟩
  | (.error e, middle) =>
    rw [hcycle] at hframe
    cases hframe

/-- Reading variables leaves nothing behind when it fails. -/
theorem nextFrame_of_error {vm left : Vm σ} {e : Error} (h : vm.nextFrame = (.error e, left)) :
    left = vm.cycle.2 := by
  unfold nextFrame at h
  match hcycle : vm.cycle with
  | (.ok (), middle) =>
    rw [hcycle] at h
    have hframe : middle.frame = (.error e, left) := h
    have herror : middle.frame.1 = .error e := congrArg Prod.fst hframe
    rw [frame_of_error (frame_eq_error_iff.mp herror)] at hframe
    cases hframe
    rfl
  | (.error other, middle) =>
    rw [hcycle] at h
    cases h
    rfl

end Vm

namespace FrameStream

variable {σ : Type}

/-- The stream after it was asked a number of times, even beyond its end. -/
def after (stream : FrameStream σ) : Nat → FrameStream σ
  | 0 => stream
  | pulls + 1 => (after stream pulls).next.2

def answer (stream : FrameStream σ) (k : Nat) : Option (Except Error Frame) :=
  (stream.after k).next.1

theorem after_add (stream : FrameStream σ) (first later : Nat) :
    stream.after (first + later) = (stream.after first).after later := by
  induction later with
  | zero => rfl
  | succ later ih => rw [← Nat.add_assoc, after, after, ih]

theorem after_of_ended (vm : Vm σ) (pulls : Nat) : after ⟨vm, true⟩ pulls = ⟨vm, true⟩ := by
  induction pulls with
  | zero => rfl
  | succ pulls ih =>
    rw [after, ih]
    rfl

theorem next_ofVm (vm : Vm σ) : (ofVm vm).next =
    (some vm.nextFrame.1, ⟨vm.nextFrame.2, !vm.nextFrame.1.isOk⟩) := by
  unfold next ofVm
  match vm.nextFrame with
  | (.ok f, after) => rfl
  | (.error e, after) => rfl

/-- What a stream does to the count of cycles while it is asked a number of times. -/
def marks (stream : FrameStream σ) : Nat → List Mark
  | 0 => []
  | pulls + 1 =>
    let asked := stream.after pulls
    stream.marks pulls ++ if asked.ended then [] else [.cycle asked.vm.completes]

theorem cycles_next (stream : FrameStream σ) : stream.next.2.vm.cycles =
    (if stream.ended then [] else [.cycle stream.vm.completes]).foldl Mark.tally
      stream.vm.cycles := by
  obtain ⟨vm, ended⟩ := stream
  cases ended with
  | true => rfl
  | false =>
    have hnext := next_ofVm vm
    rw [ofVm] at hnext
    rw [hnext]
    exact vm.cycles_nextFrame.trans vm.cycles_cycle

theorem cycles_after (stream : FrameStream σ) (pulls : Nat) :
    (stream.after pulls).vm.cycles = (stream.marks pulls).foldl Mark.tally stream.vm.cycles := by
  induction pulls with
  | zero => rfl
  | succ pulls ih => rw [after, cycles_next, ih, marks, List.foldl_append]

end FrameStream

/-! ## Histories -/

/-- What can be done to a virtual machine: a call, a stream of frames that is asked a number of
times, or whatever else changes the rig alone. -/
inductive Deed (σ : Type)
  | call (call : Call)
  | stream (pulls : Nat)
  | rig (rig : Rig σ)

namespace Vm

variable {σ : Type}

def perform (vm : Vm σ) : Deed σ → Vm σ
  | .call call => (vm.call call).2
  | .stream pulls => ((FrameStream.ofVm vm).after pulls).vm
  | .rig rig => { vm with rig }

def performAll : List (Deed σ) → Vm σ → Vm σ
  | [], vm => vm
  | deed :: deeds, vm => performAll deeds (vm.perform deed)

def marks (vm : Vm σ) : Deed σ → List Mark
  | .call .cycle | .call .nextFrame => [.cycle vm.completes]
  | .call .reset => [.reset]
  | .call _ | .rig _ => []
  | .stream pulls => (FrameStream.ofVm vm).marks pulls

def history : List (Deed σ) → Vm σ → List Mark
  | [], _ => []
  | deed :: deeds, vm => vm.marks deed ++ history deeds (vm.perform deed)

theorem cycles_call (vm : Vm σ) (call : Call) :
    (vm.call call).2.cycles = (vm.marks (.call call)).foldl Mark.tally vm.cycles := by
  have hkeep : ∀ {after : Vm σ} {rig profile}, after = { vm with rig, profile } →
      after.cycles = vm.cycles := by
    rintro after rig profile rfl
    rfl
  cases call with
  | loadRom rom =>
    obtain ⟨rig, hafter⟩ := vm.loadRom_leaves rom
    exact hkeep hafter
  | loadRomFile files path =>
    obtain ⟨rig, hafter⟩ := vm.loadRomFile_leaves files path
    exact hkeep hafter
  | loadProfile files path =>
    obtain ⟨rig, profile, hafter⟩ := vm.loadProfile_leaves files path
    exact hkeep hafter
  | setKey key down =>
    obtain ⟨rig, hafter⟩ := vm.setKey_leaves key down
    exact hkeep hafter
  | frame =>
    obtain ⟨rig, hafter⟩ := vm.frame_leaves
    exact hkeep hafter
  | setProfile | setFlags | setBreak | unsetBreak | readVariable | takeOutputChanged | reset => rfl
  | takeAction action =>
    change (vm.takeAction action).2.cycles = vm.cycles
    unfold takeAction
    match vm.actionKey action with
    | .ok (some key) => rfl
    | .ok none => rfl
    | .error e => rfl
  | cycle => exact vm.cycles_cycle
  | nextFrame => exact vm.cycles_nextFrame.trans vm.cycles_cycle

theorem cycles_perform (vm : Vm σ) (deed : Deed σ) :
    (vm.perform deed).cycles = (vm.marks deed).foldl Mark.tally vm.cycles := by
  cases deed with
  | call call => exact vm.cycles_call call
  | stream pulls => exact (FrameStream.ofVm vm).cycles_after pulls
  | rig rig => rfl

theorem cycles_performAll (deeds : List (Deed σ)) (vm : Vm σ) :
    (vm.performAll deeds).cycles = (vm.history deeds).foldl Mark.tally vm.cycles := by
  induction deeds generalizing vm with
  | nil => rfl
  | cons deed deeds ih => rw [performAll, ih, cycles_perform, history, List.foldl_append]

variable {vm : Vm σ}

/-! ## The course of a stream -/

/-- The frame that a stream shows in a place has the number that is due there. -/
def FrameAt (vm : Vm σ) (k : Nat) : Prop :=
  ∃ f, (FrameStream.ofVm vm).answer k = some (.ok f) ∧ f.cycle = vm.cycles + (k + 1)

/-- A stream ends with an error, at which it leaves the virtual machine for good. Whatever is done
after it, another stream or a single frame, finds what the failing cycle has left. -/
structure Ends (vm : Vm σ) (last : Nat) (e : Error) (left : Vm σ) : Prop where
  frames : ∀ k < last, vm.FrameAt k
  error : (FrameStream.ofVm vm).answer last = some (.error e)
  failing : ((FrameStream.ofVm vm).after last).vm.nextFrame = (.error e, left)
  leaves : left = ((FrameStream.ofVm vm).after last).vm.cycle.2
  count : left.cycles =
    vm.cycles + last + if ((FrameStream.ofVm vm).after last).vm.completes then 1 else 0
  silent : ∀ k, last < k → (FrameStream.ofVm vm).answer k = none
  untouched : ∀ k, last < k → (FrameStream.ofVm vm).after k = ⟨left, true⟩
  continued : ∀ pulls deeds, last < pulls →
    vm.performAll (.stream pulls :: deeds) = left.performAll deeds

inductive Course (vm : Vm σ) : Prop
  | endless (hframes : ∀ k, vm.FrameAt k)
  | ended {last : Nat} {e : Error} {left : Vm σ} (hends : vm.Ends last e left)

/-- A stream that has shown nothing but frames has not ended, and every one of them has counted. -/
theorem after_of_frames {count : Nat}
    (h : ∀ k < count, ∃ f, (FrameStream.ofVm vm).answer k = some (.ok f)) :
    ∃ middle, (FrameStream.ofVm vm).after count = .ofVm middle ∧
      middle.cycles = vm.cycles + count := by
  induction count with
  | zero => exact ⟨vm, rfl, rfl⟩
  | succ count ih =>
    obtain ⟨middle, hmiddle, hcycles⟩ := ih fun k hk => h k (Nat.lt_succ_of_lt hk)
    obtain ⟨f, hf⟩ := h count (Nat.lt_succ_self count)
    rw [FrameStream.answer, hmiddle, FrameStream.next_ofVm] at hf
    match hframe : middle.nextFrame with
    | (.ok f, next) =>
      refine ⟨next, ?_, ?_⟩
      · rw [FrameStream.after, hmiddle, FrameStream.next_ofVm, hframe]
        rfl
      · rw [(number_of_nextFrame hframe).2, hcycles, Nat.add_assoc]
    | (.error e, next) =>
      rw [hframe] at hf
      cases hf

theorem frameAt_of_frames {k : Nat}
    (h : ∀ j < k + 1, ∃ f, (FrameStream.ofVm vm).answer j = some (.ok f)) : vm.FrameAt k := by
  obtain ⟨middle, hmiddle, hcycles⟩ := after_of_frames fun j hj => h j (Nat.lt_succ_of_lt hj)
  obtain ⟨f, hf⟩ := h k (Nat.lt_succ_self k)
  refine ⟨f, hf, ?_⟩
  rw [FrameStream.answer, hmiddle, FrameStream.next_ofVm] at hf
  have hframe : middle.nextFrame = (.ok f, middle.nextFrame.2) := Prod.ext (Option.some.inj hf) rfl
  rw [(number_of_nextFrame hframe).1, hcycles, Nat.add_assoc]

theorem ends_of_error {last : Nat} {middle left : Vm σ} {e : Error}
    (hframes : ∀ k < last, ∃ f, (FrameStream.ofVm vm).answer k = some (.ok f))
    (hmiddle : (FrameStream.ofVm vm).after last = .ofVm middle)
    (hcycles : middle.cycles = vm.cycles + last) (herror : middle.nextFrame = (.error e, left)) :
    vm.Ends last e left := by
  have hleft := nextFrame_of_error herror
  have hnext : (FrameStream.ofVm middle).next = (some (.error e), ⟨left, true⟩) := by
    rw [FrameStream.next_ofVm, herror]
    rfl
  have huntouched : ∀ k, last < k → (FrameStream.ofVm vm).after k = ⟨left, true⟩ := by
    intro k hk
    obtain ⟨pulls, rfl⟩ := Nat.exists_eq_add_of_lt hk
    rw [Nat.add_right_comm, FrameStream.after_add, FrameStream.after, hmiddle, hnext]
    exact FrameStream.after_of_ended left pulls
  constructor
  case frames =>
    intro k hk
    exact frameAt_of_frames fun j hj => hframes j (Nat.lt_of_lt_of_le hj hk)
  case error => rw [FrameStream.answer, hmiddle, hnext]
  case failing =>
    rw [hmiddle]
    exact herror
  case leaves =>
    rw [hmiddle]
    exact hleft
  case count =>
    rw [hmiddle, hleft, cycles_cycle, hcycles]
    cases hcompletes : middle.completes <;> simp [Mark.tally, FrameStream.ofVm, hcompletes]
  case silent =>
    intro k hk
    rw [FrameStream.answer, huntouched k hk]
    rfl
  case untouched => exact huntouched
  case continued =>
    intro pulls deeds hpulls
    rw [performAll, perform, huntouched pulls hpulls]

theorem course (vm : Vm σ) : vm.Course := by
  by_cases hframes : ∀ k, ∃ f, (FrameStream.ofVm vm).answer k = some (.ok f)
  · exact .endless fun k => frameAt_of_frames fun j _ => hframes j
  · obtain ⟨last, hlast, hbefore⟩ : ∃ last,
        (¬ ∃ f, (FrameStream.ofVm vm).answer last = some (.ok f)) ∧
        ∀ k < last, ∃ f, (FrameStream.ofVm vm).answer k = some (.ok f) := by
      classical
      have hend := Classical.not_forall.mp hframes
      refine ⟨Nat.find hend, Nat.find_spec hend, ?_⟩
      intro k hk
      exact Classical.not_not.mp (Nat.find_min hend hk)
    obtain ⟨middle, hmiddle, hcycles⟩ := after_of_frames hbefore
    match hframe : middle.nextFrame with
    | (.ok f, next) =>
      -- The first place without a frame cannot show one.
      refine absurd ⟨f, ?_⟩ hlast
      rw [FrameStream.answer, hmiddle, FrameStream.next_ofVm, hframe]
    | (.error e, left) => exact .ended (ends_of_error hbefore hmiddle hcycles hframe)

/-- Where a history leaves the count of cycles, and how a stream of frames goes on from there. -/
structure Numbered (vm : Vm σ) (deeds : List (Deed σ)) : Prop where
  unreset : .reset ∉ vm.history deeds →
    (vm.performAll deeds).cycles = vm.cycles + (vm.history deeds).count (.cycle true)
  sinceReset : ∀ earlier later, vm.history deeds = earlier ++ .reset :: later → .reset ∉ later →
    (vm.performAll deeds).cycles = later.count (.cycle true)
  course : (vm.performAll deeds).Course

theorem frames_numbered (vm : Vm σ) (deeds : List (Deed σ)) : vm.Numbered deeds where
  unreset hunreset := by
    rw [cycles_performAll]
    exact Mark.foldl_tally_of_unreset hunreset vm.cycles
  sinceReset earlier later hhistory hlater := by
    rw [cycles_performAll, hhistory, Mark.foldl_tally_of_reset, Mark.foldl_tally_of_unreset hlater,
      Nat.zero_add]
  course := (vm.performAll deeds).course

end Vm

end Chip8
