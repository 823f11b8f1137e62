import Chip8.Vm

/-! # The stream of frames

Frames of one cycle after the other, for as long as somebody asks for the next. The stream ends with
the first error.
-/

namespace Chip8

structure FrameStream (σ : Type) where
  vm : Vm σ
  ended : Bool

namespace FrameStream

variable {σ : Type}

def ofVm (vm : Vm σ) : FrameStream σ := ⟨vm, false⟩

/-- The next frame or the error that ends the stream, and none once it has ended. -/
def next (stream : FrameStream σ) : Option (Except Error Frame) × FrameStream σ :=
  if stream.ended then (none, stream)
  else
    match stream.vm.nextFrame with
    | (.ok frame, vm) => (some (.ok frame), ⟨vm, false⟩)
    | (.error e, vm) => (some (.error e), ⟨vm, true⟩)

/-- What the stream gives when it is asked so many times, up to its end. -/
def take : Nat → FrameStream σ → List (Except Error Frame) × FrameStream σ
  | 0, stream => ([], stream)
  | count + 1, stream =>
    match stream.next with
    | (some item, stream) =>
      let (items, stream) := take count stream
      (item :: items, stream)
    | (none, stream) => ([], stream)

end FrameStream

end Chip8
