import RamOS.Keyboard.Model
import RamOS.Lib.BoundedFifo

/-!
# The keyboard buffer and its interrupt handler

`keyboard_get_char` is not atomic: it tests whether there is a character, loads one, and only
then moves the read position. The interrupt handler may run any number of times between these
steps.

What the two implement together is a queue of at most 255 characters from which a reader takes
one in a single step.
-/

namespace RamOS.Keyboard.Interrupts

structure Shared where
  kbBuffer : ℕ → UInt8
  kbReadPos : ℕ
  kbWritePos : ℕ

def kbBufferSize : ℕ := 256

def keyboardHasChar (shared : Shared) : Prop :=
  shared.kbReadPos ≠ shared.kbWritePos

instance (shared : Shared) : Decidable (keyboardHasChar shared) :=
  inferInstanceAs (Decidable (_ ≠ _))

def Accepts (shared : Shared) (c : UInt8) : Prop :=
  c ≠ 0 ∧ (shared.kbWritePos + 1) % kbBufferSize ≠ shared.kbReadPos

instance (shared : Shared) (c : UInt8) : Decidable (Accepts shared c) :=
  inferInstanceAs (Decidable (_ ∧ _))

/-- The end of `keyboard_handler`: add a character to the buffer. -/
def addToBuffer (shared : Shared) (c : UInt8) : Shared :=
  if Accepts shared c then
    { shared with
      kbBuffer := Function.update shared.kbBuffer shared.kbWritePos c
      kbWritePos := (shared.kbWritePos + 1) % kbBufferSize }
  else shared

/-- How far a call of `keyboard_get_char` has come; `held` is the local variable `c`. -/
inductive Consumer (α : Type) where
  | waiting
  | ready
  | loaded (held : α)

inductive Event where
  | handler (c : UInt8)
  | consumer

structure System where
  shared : Shared
  consumer : Consumer UInt8
  accepted : Bytes
  returned : Bytes

def System.consume (system : System) : System :=
  match system.consumer with
  | .waiting =>
    if keyboardHasChar system.shared then { system with consumer := .ready } else system
  | .ready =>
    { system with consumer := .loaded (system.shared.kbBuffer system.shared.kbReadPos) }
  | .loaded c =>
    { system with
      shared :=
        { system.shared with
          kbReadPos := (system.shared.kbReadPos + 1) % kbBufferSize }
      consumer := .waiting
      returned := system.returned ++ [c] }

def System.step (system : System) : Event → System
  | .handler c =>
    { system with
      shared := addToBuffer system.shared c
      accepted := if Accepts system.shared c then system.accepted ++ [c] else system.accepted }
  | .consumer => system.consume

def System.initial : System where
  shared := { kbBuffer := fun _ => 0, kbReadPos := 0, kbWritePos := 0 }
  consumer := .waiting
  accepted := []
  returned := []

def run (events : List Event) : System := events.foldl System.step System.initial

/-- What the buffer is for: a bounded queue whose reader takes a character in one step. -/
structure Service where
  queue : BoundedFifo UInt8 255
  consumer : Consumer Unit

def Service.consume (service : Service) : Service :=
  match service.consumer with
  | .waiting => if service.queue.pending = [] then service else { service with consumer := .ready }
  | .ready => { service with consumer := .loaded () }
  | .loaded () => { queue := service.queue.get, consumer := .waiting }

def Service.step (service : Service) : Event → Service
  | .handler c => if c = 0 then service else { service with queue := service.queue.put c }
  | .consumer => service.consume

def serve (events : List Event) : Service :=
  events.foldl Service.step { queue := .empty, consumer := .waiting }

structure Models (shared : Shared) (ring : RingBuffer UInt8 256) : Prop where
  readPos : shared.kbReadPos = ring.readPos.val
  writePos : shared.kbWritePos = ring.writePos.val
  cells : ∀ cell : Fin 256, shared.kbBuffer cell = ring.cells cell

theorem val_add_one (position : Fin 256) : (position + 1).val = (position.val + 1) % kbBufferSize :=
  rfl

namespace Models

variable {shared : Shared} {ring : RingBuffer UInt8 256} (models : Models shared ring)

include models

theorem keyboardHasChar_iff : keyboardHasChar shared ↔ ring.contents ≠ [] := by
  rw [← RingBuffer.hasItem_iff, RingBuffer.HasItem, keyboardHasChar, models.readPos,
    models.writePos, Ne, Ne, Fin.ext_iff]

theorem accepts_iff {c : UInt8} (nonzero : c ≠ 0) : Accepts shared c ↔ ¬ring.Full := by
  rw [Accepts, models.readPos, models.writePos, ← val_add_one, Ne, Ne, ← Fin.ext_iff]
  exact and_iff_right nonzero

theorem addToBuffer (c : UInt8) : Models (addToBuffer shared c) (insertChar ring c) := by
  by_cases nonzero : c ≠ 0
  · rw [insertChar, if_pos nonzero, RingBuffer.push]
    by_cases full : ring.Full
    · have refused : ¬Accepts shared c :=
        fun accepts => (models.accepts_iff nonzero).mp accepts full
      rwa [Interrupts.addToBuffer, if_neg refused, if_pos full]
    · rw [Interrupts.addToBuffer, if_pos ((models.accepts_iff nonzero).mpr full), if_neg full]
      refine ⟨models.readPos, ?_, ?_⟩
      · rw [val_add_one, models.writePos]
      · intro cell
        dsimp only
        by_cases here : cell = ring.writePos
        · rw [here, Function.update_self, models.writePos, Function.update_self]
        · have elsewhere : cell.val ≠ shared.kbWritePos := by
            rw [models.writePos]
            exact fun same => here (Fin.ext same)
          rw [Function.update_of_ne here, Function.update_of_ne elsewhere, models.cells]
  · have refused : ¬Accepts shared c := fun accepts => nonzero accepts.1
    rwa [Interrupts.addToBuffer, if_neg refused, insertChar, if_neg nonzero]

theorem front : shared.kbBuffer shared.kbReadPos = ring.front := by
  rw [models.readPos, models.cells, RingBuffer.front]

theorem advance :
    Models { shared with kbReadPos := (shared.kbReadPos + 1) % kbBufferSize } ring.advance :=
  ⟨by rw [models.readPos, RingBuffer.advance, val_add_one], models.writePos, models.cells⟩

end Models

/-- The reader is as far as the one of the queue, and what it goes by is still so. -/
inductive InStep : Consumer UInt8 → Consumer Unit → Bytes → Prop
  | waiting (pending : Bytes) : InStep .waiting .waiting pending
  | ready (c : UInt8) (rest : Bytes) : InStep .ready .ready (c :: rest)
  | loaded (c : UInt8) (rest : Bytes) : InStep (.loaded c) (.loaded ()) (c :: rest)

theorem InStep.append {reader : Consumer UInt8} {client : Consumer Unit} {pending : Bytes}
    (inStep : InStep reader client pending) (more : Bytes) :
    InStep reader client (pending ++ more) := by
  cases inStep with
  | waiting => exact .waiting _
  | ready c rest => exact .ready c (rest ++ more)
  | loaded c rest => exact .loaded c (rest ++ more)

structure Refines (system : System) (service : Service) : Prop where
  ring : ∃ ring, Models system.shared ring ∧ ring.contents = service.queue.pending
  accepted : system.accepted = service.queue.accepted
  returned : system.returned = service.queue.returned
  reader : InStep system.consumer service.consumer service.queue.pending

namespace Refines

variable {system : System} {service : Service} (refines : Refines system service)

include refines

theorem keyboardHasChar_iff : keyboardHasChar system.shared ↔ service.queue.pending ≠ [] := by
  rcases refines.ring with ⟨ring, models, contents⟩
  rw [← contents, models.keyboardHasChar_iff]

theorem accepts_iff {c : UInt8} (nonzero : c ≠ 0) :
    Accepts system.shared c ↔ service.queue.pending.length < 255 := by
  rcases refines.ring with ⟨ring, models, contents⟩
  have bounded := service.queue.bounded
  rw [models.accepts_iff nonzero, RingBuffer.full_iff, contents]
  omega

theorem handler (c : UInt8) : Refines (system.step (.handler c)) (service.step (.handler c)) := by
  rcases refines.ring with ⟨ring, models, contents⟩
  have stored := models.addToBuffer c
  by_cases zero : c = 0
  · have refused : ¬Accepts system.shared c := fun accepts => accepts.1 zero
    rw [System.step, if_neg refused, Service.step, if_pos zero]
    refine ⟨⟨_, stored, ?_⟩, refines.accepted, refines.returned, refines.reader⟩
    rw [insertChar, if_neg (not_not.mpr zero), contents]
  · have pushed : insertChar ring c = ring.push c := if_pos zero
    rw [pushed] at stored
    rw [System.step, Service.step, if_neg zero]
    by_cases room : service.queue.pending.length < 255
    · have accepts := (refines.accepts_iff zero).mpr room
      have notFull := (models.accepts_iff zero).mp accepts
      rw [if_pos accepts]
      refine ⟨⟨_, stored, ?_⟩, ?_, ?_, ?_⟩
      · rw [RingBuffer.contents_push notFull, contents, BoundedFifo.pending_put room]
      · rw [BoundedFifo.accepted_put room, ← refines.accepted]
      · rw [BoundedFifo.returned_put, ← refines.returned]
      · rw [BoundedFifo.pending_put room]
        exact refines.reader.append [c]
    · have refused : ¬Accepts system.shared c := fun accepts =>
        room ((refines.accepts_iff zero).mp accepts)
      have full : service.queue.pending.length = 255 :=
        Nat.le_antisymm service.queue.bounded (Nat.not_lt.mp room)
      rw [if_neg refused, addToBuffer, if_neg refused, BoundedFifo.put_of_full full]
      exact refines

theorem consume : Refines system.consume service.consume := by
  rcases system with ⟨shared, consumer, accepted, returned⟩
  rcases service with ⟨queue, client⟩
  rcases refines with ⟨⟨ring, models, contents⟩, sameAccepted, sameReturned, reader⟩
  dsimp only at models contents sameAccepted sameReturned reader
  generalize isPending : queue.pending = pending at reader
  cases reader with
  | waiting =>
    dsimp only [System.consume, Service.consume]
    have hasChar := models.keyboardHasChar_iff
    rw [contents] at hasChar
    by_cases empty : queue.pending = []
    · rw [if_neg (fun found => hasChar.mp found empty), if_pos empty]
      exact ⟨⟨ring, models, contents⟩, sameAccepted, sameReturned, .waiting _⟩
    · rw [if_pos (hasChar.mpr empty), if_neg empty]
      refine ⟨⟨ring, models, contents⟩, sameAccepted, sameReturned, ?_⟩
      rcases List.exists_cons_of_ne_nil empty with ⟨c, rest, isCons⟩
      dsimp only
      rw [isCons]
      exact .ready c rest
  | ready c rest =>
    have front := RingBuffer.front_of_contents (contents.trans isPending)
    refine ⟨⟨ring, models, contents⟩, sameAccepted, sameReturned, ?_⟩
    dsimp only [System.consume, Service.consume]
    rw [models.front, front.1, isPending]
    exact .loaded c rest
  | loaded c rest =>
    have front := RingBuffer.front_of_contents (contents.trans isPending)
    refine ⟨⟨ring.advance, models.advance, ?_⟩, ?_, ?_, .waiting _⟩
    · dsimp only [Service.consume]
      rw [front.2, BoundedFifo.pending_get isPending]
    · dsimp only [System.consume, Service.consume]
      rw [BoundedFifo.accepted_get, sameAccepted]
    · dsimp only [System.consume, Service.consume]
      rw [BoundedFifo.returned_get isPending, sameReturned]

theorem step (event : Event) : Refines (system.step event) (service.step event) := by
  cases event with
  | handler c => exact refines.handler c
  | consumer => exact refines.consume

theorem foldl (events : List Event) :
    Refines (events.foldl System.step system) (events.foldl Service.step service) := by
  induction events generalizing system service with
  | nil => exact refines
  | cons event events ih => exact ih (refines.step event)

end Refines

theorem refines_run (events : List Event) : Refines (run events) (serve events) := by
  refine Refines.foldl ⟨⟨⟨fun _ => 0, 0, 0⟩, ⟨rfl, rfl, fun _ => rfl⟩, ?_⟩, rfl, rfl, ?_⟩ events
  · exact RingBuffer.contents_eq_nil (not_not.mpr rfl)
  · exact .waiting _

/-- Whatever the order of the steps, the buffer implements a queue of 255 characters: what was
stored is what was returned followed by what is pending, a character is dropped only when 255 are
pending, the positions stay inside, and `keyboard_has_char` tells whether one is pending. -/
theorem keyboard_refines_fifo (events : List Event) :
    (run events).returned = (serve events).queue.returned ∧
      (run events).accepted = (run events).returned ++ (serve events).queue.pending ∧
      (∀ c, c ≠ 0 → ((run events).step (.handler c)).accepted = (run events).accepted →
        (serve events).queue.pending.length = 255) ∧
      (run events).shared.kbReadPos ≤ 255 ∧ (run events).shared.kbWritePos ≤ 255 ∧
      (keyboardHasChar (run events).shared ↔ (serve events).queue.pending ≠ []) := by
  have refines := refines_run events
  rcases refines.ring with ⟨ring, models, _⟩
  refine ⟨refines.returned, ?_, ?_, ?_, ?_, refines.keyboardHasChar_iff⟩
  · rw [refines.accepted, refines.returned, BoundedFifo.accepted]
  · intro c nonzero dropped
    by_contra notFull
    have room : (serve events).queue.pending.length < 255 :=
      Nat.lt_of_le_of_ne (serve events).queue.bounded notFull
    rw [System.step, if_pos ((refines.accepts_iff nonzero).mpr room)] at dropped
    simp at dropped
  · rw [models.readPos]
    omega
  · rw [models.writePos]
    omega

end RamOS.Keyboard.Interrupts
