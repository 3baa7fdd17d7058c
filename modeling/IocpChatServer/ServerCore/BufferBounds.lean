import IocpChatServer.Foundations.TransitionSystem
import IocpChatServer.ServerCore.BufferReader

namespace IocpChatServer.ServerCore
open Foundations TransitionSystem Cursor

def BufferWriter.Calls (b : BufferWriter) (call : Call) (next : BufferWriter) : Prop := b.after call = next

-- Only operator<< does not look for itself.
def BufferWriter.Fits (b : BufferWriter) : Call → Prop
  | .insert t _ => b.pos.toNat + t.sizeof.toNat ≤ b.size.toNat
  | _ => True

def BufferReader.Calls (b : BufferReader) (call : Call) (next : BufferReader) : Prop := (b.fetch call).reader = next

def BufferReader.Fits (b : BufferReader) : Call → Prop
  | .extract t _ => b.pos.toNat + t.sizeof.toNat ≤ b.size.toNat
  | _ => True

variable {size pos : UInt32}

theorem writer_keeps (b : BufferWriter) (call : BufferWriter.Call) (next : BufferWriter) (inside : b.Inside)
    (taken : Guarded BufferWriter.Calls BufferWriter.Fits b call next) : next.Inside := by
  obtain ⟨rfl,fits⟩ := taken
  cases call with
  | write src len => exact BufferWriter.write_inside inside
  | writeValue t src => exact BufferWriter.write_inside inside
  | reserve t count => exact BufferWriter.reserve_inside inside
  | insert t src => exact BufferWriter.insert_inside inside fits

theorem writer_breaks (b : BufferWriter) (call : BufferWriter.Call) (next : BufferWriter) (inside : b.Inside)
    (taken : b.Calls call next) (unfit : ¬ b.Fits call) : ¬ next.Inside := by
  cases taken
  cases call with
  | insert t src => exact BufferWriter.insert_outside inside unfit
  | _ => exact absurd trivial unfit

theorem reader_keeps (b : BufferReader) (call : BufferReader.Call) (next : BufferReader) (inside : b.Inside)
    (taken : Guarded BufferReader.Calls BufferReader.Fits b call next) : next.Inside := by
  obtain ⟨rfl,fits⟩ := taken
  cases call with
  | peek dest len => exact BufferReader.peek_inside inside
  | peekValue t dest => exact BufferReader.peek_inside inside
  | read dest len => exact BufferReader.read_inside inside
  | readValue t dest => exact BufferReader.read_inside inside
  | extract t dest => exact BufferReader.extract_inside inside fits

theorem reader_breaks (b : BufferReader) (call : BufferReader.Call) (next : BufferReader) (inside : b.Inside)
    (taken : b.Calls call next) (unfit : ¬ b.Fits call) : ¬ next.Inside := by
  cases taken
  cases call with
  | extract t dest => exact BufferReader.extract_outside inside unfit
  | _ => exact absurd trivial unfit

-- A writer stays inside its buffer exactly if each element of operator<< fits where it is written, and a reader exactly if each of
-- operator>> does where it is read: all else looks for itself, and what it trusts is right.
theorem buffers_inside_iff_fits (buffer : Nat → BYTE) (within : pos ≤ size) :
    (∀ calls next, Runs BufferWriter.Calls (.make buffer size pos) calls next →
        ((∀ earlier middle, earlier <+: calls → Runs BufferWriter.Calls (.make buffer size pos) earlier middle → middle.Inside) ↔
          Runs (Guarded BufferWriter.Calls BufferWriter.Fits) (.make buffer size pos) calls next)) ∧
      ∀ calls next, Runs BufferReader.Calls (.make buffer size pos) calls next →
        ((∀ earlier middle, earlier <+: calls → Runs BufferReader.Calls (.make buffer size pos) earlier middle → middle.Inside) ↔
          Runs (Guarded BufferReader.Calls BufferReader.Fits) (.make buffer size pos) calls next) := by
  constructor
  · intro calls next path
    exact Runs.exact (fun _ _ _ _ one two => one.symm.trans two) writer_keeps (fun _ inside => inside) writer_breaks
      (BufferWriter.make_inside within) path
  · intro calls next path
    exact Runs.exact (fun _ _ _ _ one two => one.symm.trans two) reader_keeps (fun _ inside => inside) reader_breaks
      (BufferReader.make_inside within) path

-- In twelve bytes four are left free, an element and four bytes are put behind them, and what no
-- longer fits is refused; then they are read back.
def writing : List BufferWriter.Call :=
  [.reserve (.array 4) 1,.insert (.array 4) ⟨[1,2,3,4],rfl⟩,.write (fun _ => 5) 4,.write (fun _ => 6) 4]
def reading : List BufferReader.Call := [.extract (.array 4) fun _ => 0,.extract (.array 4) fun _ => 0,.peek (fun _ => 0) 4,.read (fun _ => 0) 8]

theorem buffers_inside_twelve :
    (∀ earlier middle, earlier <+: writing → Runs BufferWriter.Calls (.make (fun _ => 0) 12 0) earlier middle → middle.Inside) ∧
      ∀ earlier middle, earlier <+: reading → Runs BufferReader.Calls (.make (fun _ => 0) 12 0) earlier middle → middle.Inside := by
  have both := @buffers_inside_iff_fits 12 0 (fun _ => 0) (by decide)
  have inserts : (4 : UInt32).toNat + (4 : UInt64).toNat ≤ (12 : UInt32).toNat := by decide
  have extracts : (0 : UInt32).toNat + (4 : UInt64).toNat ≤ (12 : UInt32).toNat := by decide
  have writes : Runs (Guarded BufferWriter.Calls BufferWriter.Fits) (.make (fun _ => 0) 12 0) writing _ :=
    .cons ⟨rfl,trivial⟩ <| .cons ⟨rfl,inserts⟩ <| .cons ⟨rfl,trivial⟩ <| .cons ⟨rfl,trivial⟩ .nil
  have reads : Runs (Guarded BufferReader.Calls BufferReader.Fits) (.make (fun _ => 0) 12 0) reading _ :=
    .cons ⟨rfl,extracts⟩ <| .cons ⟨rfl,inserts⟩ <| .cons ⟨rfl,trivial⟩ <| .cons ⟨rfl,trivial⟩ .nil
  exact ⟨(both.1 _ _ (writes.mono fun _ _ _ taken => taken.1)).mpr writes,(both.2 _ _ (reads.mono fun _ _ _ taken => taken.1)).mpr reads⟩

-- One byte is left of four, and four are written. What is free wraps, and a Write of a hundred bytes is then taken;
-- and four are read where one is left.
theorem buffers_insert_past_end : (BufferWriter.make (fun _ => 0) 4 3).pos ≤ (BufferWriter.make (fun _ => 0) 4 3).size ∧
    ¬ ((BufferWriter.make (fun _ => 0) 4 3).after (.insert (.array 4) ⟨[1,2,3,4],rfl⟩)).Inside ∧
      ((BufferWriter.make (fun _ => 0) 4 3).after (.insert (.array 4) ⟨[1,2,3,4],rfl⟩)).freeSize = 4294967293 ∧
      (((BufferWriter.make (fun _ => 0) 4 3).after (.insert (.array 4) ⟨[1,2,3,4],rfl⟩)).write (fun _ => 0) 100).2 = true ∧
      ¬ ((BufferReader.make (fun _ => 0) 4 3).fetch (.extract (.array 4) fun _ => 0)).reader.Inside := by
  refine ⟨by decide,fun inside => ?_,by decide,by decide,fun inside => ?_⟩
  · exact absurd inside.within (by decide)
  · exact absurd inside.within (by decide)

end IocpChatServer.ServerCore
