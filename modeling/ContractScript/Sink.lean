/-!
Sinks take the bytes that a program prints. A sink may have room for a fixed number of bytes only:
what goes beyond is cut off, and the write that needed more room fails.
-/

namespace ContractScript

structure Sink where
  /-- How many more bytes the sink takes, if that is limited. -/
  room : Option Nat
  written : Array UInt8
deriving DecidableEq, Inhabited

namespace Sink

/-- A sink that takes everything. -/
def unlimited : Sink := ⟨none, #[]⟩

def limited (room : Nat) : Sink := ⟨some room, #[]⟩

/-- Writes bytes as far as room allows; the answer says whether all of them went in. -/
def write (s : Sink) (bytes : Array UInt8) : Bool × Sink :=
  match s.room with
  | none => (true, { s with written := s.written ++ bytes })
  | some room =>
    if bytes.size ≤ room then (true, ⟨some (room - bytes.size), s.written ++ bytes⟩)
    else (false, ⟨some 0, s.written ++ bytes.take room⟩)

/-- The reason given when a sink takes no more. -/
def full : String := "sink full"

end Sink

end ContractScript
