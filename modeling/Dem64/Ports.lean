import Dem64.Lib.Interaction

/-!
# Byte ports

`inb` and `outb` (`ports.h`), for the drivers that do nothing else.
-/

set_option autoImplicit false

namespace Dem64

namespace Ports

open Interaction

/-- A port access. -/
inductive PortOp
  | inb (port : BitVec 16)
  | outb (port : BitVec 16) (byte : BitVec 8)

@[reducible] def PortAns : PortOp → Type
  | .inb _ => BitVec 8
  | .outb _ _ => Unit

/-- A program of such a driver. -/
abbrev PortM := Prog PortOp PortAns

/-- An access, with what was read. -/
abbrev PortEvent := Interaction.Event PortOp PortAns

def inb (port : BitVec 16) : PortM (BitVec 8) := .call (PortOp.inb port)

def outb (port : BitVec 16) (byte : BitVec 8) : PortM Unit := .call (PortOp.outb port byte)

variable {α : Type} {port : BitVec 16} {byte : BitVec 8} {l : List PortEvent} {a : α}

theorem runs_inb_bind {f : BitVec 8 → PortM α} : (inb port >>= f).Runs l a ↔
    ∃ (v : BitVec 8) (l' : List PortEvent), l = ⟨.inb port, v⟩ :: l' ∧ (f v).Runs l' a := Iff.rfl

theorem runs_outb_bind {f : Unit → PortM α} : (outb port byte >>= f).Runs l a ↔
    ∃ (v : Unit) (l' : List PortEvent), l = ⟨.outb port byte, v⟩ :: l' ∧ (f v).Runs l' a := Iff.rfl

end Ports

end Dem64
