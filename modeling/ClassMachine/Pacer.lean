import ClassMachine.Config

/-!
Accounting of executed cycles. Pacing decides how fast a machine runs, never what it computes.
-/
namespace ClassMachine

structure Pacer where
  mode : PacingMode
  cycles : UInt64 := 0
  deriving DecidableEq, Repr, Inhabited

def Pacer.pace (p : Pacer) (cycles : UInt64) : Pacer := { p with cycles := p.cycles + cycles }

end ClassMachine
