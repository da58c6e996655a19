import Mathlib.Algebra.Ring.Int.Defs

/-!
# Ftke.PduParcom

What the multiplex levels give to their observer (`pduparcom.h`).
-/

namespace Ftke

/-- The arguments of `MuxPduIndicate`; `pdu` are the octets of the size given. -/
structure MuxPduIndication where
  pdu : List UInt8
  closing : Int
  muxCode : Int
deriving DecidableEq

/-- `EMuxPduError`. -/
inductive MuxPduError where
  | headerErr
  | sizeErr
deriving DecidableEq

/-- A call of the observer. -/
inductive ObserverCall where
  | muxPduIndicate (indication : MuxPduIndication)
  | muxPduErrIndicate (err : MuxPduError)
deriving DecidableEq

theorem muxEntry_lt (MuxTblNum : Fin 16) : MuxTblNum.val < 16 := MuxTblNum.isLt

theorem muxEntry_zero_lt : 0 < 16 := by decide

end Ftke
