import StateTransition.Curve.Bn128
import StateTransition.Hash.Blake2
import StateTransition.World.Basic

/-! Why a frame stops short. A halt takes all gas of the frame, a revert leaves what is left;
a fault of the world ends the whole transaction. -/
namespace StateTransition

inductive PrecompileFault where
  | curve (cause : Bn128.RequestError)
  | blake (cause : Blake2.RequestError)
  | unknown (index : UInt8)
  deriving DecidableEq, Repr

/-- Why a frame stops and forfeits its gas. -/
inductive Halt where
  | outOfGas
  | stackUnderflow
  | stackOverflow
  | invalidOpcode (byte : UInt8)
  | invalidJump (target : Nat)
  | writeInStaticContext
  | outOfBounds
  | addressCollision
  | invalidContractPrefix
  | precompile (cause : PrecompileFault)
  deriving DecidableEq, Repr

inductive Failure where
  | halt (cause : Halt)
  | revert
  deriving DecidableEq, Repr

inductive Stop where
  | failure (cause : Failure)
  | fault (cause : WorldError)
  deriving DecidableEq, Repr

def PrecompileFault.message : PrecompileFault → String
  | .curve cause => cause.message
  | .blake cause => cause.message
  | .unknown index => "no precompile at 0x" ++ Hex.digits [index]

def Halt.message : Halt → String
  | .outOfGas => "out of gas"
  | .stackUnderflow => "stack underflow"
  | .stackOverflow => "stack overflow (max 1024)"
  | .invalidOpcode byte => "invalid opcode: 0x" ++ Hex.digits [byte]
  | .invalidJump target => s!"invalid jump destination: {target}"
  | .writeInStaticContext => "state modification in static context"
  | .outOfBounds => "return data out of bounds"
  | .addressCollision => "contract address collision"
  | .invalidContractPrefix => "contract code starts with 0xef"
  | .precompile cause => "precompile error: " ++ cause.message

instance : ToString Halt := ⟨Halt.message⟩

def Failure.message : Failure → String
  | .halt cause => cause.message
  | .revert => "execution reverted"

instance : ToString Failure := ⟨Failure.message⟩

end StateTransition
