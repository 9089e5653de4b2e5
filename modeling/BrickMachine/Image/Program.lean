import BrickMachine.Code.Assembly
import BrickMachine.Image.Dataspace

/-!
# Programs under construction

A program is a dataspace and clumps. The code of all clumps is one sequence of words, in the
order in which the clumps are added, and a clump remembers where its own words start.
-/

namespace BrickMachine

structure Program where
  dataspace : Dataspace := {}
  clumps : Array Clump := #[]
  code : Array UInt16 := #[]
  deriving DecidableEq, Repr

namespace Program

def nextClump (p : Program) : UInt8 := UInt8.ofNat p.clumps.size

def addClump (p : Program) (words : List UInt16) (dependents : List UInt8) (fireCount : UInt8) :
    Program :=
  { p with
    clumps := p.clumps.push
      { fireCount := fireCount
        dependents := dependents
        codeStart := UInt16.ofNat p.code.size }
    code := p.code ++ words }

def toImage (p : Program) : Image := p.dataspace.toImage p.clumps p.code

end Program

end BrickMachine
