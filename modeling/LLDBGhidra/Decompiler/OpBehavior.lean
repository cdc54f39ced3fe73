import LLDBGhidra.Decompiler.BitFunctions

/-
  The behaviour of p-code operations (`opcodes.hh`,
  `opcodes.cc`, `opbehavior.hh`, `opbehavior.cc`): what an
  operation makes of its inputs, and which input it had.
  Floating-point formats (`float.cc`) are a parameter.

  Main declarations:
    * `OpCode`
    * `OpFailure`
    * `OpBehavior.evaluateUnary`
    * `OpBehavior.evaluateBinary`
    * `OpBehavior.evaluateTernary`
    * `OpBehavior.recoverInputUnary`
    * `OpBehavior.recoverInputBinary`
-/

------------------------------------------------------------
-- Operations
------------------------------------------------------------

namespace LLDBGhidra

/- `OpCode`, without the slot 45 that is unused. -/
inductive OpCode where
| copy : OpCode
| load : OpCode
| store : OpCode
| branch : OpCode
| cbranch : OpCode
| branchind : OpCode
| call : OpCode
| callind : OpCode
| callother : OpCode
| ret : OpCode
| intEqual : OpCode
| intNotequal : OpCode
| intSless : OpCode
| intSlessequal : OpCode
| intLess : OpCode
| intLessequal : OpCode
| intZext : OpCode
| intSext : OpCode
| intAdd : OpCode
| intSub : OpCode
| intCarry : OpCode
| intScarry : OpCode
| intSborrow : OpCode
| int2comp : OpCode
| intNegate : OpCode
| intXor : OpCode
| intAnd : OpCode
| intOr : OpCode
| intLeft : OpCode
| intRight : OpCode
| intSright : OpCode
| intMult : OpCode
| intDiv : OpCode
| intSdiv : OpCode
| intRem : OpCode
| intSrem : OpCode
| boolNegate : OpCode
| boolXor : OpCode
| boolAnd : OpCode
| boolOr : OpCode
| floatEqual : OpCode
| floatNotequal : OpCode
| floatLess : OpCode
| floatLessequal : OpCode
| floatNan : OpCode
| floatAdd : OpCode
| floatDiv : OpCode
| floatMult : OpCode
| floatSub : OpCode
| floatNeg : OpCode
| floatAbs : OpCode
| floatSqrt : OpCode
| floatInt2float : OpCode
| floatFloat2float : OpCode
| floatTrunc : OpCode
| floatCeil : OpCode
| floatFloor : OpCode
| floatRound : OpCode
| multiequal : OpCode
| indirect : OpCode
| piece : OpCode
| subpiece : OpCode
| cast : OpCode
| ptradd : OpCode
| ptrsub : OpCode
| segmentop : OpCode
| cpoolref : OpCode
| new : OpCode
| insert : OpCode
| extract : OpCode
| popcount : OpCode
| lzcount : OpCode
deriving DecidableEq, Repr

/- The name of an operation. -/
def getOpname
    (opc : OpCode) : String :=
  match opc with
  | .copy => "COPY"
  | .load => "LOAD"
  | .store => "STORE"
  | .branch => "BRANCH"
  | .cbranch => "CBRANCH"
  | .branchind => "BRANCHIND"
  | .call => "CALL"
  | .callind => "CALLIND"
  | .callother => "CALLOTHER"
  | .ret => "RETURN"
  | .intEqual => "INT_EQUAL"
  | .intNotequal => "INT_NOTEQUAL"
  | .intSless => "INT_SLESS"
  | .intSlessequal => "INT_SLESSEQUAL"
  | .intLess => "INT_LESS"
  | .intLessequal => "INT_LESSEQUAL"
  | .intZext => "INT_ZEXT"
  | .intSext => "INT_SEXT"
  | .intAdd => "INT_ADD"
  | .intSub => "INT_SUB"
  | .intCarry => "INT_CARRY"
  | .intScarry => "INT_SCARRY"
  | .intSborrow => "INT_SBORROW"
  | .int2comp => "INT_2COMP"
  | .intNegate => "INT_NEGATE"
  | .intXor => "INT_XOR"
  | .intAnd => "INT_AND"
  | .intOr => "INT_OR"
  | .intLeft => "INT_LEFT"
  | .intRight => "INT_RIGHT"
  | .intSright => "INT_SRIGHT"
  | .intMult => "INT_MULT"
  | .intDiv => "INT_DIV"
  | .intSdiv => "INT_SDIV"
  | .intRem => "INT_REM"
  | .intSrem => "INT_SREM"
  | .boolNegate => "BOOL_NEGATE"
  | .boolXor => "BOOL_XOR"
  | .boolAnd => "BOOL_AND"
  | .boolOr => "BOOL_OR"
  | .floatEqual => "FLOAT_EQUAL"
  | .floatNotequal => "FLOAT_NOTEQUAL"
  | .floatLess => "FLOAT_LESS"
  | .floatLessequal => "FLOAT_LESSEQUAL"
  | .floatNan => "FLOAT_NAN"
  | .floatAdd => "FLOAT_ADD"
  | .floatDiv => "FLOAT_DIV"
  | .floatMult => "FLOAT_MULT"
  | .floatSub => "FLOAT_SUB"
  | .floatNeg => "FLOAT_NEG"
  | .floatAbs => "FLOAT_ABS"
  | .floatSqrt => "FLOAT_SQRT"
  | .floatInt2float => "INT2FLOAT"
  | .floatFloat2float => "FLOAT2FLOAT"
  | .floatTrunc => "TRUNC"
  | .floatCeil => "CEIL"
  | .floatFloor => "FLOOR"
  | .floatRound => "ROUND"
  -- the names of the compiler's placeholders
  | .multiequal => "BUILD"
  | .indirect => "DELAY_SLOT"
  | .piece => "PIECE"
  | .subpiece => "SUBPIECE"
  | .cast => "CAST"
  | .ptradd => "LABEL"
  | .ptrsub => "CROSSBUILD"
  | .segmentop => "SEGMENTOP"
  | .cpoolref => "CPOOLREF"
  | .new => "NEW"
  | .insert => "INSERT"
  | .extract => "EXTRACT"
  | .popcount => "POPCOUNT"
  | .lzcount => "LZCOUNT"

/-
  The complementary form of a comparison, and whether its
  inputs have to be reordered; there is none (`CPUI_MAX`) of
  another operation.
-/
def getBooleanflip
    (opc : OpCode) : Option (OpCode × Bool) :=
  match opc with
  | .intEqual => some (.intNotequal, false)
  | .intNotequal => some (.intEqual, false)
  | .intSless => some (.intSlessequal, true)
  | .intSlessequal => some (.intSless, true)
  | .intLess => some (.intLessequal, true)
  | .intLessequal => some (.intLess, true)
  | .boolNegate => some (.copy, false)
  | .floatEqual => some (.floatNotequal, false)
  | .floatNotequal => some (.floatEqual, false)
  | .floatLess => some (.floatLessequal, true)
  | .floatLessequal => some (.floatLess, true)
  | _ => none

/- Why there is no value: an error, or undefined arithmetic. -/
inductive OpFailure where
| lowlevelError : (explain : String) → OpFailure
| evaluationError : (explain : String) → OpFailure
| undefined : OpFailure
deriving DecidableEq, Repr

/- The operations of a format; `sizeout` selects another. -/
structure FloatFormat where
  opEqual : BitVec 64 → BitVec 64 → BitVec 64
  opNotEqual : BitVec 64 → BitVec 64 → BitVec 64
  opLess : BitVec 64 → BitVec 64 → BitVec 64
  opLessEqual : BitVec 64 → BitVec 64 → BitVec 64
  opNan : BitVec 64 → BitVec 64
  opAdd : BitVec 64 → BitVec 64 → BitVec 64
  opDiv : BitVec 64 → BitVec 64 → BitVec 64
  opMult : BitVec 64 → BitVec 64 → BitVec 64
  opSub : BitVec 64 → BitVec 64 → BitVec 64
  opNeg : BitVec 64 → BitVec 64
  opAbs : BitVec 64 → BitVec 64
  opSqrt : BitVec 64 → BitVec 64
  opInt2Float : BitVec 64 → (sizein : Nat) → BitVec 64
  opFloat2Float : BitVec 64 → (sizeout : Nat) → BitVec 64
  opTrunc : BitVec 64 → (sizeout : Nat) → BitVec 64
  opCeil : BitVec 64 → BitVec 64
  opFloor : BitVec 64 → BitVec 64
  opRound : BitVec 64 → BitVec 64

/- `Translate::getFloatFormat`. -/
abbrev FloatFormats :=
  Nat → Option FloatFormat

end LLDBGhidra

------------------------------------------------------------
-- Evaluation
------------------------------------------------------------

namespace LLDBGhidra

namespace OpBehavior

abbrev Result :=
  Except OpFailure (BitVec 64)

/- `evaluateUnary` of the base class. -/
def unimplementedUnary
    (opcode : OpCode) : Result :=
  .error (.lowlevelError
    ("Unary emulation unimplemented for " ++ getOpname opcode))

/- `evaluateBinary` of the base class. -/
def unimplementedBinary
    (opcode : OpCode) : Result :=
  .error (.lowlevelError
    ("Binary emulation unimplemented for " ++ getOpname opcode))

/- `evaluateTernary` of the base class. -/
def unimplementedTernary
    (opcode : OpCode) : Result :=
  .error (.lowlevelError
    ("Ternary emulation unimplemented for " ++
      getOpname opcode))

/- A condition as a value. -/
def truth
    (condition : Bool) : BitVec 64 :=
  if condition then 1 else 0

/- `OpBehaviorIntSless`, with the comparison of equal signs. -/
def signedLess
    (less : BitVec 64 → BitVec 64 → Bool)
    (sizein : Nat)
    (in1 in2 : BitVec 64) : BitVec 64 :=
  if sizein = 0 then
    0
  else
    let mask := 0x80#64 <<< (8 * (sizein - 1))
    let bit1 := in1 &&& mask
    let bit2 := in2 &&& mask
    if bit1 ≠ bit2 then
      truth (bit1 ≠ 0)
    else
      truth (less in1 in2)

/- The sign bit of a value of the size. -/
def signBit
    (size : Nat)
    (val : BitVec 64) : BitVec 64 :=
  val >>> (size * 8 - 1) &&& 1

def intScarry
    (sizein : Nat)
    (in1 in2 : BitVec 64) : BitVec 64 :=
  let a := signBit sizein in1
  let b := signBit sizein in2
  let r := signBit sizein (in1 + in2)
  (r ^^^ a) &&& (a ^^^ b ^^^ 1)

def intSborrow
    (sizein : Nat)
    (in1 in2 : BitVec 64) : BitVec 64 :=
  let a := signBit sizein in1
  let b := signBit sizein in2
  let r := signBit sizein (in1 - in2)
  (a ^^^ r) &&& (r ^^^ b ^^^ 1)

def intLeft
    (sizeout : Nat)
    (in1 in2 : BitVec 64) : BitVec 64 :=
  if sizeout * 8 ≤ in2.toNat then
    0
  else
    in1 <<< in2.toNat &&& calcMask sizeout

def intRight
    (sizeout : Nat)
    (in1 in2 : BitVec 64) : BitVec 64 :=
  if sizeout * 8 ≤ in2.toNat then
    0
  else
    (in1 &&& calcMask sizeout) >>> in2.toNat

def intSright
    (sizeout sizein : Nat)
    (in1 in2 : BitVec 64) : BitVec 64 :=
  if 8 * sizeout ≤ in2.toNat then
    if signbitNegative in1 sizein then calcMask sizeout else 0
  else if signbitNegative in1 sizein then
    let mask := calcMask sizein
    in1 >>> in2.toNat ||| (mask >>> in2.toNat ^^^ mask)
  else
    in1 >>> in2.toNat

/- The division of the lowest value by -1 is not defined. -/
def overflows
    (num denom : BitVec 64) : Bool :=
  num = BitVec.intMin 64 && denom = BitVec.allOnes 64

def intDiv
    (in1 in2 : BitVec 64) : Result :=
  if in2 = 0 then
    .error (.evaluationError "Divide by 0")
  else
    .ok (in1 / in2)

def intSdiv
    (sizeout sizein : Nat)
    (in1 in2 : BitVec 64) : Result :=
  if in2 = 0 then
    .error (.evaluationError "Divide by 0")
  else
    let num := signExtendBit in1 (8 * sizein - 1)
    let denom := signExtendBit in2 (8 * sizein - 1)
    if overflows num denom then
      .error .undefined
    else
      .ok (zeroExtendBit (num.sdiv denom) (8 * sizeout - 1))

def intRem
    (in1 in2 : BitVec 64) : Result :=
  if in2 = 0 then
    .error (.evaluationError "Remainder by 0")
  else
    .ok (in1 % in2)

def intSrem
    (sizeout sizein : Nat)
    (in1 in2 : BitVec 64) : Result :=
  if in2 = 0 then
    .error (.evaluationError "Remainder by 0")
  else
    let val := signExtendBit in1 (8 * sizein - 1)
    let modulus := signExtendBit in2 (8 * sizein - 1)
    if overflows val modulus then
      .error .undefined
    else
      .ok (zeroExtendBit (val.srem modulus) (8 * sizeout - 1))

def subpiece
    (sizeout : Nat)
    (in1 in2 : BitVec 64) : BitVec 64 :=
  if 8 ≤ in2.toNat then
    0
  else
    in1 >>> (in2.toNat * 8) &&& calcMask sizeout

/- An operation of the format of a size, if there is one. -/
def withFormat
    (formats : FloatFormats)
    (size : Nat)
    (unimplemented : Result)
    (operation : FloatFormat → BitVec 64) : Result :=
  match formats size with
  | none => unimplemented
  | some format => .ok (operation format)

/- `evaluateUnary`, by the class of the operation. -/
def evaluateUnary
    (formats : FloatFormats)
    (opcode : OpCode)
    (sizeout sizein : Nat)
    (in1 : BitVec 64) : Result :=
  let format := fun size =>
    withFormat formats size (unimplementedUnary opcode)
  match opcode with
  | .copy => .ok in1
  | .intZext => .ok in1
  | .intSext => .ok (signExtend in1 sizein sizeout)
  | .int2comp => .ok (uintbNegate (in1 - 1) sizein)
  | .intNegate => .ok (uintbNegate in1 sizein)
  | .boolNegate => .ok (in1 ^^^ 1)
  | .floatNan => format sizein (fun float => float.opNan in1)
  | .floatNeg => format sizein (fun float => float.opNeg in1)
  | .floatAbs => format sizein (fun float => float.opAbs in1)
  | .floatSqrt => format sizein (fun float => float.opSqrt in1)
  | .floatInt2float =>
      format sizeout (fun float => float.opInt2Float in1 sizein)
  | .floatFloat2float =>
      match formats sizeout with
      | none => unimplementedUnary opcode
      | some _ =>
          format sizein
            (fun float => float.opFloat2Float in1 sizeout)
  | .floatTrunc =>
      format sizein (fun float => float.opTrunc in1 sizeout)
  | .floatCeil => format sizein (fun float => float.opCeil in1)
  | .floatFloor =>
      format sizein (fun float => float.opFloor in1)
  | .floatRound =>
      format sizein (fun float => float.opRound in1)
  | .popcount =>
      .ok (BitVec.ofNat 64 (LLDBGhidra.popcount in1))
  | .lzcount =>
      .ok (BitVec.ofNat 64 (countLeadingZeros in1) -
        BitVec.ofNat 64 (8 * (8 - sizein)))
  | _ => unimplementedUnary opcode

/- `evaluateBinary`, by the class of the operation. -/
def evaluateBinary
    (formats : FloatFormats)
    (opcode : OpCode)
    (sizeout sizein : Nat)
    (in1 in2 : BitVec 64) : Result :=
  let format :=
    withFormat formats sizein (unimplementedBinary opcode)
  match opcode with
  | .intEqual => .ok (truth (in1 = in2))
  | .intNotequal => .ok (truth (in1 ≠ in2))
  | .intSless =>
      .ok (signedLess (fun x y => x < y) sizein in1 in2)
  | .intSlessequal =>
      .ok (signedLess (fun x y => x ≤ y) sizein in1 in2)
  | .intLess => .ok (truth (in1 < in2))
  | .intLessequal => .ok (truth (in1 ≤ in2))
  | .intAdd => .ok ((in1 + in2) &&& calcMask sizeout)
  | .intSub => .ok ((in1 - in2) &&& calcMask sizeout)
  | .intCarry =>
      .ok (truth (((in1 + in2) &&& calcMask sizein) < in1))
  | .intScarry => .ok (intScarry sizein in1 in2)
  | .intSborrow => .ok (intSborrow sizein in1 in2)
  | .intXor => .ok (in1 ^^^ in2)
  | .intAnd => .ok (in1 &&& in2)
  | .intOr => .ok (in1 ||| in2)
  | .intLeft => .ok (intLeft sizeout in1 in2)
  | .intRight => .ok (intRight sizeout in1 in2)
  | .intSright => .ok (intSright sizeout sizein in1 in2)
  | .intMult => .ok ((in1 * in2) &&& calcMask sizeout)
  | .intDiv => intDiv in1 in2
  | .intSdiv => intSdiv sizeout sizein in1 in2
  | .intRem => intRem in1 in2
  | .intSrem => intSrem sizeout sizein in1 in2
  | .boolXor => .ok (in1 ^^^ in2)
  | .boolAnd => .ok (in1 &&& in2)
  | .boolOr => .ok (in1 ||| in2)
  | .floatEqual => format (fun float => float.opEqual in1 in2)
  | .floatNotequal =>
      format (fun float => float.opNotEqual in1 in2)
  | .floatLess => format (fun float => float.opLess in1 in2)
  | .floatLessequal =>
      format (fun float => float.opLessEqual in1 in2)
  | .floatAdd => format (fun float => float.opAdd in1 in2)
  | .floatDiv => format (fun float => float.opDiv in1 in2)
  | .floatMult => format (fun float => float.opMult in1 in2)
  | .floatSub => format (fun float => float.opSub in1 in2)
  | .piece => .ok (in1 <<< ((sizeout - sizein) * 8) ||| in2)
  | .subpiece => .ok (subpiece sizeout in1 in2)
  | .ptrsub => .ok ((in1 + in2) &&& calcMask sizeout)
  | _ => unimplementedBinary opcode

/- `evaluateTernary`, by the class of the operation. -/
def evaluateTernary
    (opcode : OpCode)
    (sizeout : Nat)
    (in1 in2 in3 : BitVec 64) : Result :=
  match opcode with
  | .ptradd => .ok ((in1 + in2 * in3) &&& calcMask sizeout)
  | _ => unimplementedTernary opcode

end OpBehavior

end LLDBGhidra

------------------------------------------------------------
-- Recovery of an Input
------------------------------------------------------------

namespace LLDBGhidra

namespace OpBehavior

/- `recoverInputUnary` and `recoverInputBinary` of the base. -/
def cannotRecover : Result :=
  .error (.lowlevelError
    "Cannot recover input parameter without loss of information")

/- The output is not one of the operation. -/
def outOfRange
    (operation : String) : Result :=
  .error (.evaluationError
    ("Output is not in range of " ++ operation ++ " operation"))

def recoverZext
    (sizein : Nat)
    (out : BitVec 64) : Result :=
  if calcMask sizein &&& out ≠ out then
    outOfRange "zext"
  else
    .ok out

def recoverSext
    (sizeout sizein : Nat)
    (out : BitVec 64) : Result :=
  let masklong := calcMask sizeout
  let maskshort := calcMask sizein
  if out &&& (maskshort ^^^ maskshort >>> 1) = 0 then
    if out &&& maskshort ≠ out then
      outOfRange "sext"
    else
      .ok (out &&& maskshort)
  else if out &&& (masklong ^^^ maskshort) ≠
      masklong ^^^ maskshort then
    outOfRange "sext"
  else
    .ok (out &&& maskshort)

/-
  A word is shifted by fewer bits than it has, and by any other
  amount the shift is undefined.
-/
def wordShiftLeft
    (word : BitVec 64)
    (amount : Int) : Result :=
  if 0 ≤ amount ∧ amount < 64 then
    .ok (word <<< amount.toNat)
  else
    .error .undefined

def wordShiftRight
    (word : BitVec 64)
    (amount : Int) : Result :=
  if 0 ≤ amount ∧ amount < 64 then
    .ok (word >>> amount.toNat)
  else
    .error .undefined

theorem wordShiftLeft_eq
    {amount : Int}
    (bits : Nat)
    (hBits : bits < 64)
    (hAmount : amount = bits)
    (word : BitVec 64) :
    wordShiftLeft word amount = .ok (word <<< bits) := by
  rw [wordShiftLeft, if_pos (by omega), hAmount,
    Int.toNat_natCast]

theorem wordShiftRight_eq
    {amount : Int}
    (bits : Nat)
    (hBits : bits < 64)
    (hAmount : amount = bits)
    (word : BitVec 64) :
    wordShiftRight word amount = .ok (word >>> bits) := by
  rw [wordShiftRight, if_pos (by omega), hAmount,
    Int.toNat_natCast]

def recoverLeft
    (slot sizeout : Nat)
    (out known : BitVec 64) : Result :=
  if slot ≠ 0 ∨ sizeout * 8 ≤ known.toNat then
    cannotRecover
  else do
    let sa := known.toNat
    let lost ← wordShiftLeft out (8 * sizeout - sa)
    if lost &&& calcMask sizeout ≠ 0 then
      outOfRange "left shift"
    else
      wordShiftRight out sa

def recoverRight
    (slot sizeout sizein : Nat)
    (out known : BitVec 64) : Result :=
  if slot ≠ 0 ∨ sizeout * 8 ≤ known.toNat then
    cannotRecover
  else do
    let sa := known.toNat
    let lost ← wordShiftRight out (8 * sizein - sa)
    if lost ≠ 0 then
      outOfRange "right shift"
    else
      wordShiftLeft out sa

/- Count the set bits among the lowest. -/
def countOnes
    (rounds : Nat)
    (testval : BitVec 64) : Nat :=
  match rounds with
  | 0 => 0
  | rounds + 1 =>
      (if testval &&& 1 ≠ 0 then 1 else 0) +
        countOnes rounds (testval >>> 1)

def recoverSright
    (slot sizeout sizein : Nat)
    (out known : BitVec 64) : Result :=
  if slot ≠ 0 ∨ sizeout * 8 ≤ known.toNat then
    cannotRecover
  else do
    let sa := known.toNat
    let testval ← wordShiftRight out (sizein * 8 - sa - 1)
    if countOnes (sa + 1) testval ≠ sa + 1 then
      outOfRange "right shift"
    else
      wordShiftLeft out sa

/- `recoverInputUnary`, by the class of the operation. -/
def recoverInputUnary
    (opcode : OpCode)
    (sizeout : Nat)
    (out : BitVec 64)
    (sizein : Nat) : Result :=
  match opcode with
  | .copy => .ok out
  | .intZext => recoverZext sizein out
  | .intSext => recoverSext sizeout sizein out
  | .int2comp => .ok (uintbNegate (out - 1) sizein)
  | .intNegate => .ok (uintbNegate out sizein)
  | _ => cannotRecover

/- `recoverInputBinary`, by the class of the operation. -/
def recoverInputBinary
    (opcode : OpCode)
    (slot sizeout : Nat)
    (out : BitVec 64)
    (sizein : Nat)
    (known : BitVec 64) : Result :=
  match opcode with
  | .intAdd => .ok ((out - known) &&& calcMask sizeout)
  | .intSub =>
      .ok ((if slot = 0 then known + out else known - out) &&&
        calcMask sizeout)
  | .intLeft => recoverLeft slot sizeout out known
  | .intRight => recoverRight slot sizeout sizein out known
  | .intSright => recoverSright slot sizeout sizein out known
  | _ => cannotRecover

end OpBehavior

end LLDBGhidra
