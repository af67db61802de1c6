import Mathlib.Data.BitVec

set_option autoImplicit false

/-! # Formatted output

`print.c`. The bytes given to `putchar` are the result of a call. The format is read from memory
through an index; an access behind the terminating NUL, a store behind the end of a local buffer
and an argument of another type stop the program. Arithmetic on `int` wraps, as the instructions
of the target do. The recursion of `print_dec` and the loop of `printf` take fuel.
-/

namespace MelonSoc

namespace Print

abbrev Byte := BitVec 8

/-- The byte of a character. -/
def ascii (c : Char) : Byte := BitVec.ofNat 8 c.toNat

/-- What ends a run before its last character. -/
inductive Stop
  | pastEnd
  | bufferFull
  | badArg
  | outOfFuel
  deriving DecidableEq

/-- An argument of `printf`: an integer of 32 or 64 bits, or the memory a string pointer points
to. -/
inductive Arg
  | word (v : BitVec 32)
  | dword (v : BitVec 64)
  | str (mem : List Byte)
  deriving DecidableEq

/-! ## The program -/

/-- `*fmt`. -/
def fetch (mem : List Byte) (fmt : Nat) : Except Stop Byte :=
  match mem[fmt]? with
  | some c => .ok c
  | none => .error .pastEnd

/-- `print_string`. -/
def printString : List Byte → Except Stop (List Byte)
  | [] => .error .pastEnd
  | c :: s => if c = 0#8 then .ok [] else (printString s).map (c :: ·)

/-- The first loop of `print_dec`, with `room` bytes left in `buffer`. The byte stored last comes
first. -/
def decDigits : Nat → BitVec 32 → List Byte → Except Stop (List Byte)
  | 0, val, buf => if val ≠ 0#32 ∨ buf = [] then .error .bufferFull else .ok buf
  | room + 1, val, buf =>
      if val ≠ 0#32 ∨ buf = [] then
        decDigits room (val.sdiv 10#32) ((val.srem 10#32).setWidth 8 :: buf)
      else .ok buf

/-- `print_dec`. -/
def printDec : Nat → BitVec 32 → Except Stop (List Byte)
  | 0, _ => .error .outOfFuel
  | fuel + 1, val =>
      if val.slt 0#32 then (printDec fuel (-val)).map (ascii '-' :: ·)
      else (decDigits 12 val []).map fun buf => buf.map (ascii '0' + ·)

/-- The characters of the string that `print_hex_digits` looks its digits up in. -/
def hexTable : List Byte := "0123456789ABCDEF".toList.map ascii

/-- `print_hex_digits`. -/
def printHexDigits (val : BitVec 32) : Nat → List Byte
  | 0 => []
  | n + 1 => hexTable.getD ((val >>> (4 * n)) % 16#32).toNat 0#8 :: printHexDigits val n

/-- `print_hex`. -/
def printHex (val : BitVec 32) : List Byte := printHexDigits val 8

/-- The loop that fills `buf` for `%u` and `%llu`, with `room` bytes left. -/
def storeDigits {w : Nat} : Nat → BitVec w → List Byte → Except Stop (List Byte)
  | 0, v, buf => if 0#w < v then .error .bufferFull else .ok buf
  | room + 1, v, buf =>
      if 0#w < v then
        storeDigits room (v / 10#w)
          ((v % 10#w + (ascii '0').setWidth w).setWidth 8 :: buf)
      else .ok buf

/-- `%u` and `%llu`, with a buffer of `size` bytes. -/
def printUnsigned {w : Nat} (size : Nat) (v : BitVec w) : Except Stop (List Byte) :=
  if v = 0#w then .ok [ascii '0'] else storeDigits size v []

/-- `va_arg` of a 32-bit integer. -/
def argWord : List Arg → Except Stop (BitVec 32 × List Arg)
  | .word v :: args => .ok (v, args)
  | _ => .error .badArg

/-- `va_arg` of a 64-bit integer. -/
def argDword : List Arg → Except Stop (BitVec 64 × List Arg)
  | .dword v :: args => .ok (v, args)
  | _ => .error .badArg

/-- `va_arg` of a string. -/
def argStr : List Arg → Except Stop (List Byte × List Arg)
  | .str s :: args => .ok (s, args)
  | _ => .error .badArg

/-- `*fmt == 'l' && *(fmt+1) == 'l' && *(fmt+2) == 'u'`, for `*fmt` being `d`. -/
def isLlu (mem : List Byte) (fmt : Nat) (d : Byte) : Except Stop Bool :=
  if d = ascii 'l' then do
    let c ← fetch mem (fmt + 1)
    if c = ascii 'l' then do
      let c ← fetch mem (fmt + 2)
      .ok (c == ascii 'u')
    else .ok false
  else .ok false

/-- What follows a `%`: the characters printed, where `fmt` points to then, and the arguments
left. -/
def conversion (fuel : Nat) (mem : List Byte) (fmt : Nat) (args : List Arg) :
    Except Stop (List Byte × Nat × List Arg) := do
  let d ← fetch mem fmt
  if d = ascii 's' then do
    let (s, args) ← argStr args
    let out ← printString s
    .ok (out, fmt, args)
  else if d = ascii 'x' then do
    let (v, args) ← argWord args
    .ok (printHex v, fmt, args)
  else if d = ascii 'd' then do
    let (v, args) ← argWord args
    let out ← printDec fuel v
    .ok (out, fmt, args)
  else if d = ascii 'u' then do
    let (v, args) ← argWord args
    let out ← printUnsigned 12 v
    .ok (out, fmt, args)
  else do
    let llu ← isLlu mem fmt d
    if llu then do
      let (v, args) ← argDword args
      let out ← printUnsigned 24 v
      .ok (out, fmt + 2, args)
    else if d = ascii 'c' then do
      let (v, args) ← argWord args
      .ok ([v.setWidth 8], fmt, args)
    else .ok ([d], fmt, args)

/-- `printf`, from the character at `fmt` on. -/
def printf : Nat → List Byte → Nat → List Arg → Except Stop (List Byte)
  | 0, _, _, _ => .error .outOfFuel
  | fuel + 1, mem, fmt, args => do
      let c ← fetch mem fmt
      if c = 0#8 then .ok []
      else if c = ascii '%' then do
        let (out, fmt, args) ← conversion fuel mem (fmt + 1) args
        let rest ← printf fuel mem (fmt + 1) args
        .ok (out ++ rest)
      else do
        let rest ← printf fuel mem (fmt + 1) args
        .ok (c :: rest)

end Print

end MelonSoc
