import Wimp.Lib.ByteRegion

/-!
# Log texts

A process without a parent prints its log with `vfprintf`.  A process with a
parent formats the text on its own, into a static buffer behind a tag with its
name, and hands the buffer to its parent.

`format_string` lays one part of the format down after the other.  Behind a
number, its cursor does not follow what `sprintf` reports but the digits which
`get_char_width_dec`, `get_char_width_oct` and `get_char_width_hex` count.
-/

namespace Wimp.Log

open Wimp.Lib.ByteRegion

/-! ## The texts of the C library -/

/-- The code of a character. -/
def ascii (character : Char) : UInt8 :=
  UInt8.ofNat character.toNat

/-- The digits of a number, with lower case letters. -/
def digits (base number : Nat) : Bytes :=
  (Nat.toDigits base number).map ascii

/-- `%d` and `%i`. -/
def decimalText (value : BitVec 32) : Bytes :=
  if value.toInt < 0 then
    ascii '-' :: digits 10 value.toInt.natAbs
  else
    digits 10 value.toInt.natAbs

/-- `%u`. -/
def unsignedText (value : BitVec 32) : Bytes :=
  digits 10 value.toNat

/-- `%o`. -/
def octText (value : BitVec 32) : Bytes :=
  digits 8 value.toNat

/-- `%x`. -/
def hexText (value : BitVec 32) : Bytes :=
  digits 16 value.toNat

/-- `%X`. -/
def upperHexText (value : BitVec 32) : Bytes :=
  (Nat.toDigits 16 value.toNat).map fun digit => ascii digit.toUpper

/-- `%c`, which converts its argument to an unsigned character. -/
def charByte (value : BitVec 32) : UInt8 :=
  UInt8.ofNat value.toNat

/--
One argument behind the format.  A floating point number is known by what
`sprintf` prints of it for a format, and a pointer by what it prints for `%p`.
-/
inductive VarArg where
  | int (value : BitVec 32)
  | string (text : CString)
  | double (printed : Bytes → CString)
  | pointer (printed : CString)

/--
One conversion of `vfprintf`: the text and the arguments which are left.  The
flags, widths and lengths of a conversion, `%f` and `%p` are left out.
-/
def conversion (specifier : UInt8) (arg : List VarArg) :
    Option (Bytes × List VarArg) :=
  if specifier = ascii '%' then
    some ([ascii '%'], arg)
  else
    match arg with
    | .int value :: rest =>
        if specifier = ascii 'd' ∨ specifier = ascii 'i' then
          some (decimalText value, rest)
        else if specifier = ascii 'o' then some (octText value, rest)
        else if specifier = ascii 'x' then some (hexText value, rest)
        else if specifier = ascii 'X' then some (upperHexText value, rest)
        else if specifier = ascii 'u' then some (unsignedText value, rest)
        else if specifier = ascii 'c' then some ([charByte value], rest)
        else none
    | .string text :: rest =>
        if specifier = ascii 's' then some (text.val, rest) else none
    | _ => none

/-- `vfprintf`, with what it prints. -/
def vfprintf : Bytes → List VarArg → Option Bytes
  | [], _ => some []
  | character :: rest, arg =>
      if character = ascii '%' then
        match rest with
        | [] => none
        | specifier :: behind =>
            (conversion specifier arg).bind fun converted =>
              (vfprintf behind converted.2).map (converted.1 ++ ·)
      else
        (vfprintf rest arg).map (character :: ·)

/-! ## The widths -/

/-- The sum of the comparisons `value >= bound`. -/
def reached (value : Int) (bounds : List Int) : Nat :=
  bounds.countP (· ≤ value)

/-- `get_char_width_dec`. -/
def getCharWidthDec (var : BitVec 32) : Nat :=
  let noSignVar := if var.toInt < 0 then (var * -1).toInt else var.toInt
  1 + (if var.toInt < 0 then 1 else 0) +
    reached noSignVar
      [10, 100, 1000, 10000, 100000, 1000000, 10000000, 100000000,
        1000000000]

/-- `get_char_width_oct`. -/
def getCharWidthOct (var : BitVec 32) : Nat :=
  if var.toInt < 0 then 11
  else
    1 +
      reached var.toInt
        [8, 8 ^ 2, 8 ^ 3, 8 ^ 4, 8 ^ 5, 8 ^ 6, 8 ^ 7, 8 ^ 8, 8 ^ 9, 8 ^ 10]

/-- `get_char_width_hex`. -/
def getCharWidthHex (var : BitVec 32) : Nat :=
  if var.toInt < 0 then 8
  else
    1 +
      reached var.toInt [16, 16 ^ 2, 16 ^ 3, 16 ^ 4, 16 ^ 5, 16 ^ 6, 16 ^ 7]

/-! ## The formatter -/

/-- The local variables of `format_string`. -/
structure Formatting where
  str : Bytes
  stringOffset : Nat
  arg : List VarArg

namespace Formatting

/-- Bytes are written at the offset, which then moves. -/
def put (state : Formatting) (bytes : Bytes) (advance : Nat) :
    Option Formatting :=
  (splice state.str state.stringOffset bytes).map fun str =>
    { state with
        str := str
        stringOffset := state.stringOffset + advance }

/-- `sprintf` at the offset, with its terminator. -/
def sprintf (state : Formatting) (text : Bytes) (advance : Nat) :
    Option Formatting :=
  state.put (terminated text) advance

/-- `sprintf` at the offset, which then moves by the `strlen` found there. -/
def sprintfMeasured (state : Formatting) (text : Bytes) :
    Option Formatting :=
  (state.sprintf text 0).bind fun next =>
    (cString (next.str.drop next.stringOffset)).map fun found =>
      { next with stringOffset := next.stringOffset + found.length }

/-- `va_arg(arg, int)`. -/
def takeInt (state : Formatting) : Option (BitVec 32 × Formatting) :=
  match state.arg with
  | .int value :: rest => some (value, { state with arg := rest })
  | _ => none

/-- `va_arg(arg, const char*)`. -/
def takeString (state : Formatting) : Option (CString × Formatting) :=
  match state.arg with
  | .string text :: rest => some (text, { state with arg := rest })
  | _ => none

/-- `va_arg(arg, double)`. -/
def takeDouble (state : Formatting) :
    Option ((Bytes → CString) × Formatting) :=
  match state.arg with
  | .double printed :: rest => some (printed, { state with arg := rest })
  | _ => none

/-- `va_arg(arg, void*)`. -/
def takePointer (state : Formatting) : Option (CString × Formatting) :=
  match state.arg with
  | .pointer printed :: rest => some (printed, { state with arg := rest })
  | _ => none

end Formatting

/--
The format `%f` prints a number with: its own precision is looked for behind
the specifier, and put behind the `f` again.
-/
def doubleFormat (behind : Bytes) : Bytes :=
  match behind with
  | point :: precision =>
      if point = ascii '.' then
        [ascii '%', ascii 'f', ascii '.'] ++ precision.take 1
      else [ascii '%', ascii 'f']
  | [] => [ascii '%', ascii 'f']

/-- The branch of `format_string` behind a `%`. -/
def formatSpecifier (specifier : UInt8) (behind : Bytes)
    (state : Formatting) : Option Formatting :=
  if specifier = ascii '%' then
    state.put [ascii '%'] 1
  else if specifier = ascii 'd' ∨ specifier = ascii 'i' then
    state.takeInt.bind fun (intPrt, next) =>
      next.sprintf (decimalText intPrt) (getCharWidthDec intPrt)
  else if specifier = ascii 'o' then
    state.takeInt.bind fun (intPrt, next) =>
      next.sprintf (octText intPrt) (getCharWidthOct intPrt)
  else if specifier = ascii 'x' ∨ specifier = ascii 'X' then
    state.takeInt.bind fun (intPrt, next) =>
      next.sprintf (hexText intPrt) (getCharWidthHex intPrt)
  else if specifier = ascii 'u' then
    state.takeInt.bind fun (intPrt, next) =>
      next.sprintf (unsignedText intPrt) (getCharWidthDec intPrt)
  else if specifier = ascii 'c' then
    state.takeInt.bind fun (charPrt, next) => next.put [charByte charPrt] 1
  else if specifier = ascii 's' then
    state.takeString.bind fun (strPrt, next) =>
      next.put strPrt.val strPrt.val.length
  else if specifier = ascii 'f' then
    state.takeDouble.bind fun (doublePrt, next) =>
      next.sprintfMeasured (doublePrt (doubleFormat behind)).val
  else if specifier = ascii 'p' then
    state.takePointer.bind fun (ptr, next) => next.sprintfMeasured ptr.val
  else
    some state

/--
The loop of `format_string`, with the buffer it leaves.  A format which ends
in a lone `%` is read beyond its terminator.
-/
def formatLoop (buffsize : Nat) : Bytes → Formatting → Option Bytes
  | [], state => some state.str
  | character :: rest, state =>
      if subSizeT buffsize 1 ≤ state.stringOffset then some state.str
      else if character = ascii '%' then
        match rest with
        | [] => none
        | specifier :: behind =>
            (formatSpecifier specifier behind state).bind
              (formatLoop buffsize behind)
      else
        (state.put [character] 1).bind (formatLoop buffsize rest)

/-- `format_string`: the buffer and the length it returns. -/
def formatString (str : Bytes) (format : CString) (buffsize : Nat)
    (arg : List VarArg) : Option (Bytes × Nat) :=
  (formatLoop buffsize format.val ⟨str, 0, arg⟩).bind fun after =>
    (cString after).map fun text => (after, text.length)

/-! ## The internal log function -/

/-- `MAXIMUM_LOG_BYTES`. -/
def maximumLogBytes : Nat := 4096

/-- The instruction text of `WIMP_INSTRUCTION_LOG`. -/
def wimpInstructionLog : Bytes := [0x6c, 0x6f, 0x67]

/-- What the log function knows of the local server. -/
structure WimpServer where
  processName : CString
  parent : Option CString

/-- Where a log goes: to the standard output, or to the local server. -/
inductive Logged where
  | printed (text : Bytes)
  | added (dest instr args : Bytes)
deriving DecidableEq

/--
The tag in front of the text: the buffer with the name of the process in
brackets, and the number of bytes of the tag.
-/
def logTag (str : Bytes) (processName : CString) : Option (Bytes × Nat) := do
  let namebytes := processName.val.length
  let str ← splice str 0 [ascii '[']
  let str ← splice str 1 processName.val
  let str ← splice str (namebytes + 1) [ascii ']']
  let str ← splice str (namebytes + 2) [ascii ' ']
  return (str, namebytes + 3)

/--
`wimp_log_internal` for a process with a parent: the static buffer afterwards
and the bytes handed to `wimp_add_local_server`.
-/
def wimpLogChild (str : Bytes) (processName parent : CString)
    (format : CString) (arg : List VarArg) : Option (Bytes × Logged) := do
  let (str, tagbytes) ← logTag str processName
  let (behind, written) ←
    formatString (str.drop tagbytes) format
      (subSizeT maximumLogBytes tagbytes) arg
  let size := written + 1
  let args ← slice (str.take tagbytes ++ behind) 0 (addSizeT size tagbytes)
  return (List.replicate maximumLogBytes 0,
    .added parent.val wimpInstructionLog args)

/--
`wimp_log_internal`, with its static buffer.  Without a local server, or
without a parent, the log is printed.
-/
def wimpLogInternal (server : Option WimpServer) (str : Bytes)
    (format : CString) (arg : List VarArg) : Option (Bytes × Logged) :=
  match server.bind fun known => known.parent.map fun parent =>
    (known.processName, parent) with
  | none => (vfprintf format.val arg).map fun text => (str, .printed text)
  | some (processName, parent) =>
      wimpLogChild str processName parent format arg

end Wimp.Log
