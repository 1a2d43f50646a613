import BradypOS.Printf.Digits

/-!
# Formats (`lib/tinyprintf/tinyprintf.c`)

`tfpFormat` reads a format and its arguments and passes characters to `putf`. A `Piece` is what the author of a format
means: a character, or a conversion with the value that it shows. The text of a piece is how the format spells it.

`int`, `long`, `size_t` and pointers have 32 bits, `long long` has 64.
-/

namespace BradypOS.Printf

open L4

/-! ### `putchw` -/

structure Param where
  width : Word
  base : Nat
  bf : List Byte
  sign : Option Byte
  lz : Bool
  alt : Bool
  uc : Bool
  alignLeft : Bool

/-- The loop over the text that is to be shown. -/
def shrink : List Byte → Int → Int
  | [], n => n
  | _ :: bf, n => if 0 < n then shrink bf (n - 1) else n

/-- The filling characters: `n` behind the loop, the sign and the alternate form. -/
def filling (p : Param) : Int :=
  let n := shrink p.bf p.width.toInt
  let n := if p.sign.isSome then n - 1 else n
  if p.alt ∧ p.base = 16 then n - 2 else if p.alt ∧ p.base = 8 then n - 1 else n

def alternate (p : Param) : List Byte :=
  if p.alt ∧ p.base = 16 then [ascii '0', if p.uc then ascii 'X' else ascii 'x'] else if p.alt ∧ p.base = 8 then [ascii '0'] else []

def putchw (p : Param) : List Byte :=
  let fill (ch : Char) := List.replicate (filling p).toNat (ascii ch)
  (if !p.lz && !p.alignLeft then fill ' ' else []) ++ p.sign.toList ++ alternate p ++ (if p.lz then fill '0' else []) ++ p.bf ++
    if !p.lz && p.alignLeft then fill ' ' else []

/-! ### What stands behind a percent sign -/

def flags (p : Param) : List Byte → Param × List Byte
  | [] => (p, [])
  | ch :: fmt =>
    if ch = ascii '-' then flags { p with alignLeft := true } fmt
    else if ch = ascii '0' then flags { p with lz := true } fmt
    else if ch = ascii '#' then flags { p with alt := true } fmt
    else (p, ch :: fmt)

def isDigit (ch : Byte) : Bool := ascii '0' ≤ ch && ch ≤ ascii '9'

def width (p : Param) : List Byte → Param × List Byte
  | [] => (p, [])
  | ch :: fmt =>
    if isDigit ch then
      let (num, fmt) := a2u 10 (ch :: fmt) 0#32
      ({ p with width := num }, fmt)
    else (p, ch :: fmt)

def precision (p : Param) : List Byte → Param × List Byte
  | [] => (p, [])
  | ch :: fmt => if ch = ascii '.' then ({ p with lz := true }, fmt.dropWhile isDigit) else (p, ch :: fmt)

/-- `lng`, and what follows the modifier. -/
def modifier : List Byte → Nat × List Byte
  | [] => (0, [])
  | ch :: fmt =>
    if ch = ascii 'z' then (1, fmt)
    else if ch = ascii 'l' then
      match fmt with
      | [] => (1, [])
      | ch :: fmt => if ch = ascii 'l' then (2, fmt) else (1, ch :: fmt)
    else (0, ch :: fmt)

/-! ### Arguments -/

/-- An argument. A string is what it has before its terminator. -/
inductive Arg
  | word (v : Word)
  | wide (v : BitVec 64)
  | str (text : List Byte)
  deriving DecidableEq

/-- `char bf[23]`. -/
def intoBf (text : Option (List Byte)) : Option (List Byte) := text.bind fun bf => if bf.length < 23 then some bf else none

def unsigned (lng : Nat) (p : Param) (va : List Arg) : Option (Param × List Arg) :=
  match lng, va with
  | 2, .wide v :: va => (intoBf (ulli2a p.base p.uc v)).map fun bf => ({ p with bf }, va)
  | 1, .word v :: va => (intoBf (uli2a p.base p.uc v)).map fun bf => ({ p with bf }, va)
  | 0, .word v :: va => (intoBf (ui2a p.base p.uc v)).map fun bf => ({ p with bf }, va)
  | _, _ => none

def signed (lng : Nat) (p : Param) (va : List Arg) : Option (Param × List Arg) :=
  match lng, va with
  | 2, .wide v :: va => (intoBf (ulli2a p.base p.uc (signOf v).2)).map fun bf => ({ p with bf, sign := (signOf v).1 }, va)
  | 1, .word v :: va => (intoBf (uli2a p.base p.uc (signOf v).2)).map fun bf => ({ p with bf, sign := (signOf v).1 }, va)
  | 0, .word v :: va => (intoBf (ui2a p.base p.uc (signOf v).2)).map fun bf => ({ p with bf, sign := (signOf v).1 }, va)
  | _, _ => none

/-- The conversions: what is shown, the parameters that the next one starts from, and the arguments that are left. -/
def convert (ch : Byte) (lng : Nat) (p : Param) (va : List Arg) : Option (List Byte × Param × List Arg) :=
  if ch = ascii 'u' then
    (unsigned lng { p with base := 10 } va).map fun (p, va) => (putchw p, p, va)
  else if ch = ascii 'd' ∨ ch = ascii 'i' then
    (signed lng { p with base := 10 } va).map fun (p, va) => (putchw p, p, va)
  else if ch = ascii 'p' then
    (unsigned 0 { p with alt := true, base := 16, uc := false } va).map fun (p, va) => (putchw p, p, va)
  else if ch = ascii 'x' ∨ ch = ascii 'X' then
    (unsigned lng { p with base := 16, uc := ch = ascii 'X' } va).map fun (p, va) => (putchw p, p, va)
  else if ch = ascii 'o' then
    (unsigned 0 { p with base := 8 } va).map fun (p, va) => (putchw p, p, va)
  else if ch = ascii 'c' then
    match va with
    | .word v :: va => some ([v.setWidth 8], p, va)
    | _ => none
  else if ch = ascii 's' then
    match va with
    | .str text :: va => some (putchw { p with bf := text }, p, va)
    | _ => none
  else if ch = ascii '%' then some ([ch], p, va)
  else some ([], p, va)

/-- The loop over the format. `base` and `uc` are not set anew for each conversion. -/
def formatLoop : Nat → Param → List Byte → List Arg → Option (List Byte)
  | _, _, [], _ => some []
  | 0, _, _ :: _, _ => none
  | fuel + 1, p, ch :: fmt, va =>
    if ch ≠ ascii '%' then (formatLoop fuel p fmt va).map (ch :: ·)
    else
      let (p, fmt) := flags { p with lz := false, alt := false, width := 0, alignLeft := false, sign := none } fmt
      let (p, fmt) := width p fmt
      let (p, fmt) := precision p fmt
      let (lng, fmt) := modifier fmt
      match fmt with
      | [] => some []
      | ch :: fmt => do
        let (shown, p, va) ← convert ch lng p va
        let rest ← formatLoop fuel p fmt va
        some (shown ++ rest)

/-- What `tfp_format` passes to `putf`; `p` is what the stack holds. -/
def tfpFormat (p : Param) (fmt : List Byte) (va : List Arg) : Option (List Byte) := formatLoop fmt.length p fmt va

/-! ### What a format means -/

inductive Flag
  | left
  | zero
  | alt
  deriving DecidableEq

def Flag.char : Flag → Byte
  | .left => ascii '-'
  | .zero => ascii '0'
  | .alt => ascii '#'

/-- A number, with the modifier that its type asks for. -/
inductive Number
  | int (v : Word)
  | size (v : Word)
  | long (v : Word)
  | longLong (v : BitVec 64)
  deriving DecidableEq

namespace Number

def modifier : Number → List Byte
  | int _ => []
  | size _ => [ascii 'z']
  | long _ => [ascii 'l']
  | longLong _ => [ascii 'l', ascii 'l']

def arg : Number → Arg
  | int v | size v | long v => .word v
  | longLong v => .wide v

def toNat : Number → Nat
  | int v | size v | long v => v.toNat
  | longLong v => v.toNat

def toInt : Number → Int
  | int v | size v | long v => v.toInt
  | longLong v => v.toInt

end Number

/-- A conversion, with the value that it shows. -/
inductive Conv
  | u (v : Number)
  | d (v : Number)
  | i (v : Number)
  | x (v : Number)
  | X (v : Number)
  | p (v : Word)
  | o (v : Word)
  | c (v : Word)
  | s (text : List Byte)
  | percent
  deriving DecidableEq

namespace Conv

def char : Conv → Byte
  | u _ => ascii 'u'
  | d _ => ascii 'd'
  | i _ => ascii 'i'
  | x _ => ascii 'x'
  | X _ => ascii 'X'
  | p _ => ascii 'p'
  | o _ => ascii 'o'
  | c _ => ascii 'c'
  | s _ => ascii 's'
  | percent => ascii '%'

def modifier : Conv → List Byte
  | u v | d v | i v | x v | X v => v.modifier
  | _ => []

def args : Conv → List Arg
  | u v | d v | i v | x v | X v => [v.arg]
  | p v | o v | c v => [.word v]
  | s text => [.str text]
  | percent => []

def sign : Conv → Option Byte
  | d v | i v => if v.toInt < 0 then some (ascii '-') else none
  | _ => none

/-- What stands before the digits in the alternate form. -/
def pre (alt : Bool) : Conv → List Byte
  | x _ => if alt then [ascii '0', ascii 'x'] else []
  | X _ => if alt then [ascii '0', ascii 'X'] else []
  | p _ => [ascii '0', ascii 'x']
  | o _ => if alt then [ascii '0'] else []
  | _ => []

def body : Conv → List Byte
  | u v => (Theory.digitsMsb 10 v.toNat).map (digitChar false)
  | d v | i v => (Theory.digitsMsb 10 v.toInt.natAbs).map (digitChar false)
  | x v => (Theory.digitsMsb 16 v.toNat).map (digitChar false)
  | X v => (Theory.digitsMsb 16 v.toNat).map (digitChar true)
  | p v => (Theory.digitsMsb 16 v.toNat).map (digitChar false)
  | o v => (Theory.digitsMsb 8 v.toNat).map (digitChar false)
  | c v => [v.setWidth 8]
  | s text => text
  | percent => [ascii '%']

end Conv

/-- How a text is brought to a width. -/
inductive Pad
  | right
  | left
  | zeros
  deriving DecidableEq

/-- A field of at least `width` characters. -/
def field (pad : Pad) (width : Nat) (sign pre body : List Byte) : List Byte :=
  let fill (ch : Char) := List.replicate (width - (sign.length + pre.length + body.length)) (ascii ch)
  match pad with
  | .right => fill ' ' ++ sign ++ pre ++ body
  | .left => sign ++ pre ++ body ++ fill ' '
  | .zeros => sign ++ pre ++ fill '0' ++ body

/-- A width is written without a leading zero, which would be a flag. A string has no alternate form. -/
structure Directive where
  flags : List Flag
  width : Option { n : Nat // n ≠ 0 ∧ n < 2 ^ 31 }
  precision : Option (List (Fin 10))
  conv : Conv
  proper : (∃ text, conv = .s text) → .alt ∉ flags

namespace Directive

def widthText (D : Directive) : List Byte :=
  match D.width with
  | none => []
  | some n => (Theory.digitsMsb 10 n.1).map (digitChar false)

def precisionText (D : Directive) : List Byte :=
  match D.precision with
  | none => []
  | some digits => ascii '.' :: digits.map fun dgt => digitChar false dgt.1

def text (D : Directive) : List Byte :=
  ascii '%' :: (D.flags.map Flag.char ++ (D.widthText ++ (D.precisionText ++ (D.conv.modifier ++ [D.conv.char]))))

/-- A precision fills with zeros, whatever it is; zeros are never filled in on the right. -/
def pad (D : Directive) : Pad :=
  if .zero ∈ D.flags ∨ D.precision.isSome then .zeros else if .left ∈ D.flags then .left else .right

/-- A character and the percent sign are shown as they are. -/
def output (D : Directive) : List Byte :=
  match D.conv with
  | .c _ | .percent => D.conv.body
  | _ => field D.pad ((D.width.map (·.1)).getD 0) D.conv.sign.toList (D.conv.pre (.alt ∈ D.flags)) D.conv.body

end Directive

/-- A part of a format, with the value that it shows. -/
inductive Piece
  | char (ch : Byte) (plain : ch ≠ ascii '%')
  | directive (D : Directive)

namespace Piece

def text : Piece → List Byte
  | char ch _ => [ch]
  | directive D => D.text

def args : Piece → List Arg
  | char _ _ => []
  | directive D => D.conv.args

def output : Piece → List Byte
  | char ch _ => [ch]
  | directive D => D.output

end Piece

end BradypOS.Printf
