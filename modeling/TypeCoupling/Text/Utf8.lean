/-!
# UTF-8

Sizes of text in bytes, and the reading of bytes that may not be UTF-8: each longest run of bytes
that starts a character without completing it becomes one replacement character.
-/

namespace TypeCoupling.Text

def byteCount (s : List Char) : Nat :=
  s.foldl (fun n c => n + c.utf8Size) 0

/-- The character that stands for bytes that are no UTF-8. -/
def replacement : Char := '�'

def isContinuation (b : UInt8) : Bool := 0x80 ≤ b && b ≤ 0xBF

/-- The bytes that may follow the first byte `b` of a character of three or four bytes. -/
def secondFits (b second : UInt8) : Bool :=
  if b == 0xE0 then 0xA0 ≤ second && second ≤ 0xBF
  else if b == 0xED then 0x80 ≤ second && second ≤ 0x9F
  else if b == 0xF0 then 0x90 ≤ second && second ≤ 0xBF
  else if b == 0xF4 then 0x80 ≤ second && second ≤ 0x8F
  else isContinuation second

def payload (b : UInt8) : Nat := b.toNat % 64

def threeBytes (b : UInt8) : List UInt8 → Char × Nat
  | c :: d :: _ =>
    if !secondFits b c then (replacement, 0)
    else if !isContinuation d then (replacement, 1)
    else (Char.ofNat (b.toNat % 16 * 4096 + payload c * 64 + payload d), 2)
  | [c] => (replacement, if secondFits b c then 1 else 0)
  | [] => (replacement, 0)

def fourBytes (b : UInt8) : List UInt8 → Char × Nat
  | c :: d :: e :: _ =>
    if !secondFits b c then (replacement, 0)
    else if !isContinuation d then (replacement, 1)
    else if !isContinuation e then (replacement, 2)
    else (Char.ofNat (b.toNat % 8 * 262144 + payload c * 4096 + payload d * 64 + payload e), 3)
  | [c, d] => (replacement, if !secondFits b c then 0 else if isContinuation d then 2 else 1)
  | [c] => (replacement, if secondFits b c then 1 else 0)
  | [] => (replacement, 0)

/-- The character that starts with the byte `b`, and how many of the bytes after `b` it takes. -/
def readChar (b : UInt8) (rest : List UInt8) : Char × Nat :=
  if b < 0x80 then (Char.ofNat b.toNat, 0)
  else if 0xC2 ≤ b && b ≤ 0xDF then
    match rest with
    | c :: _ =>
      if isContinuation c then (Char.ofNat (b.toNat % 32 * 64 + payload c), 1)
      else (replacement, 0)
    | [] => (replacement, 0)
  else if 0xE0 ≤ b && b ≤ 0xEF then threeBytes b rest
  else if 0xF0 ≤ b && b ≤ 0xF4 then fourBytes b rest
  else (replacement, 0)

/-- The characters of the bytes, the first `skip` of which belong to a character read already. -/
def readChars : List UInt8 → (skip : Nat) → List Char
  | [], _ => []
  | _ :: bs, n + 1 => readChars bs n
  | b :: bs, 0 => (readChar b bs).1 :: readChars bs (readChar b bs).2

def ofBytes (bytes : ByteArray) : String :=
  String.ofList (readChars bytes.data.toList 0)

end TypeCoupling.Text
