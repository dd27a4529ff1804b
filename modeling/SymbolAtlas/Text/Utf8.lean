import SymbolAtlas.Decimal.Style

/-!
Reading UTF-8. Octets are cut into characters and defects; a defect is the longest run that could
still have begun a character. A lossy reading writes one replacement character per defect, a
strict one reports the first defect.
-/

set_option autoImplicit false

namespace SymbolAtlas.Utf8

inductive Defect
  | badStart
  | badContinuation
  | truncated
  deriving DecidableEq, Repr

def Defect.message : Defect → String
  | .badStart => "invalid start byte"
  | .badContinuation => "invalid continuation byte"
  | .truncated => "unexpected end of data"

inductive Piece
  | char (c : Char)
  | defect (octets : List UInt8) (why : Defect)
  deriving DecidableEq, Repr

/-- What a first octet announces: how many octets follow, the range of the first of these, and the
bits it carries itself. -/
structure Lead where
  following : Nat
  low : Nat
  high : Nat
  bits : Nat

def lead? (octet : Nat) : Option Lead :=
  if octet < 0x80 then some ⟨0, 0x80, 0xBF, octet⟩
  else if octet < 0xC2 then none
  else if octet < 0xE0 then some ⟨1, 0x80, 0xBF, octet - 0xC0⟩
  else if octet < 0xF0 then
    some ⟨2, if octet = 0xE0 then 0xA0 else 0x80, if octet = 0xED then 0x9F else 0xBF, octet - 0xE0⟩
  else if octet < 0xF5 then
    some ⟨3, if octet = 0xF0 then 0x90 else 0x80, if octet = 0xF4 then 0x8F else 0xBF, octet - 0xF0⟩
  else none

/-- The code made of `count` following octets, or how many of them fit before the defect. -/
def follow (low high code : Nat) : (count : Nat) → List UInt8 → Except (Nat × Defect) Nat
  | 0, _ => .ok code
  | _ + 1, [] => .error (0, .truncated)
  | count + 1, b :: rest =>
    if low ≤ b.toNat ∧ b.toNat ≤ high then
      match follow 0x80 0xBF (code * 64 + b.toNat % 64) count rest with
      | .ok c => .ok c
      | .error (k, why) => .error (k + 1, why)
    else .error (0, .badContinuation)

def piece (b : UInt8) (rest : List UInt8) : Piece × Nat :=
  match lead? b.toNat with
  | none => (.defect [b] .badStart, 0)
  | some lead =>
    match follow lead.low lead.high lead.bits lead.following rest with
    | .ok code => (.char (Char.ofNat code), lead.following)
    | .error (k, why) => (.defect (b :: rest.take k) why, k)

def pieces : List UInt8 → List Piece
  | [] => []
  | b :: rest => (piece b rest).1 :: pieces (rest.drop (piece b rest).2)
termination_by octets => octets.length
decreasing_by simp only [List.length_drop, List.length_cons]; omega

def decodeLossy (octets : List UInt8) : String :=
  String.ofList <| (pieces octets).map fun
    | .char c => c
    | .defect _ _ => '\ufffd'

structure Invalid where
  position : Nat
  octets : List UInt8
  why : Defect
  deriving DecidableEq, Repr

def Invalid.message (e : Invalid) : String :=
  let place :=
    match e.octets with
    | [b] => "byte 0x" ++ String.ofList (hexDigits 2 b.toNat) ++ " in position " ++
        writeNat e.position
    | octets => "bytes in position " ++ writeNat e.position ++ "-" ++
        writeNat (e.position + octets.length - 1)
  "'utf-8' codec can't decode " ++ place ++ ": " ++ e.why.message

def octetCount (c : Char) : Nat := c.utf8Size

/-- The characters up to a defect. A text that breaks off inside a character is reported from
where that character begins, whatever came before it. -/
def collect (position : Nat) : List Piece → Except Invalid (List Char)
  | [] => .ok []
  | .char c :: rest =>
    match collect (position + octetCount c) rest with
    | .ok cs => .ok (c :: cs)
    | .error e => .error e
  | .defect octets .truncated :: _ => .error ⟨0, octets, .truncated⟩
  | .defect octets why :: _ => .error ⟨position, octets, why⟩

def decode (octets : List UInt8) : Except Invalid (List Char) := collect 0 (pieces octets)

def encode (s : String) : List UInt8 := s.toUTF8.toList

end SymbolAtlas.Utf8
