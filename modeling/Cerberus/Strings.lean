import Cerberus.Message

/-! # Numbers and strings

The parts of `utils/string.cpp` and `utils/address.hpp` the proxy uses, and the decimal
numbers of the `fmt` library.  Characters are those of the C locale. -/

namespace Cerberus

/-! ### Characters -/

/-- `std::toupper` -/
def toupper (b : Byte) : Byte := if 97 ≤ b ∧ b ≤ 122 then b - 32 else b

/-- `std::isspace` -/
def isspace (b : Byte) : Bool := b == 32 || (9 ≤ b && b ≤ 13)

def isdigit (b : Byte) : Bool := 48 ≤ b && b ≤ 57

/-- `util::strnieq`: `i` runs to `n`, and a string that ends first decides by the sizes. -/
def strnieqLoop (sizes : Bool) : ℕ → Bytes → Bytes → Bool
  | 0, _, _ => true
  | _ + 1, [], _ => sizes
  | _ + 1, _, [] => sizes
  | n + 1, a :: lhs, b :: rhs => if toupper a ≠ toupper b then false else strnieqLoop sizes n lhs rhs

def strnieq (lhs rhs : Bytes) (n : ℕ) : Bool := strnieqLoop (lhs.length == rhs.length) n lhs rhs

/-- `util::stristartswith` -/
def stristartswith (s pre : Bytes) : Bool := strnieq s pre pre.length

/-! ### Decimal numbers -/

/-- The digits of `n` before `acc`; `fuel` bounds their number. -/
def decimalLoop : ℕ → ℕ → Bytes → Bytes
  | 0, _, acc => acc
  | fuel + 1, n, acc =>
      if n < 10 then (n + 48).toUInt8 :: acc
      else decimalLoop fuel (n / 10) ((n % 10 + 48).toUInt8 :: acc)

/-- A number as `fmt::format` and `util::str` write it. -/
def decimal (n : ℕ) : Bytes := decimalLoop (n + 1) n []

/-- The value of a string of digits. -/
def digitsValue (ds : Bytes) : ℕ := ds.foldl (fun i b => i * 10 + (b.toNat - 48)) 0

def intMax : ℤ := 2 ^ 31 - 1
def intMin : ℤ := -2 ^ 31

/-- The optional sign of a literal: whether it is negative, and what follows. -/
def splitSign : Bytes → Bool × Bytes
  | b :: l => if b = chr '-' then (true, l) else if b = chr '+' then (false, l) else (false, b :: l)
  | [] => (false, [])

/-- `util::atoi`, `none` for a thrown `BadRedisMessage`.  The target of the extraction is not
initialised: on a string of blanks the stream is at its end before the extraction, which
leaves it as it is, and `junk` is the value found there.  A bare sign stores 0 and a literal
out of range the nearest limit; both set `failbit`, after which the last `std::ws` skips
nothing, and `eofbit` when they reached the end. -/
def atoi (junk : ℤ) (a : Bytes) : Option ℤ :=
  match a.dropWhile isspace with
  | [] => some junk
  | b :: l =>
      let (neg, l) := splitSign (b :: l)
      let ds := l.takeWhile isdigit
      let rest := l.dropWhile isdigit
      let v : ℤ := if neg then -(digitsValue ds : ℤ) else digitsValue ds
      if ds = [] then if rest = [] then some 0 else none
      else if v < intMin then if rest = [] then some intMin else none
      else if intMax < v then if rest = [] then some intMax else none
      else if rest.dropWhile isspace = [] then some v else none

/-- Conversion of an `int` to `slot` (`unsigned int`). -/
def toSlot (i : ℤ) : ℕ := (i % 2 ^ 32).toNat

/-- `util::Address` -/
structure Address where
  host : Bytes
  port : ℤ
deriving DecidableEq, Repr

/-- `std::string::operator<` -/
def bytesLt : Bytes → Bytes → Bool
  | [], [] => false
  | [], _ :: _ => true
  | _ :: _, [] => false
  | a :: l, b :: r => if a < b then true else if b < a then false else bytesLt l r

/-- `Address::operator<` -/
def Address.lt (a b : Address) : Bool :=
  if a.host = b.host then decide (a.port < b.port) else bytesLt a.host b.host

/-- Insertion into a `std::set<Address>`, kept as the list of its elements in order. -/
def insertAddress : List Address → Address → List Address
  | [], a => [a]
  | b :: l, a => if a.lt b then a :: b :: l else if b.lt a then b :: insertAddress l a else b :: l

end Cerberus
