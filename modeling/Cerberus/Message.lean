import Mathlib.Data.List.Basic
import Mathlib.Algebra.Order.Ring.Int

/-! # The message parser

The embedding of `core/message.hpp`.  A `Buffer` is a list of bytes and an iterator into it
is its offset `ℤ` from `buffer.begin()`: `parse_str` adds a length that comes from the wire
to an iterator and checks only the upper bound, so an iterator may leave the buffer on
either side.  Dereferencing it there is undefined behaviour (`Stop.overrun`).

* `rint` is a 64-bit signed integer; `wrap` reduces to its range after every operation.
* `btoi` looks at one byte without comparing with `end`; `guard` is the byte that lies in
  memory behind the buffer.
* `MessageInterrupted` and `BadRedisMessage` leave the splitter as it was when they were
  thrown, so `Result` carries the state on both paths.
* `parse` calls itself from a loop and neither need stop on hostile input: both are defined
  with a step bound, and `Stop.fuel` says that it ran out.

`Splitter.calls` is not in the source: it records the ranges handed to the callbacks and the
positions `parse` returned, so that they can be spoken of. -/

namespace Cerberus

abbrev Byte := UInt8
abbrev Bytes := List UInt8

/-- The bytes of a string literal of the source. -/
def ascii (s : String) : Bytes := s.toList.map (fun c => c.toNat.toUInt8)

/-- A character literal of the source. -/
def chr (c : Char) : Byte := c.toNat.toUInt8

def CR : Byte := 13
def LF : Byte := 10

/-- `LENGTH_OF_CR_LF` -/
def lengthOfCrLf : ℤ := 2

/-- Reduction of an arithmetic result to `rint` (`int64_t`). -/
def wrap (x : ℤ) : ℤ := x.bmod (2 ^ 64)

/-- `BadRedisMessage`: an unexpected token, or a text. -/
inductive BadRedisMessage where
  | token (b : Byte)
  | what (text : Bytes)
deriving DecidableEq, Repr

/-- Why a call did not return. -/
inductive Stop where
  | interrupted
  | bad (e : BadRedisMessage)
  | overrun
  | fuel
deriving DecidableEq, Repr

/-- A call that mutates `σ` and returns an `α` or throws. -/
inductive Result (σ α : Type) where
  | ok (a : α) (s : σ)
  | throw (e : Stop) (s : σ)
deriving DecidableEq

namespace Result
variable {σ α β : Type}

def bind : Result σ α → (α → σ → Result σ β) → Result σ β
  | ok a s, f => f a s
  | throw e s, _ => throw e s

/-- The state after the call, on either path. -/
def state : Result σ α → σ
  | ok _ s => s
  | throw _ s => s

/-- A computation that neither reads nor writes the state. -/
def lift (s : σ) : Except Stop α → Result σ α
  | .ok a => ok a s
  | .error e => throw e s

@[simp] theorem bind_ok (a : α) (s : σ) (f : α → σ → Result σ β) : (ok a s).bind f = f a s := rfl
@[simp] theorem bind_throw (e : Stop) (s : σ) (f : α → σ → Result σ β) :
    (throw e s : Result σ α).bind f = throw e s := rfl
@[simp] theorem lift_ok (a : α) (s : σ) : lift s (.ok a) = ok a s := rfl
@[simp] theorem lift_error (e : Stop) (s : σ) : (lift s (.error e) : Result σ α) = throw e s := rfl
@[simp] theorem state_ok (a : α) (s : σ) : (ok a s : Result σ α).state = s := rfl
@[simp] theorem state_throw (e : Stop) (s : σ) : (throw e s : Result σ α).state = s := rfl

end Result

/-! ### Reading numbers and lines -/

/-- The bytes from an iterator to the end of the buffer. -/
def bytesFrom (buf : Bytes) (pos : ℤ) : Bytes := buf.drop pos.toNat

/-- `*pos`, when `pos` lies in the buffer. -/
def deref (buf : Bytes) (pos : ℤ) : Option Byte := if pos < 0 then none else buf[pos.toNat]?

/-- The bytes of `[first, last)`, when this is a range of the buffer. -/
def slice (buf : Bytes) (first last : ℤ) : Option Bytes :=
  if 0 ≤ first ∧ first ≤ last ∧ last ≤ buf.length then
    some ((buf.drop first.toNat).take (last - first).toNat)
  else none

/-- The loop of `btou`: `i` is the value read so far, `pos` the iterator. -/
def btouLoop : Bytes → ℤ → ℤ → Except Stop (ℤ × ℤ)
  | [], _, _ => .error .interrupted
  | b :: rest, pos, i =>
      if b = CR then
        match rest with
        | [] => .error .interrupted
        | _ :: _ => .ok (i, pos + 2)
      else btouLoop rest (pos + 1) (wrap (i * 10 + ((b.toNat : ℤ) - 48)))

/-- `btou(begin, end)`: every byte but `'\r'` is taken for a digit. -/
def btou (buf : Bytes) (begin : ℤ) : Except Stop (ℤ × ℤ) := btouLoop (bytesFrom buf begin) begin 0

/-- `btoi(begin, end)`: when `begin == end` the byte compared with `'-'` is `guard`, and a
`'-'` there sends the iterator past `end`, which `btou` then never meets. -/
def btoi (buf : Bytes) (guard : Byte) (begin : ℤ) : Except Stop (ℤ × ℤ) :=
  match bytesFrom buf begin with
  | [] => if guard = chr '-' then .error .overrun else btou buf begin
  | b :: _ =>
      if b = chr '-' then (btou buf (begin + 1)).map (fun r => (wrap (-r.1), r.2))
      else btou buf begin

/-- The loop of `parse_simple_str`. -/
def parseSimpleStrLoop : Bytes → ℤ → Except Stop ℤ
  | [], _ => .error .interrupted
  | b :: rest, pos =>
      if b = CR then
        match rest with
        | [] => .error .interrupted
        | _ :: _ => .ok (pos + 2)
      else parseSimpleStrLoop rest (pos + 1)

def parseSimpleStr (buf : Bytes) (begin : ℤ) : Except Stop ℤ :=
  parseSimpleStrLoop (bytesFrom buf begin) begin

/-- `parse_str`: nothing is checked but that the string and its line end are there. -/
def parseStr (buf : Bytes) (size begin : ℤ) : Except Stop ℤ :=
  let last := begin + size + lengthOfCrLf
  if (buf.length : ℤ) < last then .error .interrupted else .ok last

/-- The loop of `pass_nil`. -/
def passNilLoop : ℕ → Bytes → ℤ → Except Stop ℤ
  | 0, _, pos => .ok pos
  | _ + 1, [], _ => .error .interrupted
  | size + 1, _ :: rest, pos => passNilLoop size rest (pos + 1)

def passNil (buf : Bytes) (begin : ℤ) : Except Stop ℤ := passNilLoop 3 (bytesFrom buf begin) begin

/-! ### The splitter -/

/-- A call made by `parse`: a range handed to `on_string` or `on_error`, or a call of `parse`
itself with the position it returned. -/
inductive Call where
  | string (first last : ℤ)
  | error (first last : ℤ)
  | parsed (start next : ℤ)
deriving DecidableEq, Repr

/-- `MessageSplitterBase<Iterator, FinalType>`, with the members of the final type in `final`.
The stack of element counts has its top first. -/
structure Splitter (σ : Type) where
  interrupted : Bool
  splitPoints : List ℤ
  nestedArrayElementCount : List ℤ
  calls : List Call
  final : σ
deriving DecidableEq

/-- The members a final type may override.  `onSplitPoint` also gets `_split_points.back()`,
and `onArray` whether the stack of element counts is empty. -/
structure Hooks (σ : Type) where
  onString : Bytes → ℤ → ℤ → σ → Except Stop σ
  onError : Bytes → ℤ → ℤ → σ → Except Stop σ
  onSplitPoint : Bytes → ℤ → ℤ → σ → Except Stop σ
  onArray : Bool → ℤ → σ → Except Stop σ

namespace Splitter
variable {σ : Type} (H : Hooks σ) (buf : Bytes)

/-- `MessageSplitterBase(begin)` -/
def new (begin : ℤ) (f : σ) : Splitter σ := ⟨false, [begin], [], [], f⟩

/-- `_split_points.back()`, which is also `interrupt_point()`. -/
def interruptPoint (s : Splitter σ) : ℤ := s.splitPoints.getLastD 0

def finished (s : Splitter σ) : Bool := s.nestedArrayElementCount.isEmpty && !s.interrupted

def interrupt (s : Splitter σ) : Splitter σ := { s with interrupted := true }

/-- A call into the final type. -/
def hook (s : Splitter σ) : Except Stop σ → Result (Splitter σ) Unit
  | .ok f => .ok () { s with final := f }
  | .error e => .throw e s

def record (s : Splitter σ) (c : Call) : Splitter σ := { s with calls := s.calls ++ [c] }

/-- What `on_element` does to the stack of element counts, and whether it reaches the
bottom, where the element ends a message. -/
def countDown : List ℤ → List ℤ × Bool
  | [] => ([], true)
  | n :: rest => if wrap (n - 1) = 0 then countDown rest else (wrap (n - 1) :: rest, false)

def onElement (next : ℤ) (s : Splitter σ) : Result (Splitter σ) Unit :=
  let r := countDown s.nestedArrayElementCount
  let s := { s with nestedArrayElementCount := r.1 }
  if r.2 then
    (s.hook (H.onSplitPoint buf s.interruptPoint next s.final)).bind fun _ s =>
      .ok () { s with splitPoints := s.splitPoints ++ [next] }
  else .ok () s

def onInt (next : ℤ) (s : Splitter σ) : Result (Splitter σ) ℤ :=
  (s.onElement H buf next).bind fun _ s => .ok next s

def onSstr (begin : ℤ) (s : Splitter σ) : Result (Splitter σ) ℤ :=
  (Result.lift s (parseSimpleStr buf begin)).bind fun next s =>
  let s := s.record (.string begin (next - lengthOfCrLf))
  (s.hook (H.onString buf begin (next - lengthOfCrLf) s.final)).bind fun _ s =>
  (s.onElement H buf next).bind fun _ s => .ok next s

def onLstr (size begin : ℤ) (s : Splitter σ) : Result (Splitter σ) ℤ :=
  (Result.lift s (parseStr buf size begin)).bind fun next s =>
  let s := s.record (.string begin (next - lengthOfCrLf))
  (s.hook (H.onString buf begin (next - lengthOfCrLf) s.final)).bind fun _ s =>
  (s.onElement H buf next).bind fun _ s => .ok next s

def onArr (size next : ℤ) (s : Splitter σ) : Result (Splitter σ) Unit :=
  (s.hook (H.onArray s.nestedArrayElementCount.isEmpty size s.final)).bind fun _ s =>
  if size = 0 then s.onElement H buf next
  else .ok () { s with nestedArrayElementCount := size :: s.nestedArrayElementCount }

def onNil (next : ℤ) (s : Splitter σ) : Result (Splitter σ) ℤ :=
  (s.onElement H buf next).bind fun _ s => .ok next s

def onErr (begin : ℤ) (s : Splitter σ) : Result (Splitter σ) ℤ :=
  (Result.lift s (parseSimpleStr buf begin)).bind fun next s =>
  let s := s.record (.error begin (next - lengthOfCrLf))
  (s.hook (H.onError buf begin (next - lengthOfCrLf) s.final)).bind fun _ s =>
  (s.onElement H buf next).bind fun _ s => .ok next s

end Splitter

/-! ### Parsing -/

section parsing
variable {σ : Type} (H : Hooks σ) (buf : Bytes) (guard : Byte)

mutual

/-- `parse(buffer_begin, buffer_end, c)` -/
def parse : ℕ → ℤ → Splitter σ → Result (Splitter σ) ℤ
  | 0, _, s => .throw .fuel s
  | fuel + 1, start, s =>
      if start = buf.length then .ok start s
      else match deref buf start with
      | none => .throw .overrun s
      | some b =>
          let begin := start + 1
          let r : Result (Splitter σ) ℤ :=
            if b = chr ':' then
              (Result.lift s (btoi buf guard begin)).bind fun r s => s.onInt H buf r.2
            else if b = chr '+' then s.onSstr H buf begin
            else if b = chr '$' then
              if deref buf begin = some (chr '-') then
                (Result.lift s (passNil buf (begin + 1))).bind fun next s => s.onNil H buf next
              else
                (Result.lift s (btou buf begin)).bind fun r s => s.onLstr H buf r.1 r.2
            else if b = chr '*' then
              if deref buf begin = some (chr '-') then
                (Result.lift s (passNil buf (begin + 1))).bind fun next s => s.onNil H buf next
              else
                (Result.lift s (btou buf begin)).bind fun r s =>
                (s.onArr H buf r.1 r.2).bind fun _ s => parseElements fuel r.1 r.2 s
            else if b = chr '-' then s.onErr H buf begin
            else .throw (.bad (.token b)) s
          r.bind fun next s => .ok next (s.record (.parsed start next))

/-- The loop over the elements of an array, `count` of which are left. -/
def parseElements : ℕ → ℤ → ℤ → Splitter σ → Result (Splitter σ) ℤ
  | 0, _, _, s => .throw .fuel s
  | fuel + 1, count, pos, s =>
      if 0 < count ∧ pos ≠ buf.length then
        (parse fuel pos s).bind fun pos s => parseElements fuel (count - 1) pos s
      else .ok pos s

end

/-- The `while` loop of `split_by`. -/
def splitLoop : ℕ → ℤ → Splitter σ → Result (Splitter σ) Unit
  | 0, _, s => .throw .fuel s
  | fuel + 1, pos, s =>
      if pos = buf.length then .ok () s
      else (parse H buf guard fuel pos s).bind fun pos s => splitLoop fuel pos s

/-- `split_by(begin, end, s)`: `MessageInterrupted` ends here, the rest passes through. -/
def splitBy (fuel : ℕ) (s : Splitter σ) : Result (Splitter σ) Unit :=
  match splitLoop H buf guard fuel 0 s with
  | .throw .interrupted s => .ok () s.interrupt
  | r => r

end parsing

/-- `MessageSplitter`, which overrides nothing. -/
def messageSplitter : Hooks Unit where
  onString _ _ _ s := .ok s
  onError _ _ _ s := .ok s
  onSplitPoint _ _ _ s := .ok s
  onArray _ _ s := .ok s

/-- `split(begin, end)` -/
def split (buf : Bytes) (guard : Byte) (fuel : ℕ) : Result (Splitter Unit) Unit :=
  splitBy messageSplitter buf guard fuel (.new 0 ())

/-- What a splitting function leaves: the buffer and the output, or the reason it did not
return.  The output before an exception has reached the client. -/
inductive SplitResult (α : Type) where
  | split (rest : Bytes) (out : α)
  | failed (e : Stop) (out : α)
deriving DecidableEq

/-- The end of the splitting functions: `clear` or `truncate_from_begin`. -/
def truncate {σ : Type} (buf : Bytes) (s : Splitter σ) : Bytes :=
  if s.finished then [] else buf.drop s.interruptPoint.toNat

/-- As many steps as any buffer needs whose lengths are not negative. -/
def fuelFor (buf : Bytes) : ℕ := 2 * buf.length + 2

end Cerberus
