import Cerberus.Requests

/-! # What is forwarded

A data command carries bytes of the client to a backend.  `ForwardOk` says that they are one
request: the encoding of an array of bulk strings whose first is the name of an allowed
command.  The proxy copies the bytes between its split points without looking at them again,
so this holds of a message exactly when those bytes are what the dispatch takes them for
(`Parts.Forwardable`). -/

namespace Cerberus

open Frames

/-! ### Prefix-free encodings -/

/-- Bulk strings, one after the other. -/
def encodeBulks (strs : List Bytes) : Bytes := (strs.map encodeBulk).flatten

@[simp] theorem encodeBulks_cons (s : Bytes) (strs : List Bytes) :
    encodeBulks (s :: strs) = encodeBulk s ++ encodeBulks strs := rfl

/-- The encoding of an array of bulk strings. -/
def encodeRequest (strs : List Bytes) : Bytes := encodeHeader strs.length ++ encodeBulks strs

/-- Lengths that are 64-bit signed. -/
def Short (strs : List Bytes) : Prop := ∀ s ∈ strs, s.length < 2 ^ 63

/-- Two tokens at the front of the same bytes. -/
theorem IsToken.unique {t u : RawToken} {l m : Bytes} (ht : IsToken t) (hu : IsToken u)
    (h : t.2 ++ l = u.2 ++ m) : t = u ∧ l = m := by
  have hlt : lex (t.2 ++ l) = .tok t.1 t.2.length := by
    unfold IsToken at ht; rw [lex_append (by rw [ht]; trivial), ht]
  have hlu : lex (u.2 ++ m) = .tok u.1 u.2.length := by
    unfold IsToken at hu; rw [lex_append (by rw [hu]; trivial), hu]
  rw [h, hlu] at hlt
  obtain ⟨hk, hlen⟩ := Lexed.tok.inj hlt
  obtain ⟨hraw, hrest⟩ := List.append_inj h hlen.symm
  exact ⟨Prod.ext hk.symm hraw, hrest⟩

theorem encodeBulk_unique {a b l m : Bytes} (ha : a.length < 2 ^ 63) (hb : b.length < 2 ^ 63)
    (h : encodeBulk a ++ l = encodeBulk b ++ m) : a = b ∧ l = m := by
  obtain ⟨ht, hl⟩ := (isToken_bulk ha).unique (isToken_bulk hb) h
  exact ⟨Kind.str.inj (congrArg Prod.fst ht), hl⟩

theorem encodeHeader_unique {a b : ℕ} {l m : Bytes} (ha : a < 2 ^ 63) (hb : b < 2 ^ 63)
    (h : encodeHeader a ++ l = encodeHeader b ++ m) : a = b ∧ l = m := by
  obtain ⟨ht, hl⟩ := (isToken_header ha).unique (isToken_header hb) h
  have := Kind.arr.inj (congrArg Prod.fst ht)
  exact ⟨by omega, hl⟩

/-- The bytes are an array of at least one bulk string, the first of which satisfies `P`. -/
def IsRequest (P : Bytes → Prop) (b : Bytes) : Prop :=
  ∃ s strs, (s :: strs).length < 2 ^ 63 ∧ Short (s :: strs) ∧ b = encodeRequest (s :: strs) ∧ P s

/-- The tokens of bytes that begin with an array of bulk strings: none, only the header, or
the header and the first element. -/
theorem lexes_encodeRequest {l rest y s : Bytes} {strs : List Bytes} {ts : List RawToken}
    (hlex : Lexes l ts rest) (hlen : (s :: strs).length < 2 ^ 63) (hs : Short (s :: strs))
    (hl : l = encodeRequest (s :: strs) ++ y) :
    ts = [] ∨ ts = [(.arr (s :: strs).length, encodeHeader (s :: strs).length)] ∨
      ∃ head args, (partsOf ts).strs = (s, head) :: args := by
  have hl' : l = encodeHeader (s :: strs).length ++ (encodeBulk s ++ (encodeBulks strs ++ y)) := by
    rw [hl, encodeRequest, encodeBulks_cons, List.append_assoc, List.append_assoc]
  have hhdr : lex l = .tok (.arr (s :: strs).length) (encodeHeader (s :: strs).length).length := by
    have ht : lex (encodeHeader (s :: strs).length) = _ := isToken_header hlen
    rw [hl', lex_append (by rw [ht]; trivial), ht]
  have hstr : lex (encodeBulk s ++ (encodeBulks strs ++ y)) = .tok (.str s) (encodeBulk s).length := by
    have ht : lex (encodeBulk s) = _ := isToken_bulk (hs s List.mem_cons_self)
    rw [lex_append (by rw [ht]; trivial), ht]
  cases hlex with
  | nil => exact Or.inl rfl
  | cons hk hlex' =>
      rw [hhdr] at hk
      cases hk
      rw [hl', List.drop_left] at hlex'
      rw [hl', List.take_left]
      cases hlex' with
      | nil => exact Or.inr (Or.inl rfl)
      | cons hk' _ =>
          rw [hstr] at hk'
          cases hk'
          exact Or.inr (Or.inr ⟨_, _, rfl⟩)

/-- A message without a string is not a request. -/
theorem not_request_of_no_strs {P : Bytes → Prop} {l rest : Bytes} {ts : List RawToken}
    (hlex : Lexes l ts rest) (hp : (partsOf ts).strs = []) : ¬IsRequest P (rawBytes ts) := by
  rintro ⟨s, strs, hlen, hs, h, -⟩
  rcases lexes_encodeRequest hlex hlen hs (by rw [hlex.bytes, h]) with rfl | rfl | ⟨head, args, h'⟩
  · simp [encodeRequest, encodeHeader] at h
  · have := congrArg List.length h
    simp [encodeRequest, encodeBulk] at this
  · rw [hp] at h'
    cases h'

/-- What a sequence of reads has put out. -/
def SplitResult.output {α : Type} : SplitResult α → α
  | split _ o => o
  | failed _ o => o

end Cerberus
