import Cerberus.Messages
import Cerberus.Strings

/-! # RESP values and their encodings

What the two sides of the proxy speak, independent of the parser: values, their encodings,
and which values can be encoded (a header is a 64-bit signed integer).  The encoding of a
value is the list of its tokens (`Resp.tokens`), each of which `lex` recognises, and the
tokens of a value close. -/

namespace Cerberus

/-! ### Decimal numbers -/

theorem numberFrom_decimalLoop : ∀ (fuel n : ℕ) (acc : Bytes), n < fuel → n < 2 ^ 63 →
    numberFrom 0 (decimalLoop fuel n acc) = numberFrom n acc
  | 0, _, _, h, _ => by omega
  | fuel + 1, n, acc, h, hn => by
      have hdigit : ∀ {i : ℤ} {d : ℕ} {acc : Bytes}, d < 10 → 0 ≤ i * 10 + d → i * 10 + d < 2 ^ 63 →
          numberFrom i ((d + 48).toUInt8 :: acc) = numberFrom (i * 10 + d) acc := by
        intro i d acc hd h0 h1
        have ht : (((d + 48).toUInt8).toNat : ℤ) = d + 48 := by
          rw [Nat.toUInt8_eq, UInt8.toNat_ofNat']
          omega
        rw [numberFrom, List.foldl_cons, ht, ← numberFrom]
        congr 1
        rw [wrap, Int.bmod_eq_of_le] <;> omega
      rw [decimalLoop]
      split
      · rename_i h10
        rw [@hdigit 0 n acc h10 (by omega) (by omega)]
        congr 1
        omega
      · rw [numberFrom_decimalLoop fuel (n / 10) _ (by omega) (by omega)]
        have h1 : ((n / 10 : ℕ) : ℤ) * 10 + ((n % 10 : ℕ) : ℤ) = n := by omega
        rw [hdigit (by omega) (by omega) (by omega), h1]

/-- `btou` reads back a length that was written in decimal. -/
theorem number_decimal {n : ℕ} (h : n < 2 ^ 63) : number (decimal n) = n := by
  rw [number, decimal, numberFrom_decimalLoop _ _ _ (by omega) h]
  rfl

theorem decimalLoop_digit : ∀ (fuel n : ℕ) (acc : Bytes), (∀ b ∈ acc, isdigit b = true) →
    ∀ b ∈ decimalLoop fuel n acc, isdigit b = true
  | 0, _, _, h => h
  | fuel + 1, n, acc, h => by
      have hd : ∀ d < 10, isdigit (d + 48).toUInt8 = true := by decide
      have hcons : ∀ {d : ℕ}, d < 10 → ∀ b ∈ (d + 48).toUInt8 :: acc, isdigit b = true := by
        intro d hd' b hb
        rcases List.mem_cons.mp hb with rfl | hb
        · exact hd d hd'
        · exact h b hb
      rw [decimalLoop]
      split
      · rename_i h10; exact hcons h10
      · exact decimalLoop_digit fuel (n / 10) _ (hcons (by omega))

theorem decimal_digit {n : ℕ} {b : Byte} (h : b ∈ decimal n) : isdigit b = true :=
  decimalLoop_digit (n + 1) n [] (by simp) b h

theorem cr_not_mem_decimal (n : ℕ) : CR ∉ decimal n := fun h => by
  have := decimal_digit h
  revert this
  decide

theorem decimalLoop_ne_nil : ∀ (fuel n : ℕ) (acc : Bytes), acc ≠ [] → decimalLoop fuel n acc ≠ []
  | 0, _, _, h => h
  | fuel + 1, n, acc, h => by
      rw [decimalLoop]
      split
      · simp
      · exact decimalLoop_ne_nil fuel _ _ (by simp)

theorem decimal_ne_nil (n : ℕ) : decimal n ≠ [] := by
  rw [decimal, decimalLoop]
  split
  · simp
  · exact decimalLoop_ne_nil _ _ _ (by simp)

theorem decimal_head_ne_minus (n : ℕ) (l : Bytes) : (decimal n ++ l).head? ≠ some (chr '-') := by
  cases h : decimal n with
  | nil => exact absurd h (decimal_ne_nil n)
  | cons b ds =>
      simp only [List.cons_append, List.head?_cons]
      intro hb
      have := decimal_digit (n := n) (b := b) (by rw [h]; simp)
      rw [Option.some.inj hb] at this
      revert this
      decide

/-! ### Values -/

def crlf : Bytes := [CR, LF]

inductive Resp where
  | int (i : ℤ)
  | simple (s : Bytes)
  | error (s : Bytes)
  | bulk (s : Bytes)
  | nilBulk
  | nilArray
  | array (l : List Resp)

/-- The encoding of a bulk string. -/
def encodeBulk (s : Bytes) : Bytes := chr '$' :: (decimal s.length ++ crlf) ++ (s ++ crlf)

/-- The header of an array. -/
def encodeHeader (n : ℕ) : Bytes := chr '*' :: (decimal n ++ crlf)

def decimalInt (i : ℤ) : Bytes :=
  if i < 0 then chr '-' :: decimal i.natAbs else decimal i.natAbs

namespace Resp

mutual

def encode : Resp → Bytes
  | int i => chr ':' :: (decimalInt i ++ crlf)
  | simple s => chr '+' :: (s ++ crlf)
  | error s => chr '-' :: (s ++ crlf)
  | bulk s => encodeBulk s
  | nilBulk => ascii "$-1\r\n"
  | nilArray => ascii "*-1\r\n"
  | array l => encodeHeader l.length ++ encodeAll l

def encodeAll : List Resp → Bytes
  | [] => []
  | v :: l => encode v ++ encodeAll l

end

mutual

/-- Lines have no `'\r'`, integers and lengths are 64-bit signed. -/
def WellFormed : Resp → Prop
  | int i => -2 ^ 63 ≤ i ∧ i < 2 ^ 63
  | simple s => CR ∉ s
  | error s => CR ∉ s
  | bulk s => s.length < 2 ^ 63
  | nilBulk => True
  | nilArray => True
  | array l => l.length < 2 ^ 63 ∧ AllWellFormed l

def AllWellFormed : List Resp → Prop
  | [] => True
  | v :: l => WellFormed v ∧ AllWellFormed l

end

mutual

/-- The tokens of the encoding. -/
def tokens : Resp → List RawToken
  | int i => [(.int, chr ':' :: (decimalInt i ++ crlf))]
  | simple s => [(.str s, chr '+' :: (s ++ crlf))]
  | error s => [(.err s, chr '-' :: (s ++ crlf))]
  | bulk s => [(.str s, encodeBulk s)]
  | nilBulk => [(.nil, ascii "$-1\r\n")]
  | nilArray => [(.nil, ascii "*-1\r\n")]
  | array l => (.arr l.length, encodeHeader l.length) :: tokensAll l

def tokensAll : List Resp → List RawToken
  | [] => []
  | v :: l => tokens v ++ tokensAll l

end

end Resp

/-! ### Tokens of encodings -/

theorem line_crlf {s : Bytes} (h : CR ∉ s) (m : Bytes) : line (s ++ crlf ++ m) = some s := by
  rw [List.append_assoc]
  exact line_eq h LF m

/-- A token whose text is its line. -/
theorem length_line (b : Byte) (s : Bytes) : (b :: (s ++ crlf)).length = 1 + (s.length + 2) := by
  simp only [List.length_cons, List.length_append, crlf, List.length_nil]
  omega

theorem isToken_simple {s : Bytes} (h : CR ∉ s) : IsToken (.str s, chr '+' :: (s ++ crlf)) := by
  have hl := line_crlf h []
  rw [List.append_nil] at hl
  rw [IsToken, lex, if_neg (by decide), if_pos rfl, hl, length_line]

theorem isToken_error {s : Bytes} (h : CR ∉ s) : IsToken (.err s, chr '-' :: (s ++ crlf)) := by
  have hl := line_crlf h []
  rw [List.append_nil] at hl
  rw [IsToken, lex, if_neg (by decide), if_neg (by decide), if_neg (by decide), if_neg (by decide),
    if_pos rfl, hl, length_line]

theorem cr_not_mem_decimalInt (i : ℤ) : CR ∉ decimalInt i := by
  unfold decimalInt
  split
  · simp only [List.mem_cons, not_or]
    exact ⟨by decide, cr_not_mem_decimal _⟩
  · exact cr_not_mem_decimal _

theorem isToken_int (i : ℤ) : IsToken (.int, chr ':' :: (decimalInt i ++ crlf)) := by
  have hl := line_crlf (cr_not_mem_decimalInt i) []
  rw [List.append_nil] at hl
  rw [IsToken, lex, if_pos rfl, if_neg (by simp [crlf]), hl, length_line]

theorem isToken_header {n : ℕ} (h : n < 2 ^ 63) : IsToken (.arr n, encodeHeader n) := by
  have hl := line_crlf (cr_not_mem_decimal n) []
  rw [List.append_nil] at hl
  rw [IsToken, encodeHeader, lex, if_neg (by decide), if_neg (by decide), if_neg (by decide),
    if_pos rfl, if_neg (decimal_head_ne_minus n crlf), hl, length_line]
  dsimp only
  rw [number_decimal h]

theorem length_encodeBulk (s : Bytes) :
    (encodeBulk s).length = 1 + ((decimal s.length).length + 2) + (s.length + 2) := by
  simp only [encodeBulk, List.length_append, length_line]
  rfl

theorem isToken_bulk {s : Bytes} (h : s.length < 2 ^ 63) : IsToken (.str s, encodeBulk s) := by
  have hl := line_crlf (cr_not_mem_decimal s.length) (s ++ crlf)
  have hd : (decimal s.length ++ crlf ++ (s ++ crlf)).drop ((decimal s.length).length + 2) =
      s ++ crlf := by
    rw [show (decimal s.length).length + 2 = (decimal s.length ++ crlf).length by simp [crlf],
      List.drop_left]
  have hn : (decimal s.length ++ crlf ++ (s ++ crlf)).head? ≠ some (chr '-') := by
    rw [List.append_assoc]
    exact decimal_head_ne_minus _ _
  have hlen : ((s ++ crlf).length : ℤ) = s.length + 2 := by simp [crlf]
  rw [IsToken, length_encodeBulk, encodeBulk, List.cons_append, lex, if_neg (by decide),
    if_neg (by decide), if_pos rfl, if_neg hn, hl]
  simp only [lexBulk, hd, hlen, number_decimal h]
  rw [if_neg (by omega), if_neg (by omega), Int.toNat_natCast, List.take_left]

namespace Resp

mutual

theorem tokens_isToken : ∀ (v : Resp), v.WellFormed → ∀ t ∈ v.tokens, IsToken t
  | int i, _, t, ht => by
      rw [tokens, List.mem_singleton] at ht; subst ht; exact isToken_int i
  | simple s, h, t, ht => by
      rw [tokens, List.mem_singleton] at ht; subst ht; rw [WellFormed] at h; exact isToken_simple h
  | error s, h, t, ht => by
      rw [tokens, List.mem_singleton] at ht; subst ht; rw [WellFormed] at h; exact isToken_error h
  | bulk s, h, t, ht => by
      rw [tokens, List.mem_singleton] at ht; subst ht; rw [WellFormed] at h; exact isToken_bulk h
  | nilBulk, _, t, ht => by
      rw [tokens, List.mem_singleton] at ht; subst ht; unfold IsToken; decide
  | nilArray, _, t, ht => by
      rw [tokens, List.mem_singleton] at ht; subst ht; unfold IsToken; decide
  | array l, h, t, ht => by
      rw [WellFormed] at h
      rw [tokens, List.mem_cons] at ht
      rcases ht with rfl | ht
      · exact isToken_header h.1
      · exact tokensAll_isToken l h.2 t ht

theorem tokensAll_isToken : ∀ (l : List Resp), AllWellFormed l → ∀ t ∈ tokensAll l, IsToken t
  | [], _, t, ht => by rw [tokensAll] at ht; cases ht
  | v :: l, h, t, ht => by
      rw [AllWellFormed] at h
      rw [tokensAll, List.mem_append] at ht
      rcases ht with ht | ht
      · exact tokens_isToken v h.1 t ht
      · exact tokensAll_isToken l h.2 t ht

end

mutual

theorem rawBytes_tokens : ∀ v : Resp, rawBytes v.tokens = v.encode
  | int _ => by rw [tokens, encode]; simp
  | simple _ => by rw [tokens, encode]; simp
  | error _ => by rw [tokens, encode]; simp
  | bulk _ => by rw [tokens, encode]; simp
  | nilBulk => by rw [tokens, encode]; simp
  | nilArray => by rw [tokens, encode]; simp
  | array l => by rw [tokens, encode, rawBytes_cons, rawBytes_tokensAll l]

theorem rawBytes_tokensAll : ∀ l : List Resp, rawBytes (tokensAll l) = encodeAll l
  | [] => by rw [tokensAll, encodeAll]; rfl
  | v :: l => by rw [tokensAll, encodeAll, rawBytes_append, rawBytes_tokens v, rawBytes_tokensAll l]

end

/-! ### The tokens of a value close -/

/-- What comes after an element: nothing if it ends the message, else tokens that close. -/
def ClosesAfter (st : List ℤ) (ks : List Kind) : Prop :=
  ((Splitter.countDown st).2 = true ∧ ks = []) ∨
    ((Splitter.countDown st).2 = false ∧ Closes (Splitter.countDown st).1 ks)

theorem closes_element {st : List ℤ} {k : Kind} {ks : List Kind} (hk : kindStep st k = Splitter.countDown st)
    (h : ClosesAfter st ks) : Closes st (k :: ks) := by
  rw [closes_cons, hk]
  exact h

mutual

/-- By induction on the value; `st` is the stack before it. -/
theorem closes_tokens : ∀ (v : Resp) (st : List ℤ) (ks : List Kind), v.WellFormed →
    ClosesAfter st ks → Closes st (v.tokens.map Prod.fst ++ ks)
  | int _, st, ks, _, hc => by rw [tokens]; exact closes_element rfl hc
  | simple _, st, ks, _, hc => by rw [tokens]; exact closes_element rfl hc
  | error _, st, ks, _, hc => by rw [tokens]; exact closes_element rfl hc
  | bulk _, st, ks, _, hc => by rw [tokens]; exact closes_element rfl hc
  | nilBulk, st, ks, _, hc => by rw [tokens]; exact closes_element rfl hc
  | nilArray, st, ks, _, hc => by rw [tokens]; exact closes_element rfl hc
  | array [], st, ks, _, hc => by rw [tokens, tokensAll]; exact closes_element rfl hc
  | array (v :: l), st, ks, h, hc => by
      rw [WellFormed] at h
      rw [tokens, List.map_cons, List.cons_append, closes_cons]
      have hne : ((v :: l).length : ℤ) ≠ 0 := by simp only [List.length_cons]; omega
      have hstep : kindStep st (.arr (v :: l).length) = (((v :: l).length : ℤ) :: st, false) := by
        rw [kindStep, if_neg hne]
      rw [hstep]
      refine Or.inr ⟨rfl, ?_⟩
      exact closes_tokensAll (v :: l) st ks (by simp) h.1 h.2 hc

/-- The elements of an array, with their number on the stack. -/
theorem closes_tokensAll : ∀ (l : List Resp) (st : List ℤ) (ks : List Kind), l ≠ [] →
    l.length < 2 ^ 63 → AllWellFormed l → ClosesAfter st ks →
    Closes (l.length :: st) ((tokensAll l).map Prod.fst ++ ks)
  | [], _, _, h, _, _, _ => absurd rfl h
  | v :: l, st, ks, _, hlen, h, hc => by
      rw [AllWellFormed] at h
      rw [tokensAll, List.map_append, List.append_assoc]
      refine closes_tokens v _ _ h.1 ?_
      have hw : wrap (((v :: l).length : ℤ) - 1) = l.length := by
        simp only [List.length_cons] at hlen ⊢
        rw [wrap, Int.bmod_eq_of_le] <;> omega
      cases l with
      | nil =>
          have hcd : Splitter.countDown (([v].length : ℤ) :: st) = Splitter.countDown st := by
            rw [Splitter.countDown, hw]
            rfl
          rw [tokensAll, ClosesAfter, hcd]
          exact hc
      | cons w l =>
          have hcd : Splitter.countDown (((v :: w :: l).length : ℤ) :: st) =
              (((w :: l).length : ℤ) :: st, false) := by
            rw [Splitter.countDown, hw, if_neg (by simp only [List.length_cons]; omega)]
          rw [ClosesAfter, hcd]
          refine Or.inr ⟨rfl, ?_⟩
          exact closes_tokensAll (w :: l) st ks (by simp) (by simp only [List.length_cons] at hlen ⊢; omega)
            h.2 hc

end

theorem closes {v : Resp} (h : v.WellFormed) : Closes [] (v.tokens.map Prod.fst) := by
  have := closes_tokens v [] [] h (Or.inl ⟨rfl, rfl⟩)
  rwa [List.append_nil] at this

theorem lexes {v : Resp} (h : v.WellFormed) (m : Bytes) : Lexes (v.encode ++ m) v.tokens m := by
  rw [← rawBytes_tokens]
  exact lexes_of_isToken (tokens_isToken v h) m

end Resp

end Cerberus
