import Cerberus.Tokens

/-! # Tokens as byte strings

`lex l` says what token the bytes `l` start with, without positions: its kind, the bytes it
is made of, or why there is none (`more`: the bytes end inside it).  `tokenAt_lex` relates it
to what `parse` reads at a position.

`Lexed.negative` is a bulk header whose length is negative and whose end, `len + 2` bytes
behind the header, is not past the end of the buffer: `parse_str` accepts it.
`Lexed.colon` is a `':'` that is the last byte received, where `btoi` looks at the byte
behind the buffer.  `LengthsOk` says that a buffer, read token by token, has neither. -/

namespace Cerberus

/-- The bytes before the first `'\r'`, if a further byte follows it. -/
def line : Bytes → Option Bytes
  | [] => none
  | b :: l =>
      if b = CR then
        match l with
        | [] => none
        | _ :: _ => some []
      else (line l).map (b :: ·)

/-- The value `btou` gives to the bytes of a header. -/
def numberFrom (i : ℤ) (ds : Bytes) : ℤ :=
  ds.foldl (fun i b => wrap (i * 10 + ((b.toNat : ℤ) - 48))) i

def number (ds : Bytes) : ℤ := numberFrom 0 ds

inductive Kind where
  | int
  | str (s : Bytes)
  | arr (size : ℤ)
  | nil
  | err (s : Bytes)
deriving DecidableEq, Repr

inductive Lexed where
  | tok (k : Kind) (len : ℕ)
  | more
  | bad (b : Byte)
  | negative
  | colon
deriving DecidableEq, Repr

/-- A nil bulk or array: `'-'` and three more bytes. -/
def lexNil (l : Bytes) : Lexed := if l.length < 4 then .more else .tok .nil 5

/-- A bulk string whose header has the digits `ds`. -/
def lexBulk (ds l : Bytes) : Lexed :=
  let body := l.drop (ds.length + 2)
  let n := number ds
  if (body.length : ℤ) < n + 2 then .more
  else if n < 0 then .negative
  else .tok (.str (body.take n.toNat)) (1 + (ds.length + 2) + (n.toNat + 2))

def lex : Bytes → Lexed
  | [] => .more
  | b :: l =>
      if b = chr ':' then
        if l = [] then .colon
        else match line l with
        | none => .more
        | some ds => .tok .int (1 + (ds.length + 2))
      else if b = chr '+' then
        match line l with
        | none => .more
        | some s => .tok (.str s) (1 + (s.length + 2))
      else if b = chr '$' then
        if l.head? = some (chr '-') then lexNil l
        else match line l with
        | none => .more
        | some ds => lexBulk ds l
      else if b = chr '*' then
        if l.head? = some (chr '-') then lexNil l
        else match line l with
        | none => .more
        | some ds => .tok (.arr (number ds)) (1 + (ds.length + 2))
      else if b = chr '-' then
        match line l with
        | none => .more
        | some s => .tok (.err s) (1 + (s.length + 2))
      else .bad b

/-! ### Lines -/

theorem line_append_rest : ∀ {l s : Bytes}, line l = some s →
    ∃ b rest, l = s ++ CR :: b :: rest ∧ CR ∉ s
  | [], s, h => by simp [line] at h
  | b :: l, s, h => by
      rw [line.eq_def] at h
      by_cases hb : b = CR
      · subst hb
        cases l with
        | nil => simp at h
        | cons c l =>
            simp only [if_true, Option.some.injEq] at h
            subst h
            exact ⟨c, l, rfl, by simp⟩
      · simp only [hb, if_false, Option.map_eq_some_iff] at h
        obtain ⟨s', hs', rfl⟩ := h
        obtain ⟨c, rest, rfl, hn⟩ := line_append_rest hs'
        refine ⟨c, rest, rfl, ?_⟩
        simp only [List.mem_cons, not_or]
        exact ⟨fun h => hb h.symm, hn⟩

theorem line_eq {s : Bytes} (h : CR ∉ s) (b : Byte) (rest : Bytes) :
    line (s ++ CR :: b :: rest) = some s := by
  induction s with
  | nil => simp [line]
  | cons c s ih =>
      simp only [List.mem_cons, not_or] at h
      have hc : c ≠ CR := fun hc => h.1 hc.symm
      rw [List.cons_append, line.eq_def]
      simp [hc, ih h.2]

theorem line_length {l s : Bytes} (h : line l = some s) : s.length + 2 ≤ l.length := by
  obtain ⟨b, rest, rfl, -⟩ := line_append_rest h
  simp

/-- A line stays the line when more bytes arrive. -/
theorem line_mono {l s : Bytes} (h : line l = some s) (more : Bytes) :
    line (l ++ more) = some s := by
  obtain ⟨b, rest, rfl, hn⟩ := line_append_rest h
  rw [List.append_assoc]
  exact line_eq hn b (rest ++ more)

theorem btouLoop_line : ∀ (l : Bytes) (pos i : ℤ),
    btouLoop l pos i = match line l with
      | none => .error .interrupted
      | some ds => .ok (numberFrom i ds, pos + (ds.length + 2))
  | [], _, _ => rfl
  | b :: l, pos, i => by
      rw [btouLoop.eq_def, line.eq_def]
      by_cases hb : b = CR
      · cases l <;> simp [hb, numberFrom]
      · simp only [hb, if_false]
        rw [btouLoop_line l]
        cases line l with
        | none => rfl
        | some ds =>
            simp only [Option.map_some, numberFrom, List.foldl_cons, List.length_cons]
            congr 2
            push_cast
            omega

theorem parseSimpleStrLoop_line : ∀ (l : Bytes) (pos : ℤ),
    parseSimpleStrLoop l pos = match line l with
      | none => .error .interrupted
      | some s => .ok (pos + (s.length + 2))
  | [], _ => rfl
  | b :: l, pos => by
      rw [parseSimpleStrLoop.eq_def, line.eq_def]
      by_cases hb : b = CR
      · cases l <;> simp [hb]
      · simp only [hb, if_false]
        rw [parseSimpleStrLoop_line l]
        cases line l with
        | none => rfl
        | some s =>
            simp only [Option.map_some, List.length_cons]
            congr 1
            push_cast
            omega

theorem passNilLoop_eq : ∀ (n : ℕ) (l : Bytes) (pos : ℤ),
    passNilLoop n l pos = if l.length < n then .error .interrupted else .ok (pos + n)
  | 0, l, pos => by simp [passNilLoop]
  | n + 1, [], pos => by simp [passNilLoop]
  | n + 1, b :: l, pos => by
      rw [passNilLoop, passNilLoop_eq n l]
      simp only [List.length_cons, Nat.add_lt_add_iff_right]
      split
      · rfl
      · congr 1
        push_cast
        omega

/-! ### Positions -/

theorem bytesFrom_eq_cons {buf l : Bytes} {b : Byte} {pos : ℤ} (h0 : 0 ≤ pos)
    (h : bytesFrom buf pos = b :: l) :
    deref buf pos = some b ∧ bytesFrom buf (pos + 1) = l ∧ (buf.length : ℤ) = pos + (l.length + 1) := by
  unfold bytesFrom at h
  have hlt : pos.toNat < buf.length := by
    by_contra hc
    rw [List.drop_eq_nil_of_le (by omega)] at h
    cases h
  have hd := List.drop_eq_getElem_cons hlt
  rw [h] at hd
  obtain ⟨hb, hl⟩ := List.cons.inj hd
  refine ⟨?_, ?_, ?_⟩
  · rw [deref, if_neg (by omega), List.getElem?_eq_getElem hlt, hb]
  · rw [bytesFrom, show (pos + 1).toNat = pos.toNat + 1 by omega, ← hl]
  · have := congrArg List.length h
    simp only [List.length_drop, List.length_cons] at this
    omega

theorem bytesFrom_add {buf l : Bytes} {pos : ℤ} (h0 : 0 ≤ pos) (h : bytesFrom buf pos = l) (n : ℕ) :
    bytesFrom buf (pos + n) = l.drop n := by
  unfold bytesFrom at h ⊢
  rw [← h, List.drop_drop, show (pos + n).toNat = pos.toNat + n by omega]

theorem deref_bytesFrom {buf l : Bytes} {pos : ℤ} (h0 : 0 ≤ pos) (h : bytesFrom buf pos = l) :
    deref buf pos = l.head? := by
  subst h
  rw [deref, if_neg (by omega), bytesFrom, List.head?_drop]

theorem btou_line {buf l : Bytes} {pos : ℤ} (h : bytesFrom buf pos = l) :
    btou buf pos = match line l with
      | none => .error .interrupted
      | some ds => .ok (number ds, pos + (ds.length + 2)) := by
  unfold btou
  rw [h, btouLoop_line]
  rfl

theorem parseSimpleStr_line {buf l : Bytes} {pos : ℤ} (h : bytesFrom buf pos = l) :
    parseSimpleStr buf pos = match line l with
      | none => .error .interrupted
      | some s => .ok (pos + (s.length + 2)) := by
  unfold parseSimpleStr
  rw [h, parseSimpleStrLoop_line]

theorem passNil_eq {buf l : Bytes} {pos : ℤ} (h : bytesFrom buf pos = l) :
    passNil buf pos = if l.length < 3 then .error .interrupted else .ok (pos + 3) := by
  unfold passNil
  rw [h, passNilLoop_eq]
  rfl

/-- A sign is a digit like any other as far as the end of the line goes. -/
theorem btoi_line {buf l : Bytes} {guard : Byte} {pos : ℤ} (h0 : 0 ≤ pos)
    (h : bytesFrom buf pos = l) (hl : l ≠ []) :
    (btoi buf guard pos).map (fun r => Token.int r.2) = match line l with
      | none => .error .interrupted
      | some ds => .ok (.int (pos + (ds.length + 2))) := by
  cases l with
  | nil => exact absurd rfl hl
  | cons b l =>
      rw [btoi, h]
      dsimp only
      by_cases hb : b = chr '-'
      · have hc : b ≠ CR := by subst hb; decide
        simp only [hb, if_true]
        rw [btou_line (bytesFrom_eq_cons h0 h).2.1, ← hb, line.eq_def (b :: l)]
        simp only [hc, if_false]
        cases line l with
        | none => rfl
        | some ds =>
            simp only [Except.map, Option.map_some, List.length_cons]
            congr 2
            push_cast
            omega
      · simp only [hb, if_false]
        rw [btou_line h]
        cases line (b :: l) <;> rfl

/-- The token `parse` sees at `pos`, when `lex` finds one that long there. -/
def Kind.token (pos : ℤ) (len : ℕ) : Kind → Token
  | int => .int (pos + len)
  | str s => .str (pos + len - lengthOfCrLf - s.length) (pos + len)
  | arr size => .arr size (pos + len)
  | nil => .nil (pos + len)
  | err s => .err (pos + len - lengthOfCrLf - s.length) (pos + len)

theorem Kind.token_next (pos : ℤ) (len : ℕ) (k : Kind) : (k.token pos len).next = pos + len := by
  cases k <;> rfl

/-- What `parse` makes of the bytes at a position. -/
def Lexed.at (guard : Byte) (pos : ℤ) : Lexed → Except Stop Token → Prop
  | tok k len, r => r = .ok (k.token pos len)
  | more, r => r = .error .interrupted
  | bad b, r => r = .error (.bad (.token b))
  | negative, r => ∃ first next, r = .ok (.str first next) ∧ next - lengthOfCrLf < first
  | colon, r => r = .error (if guard = chr '-' then .overrun else .interrupted)

theorem tokenAt_lexNil {buf l : Bytes} {guard : Byte} {pos : ℤ}
    (h : bytesFrom buf (pos + 1 + 1) = l.tail) (hl : l.head? = some (chr '-')) :
    Lexed.at guard pos (lexNil l) ((passNil buf (pos + 1 + 1)).map .nil) := by
  cases l with
  | nil => simp at hl
  | cons b l =>
      rw [List.tail_cons] at h
      rw [passNil_eq h, lexNil, List.length_cons]
      by_cases hlen : l.length < 3
      · rw [if_pos hlen, if_pos (by omega)]
        rfl
      · rw [if_neg hlen, if_neg (by omega)]
        simp only [Lexed.at, Kind.token, Except.map]
        congr 2
        push_cast
        omega

theorem tokenAt_lexBulk {buf l ds : Bytes} {guard : Byte} {pos : ℤ}
    (hlen : (buf.length : ℤ) = pos + (l.length + 1)) (hds : line l = some ds) :
    Lexed.at guard pos (lexBulk ds l)
      ((parseStr buf (number ds) (pos + 1 + (ds.length + 2))).map
        (.str (pos + 1 + (ds.length + 2)))) := by
  have hdl := line_length hds
  unfold lexBulk parseStr
  have hb : ((l.drop (ds.length + 2)).length : ℤ) = l.length - (ds.length + 2) := by
    rw [List.length_drop]; omega
  have hc : (buf.length : ℤ) < pos + 1 + (ds.length + 2) + number ds + lengthOfCrLf ↔
      (l.length : ℤ) - (ds.length + 2) < number ds + 2 := by
    unfold lengthOfCrLf; omega
  simp only [hb, hc]
  by_cases h₁ : (l.length : ℤ) - (ds.length + 2) < number ds + 2
  · simp only [h₁, if_true]
    rfl
  · simp only [h₁, if_false]
    by_cases h₂ : number ds < 0
    · rw [if_pos h₂]
      refine ⟨_, _, rfl, ?_⟩
      unfold lengthOfCrLf
      omega
    · rw [if_neg h₂]
      have ht : ((l.drop (ds.length + 2)).take (number ds).toNat).length = (number ds).toNat := by
        rw [List.length_take]; omega
      simp only [Lexed.at, Kind.token, Except.map, ht, lengthOfCrLf]
      push_cast
      congr 2 <;> omega

/-- What `parse` reads at a position inside the buffer is what `lex` finds there. -/
theorem tokenAt_lex {buf : Bytes} (guard : Byte) {pos : ℤ} (h0 : 0 ≤ pos) (hlt : pos < buf.length) :
    Lexed.at guard pos (lex (bytesFrom buf pos)) (tokenAt buf guard pos) := by
  cases h : bytesFrom buf pos with
  | nil =>
      unfold bytesFrom at h
      have := congrArg List.length h
      simp only [List.length_drop, List.length_nil] at this
      omega
  | cons b l =>
      obtain ⟨hd, hl, hlen⟩ := bytesFrom_eq_cons h0 h
      have hd1 := deref_bytesFrom (by omega) hl
      have hl2 : bytesFrom buf (pos + 1 + 1) = l.tail := by
        have := bytesFrom_add (by omega) hl 1
        rw [List.drop_one] at this
        exact this
      unfold tokenAt
      simp only [lex, hd, hd1]
      split
      · split
        · rename_i hnil
          subst hnil
          rw [btoi, hl]
          dsimp only
          split
          · rename_i hg; simp only [Lexed.at, hg, if_true]; rfl
          · rename_i hg
            rw [btou_line hl]
            simp only [Lexed.at, hg, if_false]
            rfl
        · rename_i hnil
          rw [btoi_line (by omega) hl hnil]
          cases line l with
          | none => rfl
          | some ds =>
              simp only [Lexed.at, Kind.token]
              congr 2
              push_cast
              omega
      split
      · rw [parseSimpleStr_line hl]
        cases line l with
        | none => rfl
        | some s =>
            simp only [Lexed.at, Kind.token, Except.map, lengthOfCrLf]
            push_cast
            congr 2 <;> omega
      split
      · split
        · rename_i hn
          exact tokenAt_lexNil hl2 hn
        · rw [btou_line hl]
          cases hds : line l with
          | none => rfl
          | some ds => exact tokenAt_lexBulk hlen hds
      split
      · split
        · rename_i hn
          exact tokenAt_lexNil hl2 hn
        · rw [btou_line hl]
          cases line l with
          | none => rfl
          | some ds =>
              simp only [Lexed.at, Kind.token, Except.map]
              push_cast
              congr 2
              omega
      split
      · rw [parseSimpleStr_line hl]
        cases line l with
        | none => rfl
        | some s =>
            simp only [Lexed.at, Kind.token, Except.map, lengthOfCrLf]
            push_cast
            congr 2 <;> omega
      · rfl

/-! ### What a token is made of -/

/-- The text of a string or an error is a proper part of its token. -/
def Kind.InToken (l : Bytes) (len : ℕ) : Kind → Prop
  | str s => s.length + 3 ≤ len ∧ (l.drop (len - 2 - s.length)).take s.length = s
  | err s => s.length + 3 ≤ len ∧ (l.drop (len - 2 - s.length)).take s.length = s
  | _ => True

theorem take_line {l s : Bytes} (h : line l = some s) (b : Byte) :
    ((b :: l).drop (1 + (s.length + 2) - 2 - s.length)).take s.length = s := by
  obtain ⟨c, rest, rfl, -⟩ := line_append_rest h
  rw [show 1 + (s.length + 2) - 2 - s.length = 1 by omega]
  simp

theorem lexNil_tok {l : Bytes} {k : Kind} {n : ℕ} (h : lexNil l = .tok k n) :
    k = .nil ∧ n = 5 ∧ 4 ≤ l.length := by
  unfold lexNil at h
  split at h
  · cases h
  · cases h
    exact ⟨rfl, rfl, by omega⟩

theorem lexBulk_tok {l ds : Bytes} {k : Kind} {n : ℕ} (hds : line l = some ds)
    (h : lexBulk ds l = .tok k n) :
    ∃ m : ℕ, number ds = m ∧ n = 1 + (ds.length + 2) + (m + 2) ∧ ds.length + 2 + (m + 2) ≤ l.length ∧
      k = .str ((l.drop (ds.length + 2)).take m) := by
  have hl := line_length hds
  unfold lexBulk at h
  simp only [List.length_drop] at h
  split at h
  · cases h
  split at h
  · cases h
  · rename_i h₁ h₂
    cases h
    exact ⟨(number ds).toNat, by omega, rfl, by omega, rfl⟩

/-- The length of a token and where its text lies. -/
theorem lex_tok {l : Bytes} {k : Kind} {n : ℕ} (h : lex l = .tok k n) :
    3 ≤ n ∧ n ≤ l.length ∧ k.InToken l n := by
  cases l with
  | nil => cases h
  | cons b l =>
      simp only [lex] at h
      simp only [List.length_cons]
      split at h
      · split at h
        · cases h
        split at h
        · cases h
        · rename_i ds hds
          have := line_length hds
          cases h
          exact ⟨by omega, by omega, trivial⟩
      split at h
      · split at h
        · cases h
        · rename_i s hs
          have := line_length hs
          cases h
          exact ⟨by omega, by omega, by omega, take_line hs b⟩
      split at h
      · split at h
        · obtain ⟨rfl, rfl, hl⟩ := lexNil_tok h
          exact ⟨by omega, by omega, trivial⟩
        split at h
        · cases h
        · rename_i ds hds
          obtain ⟨m, -, rfl, hl, rfl⟩ := lexBulk_tok hds h
          have ht : ((l.drop (ds.length + 2)).take m).length = m := by
            rw [List.length_take, List.length_drop]; omega
          refine ⟨by omega, by omega, by rw [ht]; omega, ?_⟩
          rw [ht, show 1 + (ds.length + 2) + (m + 2) - 2 - m = (ds.length + 2) + 1 by omega,
            List.drop_succ_cons]
      split at h
      · split at h
        · obtain ⟨rfl, rfl, hl⟩ := lexNil_tok h
          exact ⟨by omega, by omega, trivial⟩
        split at h
        · cases h
        · rename_i ds hds
          have := line_length hds
          cases h
          exact ⟨by omega, by omega, trivial⟩
      split at h
      · split at h
        · cases h
        · rename_i s hs
          have := line_length hs
          cases h
          exact ⟨by omega, by omega, by omega, take_line hs b⟩
      · cases h

/-! ### More bytes -/

/-- The answer does not change when more bytes arrive. -/
def Lexed.Final : Lexed → Prop
  | tok _ _ => True
  | bad _ => True
  | negative => True
  | _ => False

theorem lexNil_append {l : Bytes} (h : (lexNil l).Final) (m : Bytes) :
    lexNil (l ++ m) = lexNil l := by
  unfold lexNil at h ⊢
  rw [List.length_append]
  split at h
  · exact h.elim
  · rw [if_neg (by omega), if_neg (by omega)]

theorem lexBulk_append {l ds : Bytes} (hds : line l = some ds) (h : (lexBulk ds l).Final)
    (m : Bytes) : lexBulk ds (l ++ m) = lexBulk ds l := by
  have hl := line_length hds
  have hd : (l ++ m).drop (ds.length + 2) = l.drop (ds.length + 2) ++ m :=
    List.drop_append_of_le_length hl
  unfold lexBulk at h ⊢
  simp only [hd, List.length_append, List.length_drop] at h ⊢
  split at h
  · exact h.elim
  · rename_i h₁
    rw [if_neg (by omega), if_neg h₁]
    split
    · rfl
    · congr 2
      rw [List.take_append_of_le_length]
      rw [List.length_drop]
      omega

/-- A line that is there is the line of the longer buffer; without one `lex` asks for more. -/
theorem line_match_append {l m : Bytes} {f f' : Bytes → Lexed}
    (h : (match line l with | none => Lexed.more | some s => f s).Final)
    (hf : ∀ s, line l = some s → (f s).Final → f' s = f s) :
    (match line (l ++ m) with | none => Lexed.more | some s => f' s) =
      match line l with | none => Lexed.more | some s => f s := by
  cases hl : line l with
  | none => rw [hl] at h; exact h.elim
  | some s =>
      rw [hl] at h
      rw [line_mono hl m]
      exact hf s hl h

theorem lex_append {l : Bytes} (h : (lex l).Final) (m : Bytes) : lex (l ++ m) = lex l := by
  cases l with
  | nil => exact h.elim
  | cons b l =>
      have hhead : l.head? ≠ none → (l ++ m).head? = l.head? := by
        intro hl
        cases l with
        | nil => exact absurd rfl hl
        | cons c l => rfl
      have hsign : l.head? ≠ none → ∀ {f f' : Bytes → Lexed},
          (∀ s, line l = some s → (f s).Final → f' s = f s) →
          (if l.head? = some (chr '-') then lexNil l
            else match line l with | none => Lexed.more | some s => f s).Final →
          (if (l ++ m).head? = some (chr '-') then lexNil (l ++ m)
            else match line (l ++ m) with | none => Lexed.more | some s => f' s) =
          if l.head? = some (chr '-') then lexNil l
            else match line l with | none => Lexed.more | some s => f s := by
        intro hne f f' hf h
        rw [hhead hne]
        split at h
        · rename_i hs
          simp only [hs, if_true]
          exact lexNil_append h m
        · rename_i hs
          simp only [hs, if_false]
          exact line_match_append h hf
      by_cases hl : l = []
      · subst hl
        revert h
        simp only [List.cons_append, List.nil_append, lex]
        split
        · exact False.elim
        split
        · exact False.elim
        split
        · exact False.elim
        split
        · exact False.elim
        split
        · exact False.elim
        · exact fun _ => rfl
      · have hne : l.head? ≠ none := by simpa using hl
        have hlm : l ++ m ≠ [] := by simp [hl]
        revert h
        simp only [List.cons_append, lex, hl, hlm, if_false]
        split
        · exact fun h => line_match_append h (fun _ _ _ => rfl)
        split
        · exact fun h => line_match_append h (fun _ _ _ => rfl)
        split
        · exact hsign hne (fun s hs h => lexBulk_append hs h m)
        split
        · exact hsign hne (fun _ _ _ => rfl)
        split
        · exact fun h => line_match_append h (fun _ _ _ => rfl)
        · exact fun _ => rfl

/-! ### The bytes of a token alone -/

theorem line_take {l s : Bytes} (h : line l = some s) {n : ℕ} (hn : s.length + 2 ≤ n) :
    line (l.take n) = some s := by
  obtain ⟨b, rest, rfl, hcr⟩ := line_append_rest h
  have ht : (s ++ CR :: b :: rest).take n = s ++ CR :: b :: rest.take (n - (s.length + 2)) := by
    rw [List.take_append, List.take_of_length_le (by omega),
      show n - s.length = (n - (s.length + 2)) + 2 by omega]
    rfl
  rw [ht]
  exact line_eq hcr _ _

theorem head?_take {l : Bytes} {n : ℕ} (hn : 0 < n) : (l.take n).head? = l.head? := by
  cases n with
  | zero => omega
  | succ n => cases l <;> rfl

/-- A token does not depend on what follows it. -/
theorem lex_take {l : Bytes} {k : Kind} {n : ℕ} (h : lex l = .tok k n) : lex (l.take n) = .tok k n := by
  have hlen := lex_tok h
  cases l with
  | nil => cases h
  | cons b l =>
      obtain ⟨n, rfl⟩ : ∃ j, n = j + 1 := ⟨n - 1, by omega⟩
      have hne : l.take n ≠ [] := by
        intro he
        have := congrArg List.length he
        simp only [List.length_take, List.length_cons, List.length_nil] at this hlen
        omega
      rw [List.take_succ_cons]
      simp only [lex, head?_take (l := l) (n := n) (by omega), hne, if_false] at h ⊢
      -- the line that ends the header, or all of the token, lies within it
      have hline : ∀ {s : Bytes} {k' : Kind}, line l = some s →
          Lexed.tok k' (1 + (s.length + 2)) = .tok k (n + 1) → line (l.take n) = some s := by
        intro s k' hs he
        have := (Lexed.tok.inj he).2
        exact line_take hs (by omega)
      have hnil : lexNil l = .tok k (n + 1) → lexNil (l.take n) = .tok k (n + 1) := by
        intro he
        obtain ⟨rfl, hn, hl⟩ := lexNil_tok he
        rw [lexNil, if_neg (by rw [List.length_take]; omega), hn]
      have hbulk : ∀ {ds : Bytes}, line l = some ds → lexBulk ds l = .tok k (n + 1) →
          line (l.take n) = some ds ∧ lexBulk ds (l.take n) = .tok k (n + 1) := by
        intro ds hds he
        obtain ⟨m, hm, hn, hl, rfl⟩ := lexBulk_tok hds he
        have hd : (l.take n).drop (ds.length + 2) = (l.drop (ds.length + 2)).take (m + 2) := by
          rw [List.drop_take, show n - (ds.length + 2) = m + 2 by omega]
        have hdl : ((l.drop (ds.length + 2)).take (m + 2)).length = m + 2 := by
          rw [List.length_take, List.length_drop]; omega
        refine ⟨line_take hds (by omega), ?_⟩
        simp only [lexBulk, hd, hdl, hm]
        rw [if_neg (by push_cast; omega), if_neg (by omega), Int.toNat_natCast, List.take_take,
          Nat.min_eq_left (by omega), hn]
      split at h
      · rename_i hb
        simp only [hb, if_true]
        split at h
        · cases h
        split at h
        · cases h
        · rename_i ds hds
          rw [hline hds h]
          exact h
      split at h
      · rename_i hb
        simp only [hb, if_true]
        split at h
        · cases h
        · rename_i s hs
          rw [hline hs h]
          exact h
      split at h
      · rename_i hb
        simp only [hb, if_true]
        split at h
        · rename_i hm
          simp only [hm, if_true]
          exact hnil h
        rename_i hm
        simp only [hm, if_false]
        split at h
        · cases h
        · rename_i ds hds
          rw [(hbulk hds h).1]
          exact (hbulk hds h).2
      split at h
      · rename_i hb
        simp only [hb, if_true]
        split at h
        · rename_i hm
          simp only [hm, if_true]
          exact hnil h
        rename_i hm
        simp only [hm, if_false]
        split at h
        · cases h
        · rename_i ds hds
          rw [hline hds h]
          exact h
      split at h
      · rename_i hb
        simp only [hb, if_true]
        split at h
        · cases h
        · rename_i s hs
          rw [hline hs h]
          exact h
      · cases h

/-! ### The buffers `parse` makes progress on -/

/-- `TokenStart buf l`: reading tokens from the front of `buf` one gets to the bytes `l`. -/
inductive TokenStart (buf : Bytes) : Bytes → Prop
  | here : TokenStart buf buf
  | next {l : Bytes} {k : Kind} {n : ℕ} : TokenStart buf l → lex l = .tok k n →
      TokenStart buf (l.drop n)

/-- No bulk header among the tokens of `buf` has a negative length that `parse_str` would
accept, and `buf` does not end in a lone `':'` with a `'-'` behind it in memory. -/
def LengthsOk (guard : Byte) (buf : Bytes) : Prop :=
  ∀ l, TokenStart buf l → lex l ≠ .negative ∧ (lex l = .colon → guard ≠ chr '-')

theorem TokenStart.trans {a b c : Bytes} (hab : TokenStart a b) (hbc : TokenStart b c) :
    TokenStart a c := by
  induction hbc with
  | here => exact hab
  | next _ hl ih => exact ih.next hl

theorem LengthsOk.suffix {guard : Byte} {buf l : Bytes} (h : LengthsOk guard buf)
    (hl : TokenStart buf l) : LengthsOk guard l :=
  fun m hm => h m (hl.trans hm)

end Cerberus
