import Cerberus.Stream

/-! # A message as the list of its tokens

`Lexes l ts rest` cuts the tokens `ts` off the front of `l`, and `Closes st ks` says that
tokens of these kinds end an element, and not before the last of them, when `st` is the stack
of element counts.  `readMessage_tokens` computes what a splitter makes of a message from its
tokens (`hookRun`); every message that is read is of this form (`readMessage_closes`). -/

namespace Cerberus

open Frames

/-- A token with the bytes it is made of. -/
abbrev RawToken := Kind × Bytes

/-- The bytes of a list of tokens. -/
def rawBytes (ts : List RawToken) : Bytes := (ts.map Prod.snd).flatten

@[simp] theorem rawBytes_nil : rawBytes [] = [] := rfl
@[simp] theorem rawBytes_cons (t : RawToken) (ts : List RawToken) :
    rawBytes (t :: ts) = t.2 ++ rawBytes ts := rfl
@[simp] theorem rawBytes_append (ts us : List RawToken) :
    rawBytes (ts ++ us) = rawBytes ts ++ rawBytes us := by
  simp [rawBytes]

inductive Lexes : Bytes → List RawToken → Bytes → Prop
  | nil (l : Bytes) : Lexes l [] l
  | cons {l rest : Bytes} {k : Kind} {n : ℕ} {ts : List RawToken} : lex l = .tok k n →
      Lexes (l.drop n) ts rest → Lexes l ((k, l.take n) :: ts) rest

theorem Lexes.bytes {l rest : Bytes} {ts : List RawToken} (h : Lexes l ts rest) :
    l = rawBytes ts ++ rest := by
  induction h with
  | nil => rfl
  | @cons l rest k n ts hl _ ih => rw [rawBytes_cons, List.append_assoc, ← ih, List.take_append_drop]

/-- Bytes that are one token whatever follows them. -/
def IsToken (t : RawToken) : Prop := lex t.2 = .tok t.1 t.2.length

theorem lexes_of_isToken {ts : List RawToken} (h : ∀ t ∈ ts, IsToken t) (rest : Bytes) :
    Lexes (rawBytes ts ++ rest) ts rest := by
  induction ts with
  | nil => exact Lexes.nil rest
  | cons t ts ih =>
      have ht : lex (t.2 ++ (rawBytes ts ++ rest)) = .tok t.1 t.2.length := by
        have := h t List.mem_cons_self
        unfold IsToken at this
        rw [lex_append (by rw [this]; trivial), this]
      have htail := ih fun u hu => h u (List.mem_cons_of_mem _ hu)
      have hd : (t.2 ++ (rawBytes ts ++ rest)).drop t.2.length = rawBytes ts ++ rest := List.drop_left
      have htk : (t.2 ++ (rawBytes ts ++ rest)).take t.2.length = t.2 := List.take_left
      have := Lexes.cons ht (by rw [hd]; exact htail)
      rw [htk] at this
      rw [rawBytes_cons, List.append_assoc]
      exact this

/-- Every token that is read is one whatever follows it. -/
theorem Lexes.isToken {l rest : Bytes} {ts : List RawToken} (h : Lexes l ts rest) :
    ∀ t ∈ ts, IsToken t := by
  induction h with
  | nil => simp
  | @cons l rest k n ts hk _ ih =>
      rw [List.forall_mem_cons]
      refine ⟨?_, ih⟩
      rw [IsToken, List.length_take_of_le (lex_tok hk).2.1]
      exact lex_take hk

/-- The bytes of the tokens alone. -/
theorem Lexes.alone {l rest : Bytes} {ts : List RawToken} (h : Lexes l ts rest) :
    Lexes (rawBytes ts) ts [] := by
  have := lexes_of_isToken h.isToken []
  rwa [List.append_nil] at this

theorem Lexes.unique : ∀ {ts us : List RawToken} {l : Bytes}, Lexes l ts [] → Lexes l us [] → ts = us
  | [], us, l, h, h' => by
      cases h
      cases h' with
      | nil => rfl
      | cons hk _ => cases hk
  | t :: ts, us, l, h, h' => by
      cases h with
      | cons hk hlex =>
          cases h' with
          | nil => cases hk
          | cons hk' hlex' =>
              rw [hk] at hk'
              cases hk'
              rw [unique hlex hlex']

theorem Lexes.append {l m rest : Bytes} {ts us : List RawToken} (h : Lexes l ts m)
    (h' : Lexes m us rest) : Lexes l (ts ++ us) rest := by
  induction h with
  | nil => exact h'
  | cons hk _ ih => exact Lexes.cons hk (ih h')

/-- The text of a string or an error, as a range of the buffer. -/
theorem lex_text_slice {l s : Bytes} {pos : ℤ} {k : Kind} {n : ℕ} (h0 : 0 ≤ pos)
    (hk : lex (bytesFrom l pos) = .tok k n) (hs : k = .str s ∨ k = .err s) :
    slice l (pos + n - lengthOfCrLf - s.length) (pos + n - lengthOfCrLf) = some s := by
  obtain ⟨hn3, hnl, hin⟩ := lex_tok hk
  have htext : s.length + 3 ≤ n ∧
      ((bytesFrom l pos).drop (n - 2 - s.length)).take s.length = s := by
    rcases hs with rfl | rfl
    · exact hin
    · exact hin
  obtain ⟨hlen, htake⟩ := htext
  have hl : (bytesFrom l pos).length = l.length - pos.toNat := by rw [bytesFrom, List.length_drop]
  unfold lengthOfCrLf
  rw [slice, if_pos (by omega)]
  rw [bytesFrom, List.drop_drop] at htake
  rw [show (pos + n - 2 - s.length).toNat = pos.toNat + (n - 2 - s.length) by omega,
    show (pos + n - 2 - (pos + n - 2 - s.length)).toNat = s.length by omega, htake]

/-! ### Buffers made of tokens -/

theorem Lexes.tokenStart {l l' : Bytes} {ts : List RawToken} (h : Lexes l ts [])
    (hs : TokenStart l l') : ∃ us, Lexes l' us [] ∧ ∀ t ∈ us, t ∈ ts := by
  induction hs with
  | here => exact ⟨ts, h, fun _ => id⟩
  | @next l' k n _ hl ih =>
      obtain ⟨us, hus, hsub⟩ := ih
      cases hus with
      | nil => cases hl
      | cons hk hrest =>
          rw [hl] at hk
          cases hk
          exact ⟨_, hrest, fun t ht => hsub t (List.mem_cons_of_mem _ ht)⟩

theorem TokenStart.append {l l' : Bytes} (h : TokenStart l l') (m : Bytes) :
    TokenStart (l ++ m) (l' ++ m) := by
  induction h with
  | here => exact .here
  | @next l' k n _ hl ih =>
      have hn := (lex_tok hl).2.1
      have := ih.next (k := k) (n := n) (by rw [lex_append (by rw [hl]; trivial), hl])
      rwa [List.drop_append_of_le_length hn] at this

theorem lexNil_ne_colon (l : Bytes) : lexNil l ≠ .colon := by
  unfold lexNil
  split <;> simp

theorem lexBulk_ne_colon (ds l : Bytes) : lexBulk ds l ≠ .colon := by
  unfold lexBulk
  dsimp only
  split
  · simp
  · split <;> simp

theorem lex_colon {l : Bytes} (h : lex l = .colon) : l = [chr ':'] := by
  cases l with
  | nil => cases h
  | cons b l =>
      rw [lex] at h
      split at h
      · rename_i hb
        split at h
        · rename_i hl; rw [hb, hl]
        · split at h <;> cases h
      split at h
      · split at h <;> cases h
      split at h
      · split at h
        · exact absurd h (lexNil_ne_colon l)
        · split at h
          · cases h
          · exact absurd h (lexBulk_ne_colon _ l)
      split at h
      · split at h
        · exact absurd h (lexNil_ne_colon l)
        · split at h <;> cases h
      split at h
      · split at h <;> cases h
      · cases h

theorem lex_colon_tok {m : Bytes} {k : Kind} {n : ℕ} (h : lex (chr ':' :: m) = .tok k n) : k = .int := by
  rw [lex, if_pos rfl] at h
  split at h
  · cases h
  · split at h <;> cases h
    rfl

/-- No bulk header among the tokens has a negative length that `parse_str` would accept. -/
def NoNegative (buf : Bytes) : Prop := ∀ l, TokenStart buf l → lex l ≠ .negative

theorem NoNegative.suffix {buf l : Bytes} (h : NoNegative buf) (hl : TokenStart buf l) : NoNegative l :=
  fun m hm => h m (hl.trans hm)

/-- A piece from the beginning, which ends in memory before a byte other than `'-'`. -/
theorem NoNegative.lengthsOk {buf m : Bytes} {guard : Byte} (h : NoNegative (buf ++ m))
    (hg : guard ≠ chr '-') : LengthsOk guard buf := by
  intro l hl
  refine ⟨fun hneg => h _ (hl.append m) ?_, fun _ => hg⟩
  rw [lex_append (by rw [hneg]; trivial), hneg]

theorem Lexes.noNegative {buf : Bytes} {ts : List RawToken} (h : Lexes buf ts []) : NoNegative buf := by
  intro l hl hneg
  obtain ⟨us, hus, -⟩ := h.tokenStart hl
  cases hus with
  | nil => cases hneg
  | cons hk _ => rw [hneg] at hk; cases hk

/-- A piece, from the beginning, of a buffer that is made of tokens. -/
theorem lengthsOk_of_lexes {guard : Byte} {buf m : Bytes} {ts : List RawToken}
    (h : Lexes (buf ++ m) ts []) (hg : guard ≠ chr '-' ∨ ∀ t ∈ ts, t.1 ≠ .int) :
    LengthsOk guard buf := by
  rcases hg with hg | hg
  · exact h.noNegative.lengthsOk hg
  · intro l hl
    obtain ⟨us, hus, hsub⟩ := h.tokenStart (hl.append m)
    generalize hlm : l ++ m = lm at hus
    have hneg := h.noNegative _ (hl.append m)
    refine ⟨fun hl' => hneg (by rw [lex_append (by rw [hl']; trivial), hl']), fun hcol => ?_⟩
    rw [lex_colon hcol] at hlm
    subst hlm
    cases hus with
    | cons hk _ => exact absurd (lex_colon_tok hk) (hg _ (hsub _ List.mem_cons_self))

/-- A buffer that is made of tokens, whatever lies behind it. -/
theorem Lexes.lengthsOk {guard : Byte} {buf : Bytes} {ts : List RawToken} (h : Lexes buf ts []) :
    LengthsOk guard buf := by
  intro l hl
  refine ⟨h.noNegative l hl, fun hcol => ?_⟩
  obtain ⟨us, hus, -⟩ := h.tokenStart hl
  cases hus with
  | nil => cases hcol
  | cons hk _ =>
      rw [hcol] at hk
      cases hk

/-- What a token does to the stack of element counts, and whether it ends a message. -/
def kindStep (st : List ℤ) : Kind → List ℤ × Bool
  | .arr size => if size = 0 then Splitter.countDown st else (size :: st, false)
  | _ => Splitter.countDown st

inductive Closes : List ℤ → List Kind → Prop
  | last {st : List ℤ} {k : Kind} : (kindStep st k).2 = true → Closes st [k]
  | cons {st : List ℤ} {k : Kind} {ks : List Kind} : (kindStep st k).2 = false →
      Closes (kindStep st k).1 ks → Closes st (k :: ks)

theorem closes_cons {st : List ℤ} {k : Kind} {ks : List Kind} : Closes st (k :: ks) ↔
    (kindStep st k).2 = true ∧ ks = [] ∨
      (kindStep st k).2 = false ∧ Closes (kindStep st k).1 ks := by
  constructor
  · intro h
    cases h with
    | last h => exact Or.inl ⟨h, rfl⟩
    | cons h hc => exact Or.inr ⟨h, hc⟩
  · rintro (⟨h, rfl⟩ | ⟨h, hc⟩)
    · exact .last h
    · exact .cons h hc

section
variable {σ ω : Type} (H : Hooks σ)

/-- What the final type does with a token at `pos` when `st` is the stack. -/
def hookToken (l : Bytes) (pos : ℤ) (st : List ℤ) (t : RawToken) (f : σ) : Except Stop σ :=
  let next := pos + t.2.length
  match t.1 with
  | .str s => H.onString l (next - lengthOfCrLf - s.length) (next - lengthOfCrLf) f
  | .err s => H.onError l (next - lengthOfCrLf - s.length) (next - lengthOfCrLf) f
  | .arr size => H.onArray st.isEmpty size f
  | .int => .ok f
  | .nil => .ok f

/-- The final type after the tokens of a message, before the split point. -/
def hookRun (l : Bytes) : ℤ → List ℤ → List RawToken → σ → Except Stop σ
  | _, _, [], f => .ok f
  | pos, st, t :: ts, f =>
      (hookToken H l pos st t f).bind (hookRun l (pos + t.2.length) (kindStep st t.1).1 ts)

/-- What matters of a splitter for the rest of a run. -/
structure View (σ : Type) where
  points : List ℤ
  nested : List ℤ
  final : σ

def Splitter.view (s : Splitter σ) : View σ := ⟨s.splitPoints, s.nestedArrayElementCount, s.final⟩

/-- The outcome of a step: the view it leaves, or the exception and the final type then. -/
def Result.view : Result (Splitter σ) ℤ → Except (Stop × σ) (ℤ × View σ)
  | .ok next s => .ok (next, s.view)
  | .throw e s => .error (e, s.final)

/-- The end of a token: `r` is what it does to the stack. -/
def endToken (l : Bytes) (next : ℤ) (points : List ℤ) (r : List ℤ × Bool) (f : σ) :
    Except (Stop × σ) (ℤ × View σ) :=
  if r.2 then
    match H.onSplitPoint l (points.getLastD 0) next f with
    | .error e => .error (e, f)
    | .ok f' => .ok (next, ⟨points ++ [next], r.1, f'⟩)
  else .ok (next, ⟨points, r.1, f⟩)

variable {H}

theorem onElement_view (l : Bytes) (next : ℤ) (s : Splitter σ) :
    ((s.onElement H l next).bind fun _ s => Result.ok next s).view =
      endToken H l next s.splitPoints (Splitter.countDown s.nestedArrayElementCount) s.final := by
  unfold Splitter.onElement endToken
  dsimp only
  cases (Splitter.countDown s.nestedArrayElementCount).2 with
  | false => rfl
  | true =>
      simp only [if_true, Splitter.interruptPoint]
      cases H.onSplitPoint l (s.splitPoints.getLastD 0) next s.final <;> rfl

/-- A token as `onToken` handles it, in terms of `hookToken` and `kindStep`. -/
theorem onToken_view (l : Bytes) (pos : ℤ) (t : RawToken) (s : Splitter σ) :
    (onToken H l (t.1.token pos t.2.length) s).view =
      match hookToken H l pos s.nestedArrayElementCount t s.final with
      | .error e => .error (e, s.final)
      | .ok f => endToken H l (pos + t.2.length) s.splitPoints
          (kindStep s.nestedArrayElementCount t.1) f := by
  obtain ⟨k, raw⟩ := t
  cases k with
  | int => exact onElement_view l _ s
  | nil => exact onElement_view l _ s
  | str x =>
      simp only [hookToken, Kind.token, onToken, Splitter.record]
      cases H.onString l (pos + raw.length - lengthOfCrLf - x.length) (pos + raw.length - lengthOfCrLf)
          s.final with
      | error e => rfl
      | ok f => exact onElement_view l _ _
  | err x =>
      simp only [hookToken, Kind.token, onToken, Splitter.record]
      cases H.onError l (pos + raw.length - lengthOfCrLf - x.length) (pos + raw.length - lengthOfCrLf)
          s.final with
      | error e => rfl
      | ok f => exact onElement_view l _ _
  | arr size =>
      simp only [hookToken, Kind.token, onToken, Splitter.onArr, kindStep]
      cases H.onArray s.nestedArrayElementCount.isEmpty size s.final with
      | error e => rfl
      | ok f =>
          simp only [Splitter.hook, Result.bind_ok]
          by_cases h0 : size = 0
          · simp only [h0, if_true]
            exact onElement_view l _ _
          · simp only [h0, if_false]
            rfl

variable {fresh : ℤ → ω → σ} {out : σ → ω} {shift : ℤ → σ → σ} {Inv : ℤ → σ → Prop}

/-- What a splitter makes of a message, from its tokens. -/
def messageResult (H : Hooks σ) (out : σ → ω) (l : Bytes) (pos : ℤ) (st : List ℤ)
    (ts : List RawToken) (f : σ) : Read ω Stop :=
  match (hookRun H l pos st ts f).bind (H.onSplitPoint l 0 (pos + (rawBytes ts).length)) with
  | .ok f' => .whole (pos + (rawBytes ts).length).toNat (out f')
  | .error e => .stop e (out f)

theorem messageResult_error {l : Bytes} {pos : ℤ} {st : List ℤ} {t : RawToken} {ts : List RawToken}
    {f : σ} {e : Stop} (h : hookToken H l pos st t f = .error e) :
    messageResult H out l pos st (t :: ts) f = .stop e (out f) := by
  simp only [messageResult, hookRun, h]
  rfl

/-- The rest of the tokens, after one that neither throws nor ends the message. -/
theorem messageResult_cons {l : Bytes} {pos : ℤ} {st : List ℤ} {t : RawToken} {ts : List RawToken}
    {f f' : σ} (h : hookToken H l pos st t f = .ok f') (ho : out f' = out f) :
    messageResult H out l pos st (t :: ts) f =
      messageResult H out l (pos + t.2.length) (kindStep st t.1).1 ts f' := by
  have hpos : pos + ((t.2 ++ rawBytes ts).length : ℤ) = pos + t.2.length + (rawBytes ts).length := by
    rw [List.length_append]; push_cast; omega
  simp only [messageResult, hookRun, h, rawBytes_cons, hpos, ho]
  rfl

/-- The last token of a message. -/
theorem messageResult_last {l : Bytes} {pos : ℤ} {st : List ℤ} {t : RawToken} {f f' : σ}
    (h : hookToken H l pos st t f = .ok f') :
    messageResult H out l pos st [t] f = match H.onSplitPoint l 0 (pos + t.2.length) f' with
      | .ok f'' => .whole (pos + t.2.length).toNat (out f'')
      | .error e => .stop e (out f) := by
  simp only [messageResult, hookRun, h, rawBytes_cons, rawBytes_nil, List.append_nil]
  rfl

theorem Result.view_error {r : Result (Splitter σ) ℤ} {e : Stop} {f : σ}
    (h : r.view = .error (e, f)) : ∃ u, r = .throw e u ∧ u.final = f := by
  cases r with
  | ok next u => cases h
  | throw e u => cases h; exact ⟨u, rfl, rfl⟩

theorem Result.view_ok {r : Result (Splitter σ) ℤ} {next : ℤ} {v : View σ}
    (h : r.view = .ok (next, v)) : ∃ u, r = .ok next u ∧ u.view = v := by
  cases r with
  | ok next u => cases h; exact ⟨u, rfl, rfl⟩
  | throw e u => cases h

/-- By induction on the tokens. -/
theorem messageLoop_tokens (hF : H.Framed fresh out shift Inv) {l rest : Bytes} {o : ω} :
    ∀ (ts : List RawToken) (fuel : ℕ) (pos : ℤ) (s : Splitter σ), ts.length ≤ fuel →
      InMessage out Inv l o pos s → Lexes (bytesFrom l pos) ts rest →
      Closes s.nestedArrayElementCount (ts.map Prod.fst) →
      messageLoop H out l fuel pos s =
        messageResult H out l pos s.nestedArrayElementCount ts s.final
  | [], _, _, _, _, _, _, hc => by cases hc
  | _ :: _, 0, _, _, hfuel, _, _, _ => by simp at hfuel
  | t :: ts, fuel + 1, pos, s, hfuel, hs, hlex, hc => by
      cases hlex with
      | @cons _ _ k n _ hk hlex =>
      obtain ⟨hn3, hnl, -⟩ := lex_tok hk
      have hlen : ((bytesFrom l pos).take n).length = n := List.length_take_of_le hnl
      have hview := onToken_view (H := H) l pos (k, (bytesFrom l pos).take n) s
      have hstep := onToken_inMessage hF hs hk
      simp only [hlen] at hview
      simp only [messageLoop, hk]
      cases hh : hookToken H l pos s.nestedArrayElementCount (k, (bytesFrom l pos).take n) s.final with
      | error e =>
          rw [hh] at hview
          obtain ⟨u, hu, hf⟩ := Result.view_error hview
          rw [messageResult_error hh, hu]
          dsimp only
          rw [hf]
      | ok f =>
          simp only [hh, endToken, hs.points, List.getLastD_cons, List.getLastD_nil] at hview
          rcases closes_cons.mp hc with ⟨hend, hts⟩ | ⟨hend, hc⟩
          · obtain rfl := List.map_eq_nil_iff.mp hts
            rw [messageResult_last hh, hlen]
            simp only [hend, if_true] at hview
            cases hsp : H.onSplitPoint l 0 (pos + n) f with
            | error e =>
                rw [hsp] at hview
                obtain ⟨u, hu, -⟩ := Result.view_error hview
                rw [hu] at hstep ⊢
                obtain ⟨e', t, ht, -, ho⟩ : ∃ e' t, Result.throw e u = .throw e' t ∧ e'.Bad ∧ out t.final = o := by
                  rcases hstep with h | ⟨t, ht, -⟩ | ⟨t, ht, -⟩
                  · exact h
                  · cases ht
                  · cases ht
                cases ht
                dsimp only
                rw [ho, hs.out]
            | ok f' =>
                rw [hsp] at hview
                obtain ⟨u, hu, hf⟩ := Result.view_ok hview
                rw [hu]
                obtain ⟨hp, -, hfin⟩ := (View.mk.injEq _ _ _ _ _ _).mp hf
                simp only [hp, hfin]
                rfl
          · simp only [hend] at hview
            obtain ⟨u, hu, hf⟩ := Result.view_ok hview
            obtain ⟨hp, hnest, hfin⟩ := (View.mk.injEq _ _ _ _ _ _).mp hf
            have hin : InMessage out Inv l o (pos + n) u := by
              rcases hstep with ⟨e, t, ht, -⟩ | ⟨t, ht, hin⟩ | ⟨t, ht, hp', -⟩
              · rw [hu] at ht; cases ht
              · rw [hu] at ht; cases ht; exact hin
              · rw [hu] at ht; cases ht; rw [hp] at hp'; cases hp'
            have hlex' : Lexes (bytesFrom l (pos + n)) ts rest := by
              rw [bytesFrom_add hs.good.lo rfl n]; exact hlex
            have ih := messageLoop_tokens hF ts fuel (pos + n) u (by simpa using hfuel) hin hlex'
              (hnest ▸ hc)
            rw [messageResult_cons hh (by rw [← hfin, hin.out, hs.out]), hlen, hu]
            simp only [hp, List.length_singleton, if_true]
            rw [ih, hnest, hfin]

/-- A message at the front of `l`, read from its tokens. -/
theorem readMessage_tokens (hF : H.Framed fresh out shift Inv) {l rest : Bytes}
    {ts : List RawToken} (o : ω) (hlex : Lexes l ts rest) (hc : Closes [] (ts.map Prod.fst)) :
    readMessage H fresh out l o = messageResult H out l 0 [] ts (fresh 0 o) := by
  refine messageLoop_tokens hF ts (l.length + 1) 0 _ ?_ (inMessage_new hF l o) hlex hc
  have hlen : ∀ {l rest : Bytes} {ts : List RawToken}, Lexes l ts rest → ts.length ≤ l.length := by
    intro l rest ts h
    induction h with
    | nil => simp
    | cons hk _ ih =>
        obtain ⟨hn3, hnl, -⟩ := lex_tok hk
        simp only [List.length_cons, List.length_drop] at ih ⊢
        omega
  have := hlen hlex
  omega

/-- The stack and the split points after a token. -/
theorem onToken_ok_stack {l : Bytes} {pos next : ℤ} {t : RawToken} {s u : Splitter σ}
    (h : onToken H l (t.1.token pos t.2.length) s = .ok next u) :
    ((kindStep s.nestedArrayElementCount t.1).2 = true ∧
      u.splitPoints.length = s.splitPoints.length + 1) ∨
    ((kindStep s.nestedArrayElementCount t.1).2 = false ∧ u.splitPoints = s.splitPoints ∧
      u.nestedArrayElementCount = (kindStep s.nestedArrayElementCount t.1).1) := by
  have hview := onToken_view (H := H) l pos t s
  rw [h] at hview
  cases hh : hookToken H l pos s.nestedArrayElementCount t s.final with
  | error e => rw [hh] at hview; cases hview
  | ok f =>
      simp only [hh, endToken] at hview
      cases hend : (kindStep s.nestedArrayElementCount t.1).2 with
      | true =>
          simp only [hend, if_true] at hview
          cases hsp : H.onSplitPoint l (s.splitPoints.getLastD 0) (pos + t.2.length) f with
          | error e => rw [hsp] at hview; cases hview
          | ok f' =>
              rw [hsp] at hview
              have hp : u.splitPoints = s.splitPoints ++ [pos + t.2.length] :=
                congrArg (fun r => r.2.points) (Except.ok.inj hview)
              exact Or.inl ⟨rfl, by rw [hp, List.length_append, List.length_singleton]⟩
      | false =>
          simp only [hend] at hview
          have hv := Except.ok.inj hview
          exact Or.inr ⟨rfl, congrArg (fun r => r.2.points) hv, congrArg (fun r => r.2.nested) hv⟩

/-- Every message that is read is a list of tokens that closes. -/
theorem messageLoop_closes (hF : H.Framed fresh out shift Inv) {l : Bytes} {o o' : ω} {m : ℕ} :
    ∀ (fuel : ℕ) (pos : ℤ) (s : Splitter σ), InMessage out Inv l o pos s →
      messageLoop H out l fuel pos s = .whole m o' →
      ∃ ts, Lexes (bytesFrom l pos) ts (l.drop m) ∧
        Closes s.nestedArrayElementCount (ts.map Prod.fst) ∧ (m : ℤ) = pos + (rawBytes ts).length
  | 0, _, _, _, h => by cases h
  | fuel + 1, pos, s, hs, h => by
      rw [messageLoop] at h
      cases hk : lex (bytesFrom l pos) with
      | more => simp [hk] at h
      | colon => simp [hk] at h
      | bad b => simp [hk] at h
      | negative => simp [hk] at h
      | tok k n =>
          obtain ⟨hn3, hnl, -⟩ := lex_tok hk
          have hlo := hs.good.lo
          have hlen : ((bytesFrom l pos).take n).length = n := List.length_take_of_le hnl
          have hdrop := bytesFrom_add hlo (rfl : bytesFrom l pos = _) n
          have hstack : ∀ {u : Splitter σ}, onToken H l (k.token pos n) s = .ok (pos + n) u →
              _ := fun hu => onToken_ok_stack (t := (k, (bytesFrom l pos).take n)) (by rw [hlen]; exact hu)
          rcases onToken_inMessage hF hs hk with ⟨e, t, ht, -⟩ | ⟨t, ht, hin⟩ | ⟨t, ht, hp, hst, -⟩
          · simp [hk, ht] at h
          · simp only [hk, ht, hin.points, List.length_singleton, if_true] at h
            obtain ⟨ts, hlex, hc, hm⟩ := messageLoop_closes hF fuel (pos + n) t hin h
            rcases hstack ht with ⟨-, hp⟩ | ⟨hf, -, hn⟩
            · simp [hin.points, hs.points] at hp
            · refine ⟨(k, (bytesFrom l pos).take n) :: ts, Lexes.cons hk (hdrop ▸ hlex), ?_, ?_⟩
              · exact closes_cons.mpr (Or.inr ⟨hf, hn ▸ hc⟩)
              · rw [rawBytes_cons, List.length_append, hlen, hm]
                push_cast
                omega
          · simp only [hk, ht, hp] at h
            rcases hstack ht with ⟨hf, -⟩ | ⟨-, hp', -⟩
            · have hm : (pos + (n : ℤ)).toNat = m := by cases h; rfl
              refine ⟨[(k, (bytesFrom l pos).take n)], Lexes.cons hk ?_, .last hf, ?_⟩
              · rw [← hdrop, ← hm]; exact Lexes.nil _
              · rw [rawBytes_cons, rawBytes_nil, List.append_nil, hlen]
                omega
            · rw [hp, hs.points] at hp'
              cases hp'

theorem readMessage_closes (hF : H.Framed fresh out shift Inv) {l : Bytes} {o o' : ω} {n : ℕ}
    (h : readMessage H fresh out l o = .whole n o') :
    ∃ ts, Lexes l ts (l.drop n) ∧ Closes [] (ts.map Prod.fst) ∧ rawBytes ts = l.take n := by
  obtain ⟨ts, hlex, hc, hn⟩ := messageLoop_closes hF _ 0 _ (inMessage_new hF l o) h
  refine ⟨ts, hlex, hc, ?_⟩
  have hl : l = rawBytes ts ++ l.drop n := hlex.bytes
  rw [show n = (rawBytes ts).length by omega] at hl ⊢
  rw [hl, List.take_left]

end

end Cerberus
